import ShaderIR.Proofs.HandleEdits

/-! Edits that make metadata nodes or change the operands of tuples, and the record of what the
operands hold. -/

open ShaderIR.Core

namespace ShaderIR

def setOperands (n : NodeId) (ops : List (Option NodeId)) (r : Location → Option NodeId) :
    Location → Option NodeId
  | .operand m i => if m = n then ops[i]?.join else r (.operand m i)
  | l => r l

section SetOperands

variable {n : NodeId} {ops ops' : List (Option NodeId)} {r : Location → Option NodeId}

@[simp] theorem setOperands_self (i : Nat) : setOperands n ops r (.operand n i) = ops[i]?.join := by
  simp [setOperands]

theorem setOperands_congr (ops' : List (Option NodeId))
    (h : ∀ i : Nat, ops[i]?.join = ops'[i]?.join) :
    setOperands n ops r = setOperands n ops' r := by
  funext l
  cases l <;> simp [setOperands, h]

theorem setOperands_eq_self (h : ∀ i : Nat, r (.operand n i) = ops[i]?.join) :
    setOperands n ops r = r := by
  funext l
  cases l with
  | operand m i => by_cases hm : m = n <;> simp [setOperands, hm, h]
  | _ => rfl

theorem update_setOperands (ops' : List (Option NodeId)) {i : Nat} {o : Option NodeId}
    (h : ∀ j, ops'[j]?.join = if j = i then o else ops[j]?.join) :
    Function.update (setOperands n ops r) (.operand n i) o = setOperands n ops' r := by
  funext l
  cases l with
  | operand m j =>
    simp only [Function.update_apply, setOperands, Location.operand.injEq, h]
    grind
  | _ => rw [Function.update_of_ne (by simp)]; rfl

theorem bound_setOperands {k : Nat} (hr : ∀ l n, r l = some n → n.index < k)
    (ho : ∀ m, some m ∈ ops → m.index < k) (l : Location) (m : NodeId)
    (hl : setOperands n ops r l = some m) : m.index < k := by
  cases l with
  | operand p i =>
    simp only [setOperands] at hl
    split at hl
    · cases ho' : ops[i]? with
      | none => simp [ho'] at hl
      | some o => exact ho m (by
          rw [ho', Option.join_some] at hl
          exact hl ▸ List.mem_of_getElem? ho')
    · exact hr _ _ hl
  | _ => exact hr _ _ hl

end SetOperands

namespace Metadata

variable {md md' : Metadata} {d : Node} {n : NodeId}

theorem Consistent.push (h : md.Consistent) (hn : md'.nodes = md.nodes.push d)
    (hi : ∀ m, md'.tracker.isReplaceable m ↔
      md.tracker.isReplaceable m ∨ m = md.nodes.next ∧ d.IsReplaceable)
    (hv : ∀ v, d.content = .value v → d.storage = .uniqued ∧ md.nodeOf[v]? = none)
    (ht : d.storage = .temporary → ∃ ops, d.content = .tuple ops)
    (ho : ∀ v, md'.nodeOf[v]? = if d.content = .value v then some md.nodes.next
      else md.nodeOf[v]?) : md'.Consistent := by
  have hnext {x : Node} : md.nodes.get? md.nodes.next ≠ some x := by simp
  have hget (m : NodeId) : md'.nodes.get? m = if m = md.nodes.next then some d
      else md.nodes.get? m := hn ▸ Arena.get?_push ..
  refine ⟨fun m => ?_, fun {m x v} hm hx => ?_, fun {m x} hm hx => ?_, fun v m => ?_⟩
  · rw [hi, h.replaceable, hget]
    grind
  · rw [hget] at hm
    split at hm
    · obtain rfl := Option.some.inj hm
      exact (hv v hx).1
    · exact h.value hm hx
  · rw [hget] at hm
    split at hm
    · obtain rfl := Option.some.inj hm
      exact ht hx
    · exact h.temporary hm hx
  · rw [ho, hget]
    have := h.nodeOf v m
    have := hv v
    grind

theorem Consistent.modify (h : md.Consistent) {f : Node → Node} (hd : md.nodes.get? n = some d)
    (hn : md'.nodes = md.nodes.modify n f)
    (hi : ∀ m, md'.tracker.isReplaceable m ↔
      if n = m then (f d).IsReplaceable else md.tracker.isReplaceable m)
    (hv : ∀ v, (f d).content = .value v ↔ d.content = .value v)
    (hs : ∀ v, d.content = .value v → (f d).storage = d.storage)
    (ht : (f d).storage = .temporary → ∃ ops, (f d).content = .tuple ops)
    (ho : md'.nodeOf = md.nodeOf) : md'.Consistent := by
  have hget (m : NodeId) : md'.nodes.get? m = if n = m then some (f d)
      else md.nodes.get? m := by
    rw [hn, Arena.get?_modify]
    split
    next hnm => rw [← hnm, hd, Option.map_some]
    next => rfl
  refine ⟨fun m => ?_, fun {m x v} hm hx => ?_, fun {m x} hm hx => ?_, fun v m => ?_⟩
  · rw [hi, h.replaceable, hget]
    grind
  · rw [hget] at hm
    split at hm
    · obtain rfl := Option.some.inj hm
      rw [hs v ((hv v).1 hx)]
      exact h.value hd ((hv v).1 hx)
    · exact h.value hm hx
  · rw [hget] at hm
    split at hm
    · obtain rfl := Option.some.inj hm
      exact ht hx
    · exact h.temporary hm hx
  · rw [ho, h.nodeOf, hget]
    grind

theorem Consistent.putOperands (h : md.Consistent) {ops ops' : List (Option NodeId)}
    (hd : md.nodes.get? n = some d) (hc : d.content = .tuple ops)
    (hn : md'.nodes = md.nodes.modify n fun d => { d with content := .tuple ops' })
    (hi : ∀ m, md'.tracker.isReplaceable m ↔ md.tracker.isReplaceable m)
    (ho : md'.nodeOf = md.nodeOf) : md'.Consistent := by
  refine h.modify hd hn (fun m => (hi m).trans ?_) (by simp [hc]) (by simp)
    (fun _ => ⟨ops', rfl⟩) ho
  split
  next hnm =>
    rw [← hnm, h.replaceable]
    simp [hd, Node.IsReplaceable, hc]
  next => rfl

end Metadata

namespace Core

variable {c : Core} {n : NodeId}

def withNodes (c : Core) (ns : Arena .node Node) : Core :=
  { c with metadata := { c.metadata with nodes := ns } }

theorem held_pushNode (c : Core) (d : Node) :
    (c.withNodes (c.metadata.nodes.push d)).held =
      setOperands c.metadata.nodes.next d.content.operands c.held := by
  funext l
  cases l with
  | operand m i =>
    simp only [held, withNodes, Arena.get?_push, setOperands]
    split <;> rfl
  | _ => rfl

theorem held_modifyNode (c : Core) {d : Node} (h : c.metadata.nodes.get? n = some d)
    (f : Node → Node) : (c.withNodes (c.metadata.nodes.modify n f)).held =
      setOperands n (f d).content.operands c.held := by
  funext l
  cases l with
  | operand m i =>
    simp only [held, withNodes, Arena.get?_modify, setOperands]
    by_cases hm : m = n
    · simp [hm, h]
    · simp [hm, Ne.symm hm]
  | _ => rfl

theorem held_eraseNode (c : Core) (n : NodeId) :
    (c.withNodes (c.metadata.nodes.erase n)).held = setOperands n [] c.held := by
  funext l
  cases l with
  | operand m i =>
    simp only [held, withNodes, Arena.get?_erase, setOperands]
    by_cases hm : m = n
    · simp [hm]
    · simp [hm, Ne.symm hm]
  | _ => rfl

theorem held_of_nodes (c : Core) {md : Metadata} {ns : Arena .node Node} (hn : md.nodes = ns)
    (hh : md.handles = c.metadata.handles) :
    held { c with metadata := md } = (c.withNodes ns).held := by
  funext l
  cases l <;> simp only [held, withNodes, hn, hh]

theorem Sound.pushNode (h : c.Sound c.held) {md : Metadata} {d : Node} (hc : md.Consistent)
    (hn : md.nodes = c.metadata.nodes.push d) (hh : md.handles = c.metadata.handles)
    (hw : md.wrapperOf = c.metadata.wrapperOf)
    (hf : md.tracker.Follows (setOperands c.metadata.nodes.next d.content.operands c.held))
    (ho : ∀ m, some m ∈ d.content.operands → ∃ x, c.metadata.nodes.get? m = some x) :
    Sound { c with metadata := md } (held { c with metadata := md }) := by
  have hheld := (held_of_nodes c hn hh).trans (held_pushNode c d)
  refine h.settle hc (by rwa [hheld]) hw fun l m hl => ?_
  rw [hheld] at hl
  rw [hn, Arena.size_push]
  refine bound_setOperands (fun _ _ hl => Nat.lt_succ_of_lt (h.recorded.bound hl)) ?_ l m hl
  intro m' hm'
  obtain ⟨x, hx⟩ := ho m' hm'
  exact Nat.lt_succ_of_lt (Arena.lt_size_of_get? hx)

theorem Sound.modifyNode (h : c.Sound c.held) {md : Metadata} {d : Node} {f : Node → Node}
    (hc : md.Consistent) (hd : c.metadata.nodes.get? n = some d)
    (hn : md.nodes = c.metadata.nodes.modify n f) (hh : md.handles = c.metadata.handles)
    (hw : md.wrapperOf = c.metadata.wrapperOf)
    (hf : md.tracker.Follows (setOperands n (f d).content.operands c.held))
    (ho : ∀ m, some m ∈ (f d).content.operands → m.index < c.metadata.nodes.size) :
    Sound { c with metadata := md } (held { c with metadata := md }) := by
  have hheld := (held_of_nodes c hn hh).trans (held_modifyNode c hd f)
  refine h.settle hc (by rwa [hheld]) hw fun l m hl => ?_
  rw [hheld] at hl
  rw [hn, Arena.size_modify]
  exact bound_setOperands (fun _ _ hl => h.recorded.bound hl) ho l m hl

theorem held_operand (c : Core) {d : Node} (h : c.metadata.nodes.get? n = some d) (i : Nat) :
    c.held (.operand n i) = d.content.operands[i]?.join := by
  simp [held, h]

end Core

namespace Edit

variable {s : Store} {r : Location → Option NodeId} {n : NodeId}
variable {ops : List (Option NodeId)}

theorem mem_zipIdx_append {done rest : List (Option NodeId × Nat)} {a : Option NodeId × Nat}
    (h : ops.zipIdx = done ++ a :: rest) :
    a.2 = done.length ∧ ops[done.length]? = some a.1 := by
  have hget : ops.zipIdx[done.length]? = some a := by simp [h]
  rw [List.getElem?_zipIdx] at hget
  obtain ⟨o, ho, rfl⟩ := Option.map_eq_some_iff.1 hget
  exact ⟨by simp, ho⟩

theorem ends_trackOperands (hn : ∃ d, s.metadata.nodes.get? n = some d ∧ d.content.operands = ops)
    (h : s.metadata.tracker.Follows (setOperands n [] r)) :
    Ends (trackOperands n) s (fun _ s' => s.Retracked s' (setOperands n ops r))
      fun _ _ => False := by
  unfold trackOperands
  rw [ends_bind, ends_lift_ok (Query.nodeOperands_ok.2 hn)]
  refine (ends_forM_visited ops.zipIdx
    (fun done s' => s.Retracked s' (setOperands n (ops.take done.length) r)) ?_ s ?_).weaken ?_
  · intro done a rest s' hsplit hs'
    obtain ⟨hi, ho⟩ := mem_zipIdx_append hsplit
    obtain ⟨t, rfl, ht, -⟩ := id hs'
    refine (ends_trackOption (l := .operand n a.2) ht ?_).weaken fun _ s'' hs'' => ?_
    · rw [setOperands_self, hi, List.getElem?_take, if_neg (Nat.lt_irrefl _)]
      rfl
    · have := hs'.trans hs''
      rwa [update_setOperands] at this
      intro j
      rw [List.length_append, List.length_singleton, List.getElem?_take, List.getElem?_take, hi]
      grind
  · simpa using Store.retracked_self h
  · intro _ s' hs'
    simpa using hs'

theorem ends_untrackOperands {E : Fault → Store → Prop}
    (h : s.metadata.tracker.Follows (setOperands n ops r)) :
    Ends (ops.zipIdx.forM fun op => untrackOption (.operand n op.2) op.1) s
      (fun _ s' => s.Retracked s' (setOperands n [] r)) E := by
  have hjoin (k i : Nat) : (List.replicate k none ++ ops.drop k)[i]?.join =
      if i < k then none else ops[i]?.join := by
    rw [List.getElem?_append, List.length_replicate, List.getElem?_replicate, List.getElem?_drop]
    grind
  refine (ends_forM_visited (E := fun _ _ => False) ops.zipIdx (fun done s' => s.Retracked s'
    (setOperands n (List.replicate done.length none ++ ops.drop done.length) r)) ?_ s ?_).weaken ?_
  · intro done a rest s' hsplit hs'
    obtain ⟨hi, ho⟩ := mem_zipIdx_append hsplit
    obtain ⟨t, rfl, ht, -⟩ := id hs'
    refine (ends_untrackOption (l := .operand n a.2) ht (.inr ?_)).weaken fun _ s'' hs'' => ?_
    · rw [setOperands_self, hi, hjoin, if_neg (Nat.lt_irrefl _), ho]
      rfl
    · have := hs'.trans hs''
      rwa [update_setOperands] at this
      intro j
      rw [List.length_append, List.length_singleton, hjoin, hjoin, hi]
      grind
  · simpa using Store.retracked_self h
  · intro _ s' hs'
    rw [setOperands_congr []] at hs'
    · exact hs'
    · intro i
      rw [hjoin, List.length_zipIdx]
      split
      · rfl
      next hi =>
        rw [List.getElem?_eq_none (Nat.le_of_not_lt hi)]
        rfl

theorem ends_expectNodes (ops : List (Option NodeId)) (s : Store) :
    Ends (ops.forM expectNode) s (fun _ s' => s' = s ∧ ∀ m, some m ∈ ops →
      ∃ d, s.metadata.nodes.get? m = some d) fun x s' => x.IsOrdinary ∧ s' = s := by
  refine ends_forM_visited ops (fun done s' => s' = s ∧ ∀ m, some m ∈ done →
    ∃ d, s.metadata.nodes.get? m = some d) ?_ s ⟨rfl, by simp⟩
  rintro done o rest s' - ⟨rfl, hdone⟩
  refine (ends_expectNode o s').mono ?_ fun _ _ hs => hs
  rintro _ s'' ⟨rfl, ho⟩
  refine ⟨rfl, fun m hm => ?_⟩
  obtain hm | hm := List.mem_append.1 hm
  · exact hdone m hm
  · exact ho m (List.mem_singleton.1 hm).symm

theorem setOperands_next (c : Core) : setOperands c.metadata.nodes.next [] c.held = c.held :=
  setOperands_eq_self fun i => by simp [held]

theorem keeps_stringNode {text : String} : Keeps Store.Settled (stringNode text) := by
  refine .bind .get fun s => ?_
  split
  · exact .pure _
  intro s' hs
  rw [ends_bind, pushNode, ends_modifyGet, ends_bind, ends_modify]
  refine hs.pushNode (d := ⟨.uniqued, .string text⟩) (hs.consistent.push rfl (fun m => ?_) ?_ ?_ ?_)
    rfl rfl rfl ?_ (by simp [Content.operands])
  · simp [Node.IsReplaceable, Store.modifyMetadata, Store.core]
  · simp
  · simp
  · simp [Store.modifyMetadata, Store.core]
  · exact (setOperands_next s'.core).symm ▸ hs.recorded.follows

theorem ends_trackOperands_new {s' : Store} {d : Node}
    (hn : s'.metadata.nodes = s.metadata.nodes.push d)
    (hf : s'.metadata.tracker.Follows s.core.held) :
    Ends (trackOperands s.metadata.nodes.next) s' (fun _ s'' => s'.Retracked s''
      (setOperands s.metadata.nodes.next d.content.operands s.core.held)) fun _ _ => False := by
  refine ends_trackOperands ⟨d, ?_, rfl⟩ ?_
  · simp [hn, Arena.get?_push]
  · rwa [show s.metadata.nodes.next = s.core.metadata.nodes.next from rfl, setOperands_next]

theorem keeps_valueNode {v : ValueId} : Keeps Store.Settled (valueNode v) := by
  intro s hs
  refine ends_bind.2 (ends_lift.2 ⟨fun kind _ => ?_, fun _ _ => hs⟩)
  split
  · exact hs
  rw [ends_bind, ends_get]
  split
  · exact hs
  next hnone =>
    have hfresh (l : Location) : s.core.held l ≠ some s.metadata.nodes.next := fun hl =>
      Nat.lt_irrefl _ (hs.recorded.bound hl)
    rw [ends_bind, pushNode, ends_modifyGet, ends_bind, ends_modify]
    refine hs.pushNode (d := ⟨.uniqued, .value v⟩)
      (hs.consistent.push rfl (fun m => ?_) (fun w hw => ?_) (by simp) fun w => ?_) rfl rfl rfl ?_
      (by simp [Content.operands])
    · refine Tracker.isReplaceable_makeReplaceable.trans ?_
      simp [Node.IsReplaceable, Store.core, Store.modifyMetadata]
    · obtain rfl := Content.value.inj hw
      exact ⟨rfl, hnone⟩
    · refine (getElem?_insert_eq_ite ..).trans ?_
      simp [Store.core, Store.modifyMetadata]
    · change (Tracker.makeReplaceable _ _).Follows (setOperands s.core.metadata.nodes.next [] _)
      rw [setOperands_next]
      exact hs.recorded.follows.makeReplaceable hfresh

theorem safe_tuple {ops : List (Option NodeId)} :
    Safe Fault.IsOrdinary Store.Settled (tuple ops) := by
  intro s hs
  refine (ends_expectNodes ops s).mono (fun _ _ hp => hp) (fun _ _ hp => ⟨hp.1, hp.2 ▸ hs⟩) |>.bind ?_
  rintro _ s' ⟨rfl, ho⟩
  unfold internNode
  rw [ends_bind, ends_get]
  split
  · exact hs
  rw [ends_bind, pushNode, ends_modifyGet, ends_bind, ends_modify, ends_bind]
  refine Ends.weaken (ends_trackOperands_new (d := ⟨.uniqued, .tuple ops⟩) rfl
    hs.recorded.follows) ?_
  rintro _ _ ⟨t, rfl, ht, hi⟩
  refine hs.pushNode (d := ⟨.uniqued, .tuple ops⟩)
    (hs.consistent.push rfl (fun m => (hi m).trans ?_) (by simp) (by simp) (by intro v; rfl))
    rfl rfl rfl ht ho
  simp [Node.IsReplaceable, Store.modifyMetadata, Store.core]

theorem safe_distinctTuple {ops : List (Option NodeId)} :
    Safe Fault.IsOrdinary Store.Settled (distinctTuple ops) := by
  intro s hs
  refine (ends_expectNodes ops s).mono (fun _ _ hp => hp) (fun _ _ hp => ⟨hp.1, hp.2 ▸ hs⟩) |>.bind ?_
  rintro _ s' ⟨rfl, ho⟩
  rw [ends_bind, pushNode, ends_modifyGet, ends_bind]
  refine Ends.weaken (ends_trackOperands_new (d := ⟨.distinct, .tuple ops⟩) rfl
    hs.recorded.follows) ?_
  rintro _ _ ⟨t, rfl, ht, hi⟩
  refine hs.pushNode (d := ⟨.distinct, .tuple ops⟩)
    (hs.consistent.push rfl (fun m => (hi m).trans ?_) (by simp) (by simp) (by intro v; rfl))
    rfl rfl rfl ht ho
  simp [Node.IsReplaceable, Store.modifyMetadata, Store.core]

theorem safe_temporaryTuple {ops : List (Option NodeId)} :
    Safe Fault.IsOrdinary Store.Settled (temporaryTuple ops) := by
  intro s hs
  refine (ends_expectNodes ops s).mono (fun _ _ hp => hp) (fun _ _ hp => ⟨hp.1, hp.2 ▸ hs⟩) |>.bind ?_
  rintro _ s' ⟨rfl, ho⟩
  have hfresh (l : Location) : s'.core.held l ≠ some s'.metadata.nodes.next := fun hl =>
    Nat.lt_irrefl _ (hs.recorded.bound hl)
  rw [ends_bind, pushNode, ends_modifyGet, ends_bind, makeReplaceable, ends_bind, ends_get,
    setTracker, ends_modify, ends_bind]
  refine Ends.weaken (ends_trackOperands_new (d := ⟨.temporary, .tuple ops⟩) rfl
    (hs.recorded.follows.makeReplaceable hfresh)) ?_
  rintro _ _ ⟨t, rfl, ht, hi⟩
  refine hs.pushNode (d := ⟨.temporary, .tuple ops⟩)
    (hs.consistent.push rfl (fun m => (hi m).trans ?_) (by simp) (by simp) (by intro v; rfl))
    rfl rfl rfl ht ho
  refine Tracker.isReplaceable_makeReplaceable.trans ?_
  simp [Node.IsReplaceable, Store.core, Store.modifyMetadata]

section Operands

variable {ops' : List (Option NodeId)} {d : Node} {i : Nat} {o : Option NodeId}

theorem ends_putNodeOperands (hd : s.metadata.nodes.get? n = some d)
    {Q : Unit → Store → Prop} {E : Fault → Store → Prop} :
    Ends (putNodeOperands n ops') s Q E ↔ Q () (s.modifyMetadata fun md =>
      { md with nodes := md.nodes.modify n fun d => { d with content := .tuple ops' } }) :=
  ends_modifyNode hd _

theorem setOperands_held (hd : s.metadata.nodes.get? n = some d) (hc : d.content = .tuple ops) :
    setOperands n ops s.core.held = s.core.held :=
  setOperands_eq_self fun j => by rw [held_operand s.core hd, hc, Content.operands]

theorem settled_putOperands (hs : s.Settled) (hd : s.metadata.nodes.get? n = some d)
    (hc : d.content = .tuple ops) {t : Tracker}
    (ht : t.Follows (setOperands n ops' s.core.held))
    (hi : ∀ m, t.isReplaceable m ↔ s.metadata.tracker.isReplaceable m)
    (ho : ∀ m, some m ∈ ops' → some m ∈ ops ∨ ∃ x, s.metadata.nodes.get? m = some x) :
    ((s.modifyMetadata fun md => { md with
      nodes := md.nodes.modify n fun d => { d with content := .tuple ops' } }).withTracker
        t).Settled := by
  refine hs.modifyNode (hs.consistent.putOperands hd hc rfl hi rfl) hd rfl rfl rfl ht
    fun m hm => ?_
  obtain hm | ⟨x, hx⟩ := ho m hm
  · obtain ⟨j, hj⟩ := List.mem_iff_getElem?.1 hm
    exact hs.recorded.bound (l := .operand n j) (by simp [held_operand s.core hd, hc, hj,
      Content.operands])
  · exact Arena.lt_size_of_get? hx

theorem safe_setNodeOperand : Safe Fault.IsOrdinary Store.Settled (setNodeOperand n i o) := by
  intro s hs
  refine Query.regular_editableOperands.ends_bind (fun _ hx => ⟨hx, hs⟩) fun ops hops => ?_
  obtain ⟨d, hd, -, hc⟩ := Query.editableOperands_ok.1 hops
  have hheld : s.core.held (.operand n i) = ops[i]?.join := by
    rw [held_operand s.core hd, hc, Content.operands]
  split
  · exact ends_lift.2 ⟨fun _ _ => hs,
      fun _ hx => ⟨Query.regular_nodeOperandOutOfRange.fault hx, hs⟩⟩
  next old hold =>
    refine Ends.bind ((ends_expectNode o s).mono (fun _ _ hp => hp) fun _ _ hp => ⟨hp.1, hp.2 ▸ hs⟩) ?_
    rintro _ s' ⟨rfl, ho⟩
    have hmem (m : NodeId) (hm : some m ∈ ops.set i o) :
        some m ∈ ops ∨ ∃ x, s'.metadata.nodes.get? m = some x :=
      (List.mem_or_eq_of_mem_set hm).imp id fun h => ho m h.symm
    rw [ends_bind, ends_putNodeOperands hd]
    rw [hold, Option.join_some] at hheld
    have hset (j : Nat) : (ops.set i o)[j]?.join = if j = i then o else ops[j]?.join := by
      have hlt := (List.getElem?_eq_some_iff.1 hold).1
      rw [List.getElem?_set]
      grind
    have hnew : Function.update s'.core.held (.operand n i) o =
        setOperands n (ops.set i o) s'.core.held := by
      conv_lhs => rw [← setOperands_held hd hc]
      exact update_setOperands _ hset
    split
    next hne =>
      rw [ends_bind]
      refine Ends.weaken (ends_untrackOption (r := s'.core.held) hs.recorded.follows
        (.inr hheld)) ?_
      rintro _ _ ⟨t, rfl, ht, hi⟩
      refine Ends.weaken (ends_trackOption (s := Store.withTracker _ t) ht
        (Function.update_self ..)) ?_
      rintro _ _ ⟨t', rfl, ht', hi'⟩
      rw [Function.update_idem, hnew] at ht'
      exact settled_putOperands hs hd hc ht' (fun m => (hi' m).trans (hi m)) hmem
    next heq =>
      obtain rfl := not_not.1 heq
      rw [← hheld, Function.update_eq_self, hheld] at hnew
      exact settled_putOperands hs hd hc (hnew ▸ hs.recorded.follows) (fun _ => Iff.rfl) hmem

theorem ends_shift {l : List (Option NodeId)} (l' : List (Option NodeId)) {j k : Nat}
    (h : s.metadata.tracker.Follows (setOperands n l r)) (hj : l[j]?.join = o)
    (hk : l[k]?.join = none)
    (hl : ∀ x, l'[x]?.join = if x = k then o else if x = j then none else l[x]?.join) :
    Ends (retrackOption (.operand n j) (.operand n k) o) s
      (fun _ s' => s.Retracked s' (setOperands n l' r)) fun _ _ => False := by
  refine Ends.weaken (ends_retrackOption h (by rw [setOperands_self, hj])
    (by rw [setOperands_self, hk])) fun _ s' hs' => ?_
  rwa [update_setOperands (l.set j none), update_setOperands l'] at hs'
  · intro x
    rw [hl, List.getElem?_set]
    grind
  · intro x
    rw [List.getElem?_set]
    grind

theorem join_insertIdx_none (l : List (Option NodeId)) (i j : Nat) :
    (l.insertIdx i none)[j]?.join =
      if j < i then l[j]?.join else if j = i then none else l[j - 1]?.join := by
  rw [List.getElem?_insertIdx]
  grind

theorem ends_shiftUp (h : s.metadata.tracker.Follows (setOperands n ops r)) :
    Ends (shiftOperands n (· + 1) (ops.zipIdx.drop i).reverse) s (fun _ s' =>
      s.Retracked s' (setOperands n (ops.insertIdx (ops.length - (ops.length - i)) none) r))
      fun _ _ => False := by
  refine Ends.weaken (ends_forM_visited _ (fun done s' => s.Retracked s'
    (setOperands n (ops.insertIdx (ops.length - done.length) none) r)) ?_ s ?_) ?_
  · intro done a rest s' hsplit hs'
    have hlen := congrArg List.length hsplit
    simp only [List.length_reverse, List.length_drop, List.length_zipIdx, List.length_append,
      List.length_cons] at hlen
    have hget : (ops.zipIdx.drop i).reverse[done.length]? = some a := by simp [hsplit]
    rw [List.getElem?_reverse (by simp; omega), List.getElem?_drop, List.getElem?_zipIdx] at hget
    obtain ⟨o, ho, rfl⟩ := Option.map_eq_some_iff.1 hget
    simp only [List.length_drop, List.length_zipIdx] at ho ⊢
    obtain ⟨t, rfl, ht, -⟩ := id hs'
    refine Ends.weaken (ends_shift (s := s.withTracker t)
      (ops.insertIdx (ops.length - (done.length + 1)) none) ht ?_ ?_ fun x => ?_) ?_
    · rw [join_insertIdx_none, if_pos (by omega), Nat.zero_add, ho]
      rfl
    · rw [join_insertIdx_none, if_neg (by omega), if_pos (by omega)]
    · rw [join_insertIdx_none, join_insertIdx_none]
      have hj : i + (ops.length - i - 1 - done.length) = ops.length - (done.length + 1) := by omega
      rw [hj] at ho ⊢
      grind
    · intro _ s'' hs''
      simpa using hs'.trans hs''
  · refine Store.retracked_self ?_
    rwa [setOperands_congr ops]
    intro j
    rw [join_insertIdx_none]
    grind
  · intro _ s' hs'
    simpa using hs'

theorem ends_shiftDown (h : s.metadata.tracker.Follows (setOperands n (ops.set i none) r)) :
    Ends (shiftOperands n (· - 1) (ops.zipIdx.drop (i + 1))) s
      (fun _ s' => s.Retracked s' (setOperands n (ops.eraseIdx i) r)) fun _ _ => False := by
  refine Ends.weaken (ends_forM_visited _ (fun done s' => s.Retracked s'
    (setOperands n ((ops.eraseIdx i).insertIdx (i + done.length) none) r)) ?_ s ?_) ?_
  · intro done a rest s' hsplit hs'
    have hget : (ops.zipIdx.drop (i + 1))[done.length]? = some a := by simp [hsplit]
    rw [List.getElem?_drop, List.getElem?_zipIdx] at hget
    obtain ⟨o, ho, rfl⟩ := Option.map_eq_some_iff.1 hget
    obtain ⟨t, rfl, ht, -⟩ := id hs'
    refine Ends.weaken (ends_shift (s := s.withTracker t)
      ((ops.eraseIdx i).insertIdx (i + (done.length + 1)) none) ht ?_ ?_ fun x => ?_) ?_
    · rw [join_insertIdx_none, List.getElem?_eraseIdx, List.getElem?_eraseIdx]
      grind
    · rw [join_insertIdx_none]
      grind
    · rw [join_insertIdx_none, join_insertIdx_none, List.getElem?_eraseIdx,
        List.getElem?_eraseIdx]
      grind
    · intro _ s'' hs''
      simpa using hs'.trans hs''
  · refine Store.retracked_self ?_
    rwa [setOperands_congr (ops.set i none)]
    intro j
    rw [join_insertIdx_none, List.getElem?_eraseIdx, List.getElem?_eraseIdx, List.getElem?_set]
    grind
  · intro _ s' hs'
    rw [setOperands_congr (ops.eraseIdx i)] at hs'
    · exact hs'
    · intro j
      rw [join_insertIdx_none, List.getElem?_eraseIdx, List.getElem?_eraseIdx]
      simp only [List.length_drop, List.length_zipIdx]
      grind

theorem ends_insertChecked (hs : s.Settled) (hd : s.metadata.nodes.get? n = some d)
    (hc : d.content = .tuple ops) (hi : i ≤ ops.length)
    (ho : ∀ m, o = some m → ∃ x, s.metadata.nodes.get? m = some x) :
    Ends (do
      shiftOperands n (· + 1) (ops.zipIdx.drop i).reverse
      putNodeOperands n (ops.insertIdx i o)
      trackOption (.operand n i) o) s
      (fun _ s' => s'.Settled ∧ s'.metadata.nodes =
        s.metadata.nodes.modify n fun d => { d with content := .tuple (ops.insertIdx i o) })
      fun _ _ => False := by
  have hself := setOperands_held hd hc
  rw [ends_bind]
  refine Ends.weaken (ends_shiftUp (r := s.core.held) (i := i)
    (hself.symm ▸ hs.recorded.follows)) ?_
  rintro _ _ ⟨t, rfl, ht, hr⟩
  have hgap : ops.length - (ops.length - i) = i := by omega
  rw [hgap] at ht
  rw [ends_bind, ends_putNodeOperands (s := s.withTracker t) hd]
  refine Ends.weaken (ends_trackOption ht ?_) ?_
  · rw [setOperands_self, join_insertIdx_none]
    simp
  rintro _ _ ⟨t', rfl, ht', hr'⟩
  rw [update_setOperands (ops.insertIdx i o)] at ht'
  · refine ⟨settled_putOperands hs hd hc ht' (fun m => (hr' m).trans (hr m)) fun m hm => ?_, rfl⟩
    obtain hm | hm := List.eq_or_mem_of_mem_insertIdx hm
    · exact .inr (ho m hm.symm)
    · exact .inl hm
  · intro j
    rw [join_insertIdx_none, List.getElem?_insertIdx]
    grind

theorem safe_insertNodeOperand : Safe Fault.IsOrdinary Store.Settled (insertNodeOperand n i o) := by
  intro s hs
  refine Query.regular_editableOperands.ends_bind (fun _ hx => ⟨hx, hs⟩) fun ops hops => ?_
  obtain ⟨d, hd, -, hc⟩ := Query.editableOperands_ok.1 hops
  split
  · exact ends_bind.2 (ends_lift.2 ⟨fun _ h => absurd h Query.raise_ok,
      fun _ hx => ⟨Query.regular_nodeOperandOutOfRange.fault hx, hs⟩⟩)
  next hle =>
    refine Ends.bind ((ends_expectNode o s).mono (fun _ _ hp => hp) fun _ _ hp => ⟨hp.1, hp.2 ▸ hs⟩) ?_
    rintro _ s' ⟨rfl, ho⟩
    exact Ends.weaken (ends_insertChecked hs hd hc (Nat.le_of_not_lt hle) ho) fun _ _ h => h.1

theorem safe_pushNodeOperand : Safe Fault.IsOrdinary Store.Settled (pushNodeOperand n o) :=
  .bind (.lift Query.regular_editableOperands.fault) fun _ => safe_insertNodeOperand

theorem ends_removeChecked {removed : Option NodeId} (hs : s.Settled)
    (hd : s.metadata.nodes.get? n = some d) (hc : d.content = .tuple ops)
    (hi : ops[i]? = some removed) :
    Ends (do
      untrackOption (.operand n i) removed
      shiftOperands n (· - 1) (ops.zipIdx.drop (i + 1))
      putNodeOperands n (ops.eraseIdx i)
      return removed) s
      (fun answer s' => answer = removed ∧ s'.Settled ∧ s'.metadata.nodes =
        s.metadata.nodes.modify n fun d => { d with content := .tuple (ops.eraseIdx i) })
      fun _ _ => False := by
  have hheld : s.core.held (.operand n i) = removed := by
    rw [held_operand s.core hd, hc, Content.operands, hi, Option.join_some]
  rw [ends_bind]
  refine Ends.weaken (ends_untrackOption (r := s.core.held) hs.recorded.follows (.inr hheld)) ?_
  rintro _ _ ⟨t, rfl, ht, hr⟩
  rw [← setOperands_held hd hc, update_setOperands (ops.set i none)] at ht
  · rw [ends_bind]
    refine Ends.weaken (ends_shiftDown (s := s.withTracker t) ht) ?_
    rintro _ _ ⟨t', rfl, ht', hr'⟩
    rw [ends_bind, ends_putNodeOperands (s := (s.withTracker t).withTracker t') hd]
    exact ⟨rfl, settled_putOperands hs hd hc ht' (fun m => (hr' m).trans (hr m))
      fun m hm => .inl (List.mem_of_mem_eraseIdx hm), rfl⟩
  · intro j
    rw [List.getElem?_set]
    grind

theorem safe_removeNodeOperand : Safe Fault.IsOrdinary Store.Settled (removeNodeOperand n i) := by
  intro s hs
  refine Query.regular_editableOperands.ends_bind (fun _ hx => ⟨hx, hs⟩) fun ops hops => ?_
  obtain ⟨d, hd, -, hc⟩ := Query.editableOperands_ok.1 hops
  split
  · exact ends_lift.2 ⟨fun _ _ => hs,
      fun _ hx => ⟨Query.regular_nodeOperandOutOfRange.fault hx, hs⟩⟩
  next removed hremoved =>
    exact Ends.weaken (ends_removeChecked hs hd hc hremoved) fun _ _ h => h.2.1

end Operands

end Edit

end ShaderIR
