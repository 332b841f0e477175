import ShaderIR.Proofs.CommandCoherence

/-! Locations that hold live nodes. An edit checks a node before it writes it into a location, and
takes away a node only when no location is tracked to hold it. -/

open ShaderIR.Core

namespace ShaderIR

namespace Store

variable {s s' : Store} {l : Location} {o : Option NodeId} {n : NodeId}
variable {ops : List (Option NodeId)}

def IsNode (s : Store) (n : NodeId) : Prop := ∃ d, s.metadata.nodes.get? n = some d

def Anchored (s : Store) : Prop := ∀ l n, s.core.held l = some n → s.IsNode n

def holdings (s : Store) : (Location → Option NodeId) × (NodeId → Bool) :=
  (s.core.held, s.isNodeLive)

theorem isNode_iff : s.IsNode n ↔ s.isNodeLive n = true := by
  rw [isNodeLive, Option.isSome_iff_exists]
  rfl

theorem anchored_iff : s.Anchored ↔ ∀ l n, s.holdings.1 l = some n → s.holdings.2 n = true :=
  forall₃_congr fun _ _ _ => isNode_iff

theorem Anchored.of_holdings (h : s.Anchored) (hs : s'.holdings = s.holdings) : s'.Anchored := by
  rw [anchored_iff, hs]
  exact anchored_iff.1 h

theorem Anchored.of_held (h : s.Anchored) (hn : ∀ n, s.IsNode n → s'.IsNode n)
    (hl : ∀ l n, s'.core.held l = some n → (∃ l', s.core.held l' = some n) ∨ s'.IsNode n) :
    s'.Anchored := fun l n hln =>
  (hl l n hln).elim (fun ⟨l', hl'⟩ => hn n (h l' n hl')) id

theorem Anchored.update (h : s.Anchored)
    (hheld : s'.core.held = Function.update s.core.held l o)
    (hn : s'.metadata.nodes = s.metadata.nodes) (ho : ∀ n, o = some n → s.IsNode n) :
    s'.Anchored := by
  have hnode (n : NodeId) : s'.IsNode n ↔ s.IsNode n := by rw [IsNode, hn, IsNode]
  refine h.of_held (fun n => (hnode n).2) fun l' n hl' => ?_
  rw [hheld, Function.update_apply] at hl'
  split at hl'
  · exact .inr ((hnode n).2 (ho n hl'))
  · exact .inl ⟨l', hl'⟩

theorem Anchored.shed (h : s.Anchored) (hn : ∀ n, s.IsNode n → s'.IsNode n)
    (hl : ∀ l n, s'.core.held l = some n → s.core.held l = some n) : s'.Anchored :=
  h.of_held hn fun l n hln => .inl ⟨l, hl l n hln⟩

theorem Anchored.putOperands (h : s.Anchored)
    (hheld : s'.core.held = setOperands n ops s.core.held) (hn : ∀ m, s.IsNode m → s'.IsNode m)
    (ho : ∀ m, some m ∈ ops → s.IsNode m) : s'.Anchored := by
  refine h.of_held hn fun l m hl => ?_
  rw [hheld] at hl
  cases l with
  | operand t i =>
    rw [setOperands] at hl
    split at hl
    · exact .inr (hn m (ho m (List.mem_of_getElem? (Option.join_eq_some_iff.1 hl))))
    · exact .inl ⟨_, hl⟩
  | wrapper v => exact .inl ⟨.wrapper v, hl⟩
  | handle k => exact .inl ⟨.handle k, hl⟩
  | attachment v tag => exact .inl ⟨.attachment v tag, hl⟩

theorem Anchored.operand (h : s.Anchored) {d : Node} {m : NodeId}
    (hd : s.metadata.nodes.get? n = some d) (hm : some m ∈ d.content.operands) : s.IsNode m := by
  obtain ⟨i, hi⟩ := List.mem_iff_getElem?.1 hm
  refine h (.operand n i) m ?_
  rw [held_operand s.core hd, hi]
  rfl

theorem Anchored.pushNode (h : s.Anchored) {d : Node}
    (ho : ∀ m, some m ∈ d.content.operands → s.IsNode m) :
    (s.modifyMetadata fun md => { md with nodes := md.nodes.push d }).Anchored := by
  refine h.putOperands (held_pushNode s.core d) (fun m ⟨x, hx⟩ => ⟨x, ?_⟩) ho
  refine (Arena.get?_push ..).trans ((if_neg ?_).trans hx)
  rintro rfl
  simp at hx

theorem isNode_modify {f : Node → Node} {m : NodeId} :
    (s.modifyMetadata fun md => { md with nodes := md.nodes.modify n f }).IsNode m ↔ s.IsNode m := by
  simp only [isNode_iff, isNodeLive, modifyMetadata, Arena.get?_modify]
  split <;> simp

theorem Anchored.editOperands (h : s.Anchored) {d : Node} {ops' : List (Option NodeId)}
    (hd : s.metadata.nodes.get? n = some d) (hc : d.content = .tuple ops)
    (ho : ∀ m, some m ∈ ops' → some m ∈ ops ∨ s.IsNode m) :
    (s.modifyMetadata fun md => { md with
      nodes := md.nodes.modify n fun d => { d with content := .tuple ops' } }).Anchored := by
  refine h.putOperands (held_modifyNode s.core hd _) (fun m => isNode_modify.2) fun m hm => ?_
  refine (ho m hm).elim (fun hm => h.operand hd ?_) id
  rwa [hc]

theorem Anchored.eraseNode (h : s.Anchored) (hn : s'.metadata.nodes = s.metadata.nodes.erase n)
    (hl : ∀ l m, s'.core.held l = some m → s.core.held l = some m ∧ m ≠ n) : s'.Anchored := by
  intro l m hm
  obtain ⟨hm, hne⟩ := hl l m hm
  obtain ⟨d, hd⟩ := h l m hm
  refine ⟨d, ?_⟩
  rw [hn, Arena.get?_erase, if_neg (Ne.symm hne), hd]

end Store

namespace Edit

variable {s : Store} {v : ValueId} {d : Value} {n : NodeId} {o : Option NodeId} {h : HandleId}
variable {ops : List (Option NodeId)} {α : Type} {e : Edit α}

theorem Fixes.anchored (h : Fixes Store.holdings e) : Keeps Store.Anchored e := fun s hs =>
  (h.ends s).mono (fun _ _ hv => hs.of_holdings hv) fun _ _ hv => hs.of_holdings hv

theorem Fixes.holdings_of_core (h : Fixes Store.core e) : Fixes Store.holdings e :=
  h.of_view fun {s s'} hc => by
    have hm : s'.metadata = s.metadata := congrArg Core.metadata hc
    have hlive : s'.isNodeLive = s.isNodeLive := by
      funext n
      rw [Store.isNodeLive, hm, Store.isNodeLive]
    rw [Store.holdings, hc, hlive, Store.holdings]

theorem Fixes.holdings_of_unwired (h : Fixes Store.unwired e) : Fixes Store.holdings e :=
  h.of_view fun {s s'} hu => by
    rw [show s'.holdings = s'.unwired.holdings from rfl, hu]
    rfl

theorem Fixes.anchored_of_core (h : Fixes Store.core e) : Keeps Store.Anchored e :=
  h.holdings_of_core.anchored

theorem Fixes.anchored_of_unwired (h : Fixes Store.unwired e) : Keeps Store.Anchored e :=
  h.holdings_of_unwired.anchored

section Tracking

variable {l l' : Location}

theorem holds_setTracker {t : Tracker} : Fixes Store.holdings (setTracker t) := .modify fun _ => rfl

theorem holds_track : Fixes Store.holdings (track l n) := by
  refine .bind .get fun s => ?_
  split
  · exact holds_setTracker
  · exact .raise _

theorem holds_untrack : Fixes Store.holdings (untrack l n) := .bind .get fun _ => holds_setTracker

theorem holds_trackOption : Fixes Store.holdings (trackOption l o) := by
  cases o with
  | none => exact .pure _
  | some n => exact holds_track

theorem holds_untrackOption : Fixes Store.holdings (untrackOption l o) := by
  cases o with
  | none => exact .pure _
  | some n => exact holds_untrack

theorem holds_retrackOption : Fixes Store.holdings (retrackOption l l' o) := by
  cases o with
  | none => exact .pure _
  | some n =>
    refine .bind .get fun s => ?_
    split
    · exact holds_setTracker
    · exact .raise _

theorem holds_shiftOperands {position : Nat → Nat} {moved : List (Option NodeId × Nat)} :
    Fixes Store.holdings (shiftOperands n position moved) :=
  .forM (fun _ => holds_retrackOption) _

end Tracking

section Values

variable {ty : TypeId} {b f : ValueId} {os : List (Option ValueId)} {m : ModuleId} {text : String}
variable {u : Option ValueId}

theorem holds_internType {sh : TypeShape} : Fixes Store.holdings (internType sh) :=
  fun _ => Keeps.modifyGet fun _ hs => hs

theorem holds_pushValue (ha : d.attachments = []) (hw : d.wrapped? = none) :
    Fixes Store.holdings (pushValue d) := by
  refine fun _ => Keeps.modifyGet fun s hs => Eq.trans ?_ hs
  have hheld : (s.pushValue d).2.core.held = s.core.held := by
    rw [core_pushValue, held_push s.core (d := d.bare) ha, Value.wrapped?_bare, hw]
    exact (Function.update_eq_self_iff ..).2 (by simp [held])
  exact congrArg (·, s.isNodeLive) hheld

theorem holds_internScalar {data : ConstantData} : Fixes Store.holdings (internScalar ty data) := by
  refine .bind .get fun s => ?_
  split
  · exact .pure _
  · exact .bind (holds_pushValue rfl rfl) fun _ => .bind (.modify fun _ => rfl) fun _ => .pure _

theorem holds_addOperand : Fixes Store.holdings (addOperand v u) :=
  fixes_addOperand.holdings_of_unwired

theorem holds_blockAddress : Fixes Store.holdings (blockAddress f b) := by
  refine .bind (.lift _) fun _ => .bind (.lift _) fun _ => .bind .get fun s => ?_
  split
  · exact .pure _
  · exact .bind holds_internType fun _ => .bind (holds_pushValue rfl rfl) fun _ =>
      .bind holds_addOperand fun _ => .bind holds_addOperand fun _ =>
        .bind (.modify fun _ => rfl) fun _ => .pure _

theorem holds_createInstruction {opcode : String} :
    Fixes Store.holdings (createInstruction opcode ty os) :=
  .bind (holds_pushValue rfl rfl) fun _ =>
    .bind (.forM (fun _ => .bind holds_addOperand fun _ => .pure _) _) fun _ => .pure _

theorem keeps_buildInstruction_anchored {opcode : String} {name : Option String}
    {placement : Placement} :
    Keeps Store.Anchored (buildInstruction opcode ty os name placement) :=
  Carries.keeps (.buildInstruction holds_createInstruction.anchored.carries
    (Fixes.anchored_of_core fixes_setName).carries
    (Fixes.anchored_of_core fixes_insertInstruction).carries)

theorem holds_createDetachedBlock : Fixes Store.holdings (createDetachedBlock text) :=
  .bind holds_internType fun _ => .bind (holds_pushValue rfl rfl) fun _ =>
    .bind (Fixes.holdings_of_core fixes_writeName) fun _ => .pure _

theorem holds_createBlock : Fixes Store.holdings (createBlock f text) :=
  .bind holds_createDetachedBlock fun _ => .bind (Fixes.holdings_of_core fixes_insertBlock) fun _ =>
    .pure _

theorem holds_createGlobal : Fixes Store.holdings (createGlobal m text ty u) :=
  .bind (holds_pushValue rfl rfl) fun _ => .bind holds_addOperand fun _ =>
    .bind (Fixes.holdings_of_core fixes_writeName) fun _ =>
      .bind (Fixes.holdings_of_core fixes_appendGlobal) fun _ => .pure _

theorem keeps_modifyValue_anchored {k : Value → Value}
    (hw : ∀ d n, (k d).wrapped? = some n → d.wrapped? = some n)
    (ha : ∀ d, (k d).attachments = d.attachments ∨ (k d).attachments = []) :
    Keeps Store.Anchored (modifyValue v k) := by
  refine .bind (.lift _) fun _ => .modify fun s hs => hs.shed (fun _ => id) fun l n hl => ?_
  have hget (w : ValueId) : (s.modifyValue v k).values.get? w =
      if v = w then (s.values.get? w).map k else s.values.get? w := Arena.get?_modify ..
  cases l with
  | wrapper w =>
    rw [held, Store.get?_core, hget] at hl
    rw [held, Store.get?_core]
    split at hl
    · cases hd : s.values.get? w with
      | none => simp [hd] at hl
      | some d =>
        rw [hd] at hl
        exact (Value.wrapped?_bare d).trans (hw d n ((Value.wrapped?_bare (k d)).symm.trans hl))
    · exact hl
  | attachment w tag =>
    rw [held, Store.get?_core, hget] at hl
    rw [held, Store.get?_core]
    split at hl
    · cases hd : s.values.get? w with
      | none => simp [hd] at hl
      | some d =>
        have hfind : (((k d).attachments.find? (·.1 = tag)).map Prod.snd) = some n := by
          rwa [hd] at hl
        obtain h | h := ha d
        · rw [h] at hfind
          exact hfind
        · simp [h] at hfind
    · exact hl
  | operand t i => exact hl
  | handle j => exact hl

theorem keeps_createFunction_anchored : Keeps Store.Anchored (createFunction m text ty) := by
  refine .bind (.lift _) fun sh => ?_
  split
  · refine .bind (holds_pushValue rfl rfl).anchored fun f => .bind (.modify fun _ hs => hs) fun _ =>
      .bind (.mapM (fun _ => (holds_pushValue rfl rfl).anchored) _) fun args => ?_
    refine .bind (keeps_modifyValue_anchored ?_ fun _ => .inl rfl) fun _ =>
      .bind (Fixes.anchored_of_core fixes_writeName) fun _ =>
        .bind (Fixes.anchored_of_core fixes_appendFunction) fun _ => .pure _
    rintro d n ⟨⟩
  · exact .raise _

end Values

section Nodes

theorem holds_modifyNode {f : Node → Node}
    (hf : ∀ d, (f d).content.operands = d.content.operands) :
    Fixes Store.holdings (modifyNode n f) := by
  rintro _ s rfl
  refine ends_bind.2 (ends_lift.2 ⟨fun d hd => ?_, fun _ _ => rfl⟩)
  rw [ends_modify]
  have hheld : (s.modifyMetadata fun md => { md with nodes := md.nodes.modify n f }).core.held =
      s.core.held := by
    refine (held_modifyNode s.core (Query.node_ok.1 hd) f).trans (setOperands_eq_self fun i => ?_)
    rw [held_operand s.core (Query.node_ok.1 hd), hf]
  refine Prod.ext hheld (funext fun m => Bool.eq_iff_iff.2 ?_)
  exact Store.isNode_iff.symm.trans (Store.isNode_modify.trans Store.isNode_iff)

theorem holds_trackOperands : Fixes Store.holdings (trackOperands n) :=
  .bind (.lift _) fun _ => .forM (fun _ => holds_trackOption) _

theorem holds_makeReplaceable : Fixes Store.holdings (makeReplaceable n) :=
  .bind .get fun _ => holds_setTracker

theorem ends_internNode_anchored {c : Content} {register : NodeId → Edit Unit}
    (hr : ∀ n, Fixes Store.holdings (register n)) (hs : s.Anchored)
    (ho : ∀ m, some m ∈ c.operands → s.IsNode m) :
    Ends (internNode c register) s (fun _ => Store.Anchored) fun _ => Store.Anchored := by
  unfold internNode
  rw [ends_bind, ends_get]
  split
  · exact hs
  · rw [ends_bind, pushNode, ends_modifyGet]
    exact Keeps.bind (.modify fun _ hs => hs) (fun _ => .bind (hr _).anchored fun _ => .pure _) _
      (hs.pushNode (d := ⟨.uniqued, c⟩) ho)

theorem keeps_stringNode_anchored {text : String} : Keeps Store.Anchored (stringNode text) :=
  fun _ hs => ends_internNode_anchored (fun _ => .pure _) hs fun _ hm => by cases hm

theorem keeps_valueNode_anchored : Keeps Store.Anchored (valueNode v) := by
  refine .bind (.lift _) fun kind => .guard (.throw _) (.bind .get fun s => ?_)
  split
  · exact .pure _
  · have hpush : Keeps Store.Anchored (pushNode ⟨.uniqued, .value v⟩) := fun s hs =>
      hs.pushNode (d := ⟨.uniqued, .value v⟩) fun _ hm => by cases hm
    exact .bind hpush fun _ => .bind (.modify fun _ hs => hs) fun _ =>
      .bind holds_makeReplaceable.anchored fun _ => .pure _

theorem keeps_tuple_anchored : Keeps Store.Anchored (tuple ops) := fun _ hs =>
  Ends.bind ((ends_expectNodes ops _).mono (fun _ _ h => h) fun _ _ h => h.2 ▸ hs) (by
    rintro _ s' ⟨rfl, ho⟩
    exact ends_internNode_anchored (fun _ => holds_trackOperands) hs ho)

theorem keeps_pushTuple_anchored {k : Storage} {f : NodeId → Edit α}
    (hf : ∀ n, Keeps Store.Anchored (f n)) : Keeps Store.Anchored (do
      ops.forM expectNode
      let n ← pushNode ⟨k, .tuple ops⟩
      f n) := fun _ hs =>
  Ends.bind ((ends_expectNodes ops _).mono (fun _ _ h => h) fun _ _ h => h.2 ▸ hs) (by
    rintro _ s' ⟨rfl, ho⟩
    rw [ends_bind, pushNode, ends_modifyGet]
    exact hf _ _ (hs.pushNode (d := ⟨k, .tuple ops⟩) ho))

theorem keeps_distinctTuple_anchored : Keeps Store.Anchored (distinctTuple ops) :=
  keeps_pushTuple_anchored fun _ => .bind holds_trackOperands.anchored fun _ => .pure _

theorem keeps_temporaryTuple_anchored : Keeps Store.Anchored (temporaryTuple ops) :=
  keeps_pushTuple_anchored fun _ => .bind holds_makeReplaceable.anchored fun _ =>
    .bind holds_trackOperands.anchored fun _ => .pure _

theorem keeps_setNodeOperand_anchored {i : Nat} :
    Keeps Store.Anchored (setNodeOperand n i o) := by
  intro s hs
  refine ends_bind.2 (ends_lift.2 ⟨fun ops hops => ?_, fun _ _ => hs⟩)
  obtain ⟨d, hd, -, hc⟩ := Query.editableOperands_ok.1 hops
  split
  · exact Keeps.lift _ s hs
  refine Ends.bind ((ends_expectNode o s).mono (fun _ _ h => h) fun _ _ h => h.2 ▸ hs) ?_
  rintro _ s' ⟨rfl, ho⟩
  rw [ends_bind, ends_putNodeOperands hd]
  refine Keeps.ite (.bind holds_untrackOption.anchored fun _ => holds_trackOption.anchored)
    (.pure _) _ (hs.editOperands hd hc fun m hm => ?_)
  exact (List.mem_or_eq_of_mem_set hm).imp_right fun h => ho m h.symm

theorem Fixes.ends_putOperands {e : Edit Unit} {ops' : List (Option NodeId)} {dn : Node}
    {k : Unit → Edit α} (he : Fixes Store.holdings e) (hn : Fixes Store.ledger e)
    (hk : Keeps Store.Anchored (k ())) (hs : s.Anchored)
    (hd : s.metadata.nodes.get? n = some dn) (hc : dn.content = .tuple ops)
    (ho : ∀ m, some m ∈ ops' → some m ∈ ops ∨ s.IsNode m) :
    Ends (do e; putNodeOperands n ops'; k ()) s (fun _ => Store.Anchored)
      fun _ => Store.Anchored := by
  refine Ends.bind (((he.ends s).and (hn.ends s)).mono (fun _ _ h => h)
    fun _ _ h => hs.of_holdings h.1) ?_
  rintro _ s' ⟨hh, hl⟩
  have hnodes : s'.metadata.nodes = s.metadata.nodes := congrArg Ledger.nodes hl
  rw [ends_bind, ends_putNodeOperands (hnodes ▸ hd)]
  refine hk _ ((hs.of_holdings hh).editOperands (hnodes ▸ hd) hc fun m hm => ?_)
  rw [Store.IsNode, hnodes]
  exact ho m hm

theorem keeps_insertNodeOperand_anchored {i : Nat} :
    Keeps Store.Anchored (insertNodeOperand n i o) := by
  intro s hs
  refine ends_bind.2 (ends_lift.2 ⟨fun ops hops => ?_, fun _ _ => hs⟩)
  obtain ⟨d, hd, -, hc⟩ := Query.editableOperands_ok.1 hops
  split
  · exact ends_bind.2 (ends_lift.2 ⟨fun _ h => absurd h Query.raise_ok, fun _ _ => hs⟩)
  next =>
    refine Ends.bind ((ends_expectNode o s).mono (fun _ _ h => h) fun _ _ h => h.2 ▸ hs) ?_
    rintro _ s' ⟨rfl, ho⟩
    refine holds_shiftOperands.ends_putOperands fixes_shiftOperands (k := fun _ => trackOption _ o)
      holds_trackOption.anchored hs hd hc fun m hm => ?_
    exact (List.eq_or_mem_of_mem_insertIdx hm).symm.imp_right fun h => ho m h.symm

theorem keeps_pushNodeOperand_anchored : Keeps Store.Anchored (pushNodeOperand n o) :=
  .bind (.lift _) fun _ => keeps_insertNodeOperand_anchored

theorem keeps_removeNodeOperand_anchored {i : Nat} :
    Keeps Store.Anchored (removeNodeOperand n i) := by
  intro s hs
  refine ends_bind.2 (ends_lift.2 ⟨fun ops hops => ?_, fun _ _ => hs⟩)
  obtain ⟨d, hd, -, hc⟩ := Query.editableOperands_ok.1 hops
  split
  · exact Keeps.lift _ s hs
  next removed _ =>
    have hshift {k : Edit (Option NodeId)} :
        (do untrackOption (.operand n i) removed
            shiftOperands n (· - 1) (ops.zipIdx.drop (i + 1))
            putNodeOperands n (ops.eraseIdx i)
            k) = (do
        (do untrackOption (.operand n i) removed
            shiftOperands n (· - 1) (ops.zipIdx.drop (i + 1)))
        putNodeOperands n (ops.eraseIdx i)
        k) := by simp only [bind_assoc]
    rw [hshift]
    exact Fixes.ends_putOperands (.bind holds_untrackOption fun _ => holds_shiftOperands)
      (.bind fixes_untrackOption fun _ => fixes_shiftOperands) (k := fun _ => pure removed)
      (.pure _) hs hd hc fun m hm => .inl (List.mem_of_mem_eraseIdx hm)

theorem keeps_settle_anchored {k : Storage} : Keeps Store.Anchored (settle n k) :=
  .bind (holds_modifyNode (f := fun d => { d with storage := k }) fun _ => rfl).anchored fun _ =>
    .bind .get fun _ => holds_setTracker.anchored

theorem keeps_replaceWithDistinct_anchored : Keeps Store.Anchored (replaceWithDistinct n) :=
  .bind (.lift _) fun _ => .bind keeps_settle_anchored fun _ => .pure _

theorem keeps_wrapperValue_anchored : Keeps Store.Anchored (wrapperValue n) := by
  intro s hs
  refine ends_bind.2 (ends_lift.2 ⟨fun dn hdn => ?_, fun _ _ => hs⟩)
  rw [ends_bind, ends_get]
  split
  · exact hs
  rw [ends_bind, internType, ends_modifyGet, ends_bind, pushValue, ends_modifyGet, ends_bind,
    ends_modify]
  refine Keeps.bind holds_track.anchored (fun _ => .pure _) _ (hs.update
    (l := .wrapper s.values.next) (o := some n) ?_ rfl fun m hm => ?_)
  · let d : Value := { ty := (s.types.intern .metadata).1, payload := .metadata n }
    have hcore := core_pushValue { s with types := (s.types.intern .metadata).2 } d
    have hnext : s.core.values.next = s.values.next := Arena.next_map ..
    have hpush := held_push s.core (d := d.bare) rfl
    rw [hnext] at hpush
    exact (congrArg held hcore).trans hpush
  · obtain rfl := Option.some.inj hm
    exact ⟨dn, Query.node_ok.1 hdn⟩

theorem not_held_of_count (hs : s.Settled) (hn : s.metadata.tracker.isReplaceable n)
    (hc : s.metadata.tracker.count n = 0) (l : Location) : s.core.held l ≠ some n :=
  (Tracker.count_eq_zero hs.recorded.follows hn).1 hc l

theorem ends_eraseTemporary_anchored (hs : s.Settled) (ha : s.Anchored) :
    Ends (eraseTemporary n) s (fun _ => Store.Anchored) fun _ => Store.Anchored := by
  refine ends_bind.2 (ends_lift.2 ⟨fun _ ht => ?_, fun _ _ => ha⟩)
  obtain ⟨d, hd, htemp⟩ := Query.expectTemporary_ok.1 ht
  have hfree := not_held_of_count hs ((hs.consistent.replaceable n).2 ⟨d, hd, .inl htemp⟩)
  rw [ends_bind, ends_get]
  dsimp only
  split
  · exact ha
  next hzero =>
    rw [untrackOperands, bind_assoc, ends_bind,
      ends_lift_ok (Query.nodeOperands_ok.2 ⟨d, hd, rfl⟩)]
    have huntrack {γ : Type} {view : Store → γ} (h : ∀ {l o}, Fixes view (untrackOption l o)) :
        Fixes view (d.content.operands.zipIdx.forM fun op =>
          untrackOption (.operand n op.2) op.1) := .forM (fun _ => h) _
    refine Ends.bind (((huntrack holds_untrackOption).ends s).and
      ((huntrack fixes_untrackOption : Fixes Store.ledger _).ends s) |>.mono (fun _ _ h => h)
        fun _ _ h => ha.of_holdings h.1) ?_
    rintro _ p ⟨hp, hledger⟩
    have hnodes : p.metadata.nodes = s.metadata.nodes := congrArg Ledger.nodes hledger
    have hheld : p.core.held = s.core.held := congrArg Prod.fst hp
    rw [ends_modify]
    refine Store.Anchored.eraseNode (ha.of_holdings hp) (n := n) rfl fun l m hm => ?_
    have herase : setOperands n [] p.core.held l = some m :=
      (congrFun (held_eraseNode p.core n) l).symm.trans hm
    have hold : p.core.held l = some m := by
      cases l with
      | operand t i =>
        rw [setOperands] at herase
        split at herase
        · simp at herase
        · exact herase
      | wrapper v => exact herase
      | handle k => exact herase
      | attachment v tag => exact herase
    refine ⟨hold, ?_⟩
    rintro rfl
    exact hfree (not_not.1 hzero) l (hheld ▸ hold)

end Nodes

section Holders

variable {tag : TagId} {m : ModuleId} {text : String}

theorem keeps_trackHandle_anchored : Keeps Store.Anchored (trackHandle o) := by
  intro s hs
  refine Ends.bind ((ends_expectNode o s).mono (fun _ _ h => h) fun _ _ h => h.2 ▸ hs) ?_
  rintro _ s' ⟨rfl, ho⟩
  rw [ends_bind, ends_pushHandle]
  exact Keeps.bind holds_trackOption.anchored (fun _ => .pure _) _
    (hs.update (held_pushHandle s'.core o) rfl ho)

theorem ends_untrackOption_any {l : Location} : Ends (untrackOption l o) s
    (fun _ s' => ∃ t, s' = s.withTracker t) fun _ _ => False := by
  cases o with
  | none => exact ⟨s.metadata.tracker, rfl⟩
  | some n => exact ⟨_, rfl⟩

theorem keeps_resetHandle_anchored : Keeps Store.Anchored (resetHandle h o) := by
  intro s hs
  refine ends_bind.2 (ends_lift.2 ⟨fun old hold => ?_, fun _ _ => hs⟩)
  split
  · exact hs
  refine Ends.bind ((ends_expectNode o s).mono (fun _ _ h => h) fun _ _ h => h.2 ▸ hs) ?_
  rintro _ s' ⟨rfl, ho⟩
  refine Ends.bind (ends_untrackOption_any.weaken fun _ _ h => h) ?_
  rintro _ _ ⟨t, rfl⟩
  rw [ends_bind, ends_putHandle]
  exact holds_trackOption.anchored _
    (hs.update (held_setHandle s'.core (Query.handle_ok.1 hold)) rfl ho)

theorem keeps_moveHandle_anchored : Keeps Store.Anchored (moveHandle h) := by
  intro s hs
  refine ends_bind.2 (ends_lift.2 ⟨fun o ho => ?_, fun _ _ => hs⟩)
  rw [Query.handle_ok] at ho
  have hlive (n : NodeId) (hn : o = some n) : s.IsNode n :=
    hs (.handle h) n (by simp [held, Store.core, ho, hn])
  have hne : s.metadata.handles.next ≠ h := fun hn => by simp [← hn] at ho
  have hget : (s.core.withHandles (s.metadata.handles.push o)).metadata.handles.get? h =
      some o := by
    simp [withHandles, Store.core, Arena.get?_push, hne.symm, ho]
  have hpush : (s.withHandles (s.metadata.handles.push o)).Anchored :=
    hs.update (held_pushHandle s.core o) rfl hlive
  rw [ends_bind, ends_pushHandle, ends_bind, ends_putHandle]
  exact Keeps.bind holds_retrackOption.anchored (fun _ => .pure _) _
    (hpush.update (held_setHandle _ (o := none) hget) rfl (by simp))

theorem keeps_releaseHandle_anchored : Keeps Store.Anchored (releaseHandle h) :=
  .bind (.lift _) fun _ => .bind holds_untrackOption.anchored fun _ => .modify fun s hs =>
    hs.update (held_eraseHandle s.core h) rfl (by simp)

theorem keeps_addNamedMetadata_anchored : Keeps Store.Anchored (addNamedMetadata m text n) :=
  .bind (.lift _) fun _ => .bind keeps_trackHandle_anchored fun _ =>
    Fixes.anchored_of_core (fixes_modifyModule fun _ => rfl)

theorem keeps_eraseNamedMetadata_anchored :
    Keeps Store.Anchored (eraseNamedMetadata m text) := by
  refine .bind (.lift _) fun d => ?_
  split
  · exact .pure _
  · exact .bind (Fixes.anchored_of_core (fixes_modifyModule fun _ => rfl)) fun _ =>
      .forM (fun _ => keeps_releaseHandle_anchored) _

theorem holds_internTag : Fixes Store.holdings (internTag text) := by
  refine .bind .get fun s => ?_
  dsimp only
  split
  · exact .pure _
  · exact .bind (.modify fun _ => rfl) fun _ => .pure _

theorem ends_setMetadata_anchored (hs : s.Settled) (ha : s.Anchored) :
    Ends (setMetadata v tag o) s (fun _ => Store.Anchored) fun _ => Store.Anchored := by
  refine ends_bind.2 (ends_lift.2 ⟨fun kind _ => ?_, fun _ _ => ha⟩)
  split
  · exact ha
  refine ends_bind.2 (ends_lift.2 ⟨fun old hold => ?_, fun _ _ => ha⟩)
  obtain ⟨d, hd, -⟩ := Query.attachment_ok.1 hold
  split
  · exact ha
  refine Ends.bind ((ends_expectNode o s).mono (fun _ _ h => h) fun _ _ h => h.2 ▸ ha) ?_
  rintro _ s' ⟨rfl, ho⟩
  refine Ends.bind (ends_untrackOption_any.weaken fun _ _ h => h) ?_
  rintro _ _ ⟨t, rfl⟩
  have hget : s'.core.values.get? v = some d.bare := by rw [Store.get?_core, hd]; rfl
  have hcore : (s'.modifyValue v fun d =>
      { d with attachments := setAttachment tag o d.attachments }).core =
      s'.core.withAttachments v (setAttachment tag o) := Store.core_modifyValue _ _ fun _ => rfl
  rw [ends_bind, ends_modifyValue (s := s'.withTracker t) hd]
  refine holds_trackOption.anchored _ (ha.update (l := .attachment v tag) (o := o) ?_ rfl ho)
  exact (congrArg held hcore).trans (held_setAttachment hget (hs.attached hget))

end Holders

section Destroying

theorem keeps_clearAttachments_anchored : Keeps Store.Anchored (clearAttachments v) :=
  .bind (.lift _) fun _ => .bind (keeps_modifyValue_anchored (fun _ _ h => h) fun _ => .inr rfl)
    fun _ => .forM (fun _ => holds_untrack.anchored) _

theorem holds_dropWrapper : Fixes Store.holdings (dropWrapper v) := by
  refine .bind (.lift _) fun n => ?_
  split
  · exact .pure _
  · refine .bind holds_untrack fun _ => .modify fun s => ?_
    simp only [Store.modifyMetadata]
    split <;> rfl

theorem keeps_eraseValue_anchored : Keeps Store.Anchored (modify fun s => { s with
    values := s.values.erase v
    scopes := s.scopes.erase (.function v) } : Edit Unit) := by
  refine .modify fun s hs => hs.shed (fun _ => id) fun l n hl => ?_
  have hget (w : ValueId) : (s.values.erase v).get? w = if v = w then none else s.values.get? w :=
    Arena.get?_erase ..
  cases l with
  | wrapper w =>
    rw [held, Store.get?_core, hget] at hl
    rw [held, Store.get?_core]
    split at hl
    · cases hl
    · exact hl
  | attachment w tag =>
    rw [held, Store.get?_core, hget] at hl
    rw [held, Store.get?_core]
    split at hl
    · cases hl
    · exact hl
  | operand t i => exact hl
  | handle k => exact hl

theorem ends_dropValueNode_anchored {r : Location → Option NodeId} (hs : s.core.Sound r)
    (ha : s.Anchored)
    (hfree : ∀ n, s.metadata.nodeOf[v]? = some n → ∀ l, s.core.held l ≠ some n) :
    Ends (dropValueNode v) s (fun _ => Store.Anchored) fun _ => Store.Anchored := by
  unfold dropValueNode
  rw [ends_bind, ends_get]
  split
  · exact ha
  next n hn =>
    let md : Metadata := { s.metadata with
      nodeOf := s.metadata.nodeOf.erase v
      uniqued := s.metadata.uniqued.erase (.value v)
      tracker := (s.metadata.tracker.resolve n).2
      nodes := s.metadata.nodes.erase n }
    have hheld := (hs.dropValueNode hn (show md.nodes = _ from rfl) rfl rfl rfl rfl).2
    rw [ends_modify]
    refine ha.eraseNode (n := n) rfl fun l m hm => ?_
    have hm : s.core.held l = some m := (congrFun hheld l).symm.trans hm
    exact ⟨hm, fun hmn => hfree n hn l (hmn ▸ hm)⟩

theorem ends_destroyValue_anchored (hs : s.Settled) (ha : s.Anchored) :
    Ends (destroyValue v) s (fun _ => Store.Anchored) fun _ => Store.Anchored := by
  have hdrop : Ends (dropUntrackedNode v) s (fun _ => Store.Anchored) fun _ => Store.Anchored := by
    unfold dropUntrackedNode
    rw [ends_bind, ends_get]
    split
    · exact ha
    next n hn =>
      rw [ends_bind, ends_get]
      split
      · exact ha
      next hzero =>
        obtain ⟨d, hd, hc⟩ := (hs.consistent.nodeOf v n).1 hn
        have hfree := not_held_of_count hs ((hs.consistent.replaceable n).2 ⟨d, hd, .inr ⟨v, hc⟩⟩)
          (not_not.1 hzero)
        refine ends_dropValueNode_anchored hs ha fun m hm => ?_
        obtain rfl := Option.some.inj (hn.symm.trans hm)
        exact hfree
  have htail : Keeps Store.Anchored (do
      unregisterName v
      modify (·.modifyUses (·.clearSlots v))
      clearAttachments v
      dropWrapper v
      modify fun s => { s with
        values := s.values.erase v
        scopes := s.scopes.erase (.function v) } : Edit Unit) :=
    .bind (Fixes.anchored_of_core fixes_unregisterName) fun _ => .bind (.modify fun _ hs => hs)
      fun _ => .bind keeps_clearAttachments_anchored fun _ =>
        .bind holds_dropWrapper.anchored fun _ => keeps_eraseValue_anchored
  refine ends_bind.2 (ends_lift.2 ⟨fun kind _ => ?_, fun _ _ => ha⟩)
  refine ends_bind.2 (ends_lift.2 ⟨fun uses _ => ?_, fun _ _ => ha⟩)
  split
  · exact ha
  refine Ends.bind hdrop fun _ => Keeps.bind (.lift _) fun key => ?_
  split
  · exact .bind (.modify fun s hs => by split <;> exact hs) fun _ => htail
  · exact htail

end Destroying

end Edit

end ShaderIR
