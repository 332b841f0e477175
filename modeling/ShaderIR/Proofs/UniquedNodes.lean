import ShaderIR.Proofs.ConstantInterning
import ShaderIR.Proofs.DestructionInvariants

/-! Uniqued nodes. Every live uniqued node is entered under its content, and nothing else is. Every
node that wraps a value is uniqued and entered under the value, which is live. -/

namespace ShaderIR

def Content.value? : Content → Option ValueId
  | .value v => some v
  | _ => none

theorem Content.value?_eq_some {c : Content} {v : ValueId} : c.value? = some v ↔ c = .value v := by
  cases c <;> simp [value?]

theorem Node.withOperand_value? (d : Node) (i : Nat) (new : NodeId) :
    (d.withOperand i new).content.value? = d.content.value? := by
  obtain ⟨_, c⟩ := d
  cases c <;> rfl

def Node.key? (d : Node) : Option Content := if d.storage = .uniqued then some d.content else none

theorem Node.key?_eq_some {d : Node} {c : Content} :
    d.key? = some c ↔ d.storage = .uniqued ∧ d.content = c := by
  simp [key?]

theorem Node.key?_eq_none {d : Node} : d.key? = none ↔ d.storage ≠ .uniqued := by
  simp [key?]

namespace Ledger

def valueOf (L : Ledger) (n : NodeId) : Option ValueId :=
  (L.nodes.get? n).bind fun d => d.content.value?

def contentOf (L : Ledger) (n : NodeId) : Option Content := (L.nodes.get? n).bind Node.key?

/-- The tables hold every uniqued node under its content and every node that wraps a value under
the value, and nothing else. -/
structure Interned (L : Ledger) : Prop where
  wrapped : Indexes L.nodeOf L.valueOf
  entered : Indexes L.uniqued L.contentOf
  value : ∀ {n v}, L.valueOf n = some v → L.contentOf n = some (.value v)

variable {L L' : Ledger} {n : NodeId} {v : ValueId} {d : Node} {c : Content}

theorem valueOf_of_get? (hd : L.nodes.get? n = some d) : L.valueOf n = d.content.value? := by
  rw [valueOf, hd, Option.bind_some]

theorem contentOf_of_get? (hd : L.nodes.get? n = some d) : L.contentOf n = d.key? := by
  rw [contentOf, hd, Option.bind_some]

theorem valueOf_of_gone (hn : L.nodes.get? n = none) : L.valueOf n = none := by
  rw [valueOf, hn, Option.bind_none]

theorem contentOf_of_gone (hn : L.nodes.get? n = none) : L.contentOf n = none := by
  rw [contentOf, hn, Option.bind_none]

theorem contentOf_eq_some : L.contentOf n = some c ↔
    ∃ d, L.nodes.get? n = some d ∧ d.storage = .uniqued ∧ d.content = c := by
  simp only [contentOf, Option.bind_eq_some_iff, Node.key?_eq_some]

theorem valueOf_eq_some : L.valueOf n = some v ↔
    ∃ d, L.nodes.get? n = some d ∧ d.content = .value v := by
  simp only [valueOf, Option.bind_eq_some_iff, Content.value?_eq_some]

namespace Interned

theorem congr (h : L.Interned) (hn : L'.nodes = L.nodes) (hu : L'.uniqued = L.uniqued)
    (ho : L'.nodeOf = L.nodeOf) : L'.Interned := by
  have hvalue : L'.valueOf = L.valueOf := by funext m; rw [valueOf, hn, valueOf]
  have hcontent : L'.contentOf = L.contentOf := by funext m; rw [contentOf, hn, contentOf]
  refine ⟨?_, ?_, ?_⟩
  · rw [ho, hvalue]
    exact h.wrapped
  · rw [hu, hcontent]
    exact h.entered
  · rw [hvalue, hcontent]
    exact h.value

theorem uniqued_value (h : L.Interned) (v : ValueId) :
    L.uniqued[Content.value v]? = L.nodeOf[v]? := by
  have hiff (n : NodeId) : L.uniqued[Content.value v]? = some n ↔ L.nodeOf[v]? = some n := by
    rw [h.entered, h.wrapped]
    constructor
    · rintro hn
      obtain ⟨d, hd, -, hc⟩ := contentOf_eq_some.1 hn
      exact valueOf_eq_some.2 ⟨d, hd, hc⟩
    · exact h.value
  exact Option.ext hiff

section Changes

variable {o : Option Node} (h : L.Interned)
variable (hn : ∀ m, m ≠ n → L'.nodes.get? m = L.nodes.get? m) (hd : L'.nodes.get? n = o)

include h hn hd

theorem of_node
    (hw : Indexes L'.nodeOf (Function.update L.valueOf n (o.bind fun d => d.content.value?)))
    (he : Indexes L'.uniqued (Function.update L.contentOf n (o.bind Node.key?)))
    (hv : ∀ d v, o = some d → d.content = .value v → d.storage = .uniqued) : L'.Interned := by
  have hvalue : Function.update L.valueOf n (o.bind fun d => d.content.value?) = L'.valueOf := by
    refine (Function.eq_update_iff.2 ⟨?_, fun m hm => ?_⟩).symm
    · rw [valueOf, hd]
    · rw [valueOf, hn m hm, valueOf]
  have hcontent : Function.update L.contentOf n (o.bind Node.key?) = L'.contentOf := by
    refine (Function.eq_update_iff.2 ⟨?_, fun m hm => ?_⟩).symm
    · rw [contentOf, hd]
    · rw [contentOf, hn m hm, contentOf]
  refine ⟨hvalue ▸ hw, hcontent ▸ he, fun {m w} hm => ?_⟩
  by_cases hmn : m = n
  · subst hmn
    obtain ⟨d, hd', hc⟩ := valueOf_eq_some.1 hm
    exact contentOf_eq_some.2 ⟨d, hd', hv d w (hd.symm.trans hd') hc, hc⟩
  · rw [valueOf, hn m hmn] at hm
    rw [contentOf, hn m hmn]
    exact h.value hm

theorem of_plain (ho : L'.nodeOf = L.nodeOf) (hv : L.valueOf n = none)
    (hv' : ∀ d, o = some d → d.content.value? = none)
    (he : Indexes L'.uniqued (Function.update L.contentOf n (o.bind Node.key?))) :
    L'.Interned := by
  refine h.of_node hn hd ?_ he fun d v hd hc => ?_
  · rw [Option.bind_eq_none_iff.2 hv', ← hv, Function.update_eq_self, ho]
    exact h.wrapped
  · rw [← Content.value?_eq_some, hv' d hd] at hc
    cases hc

theorem of_unshared (ho : L'.nodeOf = L.nodeOf) (hu : L'.uniqued = L.uniqued)
    (hv : L.valueOf n = none) (hv' : ∀ d, o = some d → d.content.value? = none)
    (hc : L.contentOf n = none) (hc' : ∀ d, o = some d → d.storage ≠ .uniqued) :
    L'.Interned := by
  refine h.of_plain hn hd ho hv hv' ?_
  rw [Option.bind_eq_none_iff.2 fun d hd => Node.key?_eq_none.2 (hc' d hd), ← hc,
    Function.update_eq_self, hu]
  exact h.entered

end Changes

end Interned

structure Wrapping (L : Ledger) : Prop extends L.Interned where
  live : ∀ {v n}, L.nodeOf[v]? = some n → ∃ k, L.values.get? v = some k

theorem Wrapping.of_interned {M : Ledger} (h : L.Wrapping) (hi : M.Interned)
    (hv : M.values = L.values) (ho : M.nodeOf = L.nodeOf) : M.Wrapping :=
  ⟨hi, by rw [hv, ho]; exact h.live⟩

end Ledger

theorem Store.wrapsLive_iff {s : Store} : s.WrapsLive ↔
    ∀ {v n}, s.ledger.nodeOf[v]? = some n → ∃ k, s.ledger.values.get? v = some k := by
  have hlive (v : ValueId) : (∃ k, s.ledger.values.get? v = some k) ↔
      ∃ d, s.values.get? v = some d := by
    simp only [ledger, Arena.get?_map, Option.map_eq_some_iff]
    constructor
    · rintro ⟨_, d, hd, -⟩
      exact ⟨d, hd⟩
    · rintro ⟨d, hd⟩
      exact ⟨_, d, hd, rfl⟩
  simp only [hlive]
  rfl

namespace Edit

variable {v : ValueId} {n : NodeId} {i : Nat} {ops : List (Option NodeId)} {target : Option NodeId}
variable {text : String}

/-- A store whose nodes are interned. -/
def Interned (s : Store) : Prop := s.ledger.Interned

def Wrapping (s : Store) : Prop := s.ledger.Wrapping

theorem Fixes.wrapping {α : Type} {e : Edit α} (h : Fixes Store.ledger e) : Keeps Wrapping e :=
  h.keeps Ledger.Wrapping

theorem keeps_dropValueNode_interned : Keeps Interned (dropValueNode v) := by
  intro s hs
  unfold dropValueNode
  rw [ends_bind, ends_get]
  split
  next => exact hs
  next n hn =>
    have hv : s.ledger.valueOf n = some v := (hs.wrapped v n).1 hn
    refine Ledger.Interned.of_node hs (n := n) (o := none) (fun m hm => ?_) ?_ ?_ ?_ (by simp)
    · exact (Arena.get?_erase ..).trans (if_neg hm.symm)
    · exact (Arena.get?_erase ..).trans (if_pos rfl)
    · exact hs.wrapped.erase hv
    · exact hs.entered.erase (hs.value hv)

/-- How a node and the table of uniqued nodes stand after the content of the node has changed. A
uniqued node is entered anew, unless another node has the content already. -/
inductive Reinterns (L : Ledger) (n : NodeId) (d : Node) (c : Content) :
    Storage → Std.ExtTreeMap Content NodeId → Prop
  | unshared (hunshared : d.storage ≠ .uniqued) : Reinterns L n d c d.storage L.uniqued
  | entered (huniqued : d.storage = .uniqued) (hfree : (L.uniqued.erase d.content)[c]? = none) :
      Reinterns L n d c .uniqued ((L.uniqued.erase d.content).insert c n)
  | demoted (m : NodeId) (huniqued : d.storage = .uniqued)
      (htaken : (L.uniqued.erase d.content)[c]? = some m) :
      Reinterns L n d c .distinct (L.uniqued.erase d.content)

namespace Reinterns

variable {L : Ledger} {d : Node} {c : Content} {k : Storage} {t : Std.ExtTreeMap Content NodeId}

theorem indexes (h : Reinterns L n d c k t) (hL : L.Interned) (hd : L.nodes.get? n = some d) :
    Indexes t (Function.update L.contentOf n (Node.key? ⟨k, c⟩)) := by
  have hcontent := Ledger.contentOf_of_get? hd
  have herased (hu : d.storage = .uniqued) :
      Indexes (L.uniqued.erase d.content) (Function.update L.contentOf n none) :=
    hL.entered.erase (hcontent.trans (Node.key?_eq_some.2 ⟨hu, rfl⟩))
  cases h with
  | unshared hu =>
    have hkey : Node.key? ⟨d.storage, c⟩ = none := Node.key?_eq_none.2 hu
    rw [hkey, ← Node.key?_eq_none.2 hu, ← hcontent, Function.update_eq_self]
    exact hL.entered
  | entered hu hfree =>
    have hinsert := (herased hu).insert hfree (Function.update_self ..)
    rw [Function.update_idem] at hinsert
    exact hinsert
  | demoted m hu htaken => exact herased hu

theorem storage (h : Reinterns L n d c k t) (hL : L.Interned) (hd : L.nodes.get? n = some d) :
    k = d.storage ∨ d.storage = .uniqued ∧ k = .distinct ∧
      ∃ m, m ≠ n ∧ L.contentOf m = some c := by
  cases h with
  | unshared => exact .inl rfl
  | entered hu => exact .inl hu.symm
  | demoted m hu htaken =>
    rw [getElem?_erase_eq_ite] at htaken
    split at htaken
    · cases htaken
    next hne =>
      have hm := (hL.entered c m).1 htaken
      refine .inr ⟨hu, rfl, m, fun hmn => hne ?_, hm⟩
      rw [hmn, Ledger.contentOf_of_get? hd] at hm
      exact (Node.key?_eq_some.1 hm).2

/-- A node that wraps a value stays uniqued, since no other node has its content. -/
theorem storage_of_value (h : Reinterns L n d c k t) (hL : L.Interned)
    (hd : L.nodes.get? n = some d) {v : ValueId} (hdv : d.content = .value v) (hc : c = .value v) :
    k = .uniqued := by
  have hkey := hL.value (Ledger.valueOf_eq_some.2 ⟨d, hd, hdv⟩)
  obtain rfl | ⟨-, -, m, hmn, hm⟩ := h.storage hL hd
  · exact (Node.key?_eq_some.1 ((Ledger.contentOf_of_get? hd).symm.trans hkey)).1
  · exact absurd (hL.entered.inj (hc ▸ hm) hkey) hmn

end Reinterns

theorem ends_retargetOperand_reinterns {s : Store} {m : NodeId} (hs : Interned s) :
    Ends (retargetOperand n i m) s (fun _ s' => ∃ d k, s.metadata.nodes.get? n = some d ∧
      Reinterns s.ledger n d (d.withOperand i m).content k s'.metadata.uniqued ∧
      s'.metadata.nodes.get? n = some ⟨k, (d.withOperand i m).content⟩ ∧
      (∀ x, x ≠ n → s'.metadata.nodes.get? x = s.metadata.nodes.get? x) ∧
      s'.metadata.nodeOf = s.metadata.nodeOf) fun _ _ => True := by
  refine ends_bind.2 (ends_lift.2 ⟨fun d hd => ?_, fun _ _ => trivial⟩)
  have hd := Query.node_ok.1 hd
  have hentry (hu : d.storage = .uniqued) : s.metadata.uniqued[d.content]? = some n :=
    (hs.entered _ n).2 (Ledger.contentOf_eq_some.2 ⟨d, hd, hu, rfl⟩)
  rw [ends_bind, ends_modifyNode hd]
  let f : Node → Node := fun d => d.withOperand i m
  have hstorage : (f d).storage = d.storage := d.withOperand_storage i m
  have htrack : Fixes Store.ledger (track (.operand n i) m) := fixes_track
  refine Ends.bind ((htrack.ends _).mono (fun _ _ h => h) fun _ _ _ => trivial) ?_
  intro _ p hp
  have hnodes : p.metadata.nodes = s.metadata.nodes.modify n f := congrArg Ledger.nodes hp
  have huniqued : p.metadata.uniqued = s.metadata.uniqued := congrArg Ledger.uniqued hp
  have hnodeOf : p.metadata.nodeOf = s.metadata.nodeOf := congrArg Ledger.nodeOf hp
  have hself : p.metadata.nodes.get? n = some (f d) := by
    rw [hnodes, Arena.get?_modify, if_pos rfl, hd, Option.map_some]
  have hother (x : NodeId) (hx : x ≠ n) : p.metadata.nodes.get? x = s.metadata.nodes.get? x := by
    rw [hnodes, Arena.get?_modify, if_neg hx.symm]
  split
  next hunique =>
    have hentry : p.metadata.uniqued[d.content]? = some n := huniqued ▸ hentry hunique
    rw [ends_bind, ends_modify, Store.modifyMetadata, if_pos hentry, ends_bind]
    refine (ends_lift_ok (a := f d) ?_).2 ?_
    · exact Query.node_ok.2 hself
    rw [ends_bind, ends_get]
    split
    next hnone =>
      refine ⟨d, .uniqued, hd, ?_, ?_, hother, hnodeOf⟩
      · change Reinterns s.ledger n d _ _ ((p.metadata.uniqued.erase d.content).insert (f d).content n)
        rw [huniqued] at hnone ⊢
        exact .entered hunique hnone
      · rw [← hunique, ← hstorage]
        exact hself
    next x hx =>
      refine (ends_modifyNode (d := f d) ?_ _).2 ⟨d, .distinct, hd, ?_, ?_, fun y hy => ?_, hnodeOf⟩
      · exact hself
      · change Reinterns s.ledger n d _ _ (p.metadata.uniqued.erase d.content)
        rw [huniqued] at hx ⊢
        exact .demoted x hunique hx
      · refine (Arena.get?_modify ..).trans ((if_pos rfl).trans ?_)
        exact congrArg (Option.map _) hself
      · exact ((Arena.get?_modify ..).trans (if_neg hy.symm)).trans (hother y hy)
  next hshared =>
    refine ⟨d, d.storage, hd, huniqued ▸ .unshared hshared, ?_, hother, hnodeOf⟩
    rw [← hstorage]
    exact hself

theorem carries_retargetOperand_interned {m : NodeId} :
    Carries (fun _ _ => False) Interned (retargetOperand n i m) := by
  intro s hs
  refine (ends_retargetOperand_reinterns hs).mono ?_ fun _ _ _ => False.elim
  rintro _ s' ⟨d, k, hd, hk, hself, hother, hnodeOf⟩
  set c := (d.withOperand i m).content
  have hvalue : c.value? = d.content.value? := d.withOperand_value? i m
  have hwrapped : Indexes s'.metadata.nodeOf (Function.update s.ledger.valueOf n c.value?) := by
    rw [hvalue, ← Ledger.valueOf_of_get? (L := s.ledger) hd, Function.update_eq_self, hnodeOf]
    exact hs.wrapped
  refine Ledger.Interned.of_node hs (n := n) (o := some ⟨k, c⟩) hother hself hwrapped
    (hk.indexes hs hd) ?_
  rintro _ v ⟨⟩ hc
  have hdv : d.content = .value v := Content.value?_eq_some.1
    (hvalue.symm.trans (Content.value?_eq_some.2 hc))
  exact hk.storage_of_value hs hd hdv hc

theorem robust_interned : Robust Store.ledger (fun _ _ => False) Interned where
  view h hs := by rwa [Interned, h]
  operand := carries_retargetOperand_interned
  node {s old new n} hs hold hnew := by
    have hv : s.ledger.valueOf n = some old := (hs.wrapped old n).1 hold
    obtain ⟨d, hd, hc⟩ := Ledger.valueOf_eq_some.1 hv
    obtain ⟨d', hd', hu, -⟩ := Ledger.contentOf_eq_some.1 (hs.value hv)
    obtain rfl := Option.some.inj (hd.symm.trans hd')
    rw [ends_bind, ends_modify]
    refine (ends_modifyNode (d := d) ?_ _).2 ?_
    · exact hd
    have hentry : s.ledger.uniqued[Content.value new]? = none := (hs.uniqued_value new).trans hnew
    have hwrapped := (hs.wrapped.erase hv).insert (k := new) (v := n)
      (by rw [getElem?_erase_eq_ite, show s.ledger.nodeOf[new]? = none from hnew, ite_self])
      (Function.update_self ..)
    have hentered := (hs.entered.erase (hs.value hv)).insert (k := .value new) (v := n)
      (by rw [getElem?_erase_eq_ite, hentry, ite_self]) (Function.update_self ..)
    rw [Function.update_idem] at hwrapped hentered
    have hkey : Node.key? { d with content := .value new } = some (.value new) :=
      Node.key?_eq_some.2 ⟨hu, rfl⟩
    rw [← hkey] at hentered
    refine Ledger.Interned.of_node hs (n := n) (o := some { d with content := .value new })
      (fun m hm => ?_) ?_ hwrapped hentered fun _ w hw _ => Option.some.inj hw ▸ hu
    · exact (Arena.get?_modify ..).trans (if_neg hm.symm)
    · refine (Arena.get?_modify ..).trans ((if_pos rfl).trans ?_)
      exact congrArg (Option.map _) hd
  drop := keeps_dropValueNode_interned
  erase := .modify fun _ hs => hs.congr rfl rfl rfl

section NewNodes

theorem keeps_pushNode_wrapping {d : Node} (hc : d.content.value? = none)
    (hd : d.storage ≠ .uniqued) : Keeps Wrapping (pushNode d) := by
  refine Keeps.modifyGet fun s hs => hs.of_interned (M := Store.ledger _) ?_ rfl rfl
  have hgone : s.ledger.nodes.get? s.metadata.nodes.next = none := Arena.get?_next _
  refine hs.of_unshared (n := s.metadata.nodes.next) (o := some d) (fun m hm => ?_) ?_ rfl rfl
    (Ledger.valueOf_of_gone hgone) ?_ (Ledger.contentOf_of_gone hgone) ?_
  · exact (Arena.get?_push ..).trans (if_neg hm)
  · exact (Arena.get?_push ..).trans (if_pos rfl)
  · rintro _ ⟨⟩
    exact hc
  · rintro _ ⟨⟩
    exact hd

theorem keeps_internNode_wrapping {c : Content} {register : NodeId → Edit Unit}
    (hc : c.value? = none) (hr : ∀ n, Fixes Store.ledger (register n)) :
    Keeps Wrapping (internNode c register) := by
  intro s hs
  unfold internNode
  rw [ends_bind, ends_get]
  split
  next => exact hs
  next hnone =>
    have hgone : s.ledger.nodes.get? s.metadata.nodes.next = none := Arena.get?_next _
    rw [ends_bind, pushNode, ends_modifyGet, ends_bind, ends_modify]
    refine Keeps.bind (hr _).wrapping (fun _ => .pure _) _ (hs.of_interned (M := Store.ledger _) ?_
      rfl rfl)
    refine hs.of_plain (n := s.metadata.nodes.next) (o := some ⟨.uniqued, c⟩) (fun m hm => ?_) ?_
      rfl (Ledger.valueOf_of_gone hgone) ?_ ?_
    · exact (Arena.get?_push ..).trans (if_neg hm)
    · exact (Arena.get?_push ..).trans (if_pos rfl)
    · rintro _ ⟨⟩
      exact hc
    · exact hs.entered.insert hnone (Ledger.contentOf_of_gone hgone)

theorem keeps_stringNode_wrapping : Keeps Wrapping (stringNode text) :=
  keeps_internNode_wrapping rfl fun _ => .pure _

theorem keeps_tuple_wrapping : Keeps Wrapping (tuple ops) :=
  .bind (.forM (fun _ => Fixes.wrapping fixes_expectNode) _) fun _ =>
    keeps_internNode_wrapping rfl fun _ => fixes_trackOperands

theorem keeps_distinctTuple_wrapping : Keeps Wrapping (distinctTuple ops) :=
  .bind (.forM (fun _ => Fixes.wrapping fixes_expectNode) _) fun _ =>
    .bind (keeps_pushNode_wrapping rfl (by simp)) fun _ =>
      .bind (Fixes.wrapping fixes_trackOperands) fun _ => .pure _

theorem keeps_temporaryTuple_wrapping : Keeps Wrapping (temporaryTuple ops) :=
  .bind (.forM (fun _ => Fixes.wrapping fixes_expectNode) _) fun _ =>
    .bind (keeps_pushNode_wrapping rfl (by simp)) fun _ =>
      .bind (Fixes.wrapping fixes_makeReplaceable) fun _ =>
        .bind (Fixes.wrapping fixes_trackOperands) fun _ => .pure _

theorem keeps_valueNode_wrapping : Keeps Wrapping (valueNode v) := by
  intro s hs
  refine ends_bind.2 (ends_lift.2 ⟨fun kind hkind => ?_, fun _ _ => hs⟩)
  obtain ⟨dv, hdv, -⟩ := Query.kind_ok.1 hkind
  have hlive : s.ledger.values.get? v = some dv.listing :=
    (Arena.get?_map ..).trans (congrArg (Option.map _) hdv)
  split
  · exact hs
  · rw [ends_bind, ends_get]
    split
    next => exact hs
    next hnone =>
      have hgone : s.ledger.nodes.get? s.metadata.nodes.next = none := Arena.get?_next _
      rw [ends_bind, pushNode, ends_modifyGet, ends_bind, ends_modify]
      refine Keeps.bind (Fixes.wrapping fixes_makeReplaceable) (fun _ => .pure _) _ ⟨?_, ?_⟩
      · refine hs.of_node (n := s.metadata.nodes.next) (o := some ⟨.uniqued, .value v⟩)
          (fun m hm => ?_) ?_ ?_ ?_ ?_
        · exact (Arena.get?_push ..).trans (if_neg hm)
        · exact (Arena.get?_push ..).trans (if_pos rfl)
        · exact hs.wrapped.insert hnone (Ledger.valueOf_of_gone hgone)
        · exact hs.entered.insert ((hs.uniqued_value v).trans hnone)
            (Ledger.contentOf_of_gone hgone)
        · rintro _ w ⟨⟩ -
          rfl
      · intro w n hn
        change (s.metadata.nodeOf.insert v s.metadata.nodes.next)[w]? = some n at hn
        rw [getElem?_insert_eq_ite] at hn
        split at hn
        next hvw => exact ⟨dv.listing, hvw ▸ hlive⟩
        next => exact hs.live hn

end NewNodes

section NodeOperands

def Unshared (n : NodeId) (s : Store) : Prop :=
  s.ledger.Wrapping ∧ ∃ d, s.ledger.nodes.get? n = some d ∧ d.storage ≠ .uniqued

theorem Fixes.unshared {α : Type} {e : Edit α} (h : Fixes Store.ledger e) : Keeps (Unshared n) e :=
  h.keeps fun L => L.Wrapping ∧ ∃ d, L.nodes.get? n = some d ∧ d.storage ≠ .uniqued

theorem Keeps.unshared {α : Type} {e : Edit α} (h : Keeps (Unshared n) e) {s : Store} {d : Node}
    (hs : Wrapping s) (hd : s.metadata.nodes.get? n = some d) (hu : d.storage ≠ .uniqued) :
    Ends e s (fun _ => Wrapping) fun _ => Wrapping :=
  (h s ⟨hs, d, hd, hu⟩).mono (fun _ _ h => h.1) fun _ _ h => h.1

theorem Ledger.Interned.plain_of_unshared {L : Ledger} {d : Node} (h : L.Interned)
    (hd : L.nodes.get? n = some d) (hu : d.storage ≠ .uniqued) :
    L.valueOf n = none ∧ L.contentOf n = none := by
  have hc : L.contentOf n = none :=
    (Ledger.contentOf_of_get? hd).trans (Node.key?_eq_none.2 hu)
  refine ⟨?_, hc⟩
  rw [Option.eq_none_iff_forall_ne_some]
  intro w hw
  cases hc.symm.trans (h.value hw)

theorem keeps_putNodeOperands_unshared : Keeps (Unshared n) (putNodeOperands n ops) := by
  rintro s ⟨hs, d, hd, hu⟩
  obtain ⟨hplain, hkey⟩ := Ledger.Interned.plain_of_unshared hs.toInterned hd hu
  have hself : (s.metadata.nodes.modify n fun d => { d with content := .tuple ops }).get? n =
      some { d with content := .tuple ops } := by
    refine (Arena.get?_modify ..).trans ((if_pos rfl).trans ?_)
    exact congrArg (Option.map _) hd
  refine (ends_modifyNode (d := d) ?_ _).2 ⟨hs.of_interned ?_ rfl rfl, _, hself, hu⟩
  · exact hd
  refine hs.of_unshared (n := n) (fun m hm => ?_) hself rfl rfl hplain ?_ hkey ?_
  · exact (Arena.get?_modify ..).trans (if_neg hm.symm)
  · rintro _ ⟨⟩
    rfl
  · rintro _ ⟨⟩
    exact hu

theorem keeps_setNodeOperand_wrapping : Keeps Wrapping (setNodeOperand n i target) := by
  intro s hs
  refine ends_bind.2 (ends_lift.2 ⟨fun os hos => ?_, fun _ _ => hs⟩)
  obtain ⟨d, hd, hu, -⟩ := Query.editableOperands_ok.1 hos
  refine Keeps.unshared ?_ hs hd hu
  split
  · exact .lift _
  · exact .bind (Fixes.unshared fixes_expectNode) fun _ =>
      .bind keeps_putNodeOperands_unshared fun _ =>
        .ite (.bind (Fixes.unshared fixes_untrackOption) fun _ => Fixes.unshared fixes_trackOption)
          (.pure _)

theorem keeps_insertNodeOperand_wrapping : Keeps Wrapping (insertNodeOperand n i target) := by
  intro s hs
  refine ends_bind.2 (ends_lift.2 ⟨fun os hos => ?_, fun _ _ => hs⟩)
  obtain ⟨d, hd, hu, -⟩ := Query.editableOperands_ok.1 hos
  refine Keeps.unshared ?_ hs hd hu
  exact .guard (.lift _) (.bind (Fixes.unshared fixes_expectNode) fun _ =>
    .bind (Fixes.unshared fixes_shiftOperands) fun _ =>
      .bind keeps_putNodeOperands_unshared fun _ => Fixes.unshared fixes_trackOption)

theorem keeps_pushNodeOperand_wrapping : Keeps Wrapping (pushNodeOperand n target) :=
  .bind (.lift _) fun _ => keeps_insertNodeOperand_wrapping

theorem keeps_removeNodeOperand_wrapping : Keeps Wrapping (removeNodeOperand n i) := by
  intro s hs
  refine ends_bind.2 (ends_lift.2 ⟨fun os hos => ?_, fun _ _ => hs⟩)
  obtain ⟨d, hd, hu, -⟩ := Query.editableOperands_ok.1 hos
  refine Keeps.unshared ?_ hs hd hu
  split
  · exact .lift _
  · exact .bind (Fixes.unshared fixes_untrackOption) fun _ =>
      .bind (Fixes.unshared fixes_shiftOperands) fun _ =>
        .bind keeps_putNodeOperands_unshared fun _ => .pure _

end NodeOperands

section Temporaries

theorem keeps_eraseTemporary_wrapping : Keeps Wrapping (eraseTemporary n) := by
  intro s hs
  refine ends_bind.2 (ends_lift.2 ⟨fun _ ht => ?_, fun _ _ => hs⟩)
  obtain ⟨d, hd, htemp⟩ := Query.expectTemporary_ok.1 ht
  have hu : d.storage ≠ .uniqued := by simp [htemp]
  rw [ends_bind, ends_get]
  dsimp only
  split
  · exact hs
  rw [untrackOperands, bind_assoc]
  refine ends_bind.2 (ends_lift.2 ⟨fun os _ => ?_, fun _ _ => hs⟩)
  have huntrack : Keeps (Unshared n) (os.zipIdx.forM fun op =>
      untrackOption (.operand n op.2) op.1) :=
    .forM (fun _ => Fixes.unshared fixes_untrackOption) _
  refine Ends.bind ((huntrack s ⟨hs, d, hd, hu⟩).mono (fun _ _ h => h) fun _ _ h => h.1) ?_
  rintro _ p ⟨hp, dp, hdp, hup⟩
  obtain ⟨hplain, hkey⟩ := Ledger.Interned.plain_of_unshared hp.toInterned hdp hup
  refine hp.of_interned (M := Store.ledger _) (hp.of_unshared (n := n) (o := none)
    (fun m hm => ?_) ?_ rfl rfl hplain (by simp) hkey (by simp)) rfl rfl
  · exact (Arena.get?_erase ..).trans (if_neg hm.symm)
  · exact (Arena.get?_erase ..).trans (if_pos rfl)

section Settling

variable {s : Store} {d : Node} {k : Storage} (hs : Wrapping s)
variable (hd : s.metadata.nodes.get? n = some d) (hu : d.storage ≠ .uniqued)

include hd

theorem ends_settle_ledger : Ends (settle n k) s (fun _ s' =>
    (∀ m, m ≠ n → s'.ledger.nodes.get? m = s.ledger.nodes.get? m) ∧
      s'.ledger.nodes.get? n = some { d with storage := k } ∧
      s'.ledger.values = s.ledger.values ∧ s'.ledger.nodeOf = s.ledger.nodeOf ∧
      s'.ledger.uniqued = s.ledger.uniqued) fun _ _ => False := by
  unfold settle
  rw [ends_bind, ends_modifyNode hd, ends_bind, ends_get]
  refine ⟨fun m hm => (Arena.get?_modify ..).trans (if_neg hm.symm), ?_, rfl, rfl, rfl⟩
  exact (Arena.get?_modify ..).trans ((if_pos rfl).trans (congrArg (Option.map _) hd))

include hs hu

theorem value?_of_unshared : d.content.value? = none := by
  have hplain := (Ledger.Interned.plain_of_unshared hs.toInterned hd hu).1
  exact (Ledger.valueOf_of_get? hd).symm.trans hplain

theorem ends_settle_wrapping (hk : k ≠ .uniqued) :
    Ends (settle n k) s (fun _ => Wrapping) fun _ _ => False := by
  obtain ⟨hplain, hkey⟩ := Ledger.Interned.plain_of_unshared hs.toInterned hd hu
  refine (ends_settle_ledger hd).weaken ?_
  rintro _ s' ⟨hn, hself, hvalues, hnodeOf, huniqued⟩
  refine hs.of_interned (hs.of_unshared hn hself hnodeOf huniqued hplain ?_ hkey ?_) hvalues hnodeOf
  · rintro _ ⟨⟩
    exact (value?_of_unshared hs hd hu :)
  · rintro _ ⟨⟩
    exact hk

theorem ends_settle_uniqued (hnone : s.metadata.uniqued[d.content]? = none) : Ends (do
      settle n .uniqued
      modify (·.modifyMetadata fun md => { md with uniqued := md.uniqued.insert d.content n })
      return n) s (fun _ => Wrapping) fun _ _ => False := by
  obtain ⟨hplain, hkey⟩ := Ledger.Interned.plain_of_unshared hs.toInterned hd hu
  refine Ends.bind (ends_settle_ledger hd) ?_
  rintro _ s' ⟨hn, hself, hvalues, hnodeOf, huniqued⟩
  rw [ends_bind, ends_modify, ends_pure]
  refine hs.of_interned (M := Store.ledger _) (hs.of_plain hn hself hnodeOf hplain ?_ ?_) hvalues
    hnodeOf
  · rintro _ ⟨⟩
    exact (value?_of_unshared hs hd hu :)
  · have hinsert := hs.entered.insert hnone hkey
    rw [← huniqued] at hinsert
    exact hinsert

end Settling

theorem keeps_replaceWithDistinct_wrapping : Keeps Wrapping (replaceWithDistinct n) := by
  intro s hs
  refine ends_bind.2 (ends_lift.2 ⟨fun _ ht => ?_, fun _ _ => hs⟩)
  obtain ⟨d, hd, htemp⟩ := Query.expectTemporary_ok.1 ht
  have hu : d.storage ≠ .uniqued := by simp [htemp]
  have hsettle := ends_settle_wrapping (k := .distinct) hs hd hu (by simp)
  exact Ends.bind (hsettle.weaken fun _ _ h => h) fun _ _ h => h

end Temporaries

end Edit

end ShaderIR
