import ShaderIR.Proofs.ForsakenNodes
import ShaderIR.Proofs.PlainMerges
import ShaderIR.Proofs.ReplacementWiring

/-! Pointing everything that holds a temporary node at a tuple or a string. Only nodes that wrap
values merge on the way, so a location that has come to hold the new node keeps it. What is
tracked of a temporary node is listed in the order in which it came to be held. -/

open ShaderIR.Core

namespace ShaderIR

namespace Store

variable {s s' s'' : Store} {r r' : Location → Option NodeId} {l : Location} {n m p : NodeId}

/-- Every location that holds a node still does, and the node wraps no value. -/
structure HoldsOn (s : Store) (p : NodeId) (s' : Store) : Prop where
  held : ∀ {l}, s.core.held l = some p → s'.core.held l = some p
  plain : ∀ v : ValueId, s'.metadata.nodeOf[v]? ≠ some p

theorem HoldsOn.trans (h : s.HoldsOn p s') (h' : s'.HoldsOn p s'') : s.HoldsOn p s'' :=
  ⟨fun hl => h'.held (h.held hl), h'.plain⟩

def admits (s : Store) (n : NodeId) : Location → Bool
  | .wrapper _ => (s.metadata.wrapperOf[n]?).isNone
  | _ => true

structure Repoints (s : Store) (p : NodeId) (s' : Store) (l : Location) (m : NodeId) : Prop
    extends s.HoldsOn p s' where
  moved : s.admits m l = true → s'.core.held l = some m

theorem Retargeted.repoints (h : s.Retargeted s' r l m) (hl : s.core.held l ≠ some p)
    (hp : ∀ v : ValueId, s.metadata.nodeOf[v]? ≠ some p) (hw : s'.wraps = s.wraps) :
    s.Repoints p s' l m := by
  have hnodeOf : s'.metadata.nodeOf = s.metadata.nodeOf := congrArg Prod.snd hw
  refine ⟨⟨fun {l'} hl' => ?_, fun v => hnodeOf ▸ hp v⟩, fun _ => ?_⟩
  · have hne : l' ≠ l := fun heq => hl (heq ▸ hl')
    rw [h.held, Function.update_of_ne hne, hl']
  · rw [h.held, Function.update_self]

end Store

open Store Wiring

namespace Edit

variable {nested : ValueId → ValueId → Edit Unit} {k : Nat}
variable {s s₀ : Store} {r r₀ : Location → Option NodeId} {w old new : ValueId} {l : Location}
variable {n m p : NodeId}

def MergesHoldOn (k : Nat) (nested : ValueId → ValueId → Edit Unit) : Prop :=
  ∀ {s : Store} {r : Location → Option NodeId} {w e : ValueId} {d : Value} {p : NodeId},
    s.core.Sound r → s.values.get? w = some d → d.kind = .metadata → ¬ s.IsEntered w →
    s.IsEntered e → s.metadata.wrapperOf.size < k →
    (∀ v : ValueId, s.metadata.nodeOf[v]? ≠ some p) →
    Ends (nested w e) s (fun _ s' => s.HoldsOn p s') fun _ _ => True

theorem ends_retargetWrapper_repoints (hn : MergesWrappers k nested) (hr : MergesHoldOn k nested)
    (hs : s.core.Sound r) (hl : r (.wrapper w) = none) (hheld : s.core.held (.wrapper w) = some n)
    (hold : s.metadata.wrapperOf[n]? = some w) (hsize : s.metadata.wrapperOf.size ≤ k)
    (hlt : m.index < s.metadata.nodes.size) (hnm : n ≠ m) (hnp : n ≠ p)
    (hp : ∀ v : ValueId, s.metadata.nodeOf[v]? ≠ some p) :
    Ends (retargetWrapper nested w n m) s (fun _ s' => s.Repoints p s' (.wrapper w) m)
      fun _ _ => True := by
  obtain ⟨d, hd, hk⟩ := held_wrapper hheld
  obtain ⟨hu, hnot, husize, -⟩ := unenter_spec hs hl hheld hold
  have hother : s.core.held (.wrapper w) ≠ some p := by
    rw [hheld]
    exact fun h => hnp (Option.some.inj h)
  refine (ends_retargetWrapper_iff hold).2 ⟨fun e he => ?_, fun hnone => ?_⟩
  · rw [ends_bind]
    refine Ends.mono ((hn hu hd hk hnot ⟨m, he⟩ (by omega)).and
      (hr (p := p) hu hd hk hnot ⟨m, he⟩ (by omega) hp)) ?_ fun _ _ h => h.1.elim
    rintro _ q ⟨⟨⟨r', hq⟩, hunused, hnode⟩, hret⟩
    refine Ends.weaken (ends_destroyMerged hq hd hk hnot hunused hnode) ?_
    rintro _ s' ⟨t, dq, hdq, hkq, rfl, -, hheld'⟩
    refine ⟨⟨fun {l} hlp => ?_, hret.plain⟩, fun hadmits => ?_⟩
    · have hlw : l ≠ .wrapper w := fun heq => hother (heq ▸ hlp)
      rw [hheld', forget_of_ne (held_attachment_of_wrapper hq.sound hdq hkq) hlw]
      exact hret.held hlp
    · -- The node has a wrapper already.
      have he : (s.metadata.wrapperOf.erase n)[m]? = some e := he
      rw [getElem?_erase_eq_ite, if_neg hnm] at he
      rw [admits, he] at hadmits
      cases hadmits
  · have hwraps := (fixes_repoint_wraps (w := w) (m := m)).ends (s.unenter n)
    exact ((ends_repoint hs hl hheld hold hnone hlt hd hk).and hwraps).mono
      (fun _ _ h => h.1.repoints hother hp h.2) fun _ _ _ => trivial

theorem ends_retarget_repoints (hn : MergesWrappers k nested) (hr : MergesHoldOn k nested)
    {rest : List Location} (h : Store.Visiting s₀ r₀ n (l :: rest) s r)
    (hsize : s₀.metadata.wrapperOf.size ≤ k) (hlt : m.index < s₀.metadata.nodes.size) (hnm : n ≠ m)
    (hnp : n ≠ p) (hp : ∀ v : ValueId, s.metadata.nodeOf[v]? ≠ some p) :
    Ends (retarget nested n m l) s (fun _ s' => s.Repoints p s' l m) fun _ _ => True := by
  have hs := h.sound
  obtain ⟨-, hl, hheld⟩ := h.unvisited l (List.mem_cons_self ..)
  have hlt' : m.index < s.metadata.nodes.size := h.merged.nodes ▸ hlt
  have hother : s.core.held l ≠ some p := by
    rw [hheld]
    exact fun h => hnp (Option.some.inj h)
  cases l with
  | operand t i =>
    exact ((ends_retargetOperand hs hl hheld hlt').and (fixes_retargetOperand_wraps.ends s)).mono
      (fun _ _ h => h.1.1.repoints hother hp h.2) fun _ _ _ => trivial
  | handle j =>
    exact ((ends_retargetHandle hs hl hheld hlt').and (fixes_retargetHandle.ends s)).mono
      (fun _ _ h => h.1.1.repoints hother hp h.2) fun _ _ _ => trivial
  | attachment v tag =>
    exact ((ends_retargetAttachment hs hl hheld hlt').and
      (fixes_retargetAttachment.ends s)).mono
      (fun _ _ h => h.1.1.repoints hother hp h.2) fun _ _ _ => trivial
  | wrapper w =>
    exact ends_retargetWrapper_repoints hn hr hs hl hheld (h.wrapper (List.mem_cons_self ..))
      (Nat.le_trans h.merged.wrappers hsize) hlt' hnm hnp hp

theorem ends_replaceNodeStep_holdsOn (hn : MergesWrappers k nested) (hr : MergesHoldOn k nested)
    (hs : s.core.Sound r) (hsize : s.metadata.wrapperOf.size ≤ k) (hnp : n ≠ p)
    (hp : ∀ v : ValueId, s.metadata.nodeOf[v]? ≠ some p) : Ends (replaceNodeStep nested n m) s
      (fun _ s' => s.HoldsOn p s') fun _ _ => True := by
  refine ends_replaceNodeStep_of (fun _ => ⟨id, hp⟩) (fun hnm hold hnew => ?_) fun _ _ _ => trivial
  obtain ⟨d, hd⟩ := hnew
  refine Ends.mono (ends_forM (E := fun _ _ => True) (fun rest s' =>
    (∃ r', Store.Visiting s r n rest s' r') ∧ s.HoldsOn p s') ?_ _ _
    ⟨⟨_, visiting_take hs hold⟩, id, hp⟩) (fun _ _ h => h.2) fun _ _ _ => trivial
  rintro l rest s' ⟨⟨r', h⟩, hret⟩
  exact ((ends_retarget hn h hsize (Arena.lt_size_of_get? hd)).and
    (ends_retarget_repoints hn hr h hsize (Arena.lt_size_of_get? hd) hnm hnp hret.plain)).mono
    (fun _ _ h => ⟨h.1, hret.trans h.2.toHoldsOn⟩) fun _ _ _ => trivial

theorem ends_moveValueNode_holdsOn (hn : MergesWrappers k nested) (hr : MergesHoldOn k nested)
    (hs : s.core.Sound r) (hsize : s.metadata.wrapperOf.size ≤ k)
    (hp : ∀ v : ValueId, s.metadata.nodeOf[v]? ≠ some p) : Ends (moveValueNode nested old new) s
      (fun _ s' => s.HoldsOn p s') fun _ _ => True := by
  unfold moveValueNode
  rw [ends_bind, ends_get]
  dsimp only
  cases hold : s.metadata.nodeOf[old]? with
  | none => exact ⟨id, hp⟩
  | some n =>
    have hnp : n ≠ p := fun heq => hp old (heq ▸ hold)
    obtain ⟨d, hd, hc⟩ := (hs.consistent.nodeOf old n).1 hold
    cases hnew : s.metadata.nodeOf[new]? with
    | none =>
      have hheld := held_modifyNode s.core hd fun d => { d with content := .value new }
      rw [setOperands_eq_self fun i => by rw [held_operand s.core hd, hc]; rfl] at hheld
      dsimp only
      rw [ends_bind, ends_modify]
      refine (ends_modifyNode (d := d) ?_ _).2 ⟨fun {l} hl => ?_, fun v => ?_⟩
      · exact hd
      · exact (congrFun hheld l).trans hl
      · change ((s.metadata.nodeOf.erase old).insert new n)[v]? ≠ some p
        rw [getElem?_insert_eq_ite, getElem?_erase_eq_ite]
        split
        · simpa using hnp
        · split
          · simp
          · exact hp v
    | some m =>
      refine Ends.bind (((ends_replaceNodeStep hn hs hsize).and
        (ends_replaceNodeStep_holdsOn (m := m) hn hr hs hsize hnp hp)).mono (fun _ _ h => h)
        fun _ _ _ => trivial) ?_
      rintro _ q ⟨⟨r', hq⟩, hret⟩
      refine Ends.weaken (ends_dropValueNode hq.sound) ?_
      rintro _ _ ⟨md, rfl, -, -, hno, -, hheld⟩
      refine ⟨fun {l} hl => ?_, fun v hv => ?_⟩
      · rw [hheld]
        exact hret.held hl
      · change md.nodeOf[v]? = some p at hv
        rw [hno, getElem?_erase_eq_ite] at hv
        split at hv
        · cases hv
        · exact hret.plain v hv

theorem mergesHoldOn_replaceWithin (k : Nat) : MergesHoldOn k (replaceWithin k) := by
  induction k with
  | zero => exact fun _ _ _ _ _ hlt => absurd hlt (Nat.not_lt_zero _)
  | succ k ih =>
    intro s r w e d p hs hd hk hw he hlt hp
    refine ends_replaceStep_unaddressed hs (fun hwe => hw (hwe ▸ he)) (fun dw hdw ha => ?_)
      (fun q hq _ => ?_) fun _ _ _ => trivial
    · obtain rfl := Option.some.inj (hd.symm.trans hdw)
      exact not_isMergeable hs hd ha (.inl hk)
    · have hsound := hq.sound
      obtain ⟨g, rfl⟩ := hq.uses
      exact (ends_moveValueNode_holdsOn (mergesWrappers_replaceWithin k) ih hsound
        (Nat.le_of_lt_succ hlt) hp).mono (fun _ _ h => ⟨h.held, h.plain⟩) fun _ _ h => h

theorem Rewrapping.admits_eq {rest : List Location} (h : Rewrapping s₀ n m rest s)
    (hl : l ∈ rest) : s.admits m l = s₀.admits m l := by
  cases l with
  | wrapper w =>
    obtain ⟨hs, -⟩ | ⟨-, hnone⟩ := h
    · have hwrapperOf : s.metadata.wrapperOf = s₀.metadata.wrapperOf :=
        congrArg Wiring.wrapperOf hs
      rw [admits, admits, hwrapperOf]
    · exact absurd hl (hnone w)
  | _ => rfl

theorem ends_replaceNodeStep_moves (hn : MergesWrappers k nested) (hm : MergesWirings k nested)
    (hr : MergesHoldOn k nested) (hs : s.Settled) (hsize : s.metadata.wrapperOf.size ≤ k)
    (hnm : n ≠ m) (hp : ∀ v : ValueId, s.metadata.nodeOf[v]? ≠ some m) :
    Ends (replaceNodeStep nested n m) s (fun _ s' => s.HoldsOn m s' ∧
      ∀ l ∈ s.metadata.tracker.tracked n, s.admits m l = true → s'.core.held l = some m)
      fun _ _ => True := by
  refine ends_replaceNodeStep_of (fun heq => absurd heq hnm) (fun _ hold hnew => ?_)
    fun _ _ _ => trivial
  obtain ⟨d, hd⟩ := hnew
  have hlt := Arena.lt_size_of_get? hd
  have hrec : s.RecordsWrappers s.core.held := hs.recordsWrappers
  have hstart : Rewrapping s n m (s.metadata.tracker.tracked n)
      (s.withTracker (s.metadata.tracker.take n).2) :=
    .inl ⟨rfl, fun w hw => (Tracker.mem_tracked hs.recorded.follows hold).2 (hrec hw)⟩
  refine Ends.mono (ends_forM (E := fun _ _ => True) (fun rest s' =>
    (∃ r', Store.Visiting s s.core.held n rest s' r') ∧ Rewrapping s n m rest s' ∧
      s.HoldsOn m s' ∧ ∀ l ∈ s.metadata.tracker.tracked n, l ∉ rest → s.admits m l = true →
        s'.core.held l = some m) ?_ _ _
    ⟨⟨_, visiting_take hs hold⟩, hstart, ⟨id, hp⟩, fun l hl hnot => absurd hl hnot⟩)
    (fun _ _ h => ⟨h.2.2.1, fun l hl => h.2.2.2 l hl List.not_mem_nil⟩) fun _ _ _ => trivial
  rintro l rest q ⟨⟨r', h⟩, hw, hq, hmoved⟩
  have hadmits := hw.admits_eq (List.mem_cons_self ..)
  refine ((ends_retarget hn h hsize hlt).and ((ends_retarget_rewrapping hn hm h hrec hsize hw).and
    (ends_retarget_repoints hn hr h hsize hlt hnm hnm hq.plain))).mono ?_ fun _ _ _ => trivial
  rintro _ s' ⟨hv, hw', hl⟩
  refine ⟨hv, hw', hq.trans hl.toHoldsOn, fun l' hl' hrest ha => ?_⟩
  by_cases heq : l' = l
  · exact heq ▸ hl.moved (hadmits.trans (heq ▸ ha))
  · exact hl.held (hmoved l' hl' (fun hmem => (List.mem_cons.1 hmem).elim heq hrest) ha)

end Edit

namespace Wiring

variable {c c' : Wiring} {w e u : ValueId} {n m : NodeId} {k : ValueKind} {i : Nat}

/-- Of two wrappers the one goes and the other takes its place. The other one stays, since the node
that it wraps wraps no value. -/
theorem Rewraps.supersedes (h : c.Rewraps n m c') (hnm : n ≠ m) (hw : c.wrapperOf[n]? = some w)
    (he : c.wrapperOf[m]? = some e) (hplain : ∀ x : ValueId, c.nodeOf[x]? ≠ some m)
    (hone : ∀ p : NodeId, c.wrapperOf[p]? = some e → p = m) :
    c'.kind w = none ∧ (c'.kind u = some k → (c.targets u)[i]? = some (some w) →
      (c'.targets u)[i]? = some (some e)) := by
  have he' : (c.unenter n).wrapperOf[m]? = some e := wrapperOf_unenter.trans ((if_neg hnm).trans he)
  cases h with
  | unwrapped hnone =>
    cases hnone.symm.trans hw
  | repointed x hx hnone =>
    cases hnone.symm.trans he'
  | merged x y q f hx hnot hy hf =>
    obtain rfl := Option.some.inj (hx.symm.trans hw)
    obtain rfl := Option.some.inj (hy.symm.trans he')
    have hne : x ≠ y := fun hxy => hnot (hxy ▸ ⟨m, he'⟩)
    have hdrop := hf.drop hnot hne
    have hstays : f y = y := by
      by_contra hfy
      obtain ⟨z, p, hz, hp⟩ := (hdrop.trails (Ne.symm hne) hfy).encloses
      have hp : (c.unenter n).wrapperOf[p]? = some y := hp
      rw [wrapperOf_unenter] at hp
      split at hp
      · cases hp
      · exact hplain z (hone p hp ▸ hz)
    refine ⟨kind_drop_self, fun hu hi => ?_⟩
    have htargets : (q.drop x).targets u = (c.targets u).map (Option.map f) := hdrop.targets hu
    rw [htargets, List.getElem?_map, hi, Option.map_some, Option.map_some, hf.same, hstays]

end Wiring

theorem filter_mem_of_sublist {α : Type} [DecidableEq α] {xs ys : List α} (h : xs.Sublist ys)
    (hys : ys.Nodup) : ys.filter (· ∈ xs) = xs := by
  have hxs : xs.filter (· ∈ xs) = xs := List.filter_eq_self.2 fun x hx => decide_eq_true hx
  have hsub : xs.Sublist (ys.filter (· ∈ xs)) := by
    rw [← hxs]
    simpa using h.filter (· ∈ xs)
  have hsubset : ys.filter (· ∈ xs) ⊆ xs := fun x hx => of_decide_eq_true (List.mem_filter.1 hx).2
  exact (hsub.eq_of_length_le ((hys.filter _).subperm hsubset).length_le).symm

namespace Store

variable {s s' : Store} {l : Location} {ls ls' : List Location} {old new n : NodeId} {w e : ValueId}

/-- What replacing one node by another comes to. The locations of the old node hold the new one, in
order; but if both have wrappers, then that of the new node is in every slot of that of the old one,
which is gone. -/
structure Forwards (s s' : Store) (old new : NodeId) : Prop where
  vacated : ∀ l, ¬ s'.Holds l old
  moved : ∀ l, s.Holds l old → (∀ w e, l = .wrapper w → ¬ s.Holds (.wrapper e) new) →
    s'.Holds l new
  merged : ∀ w e, s.Holds (.wrapper w) old → s.Holds (.wrapper e) new → s'.isLive w = false ∧
    ∀ user slot, s'.isLive user = true → Query.operand user slot s = .ok (some w) →
      Query.operand user slot s' = .ok (some e)
  listed : Query.storage new s = .ok .temporary → s'.metadata.tracker.tracked new =
    s.metadata.tracker.tracked new ++ (s.metadata.tracker.tracked old).filter (s.admits new)

theorem wrapperOf_iff (hs : s.Settled) : s.metadata.wrapperOf[n]? = some w ↔
    s.Holds (.wrapper w) n := by
  rw [holds_iff hs]
  exact ⟨fun h => hs.recorded.wrapperOf h, fun h => hs.recorded.wrapper h⟩

theorem admits_eq_false_iff (hs : s.Settled) : s.admits n l = false ↔
    ∃ w e, l = .wrapper w ∧ s.Holds (.wrapper e) n := by
  cases l with
  | wrapper w =>
    rw [admits, Option.isNone_eq_false_iff, Option.isSome_iff_exists]
    exact ⟨fun ⟨e, he⟩ => ⟨w, e, rfl, (wrapperOf_iff hs).1 he⟩,
      fun ⟨_, e, _, he⟩ => ⟨e, (wrapperOf_iff hs).2 he⟩⟩
  | _ => simp [admits]

theorem Forsaken.mem_tracked (h : s.Forsaken n ls) (hs : s.Settled) :
    l ∈ s.metadata.tracker.tracked n ↔ s.Holds l n := by
  obtain ⟨d, hd, hstorage⟩ := h.temporary
  rw [holds_iff hs]
  exact Tracker.mem_tracked hs.recorded.follows
    ((hs.consistent.replaceable n).2 ⟨d, hd, .inl hstorage⟩)

theorem forsaken_of_temporary {d : Node} (hs : s.Settled) (hd : s.metadata.nodes.get? n = some d)
    (hstorage : d.storage = .temporary) :
    s.Forsaken n (s.metadata.tracker.tracked n) := by
  obtain ⟨ops, hops⟩ := hs.consistent.temporary hd hstorage
  refine ⟨⟨d, hd, hstorage⟩, fun v hv => ?_, hs.recorded.follows.lists n⟩
  obtain ⟨d', hd', hc⟩ := (hs.consistent.nodeOf v n).1 hv
  rw [← Option.some.inj (hd.symm.trans hd'), hops] at hc
  cases hc

theorem tracked_forwards (hs : s.Settled) (hs' : s'.Settled) (hold : s.Forsaken old ls)
    (hnew : s.Forsaken new ls') (hne : old ≠ new)
    (hlisted : s'.Forsaken new (s.metadata.tracker.tracked new ++ s.metadata.tracker.tracked old))
    (hkept : ∀ l, s.Holds l new → s'.Holds l new)
    (hmoved : ∀ l, s.Holds l old → (s'.Holds l new ↔ s.admits new l = true)) :
    s'.metadata.tracker.tracked new = s.metadata.tracker.tracked new ++
      (s.metadata.tracker.tracked old).filter (s.admits new) := by
  have hdisjoint : (s.metadata.tracker.tracked new).Disjoint (s.metadata.tracker.tracked old) := by
    intro l hl hl'
    have hheld := (holds_iff hs).1 ((hnew.mem_tracked hs).1 hl)
    have hheld' := (holds_iff hs).1 ((hold.mem_tracked hs).1 hl')
    exact hne (Option.some.inj (hheld'.symm.trans hheld))
  have hnodup := (Tracker.nodup_tracked _ new).append (Tracker.nodup_tracked _ old) hdisjoint
  rw [← filter_mem_of_sublist hlisted.lists.sublist hnodup, List.filter_append]
  congr 1
  · refine List.filter_eq_self.2 fun l hl => decide_eq_true ?_
    exact (hlisted.mem_tracked hs').2 (hkept l ((hnew.mem_tracked hs).1 hl))
  · refine List.filter_congr fun l hl => ?_
    rw [Bool.eq_iff_iff, decide_eq_true_iff, hlisted.mem_tracked hs']
    exact hmoved l ((hold.mem_tracked hs).1 hl)

theorem forwards_of (hs : s.Settled) (hs' : s'.Settled) (hold : s.Forsaken old ls) (hne : old ≠ new)
    (hplain : ∀ v : ValueId, s.metadata.nodeOf[v]? ≠ some new) (hvacated : s'.Forsaken old [])
    (hlisted : Query.storage new s = .ok .temporary →
      s'.Forsaken new (s.metadata.tracker.tracked new ++ s.metadata.tracker.tracked old))
    (hrewraps : s.wiring.Rewraps old new s'.wiring) (hkept : s.HoldsOn new s')
    (hmoved : ∀ l ∈ s.metadata.tracker.tracked old, s.admits new l = true →
      s'.core.held l = some new) : s.Forwards s' old new := by
  have hmoves (l : Location) (hl : s.Holds l old) (ha : s.admits new l = true) :
      s'.Holds l new :=
    (holds_iff hs').2 (hmoved l ((hold.mem_tracked hs).2 hl) ha)
  have hmerged {w e : ValueId} (hw : s.Holds (.wrapper w) old) (he : s.Holds (.wrapper e) new)
      (user : ValueId) (k : ValueKind) (slot : Nat) :=
    hrewraps.supersedes (u := user) (k := k) (i := slot) hne ((wrapperOf_iff hs).2 hw)
      ((wrapperOf_iff hs).2 he) hplain fun p hp => by
        have hheld := (holds_iff hs).1 ((wrapperOf_iff hs).1 hp)
        exact Option.some.inj (hheld.symm.trans ((holds_iff hs).1 he))
  have hdead {w e : ValueId} (hw : s.Holds (.wrapper w) old) (he : s.Holds (.wrapper e) new) :
      s'.values.get? w = none :=
    Option.map_eq_none_iff.1 (hmerged hw he w .metadata 0).1
  refine ⟨fun l hl => ?_, fun l hl hw => hmoves l hl ?_, fun w e hw he => ⟨?_, ?_⟩, fun hnew => ?_⟩
  · have hmem := hvacated.lists.sublist.subset ((hvacated.mem_tracked hs').2 hl)
    cases hmem
  · rw [← Bool.not_eq_false, admits_eq_false_iff hs]
    rintro ⟨w, e, hl, he⟩
    exact hw w e hl he
  · rw [isLive, hdead hw he, Option.isSome_none]
  · intro user slot huser hslot
    obtain ⟨d, hd⟩ := Option.isSome_iff_exists.1 huser
    obtain ⟨-, hslot⟩ := Query.operand_ok.1 hslot
    exact Query.operand_ok.2 ⟨⟨d, hd⟩, (hmerged hw he user d.kind slot).2 (kind_wiring hd) hslot⟩
  · obtain ⟨d, hd, htemporary⟩ := Query.storage_ok.1 hnew
    refine tracked_forwards hs hs' hold (forsaken_of_temporary hs hd htemporary) hne
      (hlisted hnew) (fun l hl => (holds_iff hs').2 (hkept.held ((holds_iff hs).1 hl)))
      fun l hl => ⟨fun hl' => ?_, hmoves l hl⟩
    by_contra ha
    rw [Bool.not_eq_true, admits_eq_false_iff hs] at ha
    obtain ⟨w, e, rfl, he⟩ := ha
    cases hl' with
    | wrapper live => cases (hdead hl he).symm.trans live

end Store

namespace Edit

variable {s : Store} {old new : NodeId} {dold dnew : Node}

theorem ends_replaceNode_listed_of_temporary (hs : s.Settled) (old new : NodeId) :
    Ends (replaceNode old new) s (fun _ s' => Query.storage new s = .ok .temporary →
      s'.Forsaken new (s.metadata.tracker.tracked new ++ s.metadata.tracker.tracked old))
      fun _ _ => True := by
  by_cases htemporary : Query.storage new s = .ok .temporary
  · obtain ⟨d, hd, hstorage⟩ := Query.storage_ok.1 htemporary
    exact (ends_replaceNode_listed (forsaken_of_temporary hs hd hstorage)).mono
      (fun _ _ h _ => h) fun _ _ h => h
  · exact (ends_true _ _).mono (fun _ _ _ hnew => absurd hnew htemporary) fun _ _ h => h

theorem ends_replaceNode_moves (hs : s.Settled) (hne : old ≠ new)
    (hplain : ∀ v : ValueId, s.metadata.nodeOf[v]? ≠ some new) :
    Ends (replaceNode old new) s (fun _ s' => (∃ r', s.Settles s' s.core.held r') ∧
      s.wiring.Rewraps old new s'.wiring ∧ s.HoldsOn new s' ∧
      ∀ l ∈ s.metadata.tracker.tracked old, s.admits new l = true → s'.core.held l = some new)
      fun _ _ => True := by
  have hsize : s.metadata.wrapperOf.size ≤ nestingBound s := by
    have hin : s.SettledIn s.layout s.values.size :=
      Store.SettledWith.bounded ⟨hs, rfl⟩ (Nat.le_refl _)
    exact Nat.le_trans hin.wrappers (Nat.le_add_right _ 2)
  have hn : MergesWrappers (nestingBound s) (replaceWithin (nestingBound s)) :=
    mergesWrappers_replaceWithin _
  have hm : MergesWirings (nestingBound s) (replaceWithin (nestingBound s)) :=
    mergesWirings_replaceWithin _
  have hr : MergesHoldOn (nestingBound s) (replaceWithin (nestingBound s)) :=
    mergesHoldOn_replaceWithin _
  have hrewraps := ends_replaceNodeStep_rewraps hn hm hs hs.recordsWrappers hsize hne
  have hmoves := ends_replaceNodeStep_moves hn hm hr hs hsize hne hplain
  unfold replaceNode
  rw [ends_bind, ends_get]
  exact ((ends_replaceNodeStep hn hs hsize).and (hrewraps.and hmoves)).mono (fun _ _ h => h)
    fun _ _ _ => trivial

theorem ends_replaceNode_forwards (hs : s.Settled) (hdold : s.metadata.nodes.get? old = some dold)
    (hstorage : dold.storage = .temporary) (hdnew : s.metadata.nodes.get? new = some dnew)
    (hkind : dnew.content.kind ≠ .value) (hne : old ≠ new) :
    Ends (replaceNode old new) s (fun _ s' => s.Forwards s' old new) fun _ _ => False := by
  have hold := forsaken_of_temporary hs hdold hstorage
  have hplain (v : ValueId) : s.metadata.nodeOf[v]? ≠ some new := fun hv => by
    obtain ⟨d, hd, hc⟩ := (hs.consistent.nodeOf v new).1 hv
    obtain rfl := Option.some.inj (hdnew.symm.trans hd)
    exact hkind (by rw [hc]; rfl)
  have hlive := ends_replaceNode_live hs
    ((hs.consistent.replaceable old).2 ⟨dold, hdold, .inl hstorage⟩) hdnew
  have hvacated := ends_replaceNode_forsaken (Ne.symm hne) hdold hstorage hold.unwrapping
  have hlisted := ends_replaceNode_listed_of_temporary hs old new
  have hmoves := ends_replaceNode_moves hs hne hplain
  refine (hlive.and (hvacated.and (hlisted.and hmoves))).mono ?_ fun _ _ h => h.1
  rintro _ s' ⟨-, hvacated, hlisted, ⟨r', hsettles⟩, hrewraps, hkept, hmoved⟩
  exact forwards_of hs hsettles.settled hold hne hplain hvacated hlisted hrewraps hkept hmoved

end Edit

namespace Command

open Edit

/-- Whatever commands have been run, a temporary node can be replaced by any other tuple or string,
and everything that held it then holds that one. -/
theorem forwards_afterAll (hash : String → UInt64) (config : Config) (cs : List Command)
    {old new : NodeId} {kind : NodeKind}
    (hold : Query.storage old (afterAll { hash, config } cs) = .ok .temporary)
    (hnew : Query.nodeKind new (afterAll { hash, config } cs) = .ok kind)
    (hkind : kind ≠ .value) (hne : old ≠ new) :
    ∃ s', Edit.replaceNode old new (afterAll { hash, config } cs) = .ok () s' ∧
      (afterAll { hash, config } cs).Forwards s' old new := by
  set s := afterAll { hash, config } cs
  have hs : s.Settled := settled_afterAll hash config cs
  obtain ⟨dold, hdold, hstorage⟩ := Query.storage_ok.1 hold
  obtain ⟨dnew, hdnew, rfl⟩ := Query.nodeKind_ok.1 hnew
  obtain ⟨_, s', hrun, hs'⟩ :=
    (ends_replaceNode_forwards hs hdold hstorage hdnew hkind hne).exists_ok
  exact ⟨s', hrun, hs'⟩

/-- A temporary node holds itself, another one holds it, and so does a handle. Both have wrappers,
and that of the first is an operand of a call. -/
def wrappedTwice : List Command :=
  [.temporaryTuple [none], .temporaryTuple [some ⟨0⟩], .setNodeOperand ⟨0⟩ 0 (some ⟨0⟩),
    .wrapperValue ⟨0⟩, .wrapperValue ⟨1⟩, .trackHandle (some ⟨0⟩), .internType .void,
    .buildInstruction "call" ⟨1⟩ [some ⟨0⟩] none .floating]

theorem forwards_wrappedTwice :
    Query.storage ⟨0⟩ (afterAll { config := {} } wrappedTwice) = .ok .temporary ∧
      Query.nodeKind ⟨1⟩ (afterAll { config := {} } wrappedTwice) = .ok .tuple ∧
      NodeKind.tuple ≠ .value ∧ (⟨0⟩ : NodeId) ≠ ⟨1⟩ ∧
      ∃ s', Edit.replaceNode ⟨0⟩ ⟨1⟩ (afterAll { config := {} } wrappedTwice) = .ok () s' ∧
        (afterAll { config := {} } wrappedTwice).Forwards s' ⟨0⟩ ⟨1⟩ := by
  have hold : Query.storage ⟨0⟩ (afterAll { config := {} } wrappedTwice) = .ok .temporary := by
    decide +kernel
  have hnew : Query.nodeKind ⟨1⟩ (afterAll { config := {} } wrappedTwice) = .ok .tuple := by
    decide +kernel
  exact ⟨hold, hnew, by decide, by decide,
    forwards_afterAll nameHash {} wrappedTwice hold hnew (by decide) (by decide)⟩

/-- Of the four locations the wrapper goes. -/
example : (afterAll { config := {} } (wrappedTwice ++ [.replaceNode ⟨0⟩ ⟨1⟩])).metadata.tracker.tracked
    ⟨1⟩ = [.wrapper ⟨1⟩, .operand ⟨1⟩ 0, .operand ⟨0⟩ 0, .handle ⟨0⟩] := by
  decide +kernel

end Command

end ShaderIR
