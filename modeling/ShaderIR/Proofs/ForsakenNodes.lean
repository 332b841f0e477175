import ShaderIR.Proofs.CommandCoherence
import ShaderIR.Proofs.CommandFaults

/-! Making a temporary node uniqued. If an equal node is there already, everything that held the
temporary node comes to hold that one. Whatever else is merged on the way, nothing turns to the
temporary node again, so it may go. -/

namespace ShaderIR

namespace Tracker

variable {t t' : Tracker} {r : Location → Option NodeId} {l : Location} {ls ls' : List Location}
variable {n m : NodeId}

def Lists (t : Tracker) (n : NodeId) (ls : List Location) : Prop :=
  ∃ xs, (t.stamps n).Spells xs ∧ (xs.map Prod.fst).Sublist ls

theorem Lists.sublist (h : t.Lists n ls) : (t.tracked n).Sublist ls := by
  obtain ⟨xs, hxs, hsub⟩ := h
  rwa [tracked, hxs.locations_eq]

theorem Lists.count_eq_zero (h : t.Lists n []) : t.count n = 0 := by
  have hnil : t.tracked n = [] := List.sublist_nil.1 h.sublist
  rw [count, Stamps.size_eq_length, ← tracked, hnil, List.length_nil]

theorem Follows.lists (h : t.Follows r) (n : NodeId) : t.Lists n (t.tracked n) := by
  suffices hxs : ∃ xs, (t.stamps n).Spells xs by
    obtain ⟨xs, hxs⟩ := hxs
    exact ⟨xs, hxs, (hxs.locations_eq ▸ List.Sublist.refl _)⟩
  rw [stamps]
  cases hs : t.nodes[n]? with
  | none => exact ⟨[], Stamps.spells_nil 0⟩
  | some s => exact h.spelled n s hs

theorem stamps_put (t : Tracker) (m : NodeId) (s : Stamps) :
    (t.put m s).stamps n = if m = n then s else t.stamps n := by
  rw [stamps, getElem?_put]
  split <;> rfl

theorem Lists.put (h : t.Lists n ls) {s : Stamps}
    (hs : m = n → ∃ xs, s.Spells xs ∧ (xs.map Prod.fst).Sublist ls) : (t.put m s).Lists n ls := by
  rw [Lists, stamps_put]
  split
  next hmn => exact hs hmn
  next => exact h

theorem Lists.mono (h : t.Lists n ls) (hls : ls.Sublist ls') : t.Lists n ls' := by
  obtain ⟨xs, hxs, hsub⟩ := h
  exact ⟨xs, hxs, hsub.trans hls⟩

def joined (n m : NodeId) (l : Location) (ls : List Location) : List Location :=
  if m = n then ls ++ [l] else ls

theorem joined_of_ne (hne : m ≠ n) : joined n m l ls = ls := if_neg hne

theorem sublist_joined : ls.Sublist (joined n m l ls) := by
  rw [joined]
  split
  · exact List.sublist_append_left ls [l]
  · exact List.Sublist.refl ls

theorem Lists.track {b : Bool} (h : t.Lists n ls) (ht : t.track l m = .ok (b, t')) :
    t'.Lists n (joined n m l ls) := by
  unfold Tracker.track at ht
  split at ht
  · cases ht
    exact h.mono sublist_joined
  next s hs =>
    split at ht
    · cases ht
    next hnew =>
      cases ht
      refine (h.mono sublist_joined).put fun hmn => ?_
      obtain ⟨xs, hxs, hsub⟩ := h
      rw [stamps, ← hmn, hs] at hxs
      refine ⟨_, hxs.add (mt hxs.contains_iff.2 hnew), ?_⟩
      rw [joined, if_pos hmn, List.map_append]
      exact hsub.append (List.Sublist.refl [l])

theorem Lists.untrack (h : t.Lists n ls) : (t.untrack l m).2.Lists n ls := by
  unfold Tracker.untrack
  split
  · exact h
  next s hs =>
    split
    · refine h.put fun hmn => ?_
      obtain ⟨xs, hxs, hsub⟩ := h
      rw [stamps, ← hmn, hs] at hxs
      exact ⟨_, hxs.erase l, (List.filter_sublist.map _).trans hsub⟩
    · exact h

theorem lists_take_self (t : Tracker) (n : NodeId) : (t.take n).2.Lists n [] := by
  unfold take
  split
  next hn =>
    rw [Lists, stamps, hn]
    exact ⟨[], Stamps.spells_nil 0, List.Sublist.refl _⟩
  next s hs =>
    rw [Lists, stamps_put, if_pos rfl]
    exact ⟨[], Stamps.spells_nil s.next, List.Sublist.refl _⟩

theorem Lists.take (h : t.Lists n ls) : (t.take m).2.Lists n ls := by
  by_cases hmn : m = n
  · obtain ⟨xs, hxs, hsub⟩ := lists_take_self t n
    exact ⟨xs, hmn ▸ hxs, hsub.trans (List.nil_sublist ls)⟩
  · unfold Tracker.take
    split
    · exact h
    · exact h.put fun heq => absurd heq hmn

theorem Lists.resolve (h : t.Lists n ls) : (t.resolve m).2.Lists n ls := by
  rw [Lists, stamps, Tracker.resolve, getElem?_erase_eq_ite]
  split
  · exact ⟨[], Stamps.spells_nil 0, List.nil_sublist ls⟩
  · exact h

end Tracker

/-- Nothing turns to a temporary node that wraps no value: of the locations that refer to it there
are no more than were listed. -/
structure Store.Forsaken (n : NodeId) (ls : List Location) (s : Store) : Prop where
  temporary : ∃ d, s.metadata.nodes.get? n = some d ∧ d.storage = .temporary
  unwrapping : ∀ v : ValueId, s.metadata.nodeOf[v]? ≠ some n
  lists : s.metadata.tracker.Lists n ls

def Store.tracking (s : Store) : Arena .node Node × Std.ExtTreeMap ValueId NodeId × Tracker :=
  (s.metadata.nodes, s.metadata.nodeOf, s.metadata.tracker)

instance : Untabled Store.tracking := ⟨fun _ _ _ => rfl⟩

theorem Store.Forsaken.congr {s s' : Store} {n : NodeId} {ls : List Location}
    (h : s.Forsaken n ls) (hs : s'.tracking = s.tracking) : s'.Forsaken n ls := by
  obtain ⟨hn, ho, ht⟩ : s'.metadata.nodes = s.metadata.nodes ∧
    s'.metadata.nodeOf = s.metadata.nodeOf ∧ s'.metadata.tracker = s.metadata.tracker := by
    simpa [Store.tracking] using hs
  exact ⟨hn ▸ h.temporary, ho ▸ h.unwrapping, ht ▸ h.lists⟩

theorem Store.Forsaken.joined {s : Store} {n m : NodeId} {l : Location} {ls : List Location}
    (h : s.Forsaken n ls) : s.Forsaken n (Tracker.joined n m l ls) :=
  ⟨h.temporary, h.unwrapping, h.lists.mono Tracker.sublist_joined⟩

namespace Edit

open Store Tracker

variable {s : Store} {n m k : NodeId} {v w old new : ValueId} {l : Location} {ls : List Location}
variable {α : Type} {e : Edit α}

theorem Fixes.forsaken (h : Fixes Store.tracking e) : Keeps (Forsaken n ls) e := fun s hs =>
  (h.ends s).mono (fun _ _ => hs.congr) fun _ _ => hs.congr

theorem keeps_modify_forsaken {g : Store → Store} (h : ∀ s, (g s).tracking = s.tracking) :
    Keeps (Forsaken n ls) (modify g : Edit Unit) := (Fixes.modify h).forsaken

theorem keeps_modifyValue_forsaken {f : Value → Value} : Keeps (Forsaken n ls) (modifyValue v f) :=
  .bind (.lift _) fun _ => keeps_modify_forsaken fun _ => rfl

section Tracking

theorem keeps_setTracker_forsaken {t : Tracker} (ht : t.Lists n ls) :
    Keeps (Forsaken n ls) (setTracker t) := .modify fun _ hs => ⟨hs.temporary, hs.unwrapping, ht⟩

theorem ends_track_forsaken (hs : s.Forsaken n ls) :
    Ends (track l m) s (fun _ => Forsaken n (joined n m l ls))
      fun _ => Forsaken n (joined n m l ls) := by
  unfold track
  rw [ends_bind, ends_get]
  split
  next b t ht => exact ⟨hs.temporary, hs.unwrapping, hs.lists.track ht⟩
  · exact hs.joined

theorem keeps_untrack_forsaken : Keeps (Forsaken n ls) (untrack l m) := fun s hs =>
  keeps_setTracker_forsaken hs.lists.untrack s hs

end Tracking

section Destroying

theorem keeps_dropValueNode_forsaken : Keeps (Forsaken n ls) (dropValueNode v) := by
  intro s hs
  unfold dropValueNode
  rw [ends_bind, ends_get]
  split
  · exact hs
  next m hm =>
    have hne : m ≠ n := fun heq => hs.unwrapping v (heq ▸ hm)
    obtain ⟨d, hd, hstorage⟩ := hs.temporary
    refine ⟨⟨d, ?_, hstorage⟩, fun w => ?_, hs.lists.resolve⟩
    · exact (Arena.get?_erase ..).trans ((if_neg hne).trans hd)
    · change (s.metadata.nodeOf.erase v)[w]? ≠ some n
      rw [getElem?_erase_eq_ite]
      split
      · simp
      · exact hs.unwrapping w

theorem keeps_clearAttachments_forsaken : Keeps (Forsaken n ls) (clearAttachments v) :=
  .bind (.lift _) fun _ => .bind keeps_modifyValue_forsaken fun _ =>
    .forM (fun _ => keeps_untrack_forsaken) _

theorem keeps_dropWrapper_forsaken : Keeps (Forsaken n ls) (dropWrapper v) := by
  refine .bind (.lift _) fun m => ?_
  split
  · exact .pure _
  · refine .bind keeps_untrack_forsaken fun _ => (keeps_modify_forsaken fun s => ?_)
    simp only [modifyMetadata]
    split <;> rfl

theorem fixes_forgetConstant_tracking {key : ConstantKey} :
    Fixes Store.tracking (forgetConstant key v) := .modify fun s => by split <;> rfl

theorem keeps_destroyValue_forsaken : Keeps (Forsaken n ls) (destroyValue v) := by
  refine .bind (.lift _) fun kind => .bind (.lift _) fun uses => .guard (.raise _) ?_
  refine .bind (keeps_dropUntrackedNode keeps_dropValueNode_forsaken) fun _ =>
    .bind (.lift _) fun key => ?_
  have htail : Keeps (Forsaken n ls) (do
      unregisterName v
      modify (·.modifyUses (·.clearSlots v))
      clearAttachments v
      dropWrapper v
      modify fun s => { s with
        values := s.values.erase v
        scopes := s.scopes.erase (.function v) } : Edit Unit) :=
    .bind (Fixes.forsaken fixes_unregisterName) fun _ =>
      .bind (keeps_modify_forsaken fun _ => rfl) fun _ =>
        .bind keeps_clearAttachments_forsaken fun _ =>
          .bind keeps_dropWrapper_forsaken fun _ => (keeps_modify_forsaken fun _ => rfl)
  split
  · exact .bind fixes_forgetConstant_tracking.forsaken fun _ => htail
  · exact htail

end Destroying

section Retargeting

theorem keeps_modifyNode_forsaken {f : Node → Node} (hf : m = n → ∀ d, (f d).storage = d.storage) :
    Keeps (Forsaken n ls) (modifyNode m f) := by
  refine .bind (.lift _) fun _ => .modify fun s hs => ⟨?_, hs.unwrapping, hs.lists⟩
  obtain ⟨d, hd, hstorage⟩ := hs.temporary
  have hget : (s.metadata.nodes.modify m f).get? n = _ := Arena.get?_modify ..
  split at hget
  next hmn => exact ⟨f d, by rw [hd] at hget; exact hget, (hf hmn d).trans hstorage⟩
  · exact ⟨d, hget.trans hd, hstorage⟩

theorem ends_retargetOperand_forsaken {i : Nat} (hs : s.Forsaken n ls) :
    Ends (retargetOperand m i k) s (fun _ => Forsaken n (joined n k (.operand m i) ls))
      fun _ => Forsaken n (joined n k (.operand m i) ls) := by
  refine ends_bind.2 (ends_lift.2 ⟨fun before hbefore => ?_, fun _ _ => hs.joined⟩)
  refine Ends.bind ((keeps_modifyNode_forsaken (fun _ d => ?_) s hs).mono (fun _ _ h => h)
    fun _ _ h => h.joined) fun _ p hp => ?_
  · split <;> rfl
  refine Ends.bind (ends_track_forsaken hp) fun _ q hq => ?_
  split
  next huniqued =>
    have hmn : m ≠ n := by
      rintro rfl
      obtain ⟨d, hd, hstorage⟩ := hs.temporary
      obtain rfl := Option.some.inj (hd.symm.trans (Query.node_ok.1 hbefore))
      rw [hstorage] at huniqued
      cases huniqued
    refine Keeps.bind (keeps_modify_forsaken fun s => ?_) (fun _ => .bind (.lift _) fun after =>
      .bind .get fun p => ?_) q hq
    · simp only [modifyMetadata]
      split <;> rfl
    · split
      · exact keeps_modify_forsaken fun _ => rfl
      · exact keeps_modifyNode_forsaken fun heq => absurd heq hmn
  · exact hq

section Nested

theorem ends_bind_track_forsaken {f : α → Edit Unit} (he : Keeps (Forsaken n ls) e)
    (hf : ∀ a, f a = track l k) (hs : s.Forsaken n ls) :
    Ends (e >>= f) s (fun _ => Forsaken n (joined n k l ls))
      fun _ => Forsaken n (joined n k l ls) := by
  refine Ends.bind ((he s hs).mono (fun _ _ h => h) fun _ _ h => h.joined) fun a p hp => ?_
  rw [hf]
  exact ends_track_forsaken hp

variable {nested : ValueId → ValueId → Edit Unit}
    (hn : ∀ old new, Keeps (Forsaken n ls) (nested old new))

include hn

theorem ends_retargetWrapper_forsaken (hs : s.Forsaken n ls) :
    Ends (retargetWrapper nested w m k) s (fun _ => Forsaken n (joined n k (.wrapper w) ls))
      fun _ => Forsaken n (joined n k (.wrapper w) ls) := by
  have hmerge {e : ValueId} : Keeps (Forsaken n ls) (do nested w e; destroyValue w) :=
    .bind (hn _ _) fun _ => keeps_destroyValue_forsaken
  refine Ends.bind ((keeps_modify_forsaken (fun s => ?_) s hs).mono (fun _ _ h => h)
    fun _ _ h => h.joined) fun _ p hp => ?_
  · simp only [modifyMetadata]
    split <;> rfl
  rw [ends_bind, ends_get]
  split
  · exact (hmerge p hp).mono (fun _ _ h => h.joined) fun _ _ h => h.joined
  · refine Ends.bind ((keeps_modifyValue_forsaken p hp).mono (fun _ _ h => h)
      fun _ _ h => h.joined) fun _ q hq => ?_
    exact ends_bind_track_forsaken (keeps_modify_forsaken fun _ => rfl) (fun _ => rfl) hq

theorem ends_retarget_forsaken (hs : s.Forsaken n ls) :
    Ends (retarget nested m k l) s (fun _ => Forsaken n (joined n k l ls))
      fun _ => Forsaken n (joined n k l ls) := by
  cases l with
  | operand => exact ends_retargetOperand_forsaken hs
  | wrapper => exact ends_retargetWrapper_forsaken hn hs
  | handle => exact ends_bind_track_forsaken (keeps_modify_forsaken fun _ => rfl) (fun _ => rfl) hs
  | attachment => exact ends_bind_track_forsaken keeps_modifyValue_forsaken (fun _ => rfl) hs

theorem keeps_retarget_forsaken (hne : k ≠ n) :
    Keeps (Forsaken n ls) (retarget nested m k l) := by
  intro s hs
  have hends := ends_retarget_forsaken hn (m := m) (k := k) (l := l) hs
  rwa [joined_of_ne hne] at hends

theorem keeps_replaceNodeStep_forsaken (hne : k ≠ n) :
    Keeps (Forsaken n ls) (replaceNodeStep nested m k) := by
  intro s hs
  refine ends_replaceNodeStep_of (fun _ => hs) (fun _ _ _ => ?_) fun _ _ _ => hs
  exact Keeps.forM (fun _ => keeps_retarget_forsaken hn hne) _ _
    ⟨hs.temporary, hs.unwrapping, hs.lists.take⟩

theorem keeps_moveValueNode_forsaken : Keeps (Forsaken n ls) (moveValueNode nested old new) := by
  intro s hs
  unfold moveValueNode
  rw [ends_bind, ends_get]
  dsimp only
  split
  · exact hs
  next hnew =>
    exact Keeps.bind (keeps_replaceNodeStep_forsaken hn fun heq => hs.unwrapping new (heq ▸ hnew))
      (fun _ => keeps_dropValueNode_forsaken) s hs
  next m hold hnew =>
    have hne : m ≠ n := fun heq => hs.unwrapping old (heq ▸ hold)
    refine keeps_modifyNode_forsaken (fun heq => absurd heq hne) _
      ⟨hs.temporary, fun w => ?_, hs.lists⟩
    change ((s.metadata.nodeOf.erase old).insert new m)[w]? ≠ some n
    rw [getElem?_insert_eq_ite, getElem?_erase_eq_ite]
    split
    · simpa using hne
    · split
      · simp
      · exact hs.unwrapping w

theorem keeps_internBlockAddress_forsaken {key : ConstantKey} :
    Keeps (Forsaken n ls) (internBlockAddress nested v key) := by
  refine .bind fixes_forgetConstant_tracking.forsaken fun _ => .bind (.lift _) fun after => ?_
  split
  · refine .bind .get fun s => ?_
    split
    · exact keeps_modify_forsaken fun _ => rfl
    · exact .ite (.bind (hn _ _) fun _ => keeps_destroyValue_forsaken)
        (keeps_modify_forsaken fun _ => rfl)
  · exact .pure _

theorem keeps_moveEdges_forsaken {es : List EdgeId} :
    Keeps (Forsaken n ls) (moveEdges nested new es) := by
  rw [moveEdges_eq]
  have hgather : Fixes Store.tracking (gather new es) := by
    refine fun c => .foldlM (fun noted e => ?_) es []
    exact .bind (fixes_noteBlockAddress c) fun _ => .bind ((Fixes.bind (.modify fun _ => rfl)
      fun _ => .bind (.lift _) fun _ => .modify fun _ => rfl : Fixes _ (moveEdge new e)) c)
      fun _ => .pure _
  exact .bind hgather.forsaken fun noted =>
    .forM (fun _ => keeps_internBlockAddress_forsaken hn) noted

theorem keeps_replaceStep_forsaken : Keeps (Forsaken n ls) (replaceStep nested old new) :=
  .ite (.pure _) (.bind (.lift _) fun _ => .bind (.lift _) fun _ =>
    .bind (keeps_moveEdges_forsaken hn) fun _ => keeps_moveValueNode_forsaken hn)

end Nested

theorem keeps_replaceWithin_forsaken (depth : Nat) :
    Keeps (Forsaken n ls) (replaceWithin depth old new) := by
  induction depth generalizing old new with
  | zero => exact .throw _
  | succ depth ih => exact keeps_replaceStep_forsaken fun _ _ => ih

end Retargeting

section Uniquing

theorem ends_replaceNode_live {d : Node} (hs : s.Settled)
    (hn : s.metadata.tracker.isReplaceable n) (hm : s.metadata.nodes.get? m = some d) :
    Ends (replaceNode n m) s (fun _ _ => True) fun _ _ => False := by
  have hsize : s.SettledIn s.layout s.values.size :=
    Store.SettledWith.bounded ⟨hs, rfl⟩ (Nat.le_refl _)
  unfold replaceNode
  rw [ends_bind, ends_get]
  refine (ends_replaceNodeStep (mergesWrappers_replaceWithin (nestingBound s)) hs
    (Nat.le_trans hsize.wrappers (Nat.le_add_right _ 2))).mono (fun _ _ _ => trivial) ?_
  rintro x _ ⟨-, -, hnot | hgone⟩
  · rw [hn] at hnot
    cases hnot
  · rw [hm] at hgone
    cases hgone

theorem ends_replaceNode_forsaken {d : Node} (hne : m ≠ n) (hd : s.metadata.nodes.get? n = some d)
    (hstorage : d.storage = .temporary) (hplain : ∀ v : ValueId, s.metadata.nodeOf[v]? ≠ some n) :
    Ends (replaceNode n m) s (fun _ => Forsaken n []) fun _ _ => True := by
  unfold replaceNode
  rw [ends_bind, ends_get]
  refine ends_replaceNodeStep_of (fun heq => absurd heq.symm hne) (fun _ _ _ => ?_)
    fun _ _ _ => trivial
  have htaken : (s.withTracker (s.metadata.tracker.take n).2).Forsaken n [] :=
    ⟨⟨d, hd, hstorage⟩, hplain, Tracker.lists_take_self _ _⟩
  exact (Keeps.forM (fun _ => keeps_retarget_forsaken (fun _ _ => keeps_replaceWithin_forsaken _) hne)
    _ _ htaken).mono (fun _ _ h => h) fun _ _ _ => trivial

theorem ends_replaceNode_listed (hs : s.Forsaken n ls) :
    Ends (replaceNode m n) s (fun _ => Forsaken n (ls ++ s.metadata.tracker.tracked m))
      fun _ _ => True := by
  unfold replaceNode
  rw [ends_bind, ends_get]
  have hself : s.Forsaken n (ls ++ s.metadata.tracker.tracked m) :=
    ⟨hs.temporary, hs.unwrapping, hs.lists.mono (List.sublist_append_left ..)⟩
  refine ends_replaceNodeStep_of (fun _ => hself) (fun _ _ _ => ?_) fun _ _ _ => trivial
  refine ends_forM_visited _ (fun done => Forsaken n (ls ++ done))
    (fun done l rest q _ hq => ?_) _ ⟨hs.temporary, hs.unwrapping, ?_⟩
  · have hnested (old new : ValueId) :
        Keeps (Forsaken n (ls ++ done)) (replaceWithin (nestingBound s) old new) :=
      keeps_replaceWithin_forsaken _
    have hretarget := ends_retarget_forsaken hnested (m := m) (k := n) (l := l) hq
    rw [joined, if_pos rfl, List.append_assoc] at hretarget
    exact hretarget.mono (fun _ _ h => h) fun _ _ _ => trivial
  · rw [List.append_nil]
    exact hs.lists.take

theorem ends_eraseTemporary_forsaken (h : s.Forsaken n []) :
    Ends (eraseTemporary n) s (fun _ _ => True) fun _ _ => False := by
  obtain ⟨d, hd, hstorage⟩ := h.temporary
  have htemporary : Query.expectTemporary n s = .ok () :=
    Query.expectTemporary_ok.2 ⟨d, hd, hstorage⟩
  unfold eraseTemporary
  rw [ends_bind, ends_lift_ok htemporary, ends_bind, ends_get]
  dsimp only
  rw [if_neg (not_not_intro h.lists.count_eq_zero), untrackOperands, bind_assoc, ends_bind,
    ends_lift_ok (Query.nodeOperands_ok.2 ⟨d, hd, rfl⟩), ends_bind]
  refine ends_forM (fun _ _ => True) (fun op _ p _ => ?_) _ _ trivial
  cases op.1 <;> trivial

theorem ends_replaceWithUniqued_temporary {B : ValueId → Prop} {d : Node} (hs : Coherent B s)
    (hd : s.metadata.nodes.get? n = some d) (hstorage : d.storage = .temporary) :
    Ends (replaceWithUniqued n) s (fun _ _ => True) fun _ _ => False := by
  have htemporary : Query.expectTemporary n s = .ok () :=
    Query.expectTemporary_ok.2 ⟨d, hd, hstorage⟩
  obtain ⟨ops, hc⟩ := hs.settled.consistent.temporary hd hstorage
  have hplain (v : ValueId) : s.metadata.nodeOf[v]? ≠ some n := fun hv => by
    obtain ⟨d', hd', hc'⟩ := (hs.settled.consistent.nodeOf v n).1 hv
    rw [Option.some.inj (hd.symm.trans hd'), hc'] at hc
    cases hc
  unfold replaceWithUniqued
  rw [ends_bind, ends_lift_ok htemporary, ends_bind, ends_lift_ok (Query.node_ok.2 hd), ends_bind,
    ends_get]
  split
  next m hm =>
    obtain ⟨dm, hdm, huniqued, -⟩ := Ledger.contentOf_eq_some.1 ((hs.wrapping.entered _ _).1 hm)
    have hne : m ≠ n := by
      rintro rfl
      rw [Option.some.inj (hd.symm.trans hdm), huniqued] at hstorage
      cases hstorage
    have hreplaceable : s.metadata.tracker.isReplaceable n :=
      (hs.settled.consistent.replaceable n).2 ⟨d, hd, .inl hstorage⟩
    refine Ends.bind (((ends_replaceNode_live hs.settled hreplaceable hdm).and
      (ends_replaceNode_forsaken hne hd hstorage hplain)).mono
      (fun _ _ h => h.2) fun _ _ h => h.1) fun _ p hp => ?_
    exact Ends.bind (ends_eraseTemporary_forsaken hp) fun _ _ _ => trivial
  · refine Ends.bind (ends_settle ⟨hs.settled, rfl⟩ hd hstorage (by simp)) fun _ _ _ => trivial

end Uniquing

end Edit

namespace Command

open Edit

/-- Whatever commands have been run, no assertion of the tracker fails in the next one, and making a
node uniqued answers exactly when the node is a live temporary one. -/
theorem not_mistracking_afterAll (hash : String → UInt64) (config : Config) (cs : List Command) :
    let s := afterAll { hash, config } cs
    (∀ c : Command, ¬ Stops Fault.IsMistracking c.run s) ∧
      ∀ n : NodeId, (∃ k s', Edit.replaceWithUniqued n s = .ok k s') ↔
        ∃ d, s.metadata.nodes.get? n = some d ∧ d.storage = .temporary := by
  intro s
  have hs : Coherent (fun _ => False) s := coherent_afterAll hash config cs
  refine ⟨fun c hstops => ?_, fun n => ⟨fun ⟨k, s', hok⟩ => ?_, fun ⟨d, hd, hstorage⟩ => ?_⟩⟩
  · exact stops_iff.1 hstops ((safe_run c s hs.settled).mono (fun _ _ _ => trivial)
      fun _ _ h => h.1.not_isMistracking)
  · suffices h : Ends (Edit.replaceWithUniqued n) s (fun _ _ => ∃ d,
        s.metadata.nodes.get? n = some d ∧ d.storage = .temporary) fun _ _ => True from h.of_ok hok
    refine ends_bind.2 (ends_lift.2 ⟨fun _ htemporary => ?_, fun _ _ => trivial⟩)
    exact (ends_true _ _).mono (fun _ _ _ => Query.expectTemporary_ok.1 htemporary) fun _ _ h => h
  · have hends := ends_replaceWithUniqued_temporary hs hd hstorage
    unfold Ends at hends
    cases hrun : Edit.replaceWithUniqued n s with
    | ok k s' => exact ⟨k, s', rfl⟩
    | error x s' =>
      rw [hrun] at hends
      exact hends.elim

end Command

end ShaderIR
