import ShaderIR.Proofs.Reachable
import ShaderIR.Proofs.TrackedOrder

/-! Operands that go in and out of a tuple, and the order in which the locations of a node are
listed. Later operands move one after the other, each into a position that has been vacated; nothing
moves twice, and what moves keeps its place in the list. -/

open ShaderIR.Core

namespace ShaderIR

namespace Location

/-- A location after the operands of a tuple have been given other positions. -/
def renumber (n : NodeId) (position : Nat → Nat) : Location → Location
  | .operand m i => .operand m (if m = n then position i else i)
  | l => l

variable {n m : NodeId} {position : Nat → Nat} {moved : List (Option NodeId × Nat)} {l : Location}
variable {i : Nat}

/-- Where a location that holds a node goes while operands of a tuple move one after the other. -/
def walk (n m : NodeId) (position : Nat → Nat) : List (Option NodeId × Nat) → Location → Location
  | [], l => l
  | op :: moved, l => walk n m position moved
      (if op.1 = some m ∧ l = .operand n op.2 then .operand n (position op.2) else l)

theorem walk_eq_self (h : ∀ op ∈ moved, op.1 = some m → l ≠ .operand n op.2) :
    walk n m position moved l = l := by
  induction moved with
  | nil => rfl
  | cons op moved ih =>
    obtain ⟨hop, hmoved⟩ := List.forall_mem_cons.1 h
    rw [walk, if_neg fun hmove => hop hmove.1 hmove.2, ih hmoved]

theorem walk_of_mem (hmoved : moved.Pairwise fun a b => a.2 ≠ b.2 ∧ position a.2 ≠ b.2)
    (h : (some m, i) ∈ moved) :
    walk n m position moved (.operand n i) = .operand n (position i) := by
  induction moved with
  | nil => exact absurd h List.not_mem_nil
  | cons op moved ih =>
    obtain ⟨hop, hrest⟩ := List.pairwise_cons.1 hmoved
    rw [walk]
    obtain rfl | h := List.mem_cons.1 h
    · -- It has moved, and no later operand starts from where it is now.
      rw [if_pos ⟨rfl, rfl⟩]
      refine walk_eq_self fun b hb _ heq => (hop b hb).2 ?_
      exact (Location.operand.inj heq).2
    · rw [if_neg fun hmove => (hop _ h).1 (Location.operand.inj hmove.2).2.symm]
      exact ih hrest h

theorem walk_eq_renumber (hmoved : moved.Pairwise fun a b => a.2 ≠ b.2 ∧ position a.2 ≠ b.2)
    {f : Nat → Nat} (hmoves : ∀ j, l = .operand n j → (some m, j) ∈ moved → f j = position j)
    (hstays : ∀ j, l = .operand n j → (some m, j) ∉ moved → f j = j) :
    walk n m position moved l = renumber n f l := by
  by_cases hop : ∃ j, l = .operand n j ∧ (some m, j) ∈ moved
  · obtain ⟨j, rfl, hj⟩ := hop
    rw [walk_of_mem hmoved hj, renumber, if_pos rfl, hmoves j rfl hj]
  · rw [walk_eq_self fun op hmem hm heq => hop ⟨op.2, heq, hm ▸ hmem⟩]
    cases l with
    | operand k j =>
      by_cases hkn : k = n
      · subst hkn
        rw [renumber, if_pos rfl, hstays j rfl fun hj => hop ⟨j, rfl, hj⟩]
      · rw [renumber, if_neg hkn]
    | _ => rfl

end Location

section Positions

variable {ops : List (Option NodeId)} {o : Option NodeId} {i j : Nat}

theorem pairwise_zipIdx : ops.zipIdx.Pairwise (·.2 < ·.2) := by
  rw [← List.pairwise_map (f := Prod.snd), List.zipIdx_map_snd]
  exact List.pairwise_lt_range'

theorem mem_drop_zipIdx : (o, j) ∈ ops.zipIdx.drop i ↔ i ≤ j ∧ ops[j]? = some o := by
  rw [List.mem_iff_getElem?]
  simp only [List.getElem?_drop, List.getElem?_zipIdx, Option.map_eq_some_iff, Prod.mk.injEq]
  constructor
  · rintro ⟨k, a, ha, rfl, rfl⟩
    simpa using ha
  · rintro ⟨hij, ho⟩
    exact ⟨j - i, o, by rwa [Nat.add_sub_cancel' hij], rfl, by omega⟩

/-- The last operand goes first, so what moves up finds its position free. -/
theorem pairwise_upward : (ops.zipIdx.drop i).reverse.Pairwise fun a b =>
    a.2 ≠ b.2 ∧ a.2 + 1 ≠ b.2 := by
  refine List.pairwise_reverse.2 ((pairwise_zipIdx.drop).imp fun hlt => ?_)
  omega

/-- The first operand goes first, so what moves down finds its position free. -/
theorem pairwise_downward : (ops.zipIdx.drop i).Pairwise fun a b => a.2 ≠ b.2 ∧ a.2 - 1 ≠ b.2 := by
  refine (pairwise_zipIdx.drop).imp fun hlt => ?_
  omega

end Positions

namespace Tracker

variable {t t' : Tracker} {r : Location → Option NodeId} {n m : NodeId} {l old new : Location}
variable {ls : List Location} {b : Bool}

/-- The locations of a replaceable node, in the order of their stamps. -/
def Enlists (t : Tracker) (m : NodeId) (ls : List Location) : Prop :=
  ∃ (s : Stamps) (roll : Roll), t.nodes[m]? = some s ∧ s.Follows roll ∧ roll.locations = ls

theorem Enlists.tracked (h : t.Enlists m ls) : t.tracked m = ls := by
  obtain ⟨s, roll, hs, hroll, rfl⟩ := h
  rw [Tracker.tracked, stamps, hs, Option.getD_some, hroll.locations_eq]

theorem Follows.enlists (h : t.Follows r) (hm : t.isReplaceable m) :
    t.Enlists m (t.tracked m) := by
  obtain ⟨s, hs⟩ := isReplaceable_iff.1 hm
  obtain ⟨xs, hxs⟩ := h.spelled m s hs
  rw [Tracker.tracked, stamps, hs, Option.getD_some]
  exact ⟨s, ⟨_, s.nodup_locations⟩, hs, ⟨xs, hxs, hxs.locations_eq.symm⟩, rfl⟩

theorem Enlists.put_ne (h : t.Enlists m ls) (hnm : n ≠ m) (s : Stamps) :
    (t.put n s).Enlists m ls := by
  obtain ⟨s', roll, hs, hroll⟩ := h
  exact ⟨s', roll, by rwa [getElem?_put, if_neg hnm], hroll⟩

theorem enlists_put {s : Stamps} {roll : Roll} (h : s.Follows roll) :
    (t.put m s).Enlists m roll.locations :=
  ⟨s, roll, by rw [getElem?_put, if_pos rfl], h, rfl⟩

theorem Enlists.track (h : t.Enlists m ls) (ht : t.track l n = .ok (b, t')) :
    t'.Enlists m (ls ++ if n = m then [l] else []) := by
  unfold Tracker.track at ht
  by_cases hnm : n = m
  · subst hnm
    obtain ⟨s, roll, hs, hroll, rfl⟩ := h
    rw [hs] at ht
    dsimp only at ht
    split at ht
    · cases ht
    next hnew =>
      cases ht
      rw [if_pos rfl]
      exact enlists_put (hroll.add (mt hroll.contains_iff.2 hnew))
  · rw [if_neg hnm, List.append_nil]
    split at ht
    · cases ht
      exact h
    · split at ht
      · cases ht
      · cases ht
        exact h.put_ne hnm _

theorem Enlists.untrack (h : t.Enlists m ls) :
    (t.untrack l n).2.Enlists m (if n = m then ls.erase l else ls) := by
  unfold Tracker.untrack
  by_cases hnm : n = m
  · subst hnm
    obtain ⟨s, roll, hs, hroll, rfl⟩ := h
    rw [hs, if_pos rfl]
    dsimp only
    split
    · exact enlists_put (hroll.erase l)
    next habsent =>
      rw [List.erase_of_not_mem (mt hroll.contains_iff.2 habsent)]
      exact ⟨s, roll, hs, hroll, rfl⟩
  · rw [if_neg hnm]
    split
    · exact h
    · split
      · exact h.put_ne hnm _
      · exact h

theorem Enlists.retrack (h : t.Enlists m ls) (ht : t.retrack old n new = .ok (b, t')) :
    t'.Enlists m (ls.map fun l => if n = m ∧ l = old then new else l) := by
  unfold Tracker.retrack at ht
  by_cases hnm : n = m
  · subst hnm
    obtain ⟨s, roll, hs, hroll, rfl⟩ := h
    rw [hs] at ht
    simp only [true_and]
    dsimp only at ht
    split at ht
    next hsame =>
      cases ht
      refine ⟨s, roll, hs, hroll, (List.map_id'' (fun l => ?_) _).symm⟩
      grind
    next hsame =>
      split at ht
      · cases ht
      next hnew =>
        split at ht
        · cases ht
        next stamp hstamp =>
          -- The new location takes the stamp of the old one.
          cases ht
          exact enlists_put (hroll.move hstamp (mt hroll.contains_iff.2 hnew))
  · simp only [hnm, false_and, if_false, List.map_id']
    split at ht
    · cases ht
      exact h
    · split at ht
      · cases ht
        exact h
      · split at ht
        · cases ht
        · split at ht
          · cases ht
          · cases ht
            exact h.put_ne hnm _

end Tracker

namespace Store

/-- An operand has come into a tuple. Every list of locations is the old one with later operands
renumbered, and the new location comes last in the list of what it holds. -/
structure Inserts (s : Store) (n : NodeId) (ops : List (Option NodeId)) (i : Nat)
    (o : Option NodeId) (s' : Store) : Prop where
  operands : Query.nodeOperands n s' = .ok (ops.insertIdx i o)
  tracked : ∀ m, s.metadata.tracker.isReplaceable m → s'.metadata.tracker.tracked m =
    (s.metadata.tracker.tracked m).map
        (Location.renumber n fun j => if j < i then j else j + 1) ++
      if o = some m then [.operand n i] else []

/-- An operand has gone from a tuple. Every list of locations is the old one without the location of
that operand, with later operands renumbered. -/
structure Removes (s : Store) (n : NodeId) (ops : List (Option NodeId)) (i : Nat) (s' : Store) :
    Prop where
  operands : Query.nodeOperands n s' = .ok (ops.eraseIdx i)
  tracked : ∀ m, s.metadata.tracker.isReplaceable m → s'.metadata.tracker.tracked m =
    ((s.metadata.tracker.tracked m).erase (.operand n i)).map
      (Location.renumber n fun j => if j < i then j else j - 1)

end Store

namespace Edit

open Tracker

variable {s : Store} {n m : NodeId} {o : Option NodeId} {l old new : Location} {i : Nat}
variable {ls : List Location} {moved : List (Option NodeId × Nat)} {position : Nat → Nat}
variable {d : Node} {ops : List (Option NodeId)}

section Lists

theorem ends_trackOption_enlists (h : s.metadata.tracker.Enlists m ls) :
    Ends (trackOption l o) s (fun _ s' => s'.metadata.tracker.Enlists m
      (ls ++ if o = some m then [l] else [])) fun _ _ => True := by
  cases o with
  | none => rwa [if_neg nofun, List.append_nil]
  | some n =>
    change Ends (track l n) s _ _
    unfold track
    rw [ends_bind, ends_get]
    simp only [Option.some.injEq]
    cases ht : s.metadata.tracker.track l n with
    | ok x => exact h.track ht
    | error => trivial

theorem ends_untrackOption_enlists (h : s.metadata.tracker.Enlists m ls) :
    Ends (untrackOption l o) s (fun _ s' => s'.metadata.tracker.Enlists m
      (if o = some m then ls.erase l else ls)) fun _ _ => True := by
  cases o with
  | none => rwa [if_neg nofun]
  | some n =>
    simp only [Option.some.injEq]
    exact h.untrack

theorem ends_retrackOption_enlists (h : s.metadata.tracker.Enlists m ls) :
    Ends (retrackOption old new o) s (fun _ s' => s'.metadata.tracker.Enlists m
      (ls.map fun l => if o = some m ∧ l = old then new else l)) fun _ _ => True := by
  cases o with
  | none =>
    simp only [reduceCtorEq, false_and, if_false, List.map_id']
    exact h
  | some n =>
    change Ends (retrack old n new) s _ _
    unfold retrack
    rw [ends_bind, ends_get]
    simp only [Option.some.injEq]
    cases ht : s.metadata.tracker.retrack old n new with
    | ok x => exact h.retrack ht
    | error => trivial

theorem ends_shiftOperands_enlists (h : s.metadata.tracker.Enlists m ls) :
    Ends (shiftOperands n position moved) s (fun _ s' => s'.metadata.tracker.Enlists m
      (ls.map (Location.walk n m position moved))) fun _ _ => True := by
  induction moved generalizing s ls with
  | nil =>
    simp only [Location.walk, List.map_id']
    exact h
  | cons op moved ih =>
    refine Ends.bind (ends_retrackOption_enlists h) fun _ s' hs' => ?_
    refine (ih hs').mono (fun _ s'' hs'' => ?_) fun _ _ h => h
    rwa [List.map_map] at hs''

end Lists

theorem Ends.forall {α ι : Type} {e : Edit α} {Q : ι → α → Store → Prop}
    (h : ∀ k, Ends e s (Q k) fun _ _ => True) :
    Ends e s (fun a s' => ∀ k, Q k a s') fun _ _ => True := by
  unfold Ends
  cases hrun : e s with
  | ok a s' => exact fun k => (h k).of_ok hrun
  | error x s' => trivial

theorem ends_expectNode_of_live (ho : ∀ m, o = some m → ∃ x, s.metadata.nodes.get? m = some x) :
    Ends (expectNode o) s (fun _ s' => s' = s) fun _ _ => False := by
  cases o with
  | none => rfl
  | some m =>
    obtain ⟨x, hx⟩ := ho m rfl
    exact ends_bind.2 ((ends_lift_ok (Query.node_ok.2 hx)).2 rfl)

theorem ends_insertChecked_tracked (hs : s.Settled) :
    Ends (do
      shiftOperands n (· + 1) (ops.zipIdx.drop i).reverse
      putNodeOperands n (ops.insertIdx i o)
      trackOption (.operand n i) o) s
      (fun _ s' => ∀ m : { m // s.metadata.tracker.isReplaceable m },
        s'.metadata.tracker.tracked m = (s.metadata.tracker.tracked m).map
          (Location.walk n m (· + 1) (ops.zipIdx.drop i).reverse) ++
            if o = some m.1 then [.operand n i] else []) fun _ _ => True := by
  -- The loop takes all nodes along, and each list is followed on its own.
  refine Ends.forall fun m => ?_
  refine Ends.bind (ends_shiftOperands_enlists (hs.recorded.follows.enlists m.2)) fun _ s₁ h₁ => ?_
  refine Ends.bind (Q := fun _ s₂ => s₂.metadata.tracker = s₁.metadata.tracker) ?_ fun _ s₂ h₂ => ?_
  · exact ends_bind.2 (ends_lift.2 ⟨fun _ _ => rfl, fun _ _ => trivial⟩)
  · rw [← h₂] at h₁
    exact (ends_trackOption_enlists h₁).mono (fun _ _ h => h.tracked) fun _ _ h => h

theorem ends_removeChecked_tracked {removed : Option NodeId} (hs : s.Settled) :
    Ends (do
      untrackOption (.operand n i) removed
      shiftOperands n (· - 1) (ops.zipIdx.drop (i + 1))
      putNodeOperands n (ops.eraseIdx i)
      return removed) s
      (fun _ s' => ∀ m : { m // s.metadata.tracker.isReplaceable m },
        s'.metadata.tracker.tracked m = (if removed = some m.1 then
          (s.metadata.tracker.tracked m).erase (.operand n i) else
            s.metadata.tracker.tracked m).map
          (Location.walk n m (· - 1) (ops.zipIdx.drop (i + 1)))) fun _ _ => True := by
  refine Ends.forall fun m => ?_
  refine Ends.bind (ends_untrackOption_enlists (hs.recorded.follows.enlists m.2)) fun _ s₁ h₁ => ?_
  refine Ends.bind (ends_shiftOperands_enlists h₁) fun _ s₂ h₂ => ?_
  exact ends_bind.2 (ends_bind.2 (ends_lift.2 ⟨fun _ _ => h₂.tracked, fun _ _ => trivial⟩))

section Renumbering

variable (hs : s.Settled) (hd : s.metadata.nodes.get? n = some d) (hc : d.content = .tuple ops)
variable (hm : s.metadata.tracker.isReplaceable m)

include hs hd hc hm

theorem get?_of_mem_tracked (hl : .operand n i ∈ s.metadata.tracker.tracked m) :
    ops[i]? = some (some m) := by
  have hheld := (mem_tracked hs.recorded.follows hm).1 hl
  rw [held_operand s.core hd, hc, Content.operands] at hheld
  exact Option.join_eq_some_iff.1 hheld

theorem walk_upward (hl : l ∈ s.metadata.tracker.tracked m) :
    Location.walk n m (· + 1) (ops.zipIdx.drop i).reverse l =
      Location.renumber n (fun j => if j < i then j else j + 1) l := by
  refine Location.walk_eq_renumber pairwise_upward ?_ ?_
  · rintro j - hj
    exact if_neg (Nat.not_lt.2 (mem_drop_zipIdx.1 (List.mem_reverse.1 hj)).1)
  · rintro j rfl hj
    refine if_pos (Nat.lt_of_not_le fun hij => hj (List.mem_reverse.2 (mem_drop_zipIdx.2 ?_)))
    exact ⟨hij, get?_of_mem_tracked hs hd hc hm hl⟩

theorem walk_downward (hl : l ∈ s.metadata.tracker.tracked m) (hne : l ≠ .operand n i) :
    Location.walk n m (· - 1) (ops.zipIdx.drop (i + 1)) l =
      Location.renumber n (fun j => if j < i then j else j - 1) l := by
  refine Location.walk_eq_renumber pairwise_downward ?_ ?_
  · rintro j - hj
    exact if_neg (Nat.not_lt.2 (Nat.le_of_succ_le (mem_drop_zipIdx.1 hj).1))
  · rintro j rfl hj
    have hji : i ≠ j := fun heq => hne (heq ▸ rfl)
    refine if_pos (Nat.lt_of_not_le fun hij => hj (mem_drop_zipIdx.2 ?_))
    exact ⟨Nat.lt_of_le_of_ne hij hji, get?_of_mem_tracked hs hd hc hm hl⟩

theorem erase_operand {removed : Option NodeId} (hi : ops[i]? = some removed) :
    (if removed = some m then (s.metadata.tracker.tracked m).erase (.operand n i) else
      s.metadata.tracker.tracked m) = (s.metadata.tracker.tracked m).erase (.operand n i) := by
  split
  · rfl
  next hne =>
    refine (List.erase_of_not_mem fun hmem => hne ?_).symm
    exact Option.some.inj (hi.symm.trans (get?_of_mem_tracked hs hd hc hm hmem))

end Renumbering

theorem nodeOperands_of_modify {s' : Store} {ops' : List (Option NodeId)}
    (hd : s.metadata.nodes.get? n = some d) (hnodes : s'.metadata.nodes =
      s.metadata.nodes.modify n fun d => { d with content := .tuple ops' }) :
    Query.nodeOperands n s' = .ok ops' := by
  refine Query.nodeOperands_ok.2 ⟨{ d with content := .tuple ops' }, ?_, rfl⟩
  rw [hnodes, Arena.get?_modify, if_pos rfl, hd, Option.map_some]

theorem ends_insertNodeOperand (hs : s.Settled) (hd : s.metadata.nodes.get? n = some d)
    (hstorage : d.storage ≠ .uniqued) (hc : d.content = .tuple ops) (hi : i ≤ ops.length)
    (ho : ∀ m, o = some m → ∃ x, s.metadata.nodes.get? m = some x) :
    Ends (insertNodeOperand n i o) s (fun _ s' => s.Inserts n ops i o s') fun _ _ => False := by
  have hops : Query.editableOperands n s = .ok ops :=
    Query.editableOperands_ok.2 ⟨d, hd, hstorage, hc⟩
  unfold insertNodeOperand
  rw [ends_bind, ends_lift_ok hops, if_neg (Nat.not_lt.2 hi)]
  refine Ends.bind (ends_expectNode_of_live ho) fun _ s₁ hs₁ => ?_
  rw [hs₁]
  refine ((ends_insertChecked hs hd hc hi ho).and (ends_insertChecked_tracked hs)).mono ?_
    fun _ _ h => h.1
  rintro _ s' ⟨⟨-, hnodes⟩, htracked⟩
  refine ⟨nodeOperands_of_modify hd hnodes, fun m hm => ?_⟩
  rw [htracked ⟨m, hm⟩, List.map_congr_left fun l hl => walk_upward hs hd hc hm hl]

theorem ends_removeNodeOperand (hs : s.Settled) (hd : s.metadata.nodes.get? n = some d)
    (hstorage : d.storage ≠ .uniqued) (hc : d.content = .tuple ops) {removed : Option NodeId}
    (hi : ops[i]? = some removed) :
    Ends (removeNodeOperand n i) s (fun answer s' => answer = removed ∧ s.Removes n ops i s')
      fun _ _ => False := by
  have hops : Query.editableOperands n s = .ok ops :=
    Query.editableOperands_ok.2 ⟨d, hd, hstorage, hc⟩
  unfold removeNodeOperand
  rw [ends_bind, ends_lift_ok hops, hi]
  refine ((ends_removeChecked hs hd hc hi).and (ends_removeChecked_tracked hs)).mono ?_
    fun _ _ h => h.1
  rintro _ s' ⟨⟨hanswer, -, hnodes⟩, htracked⟩
  refine ⟨hanswer, nodeOperands_of_modify hd hnodes, fun m hm => ?_⟩
  rw [htracked ⟨m, hm⟩, erase_operand hs hd hc hm hi]
  refine List.map_congr_left fun l hl => ?_
  obtain ⟨hne, hmem⟩ := (List.Nodup.mem_erase_iff (nodup_tracked _ m)).1 hl
  exact walk_downward hs hd hc hm hmem hne

end Edit

namespace Command

/-- In any store that commands leave, an operand goes into a tuple that may be edited, or out of it,
and the order in which the locations of other operands are listed stays. -/
theorem shifts_afterAll (hash : String → UInt64) (config : Config) (cs : List Command)
    {n : NodeId} {d : Node} {ops : List (Option NodeId)}
    (hd : Query.node n (afterAll { hash, config } cs) = .ok d)
    (hstorage : d.storage ≠ .uniqued) (hc : d.content = .tuple ops) :
    let s := afterAll { hash, config } cs
    (∀ i o, i ≤ ops.length → (∀ m, o = some m → ∃ x, Query.node m s = .ok x) →
        ∃ s', Edit.insertNodeOperand n i o s = .ok () s' ∧ s.Inserts n ops i o s') ∧
      ∀ i o, ops[i]? = some o →
        ∃ s', Edit.removeNodeOperand n i s = .ok o s' ∧ s.Removes n ops i s' := by
  have hs := settled_afterAll hash config cs
  rw [Query.node_ok] at hd
  simp only [Query.node_ok]
  refine ⟨fun i o hi ho => ?_, fun i o hi => ?_⟩
  · obtain ⟨_, s', hrun, h⟩ := (Edit.ends_insertNodeOperand hs hd hstorage hc hi ho).exists_ok
    exact ⟨s', hrun, h⟩
  · obtain ⟨_, s', hrun, rfl, h⟩ := (Edit.ends_removeNodeOperand hs hd hstorage hc hi).exists_ok
    exact ⟨s', hrun, h⟩

/-- A temporary tuple with an empty operand, itself among its operands, and another temporary tuple
twice, which a handle held before. -/
def repeatedOperands : List Command :=
  [.temporaryTuple [], .trackHandle (some ⟨0⟩), .temporaryTuple [some ⟨0⟩, none, none, some ⟨0⟩],
    .setNodeOperand ⟨1⟩ 1 (some ⟨1⟩)]

theorem shifts_repeatedOperands :
    let s := afterAll { config := {} } repeatedOperands
    let ops := [some ⟨0⟩, some ⟨1⟩, none, some ⟨0⟩]
    Query.node ⟨1⟩ s = .ok ⟨.temporary, .tuple ops⟩ ∧
      (∃ s', Edit.insertNodeOperand ⟨1⟩ 1 (some ⟨0⟩) s = .ok () s' ∧
        s.Inserts ⟨1⟩ ops 1 (some ⟨0⟩) s') ∧
      ∃ s', Edit.removeNodeOperand ⟨1⟩ 0 s = .ok (some ⟨0⟩) s' ∧ s.Removes ⟨1⟩ ops 0 s' := by
  intro s ops
  have hnode : Query.node ⟨1⟩ (afterAll { config := {} } repeatedOperands) =
      .ok ⟨.temporary, .tuple [some ⟨0⟩, some ⟨1⟩, none, some ⟨0⟩]⟩ := by
    decide +kernel
  have hlive : ∃ x, Query.node ⟨0⟩ (afterAll { config := {} } repeatedOperands) = .ok x :=
    ⟨⟨.temporary, .tuple []⟩, by decide +kernel⟩
  obtain ⟨hinserts, hremoves⟩ := shifts_afterAll nameHash {} repeatedOperands hnode nofun rfl
  refine ⟨hnode, hinserts 1 (some ⟨0⟩) (by decide) fun m hm => ?_, hremoves 0 (some ⟨0⟩) rfl⟩
  obtain rfl := Option.some.inj hm
  exact hlive

example : (afterAll { config := {} } (repeatedOperands ++
      [.insertNodeOperand ⟨1⟩ 1 (some ⟨0⟩)])).metadata.tracker.tracked ⟨0⟩ =
    [.handle ⟨0⟩, .operand ⟨1⟩ 0, .operand ⟨1⟩ 4, .operand ⟨1⟩ 1] := by
  decide +kernel

end Command

end ShaderIR
