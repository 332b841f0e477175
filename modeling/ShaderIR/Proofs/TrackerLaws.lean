import Mathlib.Data.List.Nodup
import Mathlib.Logic.Function.Basic
import ShaderIR.Metadata.Tracker

/-! What a tracker records. A tracker follows a record of what each location holds if every
replaceable node is stamped with the locations recorded for it, in the order in which they were
registered. Each operation of the tracker is then an update of the record. -/

namespace ShaderIR

namespace Stamps

variable {s : Stamps} {xs : List (Location × Nat)} {l old new : Location} {stamp : Nat}

theorem insertOrdered_perm (x : Location × Nat) (ys : List (Location × Nat)) :
    (insertOrdered x ys).Perm (x :: ys) := by
  induction ys with
  | nil => exact List.Perm.refl _
  | cons y ys ih =>
    rw [insertOrdered]
    split
    · exact List.Perm.refl _
    · exact (ih.cons y).trans (List.Perm.swap x y ys)

theorem foldr_insertOrdered_perm (xs : List (Location × Nat)) :
    (xs.foldr insertOrdered []).Perm xs := by
  induction xs with
  | nil => exact List.Perm.refl _
  | cons x xs ih => exact (insertOrdered_perm x _).trans (ih.cons x)

theorem locations_perm (s : Stamps) : s.locations.Perm (s.stampOf.toList.map Prod.fst) :=
  (foldr_insertOrdered_perm _).map Prod.fst

theorem nodup_locations (s : Stamps) : s.locations.Nodup := by
  refine (locations_perm s).nodup_iff.2 (List.pairwise_map.2 ?_)
  refine (Std.ExtTreeMap.distinct_keys_toList (t := s.stampOf)).imp fun h heq => h ?_
  exact Std.LawfulEqCmp.compare_eq_iff_eq.2 heq

theorem mem_locations : l ∈ s.locations ↔ (s.stampOf[l]?).isSome := by
  rw [(locations_perm s).mem_iff, List.mem_map, Option.isSome_iff_exists]
  constructor
  · rintro ⟨⟨l', n⟩, hm, rfl⟩
    exact ⟨n, Std.ExtTreeMap.mem_toList_iff_getElem?_eq_some.1 hm⟩
  · rintro ⟨n, hn⟩
    exact ⟨(l, n), Std.ExtTreeMap.mem_toList_iff_getElem?_eq_some.2 hn, rfl⟩

theorem contains_eq (s : Stamps) (l : Location) : s.contains l = (s.stampOf[l]?).isSome :=
  Std.ExtTreeMap.contains_eq_isSome_getElem?

theorem size_eq_length (s : Stamps) : s.size = s.locations.length := by
  rw [(locations_perm s).length_eq, List.length_map, Std.ExtTreeMap.length_toList, size]

theorem pairwise_insertOrdered {x : Location × Nat} {ys : List (Location × Nat)}
    (h : ys.Pairwise (·.2 ≤ ·.2)) : (insertOrdered x ys).Pairwise (·.2 ≤ ·.2) := by
  induction ys with
  | nil => exact List.pairwise_singleton _ _
  | cons y ys ih =>
    have hy := List.pairwise_cons.1 h
    rw [insertOrdered]
    split
    next hxy =>
      apply List.pairwise_cons.2 ⟨_, h⟩
      intro z hz
      rcases List.mem_cons.1 hz with rfl | hz
      · exact hxy
      · exact Nat.le_trans hxy (hy.1 z hz)
    next hxy =>
      apply List.pairwise_cons.2 ⟨_, ih hy.2⟩
      intro z hz
      have hmem : z ∈ x :: ys := (insertOrdered_perm x ys).mem_iff.1 hz
      rcases List.mem_cons.1 hmem with rfl | hz
      · exact Nat.le_of_not_le hxy
      · exact hy.1 z hz

theorem pairwise_foldr_insertOrdered (xs : List (Location × Nat)) :
    (xs.foldr insertOrdered []).Pairwise (·.2 ≤ ·.2) := by
  induction xs with
  | nil => exact List.Pairwise.nil
  | cons x xs ih => exact pairwise_insertOrdered ih

/-- The entries in increasing order of their stamps, all of which have been handed out. -/
structure Spells (s : Stamps) (xs : List (Location × Nat)) : Prop where
  increasing : xs.Pairwise (·.2 < ·.2)
  mem : ∀ l stamp, (l, stamp) ∈ xs ↔ s.stampOf[l]? = some stamp
  bound : ∀ x ∈ xs, x.2 < s.next

theorem spells_nil (next : Nat) : Spells { next := next } [] :=
  ⟨.nil, by simp, by simp⟩

theorem Spells.eq_of_stamp (h : s.Spells xs) {x y : Location × Nat} (hx : x ∈ xs) (hy : y ∈ xs)
    (hxy : x.2 = y.2) : x = y := by
  have hstamps : (xs.map Prod.snd).Nodup := List.pairwise_map.2 (h.increasing.imp Nat.ne_of_lt)
  exact List.inj_on_of_nodup_map hstamps hx hy hxy

theorem Spells.eq_of_location (h : s.Spells xs) {x y : Location × Nat} (hx : x ∈ xs) (hy : y ∈ xs)
    (hxy : x.1 = y.1) : x = y := by
  have hx' : s.stampOf[x.1]? = some x.2 := (h.mem x.1 x.2).1 hx
  have hy' : s.stampOf[y.1]? = some y.2 := (h.mem y.1 y.2).1 hy
  rw [hxy, hy'] at hx'
  exact Prod.ext hxy (Option.some.inj hx').symm

theorem Spells.perm (h : s.Spells xs) : xs.Perm s.stampOf.toList := by
  have hxs : xs.Nodup := h.increasing.imp fun hlt heq => Nat.ne_of_lt hlt (congrArg Prod.snd heq)
  have hkeys : s.stampOf.toList.Nodup := by
    apply (Std.ExtTreeMap.distinct_keys_toList (t := s.stampOf)).imp
    intro a b hne heq
    exact hne (Std.LawfulEqCmp.compare_eq_iff_eq.2 (congrArg Prod.fst heq))
  apply (List.perm_ext_iff_of_nodup hxs hkeys).2
  intro x
  exact (h.mem x.1 x.2).trans Std.ExtTreeMap.mem_toList_iff_getElem?_eq_some.symm

theorem Spells.locations_eq (h : s.Spells xs) : s.locations = xs.map Prod.fst := by
  have hperm : (s.stampOf.toList.foldr insertOrdered []).Perm xs :=
    (foldr_insertOrdered_perm _).trans h.perm.symm
  -- Two sorted lists of the same entries are equal, since no stamp is handed out twice.
  have hsorted : s.stampOf.toList.foldr insertOrdered [] = xs := by
    apply List.Perm.eq_of_pairwise _ (pairwise_foldr_insertOrdered _)
      (h.increasing.imp Nat.le_of_lt) hperm
    intro x y hx hy hxy hyx
    exact h.eq_of_stamp (hperm.mem_iff.1 hx) hy (Nat.le_antisymm hxy hyx)
  rw [locations, hsorted]

theorem Spells.contains_iff (h : s.Spells xs) : s.contains l = true ↔ l ∈ xs.map Prod.fst := by
  rw [contains_eq, ← mem_locations, h.locations_eq]

theorem Spells.stamp_eq_none (h : s.Spells xs) : s.stampOf[l]? = none ↔ l ∉ xs.map Prod.fst := by
  rw [← h.locations_eq, mem_locations]
  simp

theorem Spells.add (h : s.Spells xs) (hl : l ∉ xs.map Prod.fst) :
    (s.add l).Spells (xs ++ [(l, s.next)]) := by
  have hnone : s.stampOf[l]? = none := h.stamp_eq_none.2 hl
  refine ⟨?_, fun l' stamp => ?_, fun x hx => ?_⟩
  · apply List.pairwise_append.2 ⟨h.increasing, List.pairwise_singleton _ _, _⟩
    intro x hx y hy
    rw [List.mem_singleton.1 hy]
    exact h.bound x hx
  · have hmem := h.mem l' stamp
    simp only [Stamps.add, getElem?_insert_eq_ite, List.mem_append, List.mem_singleton]
    grind
  · rcases List.mem_append.1 hx with hx | hx
    · exact Nat.lt_succ_of_lt (h.bound x hx)
    · rw [List.mem_singleton.1 hx]
      exact Nat.lt_succ_self s.next

theorem Spells.erase (h : s.Spells xs) (l : Location) :
    (s.erase l).Spells (xs.filter fun x => x.1 ≠ l) := by
  refine ⟨h.increasing.filter _, fun l' stamp => ?_, fun x hx => h.bound x (List.mem_filter.1 hx).1⟩
  have hmem := h.mem l' stamp
  simp only [Stamps.erase, getElem?_erase_eq_ite, List.mem_filter]
  grind

/-- A location that moves keeps its stamp, and so its place. -/
theorem Spells.move (h : s.Spells xs) (hold : s.stampOf[old]? = some stamp)
    (hnew : new ∉ xs.map Prod.fst) : (s.move stamp old new).Spells
      (xs.map fun x => (if x.1 = old then new else x.1, x.2)) := by
  have hnone : s.stampOf[new]? = none := h.stamp_eq_none.2 hnew
  refine ⟨List.pairwise_map.2 h.increasing, fun l k => ?_, fun x hx => ?_⟩
  · have hold' : (old, stamp) ∈ xs := (h.mem old stamp).2 hold
    have hmem := h.mem l k
    simp only [Stamps.move, getElem?_insert_eq_ite, getElem?_erase_eq_ite, List.mem_map,
      Prod.mk.injEq]
    -- Under the new location stands the old stamp, and every other location keeps its own.
    constructor
    · rintro ⟨x, hx, hl, rfl⟩
      split at hl
      next hxo =>
        obtain rfl := h.eq_of_location hx hold' hxo
        rw [if_pos hl]
      next hxo =>
        have hx' : s.stampOf[x.1]? = some x.2 := (h.mem x.1 x.2).1 hx
        grind
    · intro hk
      split at hk
      next hl => exact ⟨(old, stamp), hold', by rw [if_pos rfl, hl], Option.some.inj hk⟩
      next hl =>
        split at hk
        · cases hk
        next hlo => exact ⟨(l, k), hmem.2 hk, if_neg (Ne.symm hlo), rfl⟩
  · obtain ⟨y, hy, rfl⟩ := List.mem_map.1 hx
    exact h.bound y hy

end Stamps

namespace Tracker

variable {t : Tracker} {r : Location → Option NodeId} {l old new : Location} {n m : NodeId}

/-- Every replaceable node is stamped with the locations that are recorded to hold it. -/
structure Follows (t : Tracker) (r : Location → Option NodeId) : Prop where
  stamped : ∀ n s, t.nodes[n]? = some s → ∀ l, (s.stampOf[l]?).isSome ↔ r l = some n
  spelled : ∀ (n : NodeId) (s : Stamps), t.nodes[n]? = some s → ∃ xs, s.Spells xs

theorem follows_empty (r : Location → Option NodeId) : Follows {} r :=
  ⟨fun n s hs => by simp at hs, fun n s hs => by simp at hs⟩

theorem isReplaceable_iff : t.isReplaceable n ↔ ∃ s, t.nodes[n]? = some s := by
  rw [isReplaceable, Std.ExtTreeMap.contains_eq_isSome_getElem?, Option.isSome_iff_exists]

theorem getElem?_put (t : Tracker) (n : NodeId) (s : Stamps) (m : NodeId) :
    (t.put n s).nodes[m]? = if n = m then some s else t.nodes[m]? :=
  getElem?_insert_eq_ite ..

theorem isReplaceable_put {s s' : Stamps} (h : t.nodes[n]? = some s) :
    (t.put n s').isReplaceable m ↔ t.isReplaceable m := by
  simp only [isReplaceable_iff, getElem?_put]
  split
  next hnm => exact ⟨fun _ => ⟨s, hnm ▸ h⟩, fun _ => ⟨s', rfl⟩⟩
  next => rfl

theorem Follows.put (h : t.Follows r) {s : Stamps} {r' : Location → Option NodeId}
    {xs : List (Location × Nat)} (hs : ∀ l, (s.stampOf[l]?).isSome ↔ r' l = some n)
    (hxs : s.Spells xs) (hr : ∀ m, m ≠ n → ∀ l, r l = some m ↔ r' l = some m) :
    (t.put n s).Follows r' := by
  constructor
  · intro m s' hm l
    rw [getElem?_put] at hm
    split at hm
    next hnm => exact Option.some.inj hm ▸ hnm ▸ hs l
    next hnm => exact (h.stamped m s' hm l).trans (hr m (Ne.symm hnm) l)
  · intro m s' hm
    rw [getElem?_put] at hm
    split at hm
    · exact ⟨xs, Option.some.inj hm ▸ hxs⟩
    · exact h.spelled m s' hm

theorem Follows.congr (h : t.Follows r) {r' : Location → Option NodeId}
    (hr : ∀ n, t.isReplaceable n → ∀ l, r l = some n ↔ r' l = some n) : t.Follows r' where
  stamped n s hs l := (h.stamped n s hs l).trans (hr n (isReplaceable_iff.2 ⟨s, hs⟩) l)
  spelled := h.spelled

theorem Follows.track (h : t.Follows r) (hl : r l = none) (n : NodeId) :
    ∃ b t', t.track l n = .ok (b, t') ∧ t'.Follows (Function.update r l (some n)) ∧
      ∀ m, t'.isReplaceable m ↔ t.isReplaceable m := by
  unfold Tracker.track
  cases hn : t.nodes[n]? with
  | none =>
    refine ⟨false, t, rfl, h.congr fun m hm l' => ?_, fun _ => Iff.rfl⟩
    obtain ⟨s, hs⟩ := isReplaceable_iff.1 hm
    have hmn : n ≠ m := fun hmn => by simp [hmn, hs] at hn
    by_cases hll : l' = l <;> simp [hll, hl, hmn]
  | some s =>
    obtain ⟨xs, hxs⟩ := h.spelled n s hn
    have hc : s.contains l = false := by
      rw [Stamps.contains_eq, ← Bool.not_eq_true, h.stamped n s hn, hl]
      simp
    have hnew : l ∉ xs.map Prod.fst := by rwa [← hxs.contains_iff, Bool.not_eq_true]
    simp only [hc, Bool.false_eq_true, if_false]
    refine ⟨true, _, rfl, h.put (fun l' => ?_) (hxs.add hnew) fun m hm l' => ?_,
      fun m => isReplaceable_put hn⟩
    · simp only [Stamps.add, getElem?_insert_eq_ite]
      by_cases hll : l' = l
      · simp [hll]
      · simpa [hll, Ne.symm hll] using h.stamped n s hn l'
    · by_cases hll : l' = l <;> simp [hll, hl, hm.symm]

theorem Follows.untrack (h : t.Follows r) (hl : r l = none ∨ r l = some n) :
    (t.untrack l n).2.Follows (Function.update r l none) := by
  unfold Tracker.untrack
  cases hn : t.nodes[n]? with
  | none =>
    refine h.congr fun m hm l' => ?_
    obtain ⟨s, hs⟩ := isReplaceable_iff.1 hm
    have hmn : n ≠ m := fun hmn => by simp [hmn, hs] at hn
    obtain hl | hl := hl <;> by_cases hll : l' = l <;> simp [hll, hl, hmn]
  | some s =>
    obtain ⟨xs, hxs⟩ := h.spelled n s hn
    by_cases hc : s.contains l = true
    · simp only [hc, if_true]
      refine h.put (fun l' => ?_) (hxs.erase l) fun m hm l' => ?_
      · simp only [Stamps.erase, getElem?_erase_eq_ite]
        by_cases hll : l' = l
        · simp [hll]
        · simpa [hll, Ne.symm hll] using h.stamped n s hn l'
      · obtain hl | hl := hl <;> by_cases hll : l' = l <;> simp [hll, hl, hm.symm]
    · simp only [hc]
      have hne : r l ≠ some n := fun hr =>
        hc (by rw [Stamps.contains_eq]; exact (h.stamped n s hn l).2 hr)
      refine h.congr fun m _ l' => ?_
      by_cases hll : l' = l <;> simp [hll, hl.resolve_right hne]

theorem isReplaceable_untrack : (t.untrack l n).2.isReplaceable m ↔ t.isReplaceable m := by
  unfold Tracker.untrack
  split
  · rfl
  next s hs =>
    split
    · exact isReplaceable_put hs
    · rfl

theorem Follows.retrack (h : t.Follows r) (ho : r old = some n) (hn : r new = none) :
    ∃ b t', t.retrack old n new = .ok (b, t') ∧
      t'.Follows (Function.update (Function.update r old none) new (some n)) ∧
      ∀ m, t'.isReplaceable m ↔ t.isReplaceable m := by
  have hne : old ≠ new := fun hne => by simp [hne, hn] at ho
  unfold Tracker.retrack
  cases hs : t.nodes[n]? with
  | none =>
    refine ⟨false, t, rfl, h.congr fun m hm l' => ?_, fun _ => Iff.rfl⟩
    obtain ⟨s, hs'⟩ := isReplaceable_iff.1 hm
    have hmn : n ≠ m := fun hmn => by simp [hmn, hs'] at hs
    simp only [Function.update_apply]
    grind
  | some s =>
    obtain ⟨xs, hxs⟩ := h.spelled n s hs
    have hc : s.contains new = false := by
      rw [Stamps.contains_eq, ← Bool.not_eq_true, h.stamped n s hs, hn]
      simp
    have hnew : new ∉ xs.map Prod.fst := by rwa [← hxs.contains_iff, Bool.not_eq_true]
    obtain ⟨stamp, hstamp⟩ := Option.isSome_iff_exists.1 ((h.stamped n s hs old).2 ho)
    simp only [if_neg hne, hc, Bool.false_eq_true, if_false, hstamp]
    refine ⟨true, _, rfl, h.put (fun l' => ?_) (hxs.move hstamp hnew) fun m hm l' => ?_,
      fun m => isReplaceable_put hs⟩
    · simp only [Stamps.move, getElem?_insert_eq_ite, getElem?_erase_eq_ite,
        Function.update_apply]
      have := h.stamped n s hs l'
      grind
    · simp only [Function.update_apply]
      grind

theorem Follows.makeReplaceable (h : t.Follows r) (hn : ∀ l, r l ≠ some n) :
    (t.makeReplaceable n).Follows r := by
  unfold Tracker.makeReplaceable
  split
  · exact h
  · exact h.put (fun l => by simpa using hn l) (Stamps.spells_nil 0) fun _ _ _ => Iff.rfl

theorem isReplaceable_makeReplaceable :
    (t.makeReplaceable n).isReplaceable m ↔ t.isReplaceable m ∨ m = n := by
  unfold Tracker.makeReplaceable
  split
  next hn => exact ⟨.inl, fun hm => hm.elim id fun h => h ▸ hn⟩
  next =>
    simp only [isReplaceable_iff, getElem?_put]
    by_cases hnm : n = m
    · simp [hnm]
    · simp [hnm, Ne.symm hnm]

theorem Follows.resolve (h : t.Follows r) (n : NodeId) : (t.resolve n).2.Follows r := by
  have hsub {m : NodeId} {s : Stamps} (hm : (t.resolve n).2.nodes[m]? = some s) :
      t.nodes[m]? = some s := by
    rw [Tracker.resolve, getElem?_erase_eq_ite] at hm
    split at hm
    · cases hm
    · exact hm
  exact ⟨fun m s hm => h.stamped m s (hsub hm), fun m s hm => h.spelled m s (hsub hm)⟩

theorem isReplaceable_resolve :
    (t.resolve n).2.isReplaceable m ↔ n ≠ m ∧ t.isReplaceable m := by
  simp only [isReplaceable_iff, Tracker.resolve, getElem?_erase_eq_ite]
  by_cases hnm : n = m <;> simp [hnm]

theorem mem_tracked (h : t.Follows r) (hn : t.isReplaceable n) :
    l ∈ t.tracked n ↔ r l = some n := by
  obtain ⟨s, hs⟩ := isReplaceable_iff.1 hn
  rw [tracked, stamps, hs, Option.getD_some, Stamps.mem_locations, h.stamped n s hs]

theorem nodup_tracked (t : Tracker) (n : NodeId) : (t.tracked n).Nodup :=
  Stamps.nodup_locations _

theorem count_eq_zero (h : t.Follows r) (hn : t.isReplaceable n) :
    t.count n = 0 ↔ ∀ l, r l ≠ some n := by
  rw [count, Stamps.size_eq_length, List.length_eq_zero_iff, List.eq_nil_iff_forall_not_mem]
  exact forall_congr' fun l => not_congr (mem_tracked h hn)

theorem take_fst : (t.take n).1 = t.tracked n := by
  unfold Tracker.take tracked stamps
  cases t.nodes[n]? with
  | none =>
    have he : (∅ : Std.ExtTreeMap Location Nat).toList = [] :=
      Std.ExtTreeMap.toList_eq_nil_iff.2 rfl
    simp [Stamps.locations, he]
  | some s => rfl

theorem Follows.take (h : t.Follows r) (n : NodeId) :
    (t.take n).2.Follows fun l => if r l = some n then none else r l := by
  unfold Tracker.take
  cases hn : t.nodes[n]? with
  | none =>
    refine h.congr fun m hm l => ?_
    obtain ⟨s, hs⟩ := isReplaceable_iff.1 hm
    have hmn : n ≠ m := fun hmn => by simp [hmn, hs] at hn
    grind
  | some s =>
    refine h.put (fun l => ?_) (Stamps.spells_nil s.next) fun m hm l => ?_
    · simp
    · grind

theorem isReplaceable_take : (t.take n).2.isReplaceable m ↔ t.isReplaceable m := by
  unfold Tracker.take
  split
  · rfl
  next s hs => exact isReplaceable_put hs

end Tracker

end ShaderIR
