import ShaderIR.Proofs.TrackerLaws

/-! The tracker as a map from replaceable nodes to lists of locations. Stamps are handed out in
increasing order and are never handed out twice, so sorting by them recovers the order in which
locations were registered, whatever was removed or moved in between. -/

namespace ShaderIR

/-- The different locations that hold a node, in order of registration. -/
structure Roll where
  locations : List Location
  nodup : locations.Nodup

namespace Roll

def empty : Roll := ⟨[], List.nodup_nil⟩

def append (r : Roll) (l : Location) (h : l ∉ r.locations) : Roll where
  locations := r.locations ++ [l]
  nodup := by
    have hl : [l].Nodup := List.nodup_singleton l
    exact r.nodup.append hl (List.disjoint_singleton.2 h)

def erase (r : Roll) (l : Location) : Roll := ⟨r.locations.erase l, r.nodup.erase l⟩

def rename (r : Roll) (old new : Location) (h : new ∉ r.locations) : Roll where
  locations := r.locations.map fun l => if l = old then new else l
  nodup := by
    apply r.nodup.map_on
    intro a ha b hb hab
    have hnew : ∀ c ∈ r.locations, c ≠ new := fun c hc heq => h (heq ▸ hc)
    grind

end Roll

/-- What a tracker stands for: the replaceable nodes, each with its roll. -/
abbrev Rolls := NodeId → Option Roll

namespace Tracker

inductive Call
  | makeReplaceable (n : NodeId)
  | track (l : Location) (n : NodeId)
  | untrack (l : Location) (n : NodeId)
  | retrack (old : Location) (n : NodeId) (new : Location)
  | take (n : NodeId)
  | resolve (n : NodeId)

inductive Answer
  | done
  | flag (b : Bool)
  | refused (v : Violation)
  | locations (ls : List Location)
  | number (k : Nat)
  deriving DecidableEq

def perform (t : Tracker) : Call → Answer × Tracker
  | .makeReplaceable n => (.done, t.makeReplaceable n)
  | .track l n =>
    match t.track l n with
    | .ok (b, t') => (.flag b, t')
    | .error v => (.refused v, t)
  | .untrack l n => (.flag (t.untrack l n).1, (t.untrack l n).2)
  | .retrack old n new =>
    match t.retrack old n new with
    | .ok (b, t') => (.flag b, t')
    | .error v => (.refused v, t)
  | .take n => (.locations (t.take n).1, (t.take n).2)
  | .resolve n => (.number (t.resolve n).1, (t.resolve n).2)

def performAll {σ : Type} (step : σ → Call → Answer × σ) : σ → List Call → List Answer × σ
  | s, [] => ([], s)
  | s, c :: cs =>
    let rest := performAll step (step s c).2 cs
    ((step s c).1 :: rest.1, rest.2)

end Tracker

namespace Rolls

def locations (r : Rolls) (n : NodeId) : List Location := ((r n).map Roll.locations).getD []

def put (r : Rolls) (n : NodeId) (roll : Option Roll) : Rolls := Function.update r n roll

def perform (r : Rolls) : Tracker.Call → Tracker.Answer × Rolls
  | .makeReplaceable n => (.done, if (r n).isSome then r else r.put n (some .empty))
  | .track l n =>
    match r n with
    | none => (.flag false, r)
    | some roll =>
      if h : l ∈ roll.locations then (.refused (.doubleTrack l n), r)
      else (.flag true, r.put n (some (roll.append l h)))
  | .untrack l n =>
    match r n with
    | none => (.flag false, r)
    | some roll =>
      if l ∈ roll.locations then (.flag true, r.put n (some (roll.erase l))) else (.flag false, r)
  | .retrack old n new =>
    match r n with
    | none => (.flag false, r)
    | some roll =>
      if old = new then (.flag true, r)
      else if h : new ∈ roll.locations then (.refused (.trackedLocationOccupied new n), r)
      else if old ∉ roll.locations then (.refused (.missingTrackedLocation old n), r)
      else (.flag true, r.put n (some (roll.rename old new h)))
  | .take n => (.locations (r.locations n), r.put n ((r n).map fun _ => .empty))
  | .resolve n => (.number (r.locations n).length, r.put n none)

end Rolls

namespace Stamps

variable {s : Stamps} {xs : List (Location × Nat)} {l old new : Location} {stamp : Nat}

def Follows (s : Stamps) (r : Roll) : Prop := ∃ xs, s.Spells xs ∧ xs.map Prod.fst = r.locations

variable {r : Roll}

theorem Follows.locations_eq (h : s.Follows r) : s.locations = r.locations := by
  rcases h with ⟨xs, hxs, hr⟩
  rw [hxs.locations_eq, hr]

theorem Follows.contains_iff (h : s.Follows r) : s.contains l = true ↔ l ∈ r.locations := by
  rw [contains_eq, ← mem_locations, h.locations_eq]

theorem follows_empty (next : Nat) : Follows { next := next } .empty := ⟨[], spells_nil next, rfl⟩

theorem Follows.add (h : s.Follows r) (hl : l ∉ r.locations) :
    (s.add l).Follows (r.append l hl) := by
  rcases h with ⟨xs, hxs, hr⟩
  refine ⟨_, hxs.add (hr ▸ hl), ?_⟩
  rw [List.map_append, hr]
  rfl

theorem Follows.erase (h : s.Follows r) (l : Location) : (s.erase l).Follows (r.erase l) := by
  rcases h with ⟨xs, hxs, hr⟩
  have herase : (r.erase l).locations = (xs.map Prod.fst).filter (· ≠ l) := by
    rw [hr]
    exact (r.nodup.erase_eq_filter l).trans (List.filter_congr fun x _ => by grind)
  refine ⟨_, hxs.erase l, ?_⟩
  rw [herase, List.filter_map]
  rfl

theorem Follows.move (h : s.Follows r) (hold : s.stampOf[old]? = some stamp)
    (hnew : new ∉ r.locations) : (s.move stamp old new).Follows (r.rename old new hnew) := by
  rcases h with ⟨xs, hxs, hr⟩
  have hrename : (r.rename old new hnew).locations =
      (xs.map Prod.fst).map fun l => if l = old then new else l := by
    rw [hr]
    rfl
  refine ⟨_, hxs.move hold (hr ▸ hnew), ?_⟩
  rw [hrename, List.map_map, List.map_map]
  rfl

end Stamps

namespace Tracker

variable {t : Tracker} {r : Rolls} {n m : NodeId}

def Represents (t : Tracker) (r : Rolls) : Prop :=
  ∀ n, Option.Rel Stamps.Follows t.nodes[n]? (r n)

theorem represents_empty : Represents {} fun _ => none := by
  intro n
  have hnone : ({} : Tracker).nodes[n]? = none := Std.ExtTreeMap.getElem?_empty
  rw [hnone]
  exact .none

theorem Represents.cases (h : t.Represents r) (n : NodeId) : (t.nodes[n]? = none ∧ r n = none) ∨
    ∃ s roll, t.nodes[n]? = some s ∧ r n = some roll ∧ s.Follows roll := by
  have hn := h n
  cases hs : t.nodes[n]? <;> cases hr : r n <;> rw [hs, hr] at hn
  · exact .inl ⟨rfl, rfl⟩
  · cases hn
  · cases hn
  · cases hn with
    | some hf => exact .inr ⟨_, _, rfl, rfl, hf⟩

theorem Represents.put (h : t.Represents r) {s : Stamps} {roll : Roll} (hs : s.Follows roll) :
    (t.put n s).Represents (r.put n (some roll)) := by
  intro m
  rw [getElem?_put, Rolls.put, Function.update_apply]
  by_cases hnm : n = m
  · rw [if_pos hnm, if_pos hnm.symm]
    exact .some hs
  · rw [if_neg hnm, if_neg (Ne.symm hnm)]
    exact h m

theorem Represents.resolve (h : t.Represents r) (n : NodeId) :
    (t.resolve n).2.Represents (r.put n none) := by
  intro m
  rw [Tracker.resolve, getElem?_erase_eq_ite, Rolls.put, Function.update_apply]
  by_cases hnm : n = m
  · rw [if_pos hnm, if_pos hnm.symm]
    exact .none
  · rw [if_neg hnm, if_neg (Ne.symm hnm)]
    exact h m

theorem Represents.isReplaceable_eq (h : t.Represents r) (n : NodeId) :
    t.isReplaceable n = (r n).isSome := by
  rw [isReplaceable, Std.ExtTreeMap.contains_eq_isSome_getElem?]
  rcases h.cases n with ⟨hs, hr⟩ | ⟨s, roll, hs, hr, -⟩ <;> rw [hs, hr] <;> rfl

theorem Represents.follows (h : t.Represents r) (n : NodeId) :
    (t.stamps n).Follows ((r n).getD .empty) := by
  rw [stamps]
  rcases h.cases n with ⟨hs, hr⟩ | ⟨s, roll, hs, hr, hf⟩ <;> rw [hs, hr]
  · exact Stamps.follows_empty 0
  · exact hf

theorem Represents.tracked_eq (h : t.Represents r) (n : NodeId) : t.tracked n = r.locations n := by
  rw [tracked, (h.follows n).locations_eq, Rolls.locations]
  cases r n <;> rfl

theorem Represents.count_eq (h : t.Represents r) (n : NodeId) :
    t.count n = (r.locations n).length := by
  rw [count, Stamps.size_eq_length, ← h.tracked_eq n, tracked]

theorem Represents.isTracked_iff (h : t.Represents r) (l : Location) (n : NodeId) :
    t.isTracked l n = true ↔ l ∈ r.locations n := by
  rw [isTracked, (h.follows n).contains_iff, Rolls.locations]
  cases r n <;> rfl

/-- The same is answered, and the tracker that is left stands for the rolls that are left. -/
def Agree {α : Type} (x : α × Tracker) (y : α × Rolls) : Prop := x.1 = y.1 ∧ x.2.Represents y.2

theorem Represents.performMakeReplaceable (h : t.Represents r) (n : NodeId) :
    Agree (t.perform (.makeReplaceable n)) (r.perform (.makeReplaceable n)) := by
  refine ⟨rfl, ?_⟩
  simp only [perform, Rolls.perform, makeReplaceable, h.isReplaceable_eq]
  split
  · exact h
  · exact h.put (Stamps.follows_empty 0)

theorem Represents.performTrack (h : t.Represents r) (l : Location) (n : NodeId) :
    Agree (t.perform (.track l n)) (r.perform (.track l n)) := by
  simp only [perform, Rolls.perform, track]
  rcases h.cases n with ⟨hs, hr⟩ | ⟨s, roll, hs, hr, hf⟩ <;> simp only [hs, hr]
  · exact ⟨rfl, h⟩
  · by_cases hl : l ∈ roll.locations
    · rw [if_pos (hf.contains_iff.2 hl), dif_pos hl]
      exact ⟨rfl, h⟩
    · rw [if_neg (mt hf.contains_iff.1 hl), dif_neg hl]
      exact ⟨rfl, h.put (hf.add hl)⟩

theorem Represents.performUntrack (h : t.Represents r) (l : Location) (n : NodeId) :
    Agree (t.perform (.untrack l n)) (r.perform (.untrack l n)) := by
  simp only [perform, Rolls.perform, untrack]
  rcases h.cases n with ⟨hs, hr⟩ | ⟨s, roll, hs, hr, hf⟩ <;> simp only [hs, hr]
  · exact ⟨rfl, h⟩
  · by_cases hl : l ∈ roll.locations
    · rw [if_pos (hf.contains_iff.2 hl), if_pos hl]
      exact ⟨rfl, h.put (hf.erase l)⟩
    · rw [if_neg (mt hf.contains_iff.1 hl), if_neg hl]
      exact ⟨rfl, h⟩

theorem Represents.performRetrack (h : t.Represents r) (old : Location) (n : NodeId)
    (new : Location) :
    Agree (t.perform (.retrack old n new)) (r.perform (.retrack old n new)) := by
  simp only [perform, Rolls.perform, retrack]
  rcases h.cases n with ⟨hs, hr⟩ | ⟨s, roll, hs, hr, hf⟩ <;> simp only [hs, hr]
  · exact ⟨rfl, h⟩
  -- A location stays where it is before anything is checked; then the new one comes first.
  by_cases hsame : old = new
  · rw [if_pos hsame, if_pos hsame]
    exact ⟨rfl, h⟩
  rw [if_neg hsame, if_neg hsame]
  by_cases hnew : new ∈ roll.locations
  · rw [if_pos (hf.contains_iff.2 hnew), dif_pos hnew]
    exact ⟨rfl, h⟩
  rw [if_neg (mt hf.contains_iff.1 hnew), dif_neg hnew]
  have hold : old ∈ roll.locations ↔ (s.stampOf[old]?).isSome := by
    rw [← hf.contains_iff, Stamps.contains_eq]
  cases hstamp : s.stampOf[old]? with
  | none =>
    have habsent : old ∉ roll.locations := fun hm => by simp [hstamp] at hold; exact hold hm
    rw [if_pos habsent]
    exact ⟨rfl, h⟩
  | some stamp =>
    have hpresent : old ∈ roll.locations := hold.2 (by rw [hstamp]; rfl)
    rw [if_neg (not_not.2 hpresent)]
    exact ⟨rfl, h.put (hf.move hstamp hnew)⟩

theorem Represents.performTake (h : t.Represents r) (n : NodeId) :
    Agree (t.perform (.take n)) (r.perform (.take n)) := by
  refine ⟨congrArg Answer.locations (take_fst.trans (h.tracked_eq n)), ?_⟩
  simp only [perform, Rolls.perform, take]
  rcases h.cases n with ⟨hs, hr⟩ | ⟨s, roll, hs, hr, -⟩ <;> simp only [hs, hr]
  · have hsame : r.put n none = r := Function.update_eq_self_iff.2 hr.symm
    rw [Option.map_none, hsame]
    exact h
  · exact h.put (Stamps.follows_empty s.next)

theorem Represents.perform (h : t.Represents r) (c : Call) : Agree (t.perform c) (r.perform c) := by
  cases c with
  | makeReplaceable n => exact h.performMakeReplaceable n
  | track l n => exact h.performTrack l n
  | untrack l n => exact h.performUntrack l n
  | retrack old n new => exact h.performRetrack old n new
  | take n => exact h.performTake n
  | resolve n => exact ⟨congrArg Answer.number (h.count_eq n), h.resolve n⟩

theorem Represents.performAll (h : t.Represents r) (cs : List Call) :
    Agree (performAll Tracker.perform t cs) (performAll Rolls.perform r cs) := by
  induction cs generalizing t r with
  | nil => exact ⟨rfl, h⟩
  | cons c cs ih =>
    have hstep := h.perform c
    have hrest := ih hstep.2
    exact ⟨congrArg₂ List.cons hstep.1 hrest.1, hrest.2⟩

/-- Whatever calls are made of a new tracker, the answers to them and to the questions asked
afterwards are those of the rolls. -/
theorem performAll_eq_rolls (cs : List Call) :
    let t := performAll Tracker.perform {} cs
    let r := performAll Rolls.perform (fun _ => none) cs
    t.1 = r.1 ∧ ∀ n, t.2.isReplaceable n = (r.2 n).isSome ∧ t.2.tracked n = r.2.locations n ∧
      t.2.count n = (r.2.locations n).length ∧
      ∀ l, t.2.isTracked l n = true ↔ l ∈ r.2.locations n := by
  have hall := represents_empty.performAll cs
  refine ⟨hall.1, fun n => ?_⟩
  exact ⟨hall.2.isReplaceable_eq n, hall.2.tracked_eq n, hall.2.count_eq n,
    fun l => hall.2.isTracked_iff l n⟩

end Tracker

end ShaderIR
