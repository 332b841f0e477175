import ShaderIR.Index

/-! Arenas: cells in order of creation. An erased cell stays behind empty, so an index is never
handed out twice and a stale one is recognised. -/

namespace ShaderIR

structure Arena (e : Entity) (α : Type) where
  cells : Array (Option α) := #[]

namespace Arena

variable {e : Entity} {α : Type}

def get? (a : Arena e α) (i : Index e) : Option α := (a.cells[i.index]?).join

/-- The number of indices handed out, erased ones included. -/
def size (a : Arena e α) : Nat := a.cells.size

def next (a : Arena e α) : Index e := ⟨a.size⟩

def push (a : Arena e α) (x : α) : Arena e α := ⟨a.cells.push (some x)⟩

def set (a : Arena e α) (i : Index e) (x : α) : Arena e α :=
  ⟨a.cells.setIfInBounds i.index (some x)⟩

def modify (a : Arena e α) (i : Index e) (f : α → α) : Arena e α :=
  ⟨a.cells.modify i.index (Option.map f)⟩

def erase (a : Arena e α) (i : Index e) : Arena e α :=
  ⟨a.cells.setIfInBounds i.index none⟩

/-- Every index handed out, in order of creation. -/
def indices (a : Arena e α) : List (Index e) := (List.range a.size).map Index.mk

def toList (a : Arena e α) : List (Index e × α) :=
  a.indices.filterMap fun i => (a.get? i).map (i, ·)

theorem get?_eq_none_of_size_le {a : Arena e α} {i : Index e} (h : a.size ≤ i.index) :
    a.get? i = none := by
  simp only [get?, size] at *
  simp [Array.getElem?_eq_none h]

theorem lt_size_of_get? {a : Arena e α} {i : Index e} {x : α} (h : a.get? i = some x) :
    i.index < a.size := by
  refine Nat.lt_of_not_le fun hle => ?_
  simp [get?_eq_none_of_size_le hle] at h

theorem get?_push (a : Arena e α) (x : α) (i : Index e) :
    (a.push x).get? i = if i = a.next then some x else a.get? i := by
  obtain ⟨n⟩ := i
  simp only [get?, push, next, size, Array.getElem?_push, Index.mk.injEq]
  split <;> simp_all

theorem get?_modify (a : Arena e α) (i : Index e) (f : α → α) (j : Index e) :
    (a.modify i f).get? j = if i = j then (a.get? j).map f else a.get? j := by
  obtain ⟨n⟩ := i
  obtain ⟨m⟩ := j
  simp only [get?, modify, Array.getElem?_modify, Index.mk.injEq]
  by_cases h : n = m
  · subst h
    cases a.cells[n]? with
    | none => simp
    | some c => cases c <;> simp
  · simp [h]

theorem get?_erase (a : Arena e α) (i j : Index e) :
    (a.erase i).get? j = if i = j then none else a.get? j := by
  obtain ⟨n⟩ := i
  obtain ⟨m⟩ := j
  simp only [get?, erase, Array.getElem?_setIfInBounds, Index.mk.injEq]
  by_cases h : n = m
  · subst h
    by_cases hn : n < a.cells.size <;> simp [hn]
  · simp [h]

theorem get?_set (a : Arena e α) (i : Index e) (x : α) (j : Index e) (hi : i.index < a.size) :
    (a.set i x).get? j = if i = j then some x else a.get? j := by
  obtain ⟨n⟩ := i
  obtain ⟨m⟩ := j
  simp only [size] at hi
  simp only [get?, set, Array.getElem?_setIfInBounds, Index.mk.injEq]
  by_cases h : n = m
  · subst h
    simp [hi]
  · simp [h]

theorem size_push (a : Arena e α) (x : α) : (a.push x).size = a.size + 1 := by
  simp [size, push]

theorem size_modify (a : Arena e α) (i : Index e) (f : α → α) :
    (a.modify i f).size = a.size := by
  simp [size, modify]

theorem size_erase (a : Arena e α) (i : Index e) : (a.erase i).size = a.size := by
  simp [size, erase]

theorem mem_toList {a : Arena e α} {i : Index e} {x : α} :
    (i, x) ∈ a.toList ↔ a.get? i = some x := by
  simp only [toList, indices, List.mem_filterMap, List.mem_map, List.mem_range]
  constructor
  · rintro ⟨j, _, hj⟩
    cases hx : a.get? j with
    | none => simp [hx] at hj
    | some y =>
      simp only [hx, Option.map_some, Option.some.injEq, Prod.mk.injEq] at hj
      rw [← hj.1, hx, hj.2]
  · intro h
    exact ⟨i, ⟨i.index, lt_size_of_get? h, rfl⟩, by simp [h]⟩

end Arena

end ShaderIR
