import ShaderIR.Value

/-! The def-use graph. Every operand slot of a value owns an edge; an edge that points at a value
is a link of that value's use list, the newest first. Edges of destroyed values are used again. -/

namespace ShaderIR

structure Edge where
  user : ValueId
  slot : Nat
  target : Option ValueId := none
  prev : Option EdgeId := none
  next : Option EdgeId := none
  deriving DecidableEq, Inhabited

structure UseGraph where
  edges : Array Edge := #[]
  /-- Released edges, the last one released first. -/
  free : List EdgeId := []
  /-- The first edge of each use list. -/
  heads : Std.ExtTreeMap ValueId EdgeId := ∅
  /-- The edges of the operand slots of each value. -/
  slots : Std.ExtTreeMap ValueId (List EdgeId) := ∅

namespace UseGraph

def edge (g : UseGraph) (e : EdgeId) : Edge := g.edges[e.index]?.getD default

def head? (g : UseGraph) (v : ValueId) : Option EdgeId := g.heads[v]?

def slotsOf (g : UseGraph) (v : ValueId) : List EdgeId := g.slots[v]?.getD []

def modifyEdge (g : UseGraph) (e : EdgeId) (f : Edge → Edge) : UseGraph :=
  { g with edges := g.edges.modify e.index f }

def setHead (g : UseGraph) (v : ValueId) : Option EdgeId → UseGraph
  | none => { g with heads := g.heads.erase v }
  | some e => { g with heads := g.heads.insert v e }

def setSlots (g : UseGraph) (v : ValueId) (es : List EdgeId) : UseGraph :=
  { g with slots := g.slots.insert v es }

def use (g : UseGraph) (e : EdgeId) : Use := ⟨(g.edge e).user, (g.edge e).slot⟩

/-- The edges from one on, at most so many. -/
def chain (g : UseGraph) : Nat → Option EdgeId → List EdgeId
  | n + 1, some e => e :: g.chain n (g.edge e).next
  | _, _ => []

/-- The use list of a value. It has no more links than there are edges. -/
def useList (g : UseGraph) (v : ValueId) : List EdgeId := g.chain g.edges.size (g.head? v)

/-- Takes a released edge, or a new one. -/
def allocate (g : UseGraph) (d : Edge) : EdgeId × UseGraph :=
  match g.free with
  | e :: rest => (e, { g with edges := g.edges.setIfInBounds e.index d, free := rest })
  | [] => (⟨g.edges.size⟩, { g with edges := g.edges.push d })

def link (g : UseGraph) (e : EdgeId) (target : ValueId) : UseGraph :=
  let head := g.head? target
  let g := g.modifyEdge e fun d => { d with target := some target, prev := none, next := head }
  let g := match head with
    | some h => g.modifyEdge h fun d => { d with prev := some e }
    | none => g
  g.setHead target (some e)

def unlink (g : UseGraph) (e : EdgeId) : UseGraph :=
  let d := g.edge e
  match d.target with
  | none => g
  | some target =>
    let g := match d.prev with
      | some p => g.modifyEdge p fun x => { x with next := d.next }
      | none => g.setHead target d.next
    let g := match d.next with
      | some n => g.modifyEdge n fun x => { x with prev := d.prev }
      | none => g
    g.modifyEdge e fun x => { x with target := none, prev := none, next := none }

def addSlot (g : UseGraph) (user : ValueId) : EdgeId × UseGraph :=
  let es := g.slotsOf user
  let (e, g) := g.allocate { user := user, slot := es.length }
  (e, g.setSlots user (es ++ [e]))

/-- Takes an edge out of its use list and releases it. -/
def release (g : UseGraph) (e : EdgeId) : UseGraph :=
  let g := g.unlink e
  { g with free := e :: g.free }

def clearSlots (g : UseGraph) (user : ValueId) : UseGraph :=
  (g.slotsOf user).foldl release { g with slots := g.slots.erase user }

theorem edge_modifyEdge (g : UseGraph) (e : EdgeId) (f : Edge → Edge) (e' : EdgeId) :
    (g.modifyEdge e f).edge e' =
      if e = e' ∧ e.index < g.edges.size then f (g.edge e') else g.edge e' := by
  obtain ⟨n⟩ := e
  obtain ⟨m⟩ := e'
  simp only [edge, modifyEdge, Array.getElem?_modify, Index.mk.injEq]
  by_cases h : n = m
  · subst h
    by_cases hn : n < g.edges.size
    · simp [hn]
    · simp [hn]
  · simp [h]

theorem head?_setHead (g : UseGraph) (v : ValueId) (o : Option EdgeId) (w : ValueId) :
    (g.setHead v o).head? w = if v = w then o else g.head? w := by
  cases o with
  | none => exact getElem?_erase_eq_ite ..
  | some e => exact getElem?_insert_eq_ite ..

theorem slotsOf_setSlots (g : UseGraph) (v : ValueId) (es : List EdgeId) (w : ValueId) :
    (g.setSlots v es).slotsOf w = if v = w then es else g.slotsOf w := by
  simp only [slotsOf, setSlots, getElem?_insert_eq_ite]
  split <;> rfl

end UseGraph

end ShaderIR
