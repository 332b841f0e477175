import ShaderIR.Index

/-! Interned types: one index for each shape of type. -/

namespace ShaderIR

inductive TypeShape
  | void | label | metadata | ptr
  | int (bits : Nat)
  | float (bits : Nat)
  | function (result : TypeId) (params : List TypeId)
  | named (name : String)
  deriving DecidableEq, Repr

def TypeShape.params? : TypeShape → Option (List TypeId)
  | .function _ params => some params
  | _ => none

structure TypeTable where
  shapes : List TypeShape := []
  deriving DecidableEq, Repr

namespace TypeTable

def get? (t : TypeTable) (ty : TypeId) : Option TypeShape := t.shapes[ty.index]?

def find? (t : TypeTable) (shape : TypeShape) : Option TypeId :=
  (t.shapes.findIdx? (· == shape)).map Index.mk

/-- The index of a shape, which is new if the table does not hold the shape yet. -/
def intern (t : TypeTable) (shape : TypeShape) : TypeId × TypeTable :=
  match t.find? shape with
  | some ty => (ty, t)
  | none => (⟨t.shapes.length⟩, ⟨t.shapes ++ [shape]⟩)

/-- The text of a type that is nested at most so deep; nothing if an index in it is unknown. -/
def renderWithin (t : TypeTable) : Nat → TypeId → Option String
  | 0, _ => none
  | depth + 1, ty => do
    match ← t.get? ty with
    | .void => return "void"
    | .label => return "label"
    | .metadata => return "metadata"
    | .ptr => return "ptr"
    | .int bits => return "i" ++ toString bits
    | .float bits => return "f" ++ toString bits
    | .function result params =>
      let result ← t.renderWithin depth result
      let params ← params.mapM (t.renderWithin depth)
      return result ++ " (" ++ String.intercalate ", " params ++ ")"
    | .named name => return "%" ++ name

/-- A type names only types that are nested in it, so no text goes deeper than the table is
long. -/
def render (t : TypeTable) (ty : TypeId) : Option String :=
  t.renderWithin (t.shapes.length + 1) ty

end TypeTable

end ShaderIR
