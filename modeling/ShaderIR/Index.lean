import ShaderIR.Key

/-! Typed indices. Each arena hands out its own sort of index, numbered in order of creation and
never handed out twice. -/

namespace ShaderIR

inductive Entity
  | value | edge | module | type | node | handle | tag
  deriving DecidableEq, Repr

structure Index (e : Entity) where
  index : Nat
  deriving DecidableEq, Repr, Inhabited

abbrev ValueId := Index .value
abbrev EdgeId := Index .edge
abbrev ModuleId := Index .module
abbrev TypeId := Index .type
abbrev NodeId := Index .node
abbrev HandleId := Index .handle
abbrev TagId := Index .tag

def Entity.sigil : Entity → String
  | .value => "v"
  | .edge => "use"
  | .module => "module"
  | .type => "ty"
  | .node => "!"
  | .handle => "handle"
  | .tag => "mdkind"

namespace Index

variable {e : Entity}

theorem index_inj {i j : Index e} : i.index = j.index ↔ i = j := by
  cases i; cases j; simp

instance : Key (Index e) where
  code i := [i.index]
  code_inj h := by simpa [index_inj] using h

instance : Std.TransOrd (Index e) := Key.instTransOrd

instance : Std.LawfulEqOrd (Index e) := Key.instLawfulEqOrd

def text (i : Index e) : String := e.sigil ++ toString i.index

def optionText : Option (Index e) → String
  | none => "None"
  | some i => "Some(" ++ i.text ++ ")"

end Index

end ShaderIR
