import ShaderIR.Constant

/-! Values: arguments, blocks, functions, globals, instructions, constants and the values that
wrap metadata. -/

namespace ShaderIR

inductive ValueKind
  | argument | block | function | global | instruction | constant | metadata
  deriving DecidableEq, Repr

def ValueKind.text : ValueKind → String
  | .argument => "argument"
  | .block => "basic block"
  | .function => "function"
  | .global => "global variable"
  | .instruction => "instruction"
  | .constant => "constant"
  | .metadata => "metadata value"

/-- One reference to a value: who refers to it, and in which operand slot. -/
structure Use where
  user : ValueId
  slot : Nat
  deriving DecidableEq, Repr

/-- The part of a value that its kind decides. Parents are missing while a value is detached. -/
inductive Payload
  | argument (function : ValueId) (position : Nat)
  | block (function : Option ValueId) (instructions : List ValueId)
  | function (module : Option ModuleId) (arguments blocks : List ValueId)
  | global (module : Option ModuleId)
  | instruction (block : Option ValueId) (opcode : String)
  | constant (data : ConstantData)
  | metadata (node : NodeId)
  deriving DecidableEq

def Payload.kind : Payload → ValueKind
  | .argument .. => .argument
  | .block .. => .block
  | .function .. => .function
  | .global .. => .global
  | .instruction .. => .instruction
  | .constant .. => .constant
  | .metadata .. => .metadata

structure Value where
  ty : TypeId
  payload : Payload
  name : Option String := none
  /-- The hash under which the scope knows the name; zero without a name. -/
  nameHash : UInt64 := 0
  attachments : List (TagId × NodeId) := []
  deriving DecidableEq

def Value.kind (d : Value) : ValueKind := d.payload.kind

/-- Where a name is unique: the members of a function, or of a module. -/
inductive Scope
  | function (f : ValueId)
  | module (m : ModuleId)
  deriving DecidableEq

def Scope.code : Scope → List Nat
  | .function f => [0, f.index]
  | .module m => [1, m.index]

instance : Key Scope where
  code := Scope.code
  code_inj {a b} h := by
    cases a <;> cases b <;> simp_all [Scope.code, Index.index_inj]

end ShaderIR
