import ShaderIR.Destruction

/-! Making constants. Equal constants are one value. -/

namespace ShaderIR.Edit

def internScalar (ty : TypeId) (data : ConstantData) : Edit ValueId := do
  match (← get).constants[ConstantKey.scalar ty data]? with
  | some c => return c
  | none =>
    let c ← pushValue { ty := ty, payload := .constant data }
    modify fun s => { s with constants := s.constants.insert (.scalar ty data) c }
    return c

def constInt (ty : TypeId) (value : Int64) : Edit ValueId := internScalar ty (.int value)

def constNull (ty : TypeId) : Edit ValueId := internScalar ty .null

def constUndefined (ty : TypeId) : Edit ValueId := internScalar ty .undefined

/-- The address of a block of a function. The function is operand 0 and the block operand 1. -/
def blockAddress (function block : ValueId) : Edit ValueId := do
  Query.expectKind function .function
  Query.expectKind block .block
  match (← get).constants[ConstantKey.blockAddress function block]? with
  | some c => return c
  | none =>
    let ty ← internType .ptr
    let c ← pushValue { ty := ty, payload := .constant .blockAddress }
    let _ ← addOperand c (some function)
    let _ ← addOperand c (some block)
    modify fun s => { s with constants := s.constants.insert (.blockAddress function block) c }
    return c

end ShaderIR.Edit
