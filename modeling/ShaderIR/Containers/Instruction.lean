import ShaderIR.Containers.Position
import ShaderIR.Naming

/-! Instructions and their place in a block. -/

namespace ShaderIR

namespace Query

def opcode (i : ValueId) : Query String := do
  match ← payload i with
  | .instruction _ opcode => return opcode
  | _ => wrongKind i .instruction

def instructionParent (i : ValueId) : Query (Option ValueId) := do
  match ← payload i with
  | .instruction b _ => return b
  | _ => wrongKind i .instruction

def blockInstructions (b : ValueId) : Query (List ValueId) := do
  match ← payload b with
  | .block _ insts => return insts
  | _ => wrongKind b .block

def anchorBlock (anchor : ValueId) : Query ValueId := do
  match ← instructionParent anchor with
  | some b => return b
  | none => raise (.notOwned anchor)

def expectDistinct (v anchor : ValueId) : Query Unit :=
  if v = anchor then raise (.selfAnchor v) else pure ()

end Query

namespace Edit

def createInstruction (opcode : String) (ty : TypeId) (operands : List (Option ValueId)) :
    Edit ValueId := do
  let i ← pushValue { ty := ty, payload := .instruction none opcode }
  operands.forM fun operand => do
    let _ ← addOperand i operand
  return i

inductive Placement
  | floating
  | append (block : ValueId)
  | before (anchor : ValueId)
  deriving DecidableEq

def setInstructionParent (i : ValueId) (b : Option ValueId) : Edit Unit :=
  modifyValue i fun d => match d.payload with
    | .instruction _ opcode => { d with payload := .instruction b opcode }
    | _ => d

def modifyInstructions (b : ValueId) (f : List ValueId → List ValueId) : Edit Unit := do
  Query.expectKind b .block
  modifyValue b fun d => match d.payload with
    | .block parent insts => { d with payload := .block parent (f insts) }
    | _ => d

/-- Puts an instruction in a block without registering its name. -/
def placeInstruction (b i : ValueId) (anchor : Option ValueId) : Edit Unit := do
  setInstructionParent i (some b)
  modifyInstructions b (insertBefore i anchor)

def insertInstruction (b i : ValueId) (anchor : Option ValueId) : Edit Unit := do
  Query.expectKind b .block
  if (← Query.instructionParent i).isSome then raise (.alreadyOwned i)
  placeInstruction b i anchor
  registerName i

def appendInstruction (b i : ValueId) : Edit Unit := insertInstruction b i none

def insertInstructionBefore (i anchor : ValueId) : Edit Unit := do
  Query.expectDistinct i anchor
  insertInstruction (← Query.anchorBlock anchor) i (some anchor)

/-- Detaches an instruction. Its uses and operands stay. -/
def removeInstruction (i : ValueId) : Edit Unit := do
  let some b ← Query.instructionParent i | raise (.notOwned i)
  unregisterName i
  modifyInstructions b (without i)
  setInstructionParent i none

def shareFunction (b c : ValueId) : Query Bool := do
  let f ← Query.blockParent b
  if f.isNone then return false
  return f = (← Query.blockParent c)

/-- Moves an instruction; within a function it keeps its name. -/
def relocateInstruction (i b : ValueId) (anchor : Option ValueId) : Edit Unit := do
  match ← Query.instructionParent i with
  | none => insertInstruction b i anchor
  | some current =>
    if ← shareFunction current b then
      modifyInstructions current (without i)
      placeInstruction b i anchor
    else
      removeInstruction i
      insertInstruction b i anchor

def moveInstructionBefore (i anchor : ValueId) : Edit Unit := do
  Query.expectDistinct i anchor
  relocateInstruction i (← Query.anchorBlock anchor) (some anchor)

def moveInstructionToEnd (i b : ValueId) : Edit Unit := do
  Query.expectKind b .block
  relocateInstruction i b none

def buildInstruction (opcode : String) (ty : TypeId) (operands : List (Option ValueId))
    (name : Option String) (placement : Placement) : Edit ValueId := do
  let i ← createInstruction opcode ty operands
  match name with
  | some name => setName i name
  | none => pure ()
  match placement with
  | .floating => pure ()
  | .append b => appendInstruction b i
  | .before anchor => insertInstructionBefore i anchor
  return i

end Edit

end ShaderIR
