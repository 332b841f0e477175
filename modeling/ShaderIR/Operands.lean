import ShaderIR.Store

/-! Operand slots and use lists of the values of a store. -/

namespace ShaderIR

namespace Query

def operandEdge (user : ValueId) (slot : Nat) : Query EdgeId := do
  let _ ← value user
  let es := (← read).uses.slotsOf user
  match es[slot]? with
  | some e => return e
  | none => raise (.operandOutOfRange user slot es.length)

def operand (user : ValueId) (slot : Nat) : Query (Option ValueId) := do
  let e ← operandEdge user slot
  return ((← read).uses.edge e).target

def operands (user : ValueId) : Query (List (Option ValueId)) := do
  let _ ← value user
  let g := (← read).uses
  return (g.slotsOf user).map fun e => (g.edge e).target

def operandCount (user : ValueId) : Query Nat := do
  let _ ← value user
  return ((← read).uses.slotsOf user).length

/-- The edges of a use list, the newest first. -/
def useList (v : ValueId) : Query (List EdgeId) := do
  let _ ← value v
  return (← read).uses.useList v

def uses (v : ValueId) : Query (List Use) := do
  let es ← useList v
  let g := (← read).uses
  return es.map g.use

/-- The user of each use; a user of two slots stands there twice. -/
def users (v : ValueId) : Query (List ValueId) := do return (← uses v).map Use.user

def useCount (v : ValueId) : Query Nat := do return (← useList v).length

def hasUses (v : ValueId) : Query Bool := do
  let _ ← value v
  return ((← read).uses.head? v).isSome

def hasOneUse (v : ValueId) : Query Bool := do
  let _ ← value v
  let g := (← read).uses
  return (g.head? v).any fun e => (g.edge e).next.isNone

def expectMutableOperands (user : ValueId) : Query Unit := do
  if (← kind user) = .constant then raise (.immutableConstant user)

end Query

namespace Edit

def unlink (e : EdgeId) : Edit Unit := modify (·.modifyUses (·.unlink e))

def link (e : EdgeId) (target : ValueId) : Edit Unit := do
  let _ ← Query.value target
  modify (·.modifyUses (·.link e target))

def linkTo (e : EdgeId) : Option ValueId → Edit Unit
  | none => pure ()
  | some target => link e target

def addOperand (user : ValueId) (target : Option ValueId) : Edit Nat := do
  let count ← Query.operandCount user
  let e ← modifyGet fun s =>
    let (e, g) := s.uses.addSlot user
    (e, { s with uses := g })
  linkTo e target
  return count

def putOperand (user : ValueId) (slot : Nat) (target : Option ValueId) : Edit Unit := do
  let e ← Query.operandEdge user slot
  if ((← get).uses.edge e).target ≠ target then
    unlink e
    linkTo e target

def emptyOperands (user : ValueId) : Edit Unit := do
  (List.range (← Query.operandCount user)).forM fun slot => putOperand user slot none

/-- Points an operand slot at a value, or empties it. The old target is only unlinked. -/
def setOperand (user : ValueId) (slot : Nat) (target : Option ValueId) : Edit Unit := do
  Query.expectMutableOperands user
  putOperand user slot target

def pushOperand (user : ValueId) (target : Option ValueId) : Edit Nat := do
  Query.expectMutableOperands user
  Query.expectKind user .instruction
  addOperand user target

/-- Empties every operand slot; the slots remain. -/
def dropAllReferences (user : ValueId) : Edit Unit := do
  Query.expectMutableOperands user
  emptyOperands user

end Edit

end ShaderIR
