import ShaderIR.Metadata.Tracking

/-! Editing the operands of distinct and temporary tuples. -/

namespace ShaderIR

/-- Positions in messages are counted in words of 32 bits. -/
def positionLimit : Nat := Nat.pow 2 32

namespace Query

def editableOperands (n : NodeId) : Query (List (Option NodeId)) := do
  let d ← node n
  if d.storage = .uniqued then raise (.immutableNode n)
  match d.content with
  | .tuple ops => return ops
  | c => throw (.unsupported (.operandEdits c.kind))

def nodeOperandOutOfRange {α : Type} (n : NodeId) (position count : Nat) : Query α :=
  raise (.nodeOperandOutOfRange n (position % positionLimit) count)

end Query

namespace Edit

def putNodeOperands (n : NodeId) (ops : List (Option NodeId)) : Edit Unit :=
  modifyNode n fun d => { d with content := .tuple ops }

def setNodeOperand (n : NodeId) (position : Nat) (target : Option NodeId) : Edit Unit := do
  let ops ← Query.editableOperands n
  match ops[position]? with
  | none => Query.nodeOperandOutOfRange n position ops.length
  | some old =>
    expectNode target
    putNodeOperands n (ops.set position target)
    -- An operand set to what it holds keeps its place in the order of registration.
    if old ≠ target then
      untrackOption (.operand n position) old
      trackOption (.operand n position) target

def shiftOperands (n : NodeId) (position : Nat → Nat) (moved : List (Option NodeId × Nat)) :
    Edit Unit :=
  moved.forM fun op => retrackOption (.operand n op.2) (.operand n (position op.2)) op.1

/-- Inserts an operand; later ones move up, the last one first, into places already vacated. -/
def insertNodeOperand (n : NodeId) (position : Nat) (target : Option NodeId) : Edit Unit := do
  let ops ← Query.editableOperands n
  if ops.length < position then
    Query.nodeOperandOutOfRange n position ops.length
  expectNode target
  shiftOperands n (· + 1) (ops.zipIdx.drop position).reverse
  putNodeOperands n (ops.insertIdx position target)
  trackOption (.operand n position) target

def pushNodeOperand (n : NodeId) (target : Option NodeId) : Edit Unit := do
  let ops ← Query.editableOperands n
  insertNodeOperand n ops.length target

/-- Removes an operand and returns it; later ones move down, the first one first. -/
def removeNodeOperand (n : NodeId) (position : Nat) : Edit (Option NodeId) := do
  let ops ← Query.editableOperands n
  match ops[position]? with
  | none => Query.nodeOperandOutOfRange n position ops.length
  | some removed =>
    untrackOption (.operand n position) removed
    shiftOperands n (· - 1) (ops.zipIdx.drop (position + 1))
    putNodeOperands n (ops.eraseIdx position)
    return removed

end Edit

end ShaderIR
