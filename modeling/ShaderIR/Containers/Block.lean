import ShaderIR.Containers.Instruction

/-! Blocks and their place in a function. A block carries its instructions into the scope of the
function and out of it. -/

namespace ShaderIR

namespace Query

def functionBlocks (f : ValueId) : Query (List ValueId) := do
  match ← payload f with
  | .function _ _ blocks => return blocks
  | _ => wrongKind f .function

def entryBlock (f : ValueId) : Query (Option ValueId) := do return (← functionBlocks f).head?

def anchorFunction (anchor : ValueId) : Query ValueId := do
  match ← blockParent anchor with
  | some f => return f
  | none => raise (.notOwned anchor)

end Query

namespace Edit

def createDetachedBlock (name : String) : Edit ValueId := do
  let ty ← internType .label
  let b ← pushValue { ty := ty, payload := .block none [] }
  writeName b name
  return b

def setBlockParent (b : ValueId) (f : Option ValueId) : Edit Unit :=
  modifyValue b fun d => match d.payload with
    | .block _ insts => { d with payload := .block f insts }
    | _ => d

def modifyBlocks (f : ValueId) (change : List ValueId → List ValueId) : Edit Unit := do
  Query.expectKind f .function
  modifyValue f fun d => match d.payload with
    | .function parent arguments blocks =>
      { d with payload := .function parent arguments (change blocks) }
    | _ => d

/-- Attaches a detached block and registers its name, then those of its instructions. -/
def insertBlock (f b : ValueId) (anchor : Option ValueId) : Edit Unit := do
  Query.expectKind f .function
  if (← Query.blockParent b).isSome then raise (.alreadyOwned b)
  setBlockParent b (some f)
  modifyBlocks f (insertBefore b anchor)
  registerName b
  (← Query.blockInstructions b).forM registerName

def appendBlock (f b : ValueId) : Edit Unit := insertBlock f b none

def createBlock (f : ValueId) (name : String) : Edit ValueId := do
  let b ← createDetachedBlock name
  appendBlock f b
  return b

def insertBlockBefore (b anchor : ValueId) : Edit Unit := do
  Query.expectDistinct b anchor
  insertBlock (← Query.anchorFunction anchor) b (some anchor)

/-- Detaches a block. It leaves the scope of its function, and its instructions with it. -/
def removeBlock (b : ValueId) : Edit Unit := do
  let some f ← Query.blockParent b | raise (.notOwned b)
  (← Query.blockInstructions b).forM unregisterName
  unregisterName b
  modifyBlocks f (without b)
  setBlockParent b none

/-- Moves a block; within its function it keeps its name. -/
def relocateBlock (b f : ValueId) (anchor : Option ValueId) : Edit Unit := do
  match ← Query.blockParent b with
  | none => insertBlock f b anchor
  | some current =>
    if current = f then
      modifyBlocks f fun blocks => insertBefore b anchor (without b blocks)
    else
      removeBlock b
      insertBlock f b anchor

def moveBlockBefore (b anchor : ValueId) : Edit Unit := do
  Query.expectDistinct b anchor
  relocateBlock b (← Query.anchorFunction anchor) (some anchor)

def moveBlockTo (b f : ValueId) : Edit Unit := relocateBlock b f none

end Edit

end ShaderIR
