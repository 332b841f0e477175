import ShaderIR.Constants
import ShaderIR.Containers.Module
import ShaderIR.Replacement

/-! Erasing instructions, globals, blocks, functions and modules. Whether anything still uses what
is to be erased is decided before anything changes. -/

namespace ShaderIR

namespace Query

/-- The uses of a value by values other than those that go away with it. Block addresses do not
count where erasing a block removes them. -/
def blockingUses (v : ValueId) (inside : List ValueId) : Query Nat := do
  let s ← read
  let reject := s.config.blockAddressPolicy = .reject
  return ((← users v).filter fun u =>
    !inside.contains u && (reject || !s.isBlockAddress u)).length

/-- Fails if erasing the members would leave a use behind. -/
def expectErasable (members inside : List ValueId) : Query Unit :=
  members.forM fun v => do
    let uses ← blockingUses v inside
    if uses ≠ 0 then raise (.destroyWithUses v (← kind v) uses)

def expectUnused (v : ValueId) (kind : ValueKind) : Query Unit := do
  expectKind v kind
  let uses ← useCount v
  if uses ≠ 0 then raise (.destroyWithUses v kind uses)

/-- What erasing a container destroys, and the part of it whose uses do not count. -/
structure Members where
  all : List ValueId := []
  inside : List ValueId := []

def Members.append (a b : Members) : Members := ⟨a.all ++ b.all, a.inside ++ b.inside⟩

def blockMembers (b : ValueId) : Query Members := do
  let insts ← blockInstructions b
  return ⟨b :: insts, insts⟩

def functionMembers (f : ValueId) : Query Members := do
  let arguments ← functionArguments f
  let blocks ← (← functionBlocks f).mapM blockMembers
  return blocks.foldl Members.append ⟨arguments, []⟩

def moduleMembers (m : ModuleId) : Query Members := do
  let d ← module m
  let bodies ← d.functions.mapM fun f => do
    let body ← functionMembers f
    return { body with all := f :: body.all }
  return bodies.foldl Members.append ⟨d.globals, d.globals⟩

end Query

namespace Edit

def eraseInstruction (i : ValueId) : Edit Unit := do
  Query.expectUnused i .instruction
  if (← Query.instructionParent i).isSome then removeInstruction i
  destroyValue i

def eraseGlobal (g : ValueId) : Edit Unit := do
  Query.expectUnused g .global
  if (← Query.globalModule g).isSome then removeGlobal g
  destroyValue g

/-- The list without repetitions of the element right before. -/
def dropRepeats : List ValueId → List ValueId
  | [] => []
  | [v] => [v]
  | v :: w :: rest => if v = w then dropRepeats (w :: rest) else v :: dropRepeats (w :: rest)

/-- Puts a null constant in the place of a block address and destroys it. -/
def nullifyBlockAddress (c : ValueId) : Edit Unit := do
  let null ← constNull (← Query.typeOf c)
  replaceAllUses c null
  destroyValue c

def nullifyBlockAddresses (b : ValueId) : Edit Unit := do
  let users ← Query.users b
  let s ← get
  (dropRepeats (users.filter s.isBlockAddress)).forM nullifyBlockAddress

/-- Erases a block and its instructions, which may use each other and the block. -/
def eraseBlock (b : ValueId) : Edit Unit := do
  Query.expectKind b .block
  let members ← Query.blockMembers b
  Query.expectErasable members.all members.inside
  nullifyBlockAddresses b
  if (← Query.blockParent b).isSome then removeBlock b
  let insts ← Query.blockInstructions b
  modifyInstructions b fun _ => []
  -- Instructions may use later ones, so all let go of their operands before the first goes.
  insts.forM emptyOperands
  insts.forM destroyValue
  destroyValue b

def emptyBody (f : ValueId) : Edit Unit := do
  (← Query.functionBlocks f).forM fun b => do
    (← Query.blockInstructions b).forM emptyOperands

/-- Erases a function with its blocks and arguments. What its own instructions use does not
count. -/
def eraseFunction (f : ValueId) : Edit Unit := do
  Query.expectKind f .function
  let members ← Query.functionMembers f
  Query.expectErasable (f :: members.all) members.inside
  if (← Query.functionModule f).isSome then removeFunction f
  emptyBody f
  (← Query.functionBlocks f).forM eraseBlock
  (← Query.functionArguments f).forM destroyValue
  Query.expectEmptyScope (.function f)
  destroyValue f

/-- Erases a module with everything in it. What its members use of each other does not count. -/
def eraseModule (m : ModuleId) : Edit Unit := do
  let d ← Query.module m
  let members ← Query.moduleMembers m
  Query.expectErasable members.all members.inside
  d.functions.forM emptyBody
  d.globals.forM emptyOperands
  d.functions.forM eraseFunction
  d.globals.forM eraseGlobal
  (← Query.namedMetadataNames m).forM (eraseNamedMetadata m)
  Query.expectEmptyScope (.module m)
  modify fun s => { s with
    modules := s.modules.erase m
    scopes := s.scopes.erase (.module m) }

end Edit

end ShaderIR
