import ShaderIR.Containers.Erasure
import ShaderIR.Metadata.Attachments
import ShaderIR.Metadata.Nodes
import ShaderIR.Metadata.Operands

/-! Every edit of a store as a command, and the stores that commands leave. -/

namespace ShaderIR

inductive Command
  | internType (shape : TypeShape)
  | constInt (ty : TypeId) (value : Int64)
  | constNull (ty : TypeId)
  | constUndefined (ty : TypeId)
  | blockAddress (function block : ValueId)
  | setOperand (user : ValueId) (slot : Nat) (target : Option ValueId)
  | pushOperand (user : ValueId) (target : Option ValueId)
  | dropAllReferences (user : ValueId)
  | replaceAllUses (old new : ValueId)
  | replaceUsesIf (old new : ValueId) (accepts : List Use → Use → Bool)
  | setName (v : ValueId) (name : String)
  | takeName (v : ValueId)
  | createModule (name : String)
  | eraseModule (m : ModuleId)
  | createFunction (m : ModuleId) (name : String) (ty : TypeId)
  | appendFunction (m : ModuleId) (f : ValueId)
  | removeFunction (f : ValueId)
  | moveFunctionTo (f : ValueId) (m : ModuleId)
  | eraseFunction (f : ValueId)
  | createGlobal (m : ModuleId) (name : String) (ty : TypeId) (init : Option ValueId)
  | setInitializer (g : ValueId) (init : Option ValueId)
  | appendGlobal (m : ModuleId) (g : ValueId)
  | removeGlobal (g : ValueId)
  | moveGlobalTo (g : ValueId) (m : ModuleId)
  | eraseGlobal (g : ValueId)
  | createBlock (f : ValueId) (name : String)
  | createDetachedBlock (name : String)
  | appendBlock (f b : ValueId)
  | insertBlockBefore (b anchor : ValueId)
  | removeBlock (b : ValueId)
  | moveBlockBefore (b anchor : ValueId)
  | moveBlockTo (b f : ValueId)
  | eraseBlock (b : ValueId)
  | buildInstruction (opcode : String) (ty : TypeId) (operands : List (Option ValueId))
      (name : Option String) (placement : Edit.Placement)
  | appendInstruction (b i : ValueId)
  | insertInstructionBefore (i anchor : ValueId)
  | removeInstruction (i : ValueId)
  | moveInstructionBefore (i anchor : ValueId)
  | moveInstructionToEnd (i b : ValueId)
  | eraseInstruction (i : ValueId)
  | stringNode (text : String)
  | valueNode (v : ValueId)
  | tuple (operands : List (Option NodeId))
  | distinctTuple (operands : List (Option NodeId))
  | temporaryTuple (operands : List (Option NodeId))
  | replaceNode (old new : NodeId)
  | replaceWithUniqued (temp : NodeId)
  | replaceWithDistinct (temp : NodeId)
  | eraseTemporary (temp : NodeId)
  | setNodeOperand (n : NodeId) (position : Nat) (target : Option NodeId)
  | pushNodeOperand (n : NodeId) (target : Option NodeId)
  | insertNodeOperand (n : NodeId) (position : Nat) (target : Option NodeId)
  | removeNodeOperand (n : NodeId) (position : Nat)
  | trackHandle (target : Option NodeId)
  | resetHandle (h : HandleId) (target : Option NodeId)
  | moveHandle (h : HandleId)
  | releaseHandle (h : HandleId)
  | wrapperValue (n : NodeId)
  | internTag (name : String)
  | setMetadata (v : ValueId) (tag : TagId) (n : Option NodeId)
  | addNamedMetadata (m : ModuleId) (name : String) (n : NodeId)
  | eraseNamedMetadata (m : ModuleId) (name : String)

inductive Reply
  | done
  | type (ty : TypeId)
  | value (v : ValueId)
  | module (m : ModuleId)
  | node (n : NodeId)
  | nodeOption (n : Option NodeId)
  | handle (h : HandleId)
  | tag (tag : TagId)
  | name (name : Option String)
  | number (n : Nat)
  deriving DecidableEq

namespace Command

/-- A predicate that has the uses about which it has been asked for its state. -/
def remembering (accepts : List Use → Use → Bool) (past : List Use) (u : Use) : Bool × List Use :=
  (accepts past u, past ++ [u])

def quiet (e : Edit Unit) : Edit Reply := do
  e
  return .done

open Reply in
def run : Command → Edit Reply
  | .internType shape => type <$> Edit.internType shape
  | .constInt ty x => value <$> Edit.constInt ty x
  | .constNull ty => value <$> Edit.constNull ty
  | .constUndefined ty => value <$> Edit.constUndefined ty
  | .blockAddress f b => value <$> Edit.blockAddress f b
  | .setOperand user slot target => quiet (Edit.setOperand user slot target)
  | .pushOperand user target => number <$> Edit.pushOperand user target
  | .dropAllReferences user => quiet (Edit.dropAllReferences user)
  | .replaceAllUses old new => quiet (Edit.replaceAllUses old new)
  | .replaceUsesIf old new accepts =>
    (number ∘ Prod.fst) <$> Edit.replaceUsesIf old new (remembering accepts) []
  | .setName v text => quiet (Edit.setName v text)
  | .takeName v => name <$> Edit.takeName v
  | .createModule text => module <$> Edit.createModule text
  | .eraseModule m => quiet (Edit.eraseModule m)
  | .createFunction m text ty => value <$> Edit.createFunction m text ty
  | .appendFunction m f => quiet (Edit.appendFunction m f)
  | .removeFunction f => quiet (Edit.removeFunction f)
  | .moveFunctionTo f m => quiet (Edit.moveFunctionTo f m)
  | .eraseFunction f => quiet (Edit.eraseFunction f)
  | .createGlobal m text ty init => value <$> Edit.createGlobal m text ty init
  | .setInitializer g init => quiet (Edit.setInitializer g init)
  | .appendGlobal m g => quiet (Edit.appendGlobal m g)
  | .removeGlobal g => quiet (Edit.removeGlobal g)
  | .moveGlobalTo g m => quiet (Edit.moveGlobalTo g m)
  | .eraseGlobal g => quiet (Edit.eraseGlobal g)
  | .createBlock f text => value <$> Edit.createBlock f text
  | .createDetachedBlock text => value <$> Edit.createDetachedBlock text
  | .appendBlock f b => quiet (Edit.appendBlock f b)
  | .insertBlockBefore b anchor => quiet (Edit.insertBlockBefore b anchor)
  | .removeBlock b => quiet (Edit.removeBlock b)
  | .moveBlockBefore b anchor => quiet (Edit.moveBlockBefore b anchor)
  | .moveBlockTo b f => quiet (Edit.moveBlockTo b f)
  | .eraseBlock b => quiet (Edit.eraseBlock b)
  | .buildInstruction opcode ty operands text placement =>
    value <$> Edit.buildInstruction opcode ty operands text placement
  | .appendInstruction b i => quiet (Edit.appendInstruction b i)
  | .insertInstructionBefore i anchor => quiet (Edit.insertInstructionBefore i anchor)
  | .removeInstruction i => quiet (Edit.removeInstruction i)
  | .moveInstructionBefore i anchor => quiet (Edit.moveInstructionBefore i anchor)
  | .moveInstructionToEnd i b => quiet (Edit.moveInstructionToEnd i b)
  | .eraseInstruction i => quiet (Edit.eraseInstruction i)
  | .stringNode text => node <$> Edit.stringNode text
  | .valueNode v => node <$> Edit.valueNode v
  | .tuple ops => node <$> Edit.tuple ops
  | .distinctTuple ops => node <$> Edit.distinctTuple ops
  | .temporaryTuple ops => node <$> Edit.temporaryTuple ops
  | .replaceNode old new => quiet (Edit.replaceNode old new)
  | .replaceWithUniqued temp => node <$> Edit.replaceWithUniqued temp
  | .replaceWithDistinct temp => node <$> Edit.replaceWithDistinct temp
  | .eraseTemporary temp => quiet (Edit.eraseTemporary temp)
  | .setNodeOperand n position target =>
    quiet (Edit.setNodeOperand n position target)
  | .pushNodeOperand n target => quiet (Edit.pushNodeOperand n target)
  | .insertNodeOperand n position target =>
    quiet (Edit.insertNodeOperand n position target)
  | .removeNodeOperand n position => nodeOption <$> Edit.removeNodeOperand n position
  | .trackHandle target => handle <$> Edit.trackHandle target
  | .resetHandle h target => quiet (Edit.resetHandle h target)
  | .moveHandle h => handle <$> Edit.moveHandle h
  | .releaseHandle h => quiet (Edit.releaseHandle h)
  | .wrapperValue n => value <$> Edit.wrapperValue n
  | .internTag text => tag <$> Edit.internTag text
  | .setMetadata v kind n => quiet (Edit.setMetadata v kind n)
  | .addNamedMetadata m text n => quiet (Edit.addNamedMetadata m text n)
  | .eraseNamedMetadata m text => quiet (Edit.eraseNamedMetadata m text)

/-- The store that a command leaves, whether it has failed or not. -/
def after (s : Store) (c : Command) : Store :=
  match c.run s with
  | .ok _ s' => s'
  | .error _ s' => s'

/-- The store that commands leave one after the other; a failure does not stop them. -/
def afterAll (s : Store) (cs : List Command) : Store := cs.foldl after s

theorem afterAll_append (s : Store) (cs ds : List Command) :
    afterAll s (cs ++ ds) = afterAll (afterAll s cs) ds :=
  List.foldl_append

/-- Whether a command may fail halfway through destroying a container. -/
def erasesContainer : Command → Bool
  | .eraseBlock _ | .eraseFunction _ | .eraseModule _ => true
  | _ => false

end Command

end ShaderIR
