import ShaderIR.Metadata.Tracking
import ShaderIR.Naming

/-! Destroying a value that nothing uses any more. -/

namespace ShaderIR

namespace Query

/-- The content of a constant as it is now; nothing for other values, nor for a block address
with an empty slot. -/
def constantKey (v : ValueId) : Query (Option ConstantKey) := do
  let d ← value v
  match d.payload with
  | .constant .blockAddress =>
    let some function ← operand v 0 | return none
    let some block ← operand v 1 | return none
    return some (.blockAddress function block)
  | .constant data => return some (.scalar d.ty data)
  | _ => return none

end Query

namespace Edit

/-- Removes the entry of a constant under a content, if it is the one entered there. -/
def forgetConstant (key : ConstantKey) (c : ValueId) : Edit Unit :=
  modify fun s =>
    if s.constants[key]? = some c then { s with constants := s.constants.erase key } else s

def dropValueNode (v : ValueId) : Edit Unit := do
  match (← get).metadata.nodeOf[v]? with
  | none => return
  | some n =>
    modify (·.modifyMetadata fun md => { md with
      nodeOf := md.nodeOf.erase v
      uniqued := md.uniqued.erase (.value v)
      tracker := (md.tracker.resolve n).2
      nodes := md.nodes.erase n })

/-- Removes the node that wraps a value about to be destroyed; nothing may refer to it. -/
def dropUntrackedNode (v : ValueId) : Edit Unit := do
  match (← get).metadata.nodeOf[v]? with
  | none => return
  | some n =>
    if (← get).metadata.tracker.count n ≠ 0 then raise (.destroyWrappedValue v n)
    dropValueNode v

def dropWrapper (v : ValueId) : Edit Unit := do
  match ← Query.wrappedNode v with
  | none => return
  | some n =>
    untrack (.wrapper v) n
    modify (·.modifyMetadata fun md =>
      if md.wrapperOf[n]? = some v then { md with wrapperOf := md.wrapperOf.erase n } else md)

/-- Destroys a value. Its operands are released, its name is unregistered and everything that it
tracks is untracked. -/
def destroyValue (v : ValueId) : Edit Unit := do
  let kind ← Query.kind v
  let uses ← Query.useCount v
  if uses ≠ 0 then raise (.destroyWithUses v kind uses)
  dropUntrackedNode v
  if let some key ← Query.constantKey v then
    forgetConstant key v
  unregisterName v
  modify (·.modifyUses (·.clearSlots v))
  clearAttachments v
  dropWrapper v
  modify fun s => { s with
    values := s.values.erase v
    scopes := s.scopes.erase (.function v) }

end Edit

end ShaderIR
