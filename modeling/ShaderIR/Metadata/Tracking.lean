import ShaderIR.Store

/-! What the locations of a store hold, and keeping the tracker in step with them. -/

namespace ShaderIR

namespace Query

def nodeKind (n : NodeId) : Query NodeKind := do return (← node n).content.kind

def storage (n : NodeId) : Query Storage := do return (← node n).storage

def nodeOperands (n : NodeId) : Query (List (Option NodeId)) := do
  return (← node n).content.operands

def stringOf (n : NodeId) : Query (Option String) := do
  match (← node n).content with
  | .string text => return some text
  | _ => return none

def wrappedValue (n : NodeId) : Query (Option ValueId) := do
  match (← node n).content with
  | .value v => return some v
  | _ => return none

def wrappedNode (v : ValueId) : Query (Option NodeId) := do
  match ← payload v with
  | .metadata n => return some n
  | _ => return none

def attachments (v : ValueId) : Query (List (TagId × NodeId)) := do
  return (← value v).attachments

def attachment (v : ValueId) (tag : TagId) : Query (Option NodeId) := do
  return ((← attachments v).find? (·.1 = tag)).map Prod.snd

def held : Location → Query (Option NodeId)
  | .operand n position => do return (← nodeOperands n)[position]?.join
  | .wrapper v => wrappedNode v
  | .handle h => handle h
  | .attachment v tag => attachment v tag

end Query

namespace Edit

def modifyNode (n : NodeId) (f : Node → Node) : Edit Unit := do
  let _ ← Query.node n
  modify (·.modifyMetadata fun md => { md with nodes := md.nodes.modify n f })

def setTracker (t : Tracker) : Edit Unit :=
  modify (·.modifyMetadata fun md => { md with tracker := t })

def track (l : Location) (n : NodeId) : Edit Unit := do
  match (← get).metadata.tracker.track l n with
  | .ok (_, t) => setTracker t
  | .error v => raise v

def untrack (l : Location) (n : NodeId) : Edit Unit := do
  setTracker ((← get).metadata.tracker.untrack l n).2

def retrack (old : Location) (n : NodeId) (new : Location) : Edit Unit := do
  match (← get).metadata.tracker.retrack old n new with
  | .ok (_, t) => setTracker t
  | .error v => raise v

def trackOption (l : Location) : Option NodeId → Edit Unit
  | none => pure ()
  | some n => track l n

def untrackOption (l : Location) : Option NodeId → Edit Unit
  | none => pure ()
  | some n => untrack l n

def retrackOption (old : Location) (new : Location) : Option NodeId → Edit Unit
  | none => pure ()
  | some n => retrack old n new

def trackOperands (n : NodeId) : Edit Unit := do
  let ops ← Query.nodeOperands n
  ops.zipIdx.forM fun op => trackOption (.operand n op.2) op.1

def untrackOperands (n : NodeId) : Edit Unit := do
  let ops ← Query.nodeOperands n
  ops.zipIdx.forM fun op => untrackOption (.operand n op.2) op.1

/-- A node about to be referred to has to be live. -/
def expectNode : Option NodeId → Edit Unit
  | none => pure ()
  | some n => do let _ ← Query.node n

def clearAttachments (v : ValueId) : Edit Unit := do
  let attached ← Query.attachments v
  modifyValue v fun d => { d with attachments := [] }
  attached.forM fun a => untrack (.attachment v a.1) a.2

end Edit

end ShaderIR
