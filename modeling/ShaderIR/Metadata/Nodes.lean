import ShaderIR.Metadata.Tracking

/-! Making metadata nodes, and the values that wrap them. -/

namespace ShaderIR.Edit

def pushNode (d : Node) : Edit NodeId :=
  modifyGet fun s =>
    (s.metadata.nodes.next, s.modifyMetadata fun md => { md with nodes := md.nodes.push d })

/-- The uniqued node of a content, made on first request by the given edit. -/
def internNode (c : Content) (register : NodeId → Edit Unit) : Edit NodeId := do
  match (← get).metadata.uniqued[c]? with
  | some n => return n
  | none =>
    let n ← pushNode ⟨.uniqued, c⟩
    modify (·.modifyMetadata fun md => { md with uniqued := md.uniqued.insert c n })
    register n
    return n

def makeReplaceable (n : NodeId) : Edit Unit := do
  setTracker ((← get).metadata.tracker.makeReplaceable n)

def stringNode (text : String) : Edit NodeId := internNode (.string text) fun _ => pure ()

/-- The node that wraps a constant, function or global. It follows the value when the value is
replaced. -/
def valueNode (v : ValueId) : Edit NodeId := do
  let kind ← Query.kind v
  if kind ≠ .constant ∧ kind ≠ .function ∧ kind ≠ .global then
    throw (.unsupported (.wrapping kind))
  match (← get).metadata.nodeOf[v]? with
  | some n => return n
  | none =>
    let n ← pushNode ⟨.uniqued, .value v⟩
    modify (·.modifyMetadata fun md => { md with
      uniqued := md.uniqued.insert (.value v) n
      nodeOf := md.nodeOf.insert v n })
    makeReplaceable n
    return n

def tuple (ops : List (Option NodeId)) : Edit NodeId := do
  ops.forM expectNode
  internNode (.tuple ops) trackOperands

/-- A tuple that is never merged with an equal one. -/
def distinctTuple (ops : List (Option NodeId)) : Edit NodeId := do
  ops.forM expectNode
  let n ← pushNode ⟨.distinct, .tuple ops⟩
  trackOperands n
  return n

/-- A tuple that stands for one still to come. -/
def temporaryTuple (ops : List (Option NodeId)) : Edit NodeId := do
  ops.forM expectNode
  let n ← pushNode ⟨.temporary, .tuple ops⟩
  makeReplaceable n
  trackOperands n
  return n

def wrapperValue (n : NodeId) : Edit ValueId := do
  let _ ← Query.node n
  match (← get).metadata.wrapperOf[n]? with
  | some v => return v
  | none =>
    let ty ← internType .metadata
    let v ← pushValue { ty := ty, payload := .metadata n }
    modify (·.modifyMetadata fun md => { md with wrapperOf := md.wrapperOf.insert n v })
    track (.wrapper v) n
    return v

end ShaderIR.Edit
