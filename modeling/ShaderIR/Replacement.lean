import ShaderIR.Destruction

/-! Replacing a value or a metadata node everywhere it is used. Replacing a value may fold block
addresses and merge the nodes that wrap it; merging nodes may merge the values that wrap those,
which is a replacement of values again. Replacements nest no deeper than there are values. -/

namespace ShaderIR

namespace Query

def expectSameType (old new : ValueId) : Query Unit := do
  if (← typeOf old) ≠ (← typeOf new) then raise (.typeMismatch old new)

def expectTemporary (n : NodeId) : Query Unit := do
  if (← storage n) ≠ .temporary then raise (.notReplaceable n)

end Query

namespace Edit

/-- Points an operand of a tuple at another node. A uniqued tuple is interned anew; one that
comes to equal another is uniqued no longer. -/
def retargetOperand (n : NodeId) (position : Nat) (new : NodeId) : Edit Unit := do
  let before ← Query.node n
  modifyNode n fun d => match d.content with
    | .tuple ops => { d with content := .tuple (ops.set position (some new)) }
    | _ => d
  track (.operand n position) new
  if before.storage = .uniqued then
    modify (·.modifyMetadata fun md =>
      if md.uniqued[before.content]? = some n then
        { md with uniqued := md.uniqued.erase before.content }
      else md)
    let after ← Query.node n
    match (← get).metadata.uniqued[after.content]? with
    | none => modify (·.modifyMetadata fun md =>
        { md with uniqued := md.uniqued.insert after.content n })
    | some _ => modifyNode n fun d => { d with storage := .distinct }

def retargetHandle (h : HandleId) (new : NodeId) : Edit Unit := do
  modify (·.modifyMetadata fun md => { md with handles := md.handles.set h (some new) })
  track (.handle h) new

def retargetAttachment (v : ValueId) (tag : TagId) (new : NodeId) : Edit Unit := do
  modifyValue v fun d =>
    { d with attachments := d.attachments.map fun a => if a.1 = tag then (a.1, new) else a }
  track (.attachment v tag) new

section Nested

/-! What happens inside a replacement, given how a nested one replaces values. -/

variable (nested : ValueId → ValueId → Edit Unit)

/-- Points a wrapper at another node. If that node has a wrapper already, the two are merged. -/
def retargetWrapper (wrapper : ValueId) (old new : NodeId) : Edit Unit := do
  modify (·.modifyMetadata fun md =>
    if md.wrapperOf[old]? = some wrapper then { md with wrapperOf := md.wrapperOf.erase old }
    else md)
  match (← get).metadata.wrapperOf[new]? with
  | some existing =>
    nested wrapper existing
    destroyValue wrapper
  | none =>
    modifyValue wrapper fun d => match d.payload with
      | .metadata _ => { d with payload := .metadata new }
      | _ => d
    modify (·.modifyMetadata fun md => { md with wrapperOf := md.wrapperOf.insert new wrapper })
    track (.wrapper wrapper) new

def retarget (old new : NodeId) : Location → Edit Unit
  | .operand n position => retargetOperand n position new
  | .wrapper v => retargetWrapper nested v old new
  | .handle h => retargetHandle h new
  | .attachment v tag => retargetAttachment v tag new

/-- Points every location that holds one node at another, in order of registration. -/
def replaceNodeStep (old new : NodeId) : Edit Unit := do
  if old = new then return
  if !(← get).metadata.tracker.isReplaceable old then raise (.notReplaceable old)
  let _ ← Query.node new
  let (locations, tracker) := (← get).metadata.tracker.take old
  -- The list is emptied first: a nested replacement of the same node finds nothing to move.
  setTracker tracker
  locations.forM (retarget nested old new)

/-- Lets the node that wraps a value follow it. If the new value is wrapped already, the two
nodes are merged. -/
def moveValueNode (old new : ValueId) : Edit Unit := do
  let md := (← get).metadata
  match md.nodeOf[old]?, md.nodeOf[new]? with
  | none, _ => return
  | some oldNode, some newNode =>
    replaceNodeStep nested oldNode newNode
    dropValueNode old
  | some oldNode, none =>
    modify (·.modifyMetadata fun md => { md with
      nodeOf := (md.nodeOf.erase old).insert new oldNode
      uniqued := (md.uniqued.erase (.value old)).insert (.value new) oldNode })
    modifyNode oldNode fun d => { d with content := .value new }

/-- Interns a block address anew after an operand has changed. If an equal one exists, this one
is folded into it. -/
def internBlockAddress (c : ValueId) (before : ConstantKey) : Edit Unit := do
  forgetConstant before c
  let some after ← Query.constantKey c | return
  match (← get).constants[after]? with
  | none => modify fun s => { s with constants := s.constants.insert after c }
  | some existing =>
    if existing ≠ c then
      nested c existing
      destroyValue c
    else
      modify fun s => { s with constants := s.constants.insert after c }

/-- Adds the user of an edge with its content, if it is a block address not listed yet. -/
def noteBlockAddress (e : EdgeId) (noted : List (ValueId × ConstantKey)) :
    Edit (List (ValueId × ConstantKey)) := do
  let user := ((← get).uses.edge e).user
  if (← get).isBlockAddress user && !noted.any (·.1 = user) then
    match ← Query.constantKey user with
    | some key => return noted ++ [(user, key)]
    | none => return noted
  else return noted

def moveEdge (new : ValueId) (e : EdgeId) : Edit Unit := do
  unlink e
  link e new

/-- Moves edges to a value, one after the other, then interns the block addresses among their
users anew. -/
def moveEdges (new : ValueId) (es : List EdgeId) : Edit Unit := do
  let noted ← es.foldlM (fun noted e => do
    -- The content is the one before the first of its edges moves.
    let noted ← noteBlockAddress e noted
    moveEdge new e
    return noted) []
  noted.forM fun c => internBlockAddress nested c.1 c.2

/-- Replaces a value everywhere it is used. The use list is read before anything changes. -/
def replaceStep (old new : ValueId) : Edit Unit := do
  if old = new then return
  Query.expectSameType old new
  moveEdges nested new (← Query.useList old)
  moveValueNode nested old new

end Nested

/-- Replacement of values within which others may nest so deep. -/
def replaceWithin : Nat → ValueId → ValueId → Edit Unit
  | 0, _, _ => throw .nestingExhausted
  | depth + 1, old, new => replaceStep (replaceWithin depth) old new

/-- A nested replacement destroys a wrapper or folds a constant, so values bound the depth. -/
def nestingBound (s : Store) : Nat := s.values.size + 2

/-- Replaces a value by another of the same type everywhere it is used, in operands and in
metadata. -/
def replaceAllUses (old new : ValueId) : Edit Unit := do
  replaceWithin (nestingBound (← get)) old new

/-- The members of a list that a predicate accepts, and the state that it is left in. It is asked
about one member after the other, and each answer may change its state. -/
def pick {α σ : Type} (ask : σ → α → Bool × σ) : σ → List α → List α × σ
  | st, [] => ([], st)
  | st, x :: xs =>
    let (accepts, st) := ask st x
    let (rest, st) := pick ask st xs
    (if accepts then x :: rest else rest, st)

/-- Moves the uses of a value that a predicate accepts to another value. Returns how many have
moved, and the state that the predicate is left in. -/
def replaceUsesIf {σ : Type} (old new : ValueId) (ask : σ → Use → Bool × σ) (st : σ) :
    Edit (Nat × σ) := do
  if old = new then return (0, st)
  Query.expectSameType old new
  let es ← Query.useList old
  let use := (← get).uses.use
  let picked := pick (fun st e => ask st (use e)) st es
  moveEdges (replaceWithin (nestingBound (← get))) new picked.1
  return (picked.1.length, picked.2)

/-- Points every location that holds a replaceable node at another node. -/
def replaceNode (old new : NodeId) : Edit Unit := do
  replaceNodeStep (replaceWithin (nestingBound (← get))) old new

def eraseTemporary (n : NodeId) : Edit Unit := do
  Query.expectTemporary n
  let uses := (← get).metadata.tracker.count n
  if uses ≠ 0 then raise (.nodeStillTracked n uses)
  untrackOperands n
  modify (·.modifyMetadata fun md => { md with
    tracker := (md.tracker.resolve n).2
    nodes := md.nodes.erase n })

/-- Stops tracking a temporary node and keeps it under another storage. -/
def settle (n : NodeId) (storage : Storage) : Edit Unit := do
  modifyNode n fun d => { d with storage := storage }
  setTracker ((← get).metadata.tracker.resolve n).2

/-- Makes a temporary node uniqued, or puts the equal uniqued node in its place. Returns the
node that remains. -/
def replaceWithUniqued (temp : NodeId) : Edit NodeId := do
  Query.expectTemporary temp
  let content := (← Query.node temp).content
  match (← get).metadata.uniqued[content]? with
  | some existing =>
    replaceNode temp existing
    eraseTemporary temp
    return existing
  | none =>
    settle temp .uniqued
    modify (·.modifyMetadata fun md => { md with uniqued := md.uniqued.insert content temp })
    return temp

def replaceWithDistinct (temp : NodeId) : Edit NodeId := do
  Query.expectTemporary temp
  settle temp .distinct
  return temp

end Edit

end ShaderIR
