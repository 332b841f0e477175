import ShaderIR.Store
import ShaderIR.Verifier.Report

/-! Structural checks of a store, which may be in any state. Use lists are doubly linked and as
long as the number of slots that point at their value; children and parents agree; symbols and
names agree; tracked locations hold what they are tracked for. -/

namespace ShaderIR.Store

section Uses

/-- The operand slots of the live values: the user, the slot and its edge. -/
def liveSlots (s : Store) : List (ValueId × Nat × EdgeId) :=
  s.liveValues.flatMap fun v => (s.uses.slotsOf v).zipIdx.map fun e => (v, e.2, e.1)

def slotDefects (s : Store) (user : ValueId) (slot : Nat) (e : EdgeId) : List Defect :=
  let d := s.uses.edge e
  let owner := if d.user ≠ user ∨ d.slot ≠ slot
    then [Defect.edgeOwnerMismatch user slot d.user d.slot] else []
  let target := match d.target with
    | some t => if s.isLive t then [] else [Defect.danglingOperand user slot t]
    | none => []
  owner ++ target

def slotsAt (s : Store) (v : ValueId) : Nat :=
  (s.liveSlots.filter fun e => (s.uses.edge e.2.2).target = some v).length

/-- Walks a use list and counts it. A link that disagrees with its neighbour, or a list longer
than there are edges, ends the walk. -/
def walk (s : Store) (v : ValueId) :
    Nat → Nat → Option EdgeId → Option EdgeId → List Defect × Nat
  | _, listed, _, none => ([], listed)
  | 0, listed, _, some _ => ([.brokenLinks v], listed)
  | steps + 1, listed, prev, some e =>
    let d := s.uses.edge e
    if d.prev ≠ prev then ([.brokenLinks v], listed)
    else
      let (found, total) := walk s v steps (listed + 1) (some e) d.next
      ((if d.target = some v then [] else [.foreignEdge v d.target]) ++ found, total)

def useListDefects (s : Store) (v : ValueId) : List Defect :=
  let (found, listed) := s.walk v (s.uses.edges.size + 1) 0 none (s.uses.head? v)
  let actual := s.slotsAt v
  found ++ if listed ≠ actual then [.useCountMismatch v listed actual] else []

def useDefects (s : Store) : List Defect :=
  (s.liveSlots.flatMap fun e => s.slotDefects e.1 e.2.1 e.2.2) ++
    s.liveValues.flatMap s.useListDefects

end Uses

section Containers

def scopeText (s : Store) : Scope → String
  | .function f =>
    match (s.values.get? f).bind Value.name with
    | some name => "function @" ++ name
    | none => "function " ++ f.text
  | .module m =>
    match s.modules.get? m with
    | some d => "module " ++ d.name
    | none => m.text

def blockText (b : ValueId) : String := "block " ++ b.text

/-- Whether a live value has a payload of some form. -/
def payloadIs (s : Store) (v : ValueId) (p : Payload → Bool) : Bool :=
  (s.values.get? v).any fun d => p d.payload

def namesModule (m : ModuleId) : Payload → Bool
  | .function parent _ _ => parent = some m
  | .global parent => parent = some m
  | _ => false

def isArgumentOf (f : ValueId) : Payload → Bool
  | .argument parent _ => parent = f
  | _ => false

def isBlockOf (f : ValueId) : Payload → Bool
  | .block parent _ => parent = some f
  | _ => false

def isInstructionOf (b : ValueId) : Payload → Bool
  | .instruction parent _ => parent = some b
  | _ => false

/-- The children of a list that do not name the container. -/
def strayChildren (s : Store) (container : String) (p : Payload → Bool)
    (children : List ValueId) : List Defect :=
  (children.filter fun c => !s.payloadIs c p).map (Defect.containerMismatch container)

def moduleDefects (s : Store) (m : ModuleId) (d : Module) : List Defect :=
  s.strayChildren ("module " ++ d.name) (namesModule m) (d.functions ++ d.globals)

def childDefects (s : Store) (v : ValueId) : Payload → List Defect
  | .function _ arguments blocks =>
    let container := s.scopeText (.function v)
    s.strayChildren container (isArgumentOf v) arguments ++
      s.strayChildren container (isBlockOf v) blocks
  | .block _ insts => s.strayChildren (blockText v) (isInstructionOf v) insts
  | _ => []

def listsInstruction (v : ValueId) : Payload → Bool
  | .block _ insts => insts.contains v
  | _ => false

def listsBlock (v : ValueId) : Payload → Bool
  | .function _ _ blocks => blocks.contains v
  | _ => false

def listsArgument (v : ValueId) (position : Nat) : Payload → Bool
  | .function _ arguments _ => arguments[position]? = some v
  | _ => false

/-- The container that a value names, and whether it lists the value. -/
def membership (s : Store) (v : ValueId) : Payload → Option (String × Bool)
  | .instruction (some b) _ => some (blockText b, s.payloadIs b (listsInstruction v))
  | .block (some f) _ => some (s.scopeText (.function f), s.payloadIs f (listsBlock v))
  | .argument f position =>
    some (s.scopeText (.function f), s.payloadIs f (listsArgument v position))
  | .function (some m) _ _ =>
    some (s.scopeText (.module m), (s.modules.get? m).any (·.functions.contains v))
  | .global (some m) =>
    some (s.scopeText (.module m), (s.modules.get? m).any (·.globals.contains v))
  | _ => none

def parentDefects (s : Store) (v : ValueId) (p : Payload) : List Defect :=
  match s.membership v p with
  | some (container, false) => [.unlistedChild container v]
  | _ => []

def containerDefects (s : Store) : List Defect :=
  (s.modules.toList.flatMap fun m => s.moduleDefects m.1 m.2) ++
    (s.values.toList.flatMap fun v => s.childDefects v.1 v.2.payload) ++
    s.values.toList.flatMap fun v => s.parentDefects v.1 v.2.payload

end Containers

section Symbols

/-- The scope of a value, whatever state its parents are in. -/
def attachedScope (s : Store) : Payload → Option Scope
  | .argument f _ => some (.function f)
  | .block f _ => f.map .function
  | .instruction b _ =>
    match b.bind s.values.get? with
    | some ⟨_, .block f _, _, _, _⟩ => f.map .function
    | _ => none
  | .function m _ _ => m.map .module
  | .global m => m.map .module
  | .constant _ => none
  | .metadata _ => none

def isFunction : Payload → Bool
  | .function .. => true
  | _ => false

def table? (s : Store) : Scope → Option SymbolTable
  | .function f =>
    if s.payloadIs f isFunction then some (s.table (.function f)) else none
  | .module m => if s.isModuleLive m then some (s.table (.module m)) else none

def isRegistered (s : Store) (v : ValueId) (hash : UInt64) (scope : Scope) : Bool :=
  (s.table? scope).any fun t => t.find? hash = some v

def nameDefects (s : Store) (v : ValueId) (d : Value) : List Defect :=
  match d.name, s.attachedScope d.payload with
  | some name, some scope =>
    if s.isRegistered v d.nameHash scope then []
    else [.unregisteredName v name (s.scopeText scope)]
  | _, _ => []

def liveScopes (s : Store) : List Scope :=
  ((s.values.toList.filter fun v => isFunction v.2.payload).map fun v => .function v.1) ++
    s.liveModules.map .module

def ownsSymbol (s : Store) (scope : Scope) (hash : UInt64) (v : ValueId) : Bool :=
  (s.values.get? v).any fun d =>
    d.name.isSome && d.nameHash = hash && s.attachedScope d.payload = some scope

def symbolDefects (s : Store) (scope : Scope) : List Defect :=
  ((s.table scope).toList.filter fun e => !s.ownsSymbol scope e.1 e.2).map fun e =>
    .staleSymbol (s.scopeText scope) e.1 e.2

def namingDefects (s : Store) : List Defect :=
  (s.values.toList.flatMap fun v => s.nameDefects v.1 v.2) ++
    s.liveScopes.flatMap s.symbolDefects

end Symbols

section Tracking

/-- What a location holds, whatever state its owner is in. -/
def held? (s : Store) : Location → Option NodeId
  | .operand n position =>
    (s.metadata.nodes.get? n).bind fun d => d.content.operands[position]?.join
  | .wrapper v =>
    match s.values.get? v with
    | some ⟨_, .metadata n, _, _, _⟩ => some n
    | _ => none
  | .handle h => (s.metadata.handles.get? h).join
  | .attachment v tag =>
    (s.values.get? v).bind fun d => (d.attachments.find? (·.1 = tag)).map Prod.snd

def trackingDefects (s : Store) : List Defect :=
  s.metadata.nodes.toList.flatMap fun n =>
    ((s.metadata.tracker.tracked n.1).filter fun l => s.held? l ≠ some n.1).map fun l =>
      .trackedLocationMismatch l n.1 (s.held? l)

end Tracking

def verify (s : Store) : Report :=
  s.useDefects ++ s.containerDefects ++ s.namingDefects ++ s.trackingDefects

end ShaderIR.Store
