import ShaderIR.Arena
import ShaderIR.Config
import ShaderIR.Metadata.Tracker
import ShaderIR.NameHash
import ShaderIR.SymbolTable
import ShaderIR.TypeTable
import ShaderIR.UseGraph

/-! The store: everything a program representation consists of, and the two ways to work on it.
A query reads the store and may fail; an edit also changes it, and what it has changed before it
fails stays changed. -/

namespace ShaderIR

structure Module where
  name : String
  functions : List ValueId := []
  globals : List ValueId := []
  /-- Named metadata in order of creation; each operand is a tracked handle. -/
  named : List (String × List HandleId) := []
  deriving DecidableEq

structure Metadata where
  nodes : Arena .node Node := {}
  /-- The uniqued node of each content. -/
  uniqued : Std.ExtTreeMap Content NodeId := ∅
  /-- The value that wraps a node. -/
  wrapperOf : Std.ExtTreeMap NodeId ValueId := ∅
  /-- The node that wraps a value. -/
  nodeOf : Std.ExtTreeMap ValueId NodeId := ∅
  /-- What each handle holds; a released handle is erased. -/
  handles : Arena .handle (Option NodeId) := {}
  tracker : Tracker := {}
  tags : List String := []

structure Store where
  config : Config := {}
  /-- By this hash every naming scope tells names apart. -/
  hash : String → UInt64 := nameHash
  types : TypeTable := {}
  values : Arena .value Value := {}
  uses : UseGraph := {}
  modules : Arena .module Module := {}
  /-- The symbol tables of the live functions and modules. -/
  scopes : Std.ExtTreeMap Scope SymbolTable := ∅
  constants : Std.ExtTreeMap ConstantKey ValueId := ∅
  metadata : Metadata := {}

abbrev Query := ReaderT Store (Except Fault)

abbrev Edit := EStateM Fault Store

def Query.asEdit {α : Type} (q : Query α) : Edit α := fun s =>
  match q s with
  | .ok a => .ok a s
  | .error f => .error f s

instance : MonadLift Query Edit := ⟨Query.asEdit⟩

def raise {m : Type → Type} [MonadExceptOf Fault m] {α : Type} (v : Violation) : m α :=
  throw (.violation v)

namespace Store

def modifyValue (s : Store) (v : ValueId) (f : Value → Value) : Store :=
  { s with values := s.values.modify v f }

def modifyModule (s : Store) (m : ModuleId) (f : Module → Module) : Store :=
  { s with modules := s.modules.modify m f }

def modifyUses (s : Store) (f : UseGraph → UseGraph) : Store := { s with uses := f s.uses }

def modifyMetadata (s : Store) (f : Metadata → Metadata) : Store :=
  { s with metadata := f s.metadata }

/-- The symbol table of a scope; a scope without a table has an empty one. -/
def table (s : Store) (scope : Scope) : SymbolTable :=
  s.scopes[scope]?.getD { separator := s.config.nameSeparator }

def setTable (s : Store) (scope : Scope) (t : SymbolTable) : Store :=
  { s with scopes := s.scopes.insert scope t }

def pushValue (s : Store) (d : Value) : ValueId × Store :=
  (s.values.next, { s with values := s.values.push d })

def isLive (s : Store) (v : ValueId) : Bool := (s.values.get? v).isSome

def isModuleLive (s : Store) (m : ModuleId) : Bool := (s.modules.get? m).isSome

def isNodeLive (s : Store) (n : NodeId) : Bool := (s.metadata.nodes.get? n).isSome

def liveValues (s : Store) : List ValueId := s.values.toList.map Prod.fst

def liveModules (s : Store) : List ModuleId := s.modules.toList.map Prod.fst

def isBlockAddress (s : Store) (v : ValueId) : Bool :=
  (s.values.get? v).any fun d => d.payload = .constant .blockAddress

end Store

namespace Query

def value (v : ValueId) : Query Value := fun s =>
  match s.values.get? v with
  | some d => .ok d
  | none => .error (.violation (.staleValue v))

def module (m : ModuleId) : Query Module := fun s =>
  match s.modules.get? m with
  | some d => .ok d
  | none => .error (.violation (.staleModule m))

def node (n : NodeId) : Query Node := fun s =>
  match s.metadata.nodes.get? n with
  | some d => .ok d
  | none => .error (.violation (.staleNode n))

def handle (h : HandleId) : Query (Option NodeId) := fun s =>
  match s.metadata.handles.get? h with
  | some target => .ok target
  | none => .error (.violation (.staleHandle h))

def kind (v : ValueId) : Query ValueKind := do return (← value v).kind

def typeOf (v : ValueId) : Query TypeId := do return (← value v).ty

def name (v : ValueId) : Query (Option String) := do return (← value v).name

def nameHash (v : ValueId) : Query UInt64 := do return (← value v).nameHash

def payload (v : ValueId) : Query Payload := do return (← value v).payload

def expectKind (v : ValueId) (expected : ValueKind) : Query Unit := do
  let found ← kind v
  if found ≠ expected then raise (.wrongKind v expected found)

def wrongKind {α : Type} (v : ValueId) (expected : ValueKind) : Query α := do
  raise (.wrongKind v expected (← kind v))

def constantData (v : ValueId) : Query (Option ConstantData) := do
  match ← payload v with
  | .constant data => return some data
  | _ => return none

def shape (ty : TypeId) : Query TypeShape := fun s =>
  match s.types.get? ty with
  | some shape => .ok shape
  | none => .error .unknownIndex

def typeText (ty : TypeId) : Query String := fun s =>
  match s.types.render ty with
  | some text => .ok text
  | none => .error .unknownIndex

end Query

namespace Edit

def internType (shape : TypeShape) : Edit TypeId :=
  modifyGet fun s =>
    let (ty, types) := s.types.intern shape
    (ty, { s with types := types })

def pushValue (d : Value) : Edit ValueId := modifyGet (·.pushValue d)

def modifyValue (v : ValueId) (f : Value → Value) : Edit Unit := do
  let _ ← Query.value v
  modify (·.modifyValue v f)

def modifyModule (m : ModuleId) (f : Module → Module) : Edit Unit := do
  let _ ← Query.module m
  modify (·.modifyModule m f)

end Edit

end ShaderIR
