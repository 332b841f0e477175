import ShaderIR.Operands

/-! Names. A named value that is attached to a function or module is an entry of the symbol table
there. Attaching a value registers its name, which may rename it; detaching takes the entry out
and leaves the name. -/

namespace ShaderIR

namespace Query

def blockParent (b : ValueId) : Query (Option ValueId) := do
  match ← payload b with
  | .block f _ => return f
  | _ => wrongKind b .block

def scopeOf (v : ValueId) : Query (Option Scope) := do
  match ← payload v with
  | .argument f _ => return some (.function f)
  | .block f _ => return f.map .function
  | .instruction none _ => return none
  | .instruction (some b) _ => return (← blockParent b).map .function
  | .function m _ _ => return m.map .module
  | .global m => return m.map .module
  | .constant _ => return none
  | .metadata _ => return none

def scopeLabel : Scope → Query String
  | .function f => do
    match ← name f with
    | some name => return "function @" ++ name
    | none => return "function " ++ f.text
  | .module m => do return "module " ++ (← module m).name

def symbols (scope : Scope) : Query SymbolTable := do
  match scope with
  | .function f => expectKind f .function
  | .module m => let _ ← module m
  return (← read).table scope

def valueByName (scope : Scope) (name : String) : Query (Option ValueId) := do
  return (← symbols scope).lookup (← read).hash name

/-- A scope that goes away should have no symbols left. -/
def expectEmptyScope (scope : Scope) : Query Unit := do
  let table ← symbols scope
  if table.size ≠ 0 then
    let label ← scopeLabel scope
    if (← read).config.verifyScopeTeardown then
      raise (.scopeLeak label table.size)

end Query

namespace Edit

/-- Enters the name of a value in its scope, where it may be changed. -/
def registerName (v : ValueId) : Edit Unit := do
  let some scope ← Query.scopeOf v | return
  let some name ← Query.name v | return
  modifyValue v fun d => { d with name := none }
  let table ← Query.symbols scope
  let hash := (← get).hash
  let (claimed, table) := table.claim hash name v
  modify (·.setTable scope table)
  match claimed with
  | none => throw .counterExhausted
  | some name =>
    modifyValue v fun d => { d with name := some name, nameHash := hash name }

def unregisterName (v : ValueId) : Edit Unit := do
  let d ← Query.value v
  if d.name.isNone then return
  let some scope ← Query.scopeOf v | return
  let table ← Query.symbols scope
  if table.find? d.nameHash = some v then
    modify (·.setTable scope (table.erase d.nameHash))

/-- Writes a name on a value without registering it; an empty name is no name. -/
def writeName (v : ValueId) (name : String) : Edit Unit := do
  if name.isEmpty then return
  let hash := (← get).hash
  modifyValue v fun d => { d with name := some name, nameHash := hash name }

/-- Renames a value. An empty name removes the name it has. -/
def setName (v : ValueId) (name : String) : Edit Unit := do
  let kind ← Query.kind v
  if kind = .constant ∨ kind = .metadata then raise (.unnameableValue v kind)
  unregisterName v
  modifyValue v fun d => { d with name := none, nameHash := 0 }
  writeName v name
  registerName v

def takeName (v : ValueId) : Edit (Option String) := do
  unregisterName v
  let name ← Query.name v
  modifyValue v fun d => { d with name := none, nameHash := 0 }
  return name

end Edit

end ShaderIR
