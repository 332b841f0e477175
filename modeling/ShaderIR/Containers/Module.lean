import ShaderIR.Containers.Block
import ShaderIR.Metadata.Handles

/-! Modules, and the functions, globals and named metadata that they own. -/

namespace ShaderIR

namespace Query

def functionArguments (f : ValueId) : Query (List ValueId) := do
  match ← payload f with
  | .function _ arguments _ => return arguments
  | _ => wrongKind f .function

def functionModule (f : ValueId) : Query (Option ModuleId) := do
  match ← payload f with
  | .function m _ _ => return m
  | _ => wrongKind f .function

def argumentParent (v : ValueId) : Query (ValueId × Nat) := do
  match ← payload v with
  | .argument f position => return (f, position)
  | _ => wrongKind v .argument

def globalModule (g : ValueId) : Query (Option ModuleId) := do
  match ← payload g with
  | .global m => return m
  | _ => wrongKind g .global

def initializer (g : ValueId) : Query (Option ValueId) := do
  expectKind g .global
  operand g 0

def namedMetadataNames (m : ModuleId) : Query (List String) := do
  return (← module m).named.map Prod.fst

/-- The nodes under a name of a module; empty handles are left out. -/
def namedMetadata (m : ModuleId) (name : String) : Query (List NodeId) := do
  match (← module m).named.find? (·.1 = name) with
  | none => return []
  | some (_, holders) => return (← holders.mapM handle).filterMap id

end Query

/-- Appends a handle to the operands under a name, which comes last if it is new. -/
def addNamed (name : String) (h : HandleId) :
    List (String × List HandleId) → List (String × List HandleId)
  | [] => [(name, [h])]
  | entry :: rest =>
    if entry.1 = name then (name, entry.2 ++ [h]) :: rest else entry :: addNamed name h rest

namespace Edit

def createModule (name : String) : Edit ModuleId :=
  modifyGet fun s =>
    let m := s.modules.next
    (m, { s with
      modules := s.modules.push { name := name }
      scopes := s.scopes.insert (.module m) { separator := s.config.nameSeparator } })

def setFunctionModule (f : ValueId) (m : Option ModuleId) : Edit Unit :=
  modifyValue f fun d => match d.payload with
    | .function _ arguments blocks => { d with payload := .function m arguments blocks }
    | _ => d

def appendFunction (m : ModuleId) (f : ValueId) : Edit Unit := do
  let _ ← Query.module m
  if (← Query.functionModule f).isSome then raise (.alreadyOwned f)
  setFunctionModule f (some m)
  modifyModule m fun d => { d with functions := d.functions ++ [f] }
  registerName f

def removeFunction (f : ValueId) : Edit Unit := do
  let some m ← Query.functionModule f | raise (.notOwned f)
  unregisterName f
  modifyModule m fun d => { d with functions := without f d.functions }
  setFunctionModule f none

/-- Moves a function to the end of a module; within its module it keeps its name. -/
def moveFunctionTo (f : ValueId) (m : ModuleId) : Edit Unit := do
  match ← Query.functionModule f with
  | none => appendFunction m f
  | some current =>
    if current = m then
      modifyModule m fun d => { d with functions := without f d.functions ++ [f] }
    else
      removeFunction f
      appendFunction m f

/-- Makes a function at the end of a module, with an argument for each parameter of its type. -/
def createFunction (m : ModuleId) (name : String) (ty : TypeId) : Edit ValueId := do
  let some params := (← Query.shape ty).params? | raise (.notAFunctionType ty)
  let f ← pushValue { ty := ty, payload := .function none [] [] }
  modify fun s => s.setTable (.function f) { separator := s.config.nameSeparator }
  let arguments ← params.zipIdx.mapM fun p =>
    pushValue { ty := p.1, payload := .argument f p.2 }
  modifyValue f fun d => { d with payload := .function none arguments [] }
  writeName f name
  appendFunction m f
  return f

def setGlobalModule (g : ValueId) (m : Option ModuleId) : Edit Unit :=
  modifyValue g fun d => match d.payload with
    | .global _ => { d with payload := .global m }
    | _ => d

def appendGlobal (m : ModuleId) (g : ValueId) : Edit Unit := do
  let _ ← Query.module m
  if (← Query.globalModule g).isSome then raise (.alreadyOwned g)
  setGlobalModule g (some m)
  modifyModule m fun d => { d with globals := d.globals ++ [g] }
  registerName g

def removeGlobal (g : ValueId) : Edit Unit := do
  let some m ← Query.globalModule g | raise (.notOwned g)
  unregisterName g
  modifyModule m fun d => { d with globals := without g d.globals }
  setGlobalModule g none

def moveGlobalTo (g : ValueId) (m : ModuleId) : Edit Unit := do
  if (← Query.globalModule g).isSome then removeGlobal g
  appendGlobal m g

/-- Makes a global at the end of a module. Its initializer is operand 0. -/
def createGlobal (m : ModuleId) (name : String) (ty : TypeId) (init : Option ValueId) :
    Edit ValueId := do
  let g ← pushValue { ty := ty, payload := .global none }
  let _ ← addOperand g init
  writeName g name
  appendGlobal m g
  return g

def setInitializer (g : ValueId) (init : Option ValueId) : Edit Unit := do
  Query.expectKind g .global
  putOperand g 0 init

def addNamedMetadata (m : ModuleId) (name : String) (n : NodeId) : Edit Unit := do
  let _ ← Query.module m
  let h ← trackHandle (some n)
  modifyModule m fun d => { d with named := addNamed name h d.named }

/-- Removes a name of a module and releases its handles. -/
def eraseNamedMetadata (m : ModuleId) (name : String) : Edit Unit := do
  match (← Query.module m).named.find? (·.1 = name) with
  | none => return
  | some (_, holders) =>
    modifyModule m fun d => { d with named := d.named.eraseP (·.1 = name) }
    holders.forM releaseHandle

end Edit

end ShaderIR
