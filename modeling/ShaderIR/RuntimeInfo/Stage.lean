/-! Shader stages, and what goes wrong with records that name them. -/

namespace ShaderIR

inductive Stage
  | pixel | vertex | geometry | hull | domain | compute | library
  | rayGeneration | intersection | anyHit | closestHit | miss | callable
  | mesh | amplification
  deriving DecidableEq, Repr

/-- A count that is stored in a field of limited width. -/
inductive CountField
  | inputElement | outputElement | patchConstantElement | inputVector | outputVector | maxVertex
  deriving DecidableEq, Repr

inductive RecordError
  | truncated (needed actual : Nat)
  | unknownStage (code : UInt8)
  | stageMismatch (expected found : Stage)
  | missingStage
  | countOverflow (field : CountField) (value max : Nat)
  deriving DecidableEq, Repr

namespace Stage

def all : List Stage :=
  [.pixel, .vertex, .geometry, .hull, .domain, .compute, .library, .rayGeneration,
   .intersection, .anyHit, .closestHit, .miss, .callable, .mesh, .amplification]

def text : Stage → String
  | .pixel => "pixel"
  | .vertex => "vertex"
  | .geometry => "geometry"
  | .hull => "hull"
  | .domain => "domain"
  | .compute => "compute"
  | .library => "library"
  | .rayGeneration => "raygeneration"
  | .intersection => "intersection"
  | .anyHit => "anyhit"
  | .closestHit => "closesthit"
  | .miss => "miss"
  | .callable => "callable"
  | .mesh => "mesh"
  | .amplification => "amplification"

def code : Stage → UInt8
  | .pixel => 0
  | .vertex => 1
  | .geometry => 2
  | .hull => 3
  | .domain => 4
  | .compute => 5
  | .library => 6
  | .rayGeneration => 7
  | .intersection => 8
  | .anyHit => 9
  | .closestHit => 10
  | .miss => 11
  | .callable => 12
  | .mesh => 13
  | .amplification => 14

def ofCode (c : UInt8) : Except RecordError Stage :=
  match all[c.toNat]? with
  | some stage => .ok stage
  | none => .error (.unknownStage c)

def isRayTracing : Stage → Bool
  | .rayGeneration | .intersection | .anyHit | .closestHit | .miss | .callable => true
  | _ => false

theorem ofCode_code (s : Stage) : ofCode s.code = .ok s := by
  cases s <;> rfl

end Stage

def CountField.text : CountField → String
  | .inputElement => "input element"
  | .outputElement => "output element"
  | .patchConstantElement => "patch constant element"
  | .inputVector => "input vector"
  | .outputVector => "output vector"
  | .maxVertex => "max vertex"

def RecordError.message : RecordError → String
  | .truncated needed actual =>
    "PSV record truncated: need " ++ toString needed ++ " bytes, got " ++ toString actual
  | .unknownStage code => "unknown shader stage " ++ toString code.toNat
  | .stageMismatch expected found =>
    "stage data for " ++ found.text ++ " does not match shader stage " ++ expected.text
  | .missingStage => "a record without a stage byte needs a stage hint"
  | .countOverflow field value max =>
    field.text ++ " count " ++ toString value ++ " does not fit in " ++ toString max

end ShaderIR
