import ShaderIR.RuntimeInfo.StageInfo

/-! The runtime-info record. Each version appends fields to the one before, so the size of a record
tells its version. -/

namespace ShaderIR

inductive RecordVersion
  | v0 | v1 | v2 | v3
  deriving DecidableEq, Repr

namespace RecordVersion

def number : RecordVersion → Nat
  | .v0 => 0
  | .v1 => 1
  | .v2 => 2
  | .v3 => 3

def latest : RecordVersion := .v3

def size : RecordVersion → Nat
  | .v0 => 24
  | .v1 => 36
  | .v2 => 48
  | .v3 => 52

/-- The newest version whose fields fit in so many bytes. -/
def ofSize (n : Nat) : Except RecordError RecordVersion :=
  match [RecordVersion.v3, .v2, .v1, .v0].find? fun v => v.size ≤ n with
  | some v => .ok v
  | none => .error (.truncated RecordVersion.v0.size n)

end RecordVersion

structure PerStream (α : Type) where
  first : α
  second : α
  third : α
  fourth : α
  deriving DecidableEq, Repr

structure SignatureCounts where
  inputElements : UInt8 := 0
  outputElements : UInt8 := 0
  patchConstantOrPrimitiveElements : UInt8 := 0
  inputVectors : UInt8 := 0
  outputVectors : PerStream UInt8 := ⟨0, 0, 0, 0⟩
  deriving DecidableEq, Repr

namespace SignatureCounts

def narrow (field : CountField) (n : Nat) : Except RecordError UInt8 :=
  if n < UInt8.size then .ok (UInt8.ofNat n)
  else .error (.countOverflow field n (UInt8.size - 1))

/-- The counts of a signature; the output vectors are looked at first. -/
def ofCounts (inputElements outputElements patchConstantOrPrimitiveElements inputVectors : Nat)
    (outputVectors : PerStream Nat) : Except RecordError SignatureCounts := do
  let first ← narrow .outputVector outputVectors.first
  let second ← narrow .outputVector outputVectors.second
  let third ← narrow .outputVector outputVectors.third
  let fourth ← narrow .outputVector outputVectors.fourth
  let inputElements ← narrow .inputElement inputElements
  let outputElements ← narrow .outputElement outputElements
  let patchElements ← narrow .patchConstantElement patchConstantOrPrimitiveElements
  let inputVectors ← narrow .inputVector inputVectors
  return ⟨inputElements, outputElements, patchElements, inputVectors,
    ⟨first, second, third, fourth⟩⟩

def encode (c : SignatureCounts) : List UInt8 :=
  [c.inputElements, c.outputElements, c.patchConstantOrPrimitiveElements, c.inputVectors,
    c.outputVectors.first, c.outputVectors.second, c.outputVectors.third, c.outputVectors.fourth]

/-- The counts at the start of a list of bytes. -/
def decode (bytes : List UInt8) : SignatureCounts :=
  ⟨Bytes.byteAt bytes 0, Bytes.byteAt bytes 1, Bytes.byteAt bytes 2, Bytes.byteAt bytes 3,
    ⟨Bytes.byteAt bytes 4, Bytes.byteAt bytes 5, Bytes.byteAt bytes 6, Bytes.byteAt bytes 7⟩⟩

end SignatureCounts

structure ThreadCounts where
  x : UInt32 := 0
  y : UInt32 := 0
  z : UInt32 := 0
  deriving DecidableEq, Repr

structure RuntimeInfo where
  stageInfo : StageInfo
  minWaveLaneCount : UInt32 := 0
  maxWaveLaneCount : UInt32 := 0xffffffff
  usesViewId : Bool := false
  stageExtra : StageExtra := .none
  signature : SignatureCounts := {}
  threads : ThreadCounts := {}
  /-- Where the name of the entry point starts in the string table. -/
  entryFunctionName : UInt32 := 0
  deriving DecidableEq, Repr

/-- A record that has been read, with the version it was read as. -/
structure DecodedRecord where
  version : RecordVersion
  info : RuntimeInfo
  /-- The bytes past the fields of that version. -/
  trailing : Nat
  deriving DecidableEq, Repr

namespace RuntimeInfo

open Bytes

def stage (i : RuntimeInfo) : Stage := i.stageInfo.stage

/-- What each version adds to the one before. -/
def sections (i : RuntimeInfo) : List (List UInt8) :=
  [i.stageInfo.encode ++ ofWord32 i.minWaveLaneCount ++ ofWord32 i.maxWaveLaneCount,
   [i.stage.code] ++ ofFlag i.usesViewId ++ i.stageExtra.encode ++ i.signature.encode,
   ofWord32 i.threads.x ++ ofWord32 i.threads.y ++ ofWord32 i.threads.z,
   ofWord32 i.entryFunctionName]

/-- The fields of a version. The first one has no room for the payload of a stage, and does not
check it. -/
def encode (i : RuntimeInfo) (v : RecordVersion) : Except RecordError (List UInt8) := do
  if v ≠ .v0 then i.stageExtra.check i.stage
  return (i.sections.take (v.number + 1)).flatten

def encodeSized (i : RuntimeInfo) (v : RecordVersion) : Except RecordError (List UInt8) := do
  let body ← i.encode v
  return ofWord32 (UInt32.ofNat body.length) ++ body

def stageOffset : Nat := StageInfo.width + 8

/-- A hint has to agree with the stage that a record stores. -/
def agreeingStage (stored : Stage) : Option Stage → Except RecordError Stage
  | none => .ok stored
  | some expected =>
    if expected = stored then .ok stored else .error (.stageMismatch expected stored)

/-- The stage of a record. The first version does not store it and needs a hint. -/
def decodeStage (bytes : List UInt8) (v : RecordVersion) (hint : Option Stage) :
    Except RecordError Stage :=
  match v, hint with
  | .v0, some stage => .ok stage
  | .v0, none => .error .missingStage
  | _, hint => do agreeingStage (← Stage.ofCode (byteAt bytes stageOffset)) hint

/-- The fields of a version at the start of a list of bytes; the others have their defaults. -/
def decodeFields (bytes : List UInt8) (v : RecordVersion) (stage : Stage) : RuntimeInfo :=
  let info : RuntimeInfo :=
    { stageInfo := StageInfo.decode bytes stage
      minWaveLaneCount := word32At bytes 16
      maxWaveLaneCount := word32At bytes 20 }
  let info := if v.number < 1 then info else
    { info with
      usesViewId := flagAt bytes 25
      stageExtra := StageExtra.decode (bytes.drop 26) stage
      signature := SignatureCounts.decode (bytes.drop 28) }
  let info := if v.number < 2 then info else
    { info with threads := ⟨word32At bytes 36, word32At bytes 40, word32At bytes 44⟩ }
  if v.number < 3 then info else
    { info with entryFunctionName := word32At bytes 48 }

/-- Reads a record that takes up all the bytes. -/
def decode (bytes : List UInt8) (hint : Option Stage) : Except RecordError DecodedRecord := do
  let v ← RecordVersion.ofSize bytes.length
  let stage ← decodeStage bytes v hint
  return ⟨v, decodeFields bytes v stage, bytes.length - v.size⟩

/-- Reads a record after its size, and returns the bytes that follow it. -/
def decodeSized (bytes : List UInt8) (hint : Option Stage) :
    Except RecordError (DecodedRecord × List UInt8) := do
  if bytes.length < 4 then throw (.truncated 4 bytes.length)
  let size := (word32At bytes 0).toNat
  if bytes.length < 4 + size then throw (.truncated (4 + size) bytes.length)
  let record ← decode ((bytes.drop 4).take size) hint
  return (record, bytes.drop (4 + size))

end RuntimeInfo

end ShaderIR
