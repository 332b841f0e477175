import ShaderIR.RuntimeInfo.Bytes
import ShaderIR.RuntimeInfo.Stage

/-! The part of a record that depends on the stage: a union of sixteen bytes, and one of two bytes
that came later. -/

namespace ShaderIR

structure VertexInfo where
  outputPositionPresent : Bool := false
  deriving DecidableEq, Repr

structure HullInfo where
  inputControlPointCount : UInt32 := 0
  outputControlPointCount : UInt32 := 0
  tessellatorDomain : UInt32 := 0
  tessellatorOutputPrimitive : UInt32 := 0
  deriving DecidableEq, Repr

structure DomainInfo where
  inputControlPointCount : UInt32 := 0
  outputPositionPresent : Bool := false
  tessellatorDomain : UInt32 := 0
  deriving DecidableEq, Repr

structure GeometryInfo where
  inputPrimitive : UInt32 := 0
  outputTopology : UInt32 := 0
  outputStreamMask : UInt32 := 0
  outputPositionPresent : Bool := false
  deriving DecidableEq, Repr

structure PixelInfo where
  depthOutput : Bool := false
  sampleFrequency : Bool := false
  deriving DecidableEq, Repr

structure AmplificationInfo where
  payloadSize : UInt32 := 0
  deriving DecidableEq, Repr

structure MeshInfo where
  groupSharedBytesUsed : UInt32 := 0
  groupSharedBytesDependentOnViewId : UInt32 := 0
  payloadSize : UInt32 := 0
  maxOutputVertices : UInt16 := 0
  maxOutputPrimitives : UInt16 := 0
  deriving DecidableEq, Repr

inductive StageInfo
  | vertex (info : VertexInfo)
  | hull (info : HullInfo)
  | domain (info : DomainInfo)
  | geometry (info : GeometryInfo)
  | pixel (info : PixelInfo)
  | compute
  | library
  /-- A stage that traces no rays stands for the library stage here. -/
  | rayTracing (stage : Stage)
  | amplification (info : AmplificationInfo)
  | mesh (info : MeshInfo)
  deriving DecidableEq, Repr

namespace StageInfo

open Bytes

/-- The bytes that every stage has for its data. -/
def width : Nat := 16

def stage : StageInfo → Stage
  | .vertex _ => .vertex
  | .hull _ => .hull
  | .domain _ => .domain
  | .geometry _ => .geometry
  | .pixel _ => .pixel
  | .compute => .compute
  | .library => .library
  | .rayTracing stage => if stage.isRayTracing then stage else .library
  | .amplification _ => .amplification
  | .mesh _ => .mesh

def fields : StageInfo → List UInt8
  | .vertex i => ofFlag i.outputPositionPresent
  | .hull i =>
    ofWord32 i.inputControlPointCount ++ ofWord32 i.outputControlPointCount ++
      ofWord32 i.tessellatorDomain ++ ofWord32 i.tessellatorOutputPrimitive
  | .domain i =>
    ofWord32 i.inputControlPointCount ++ padTo 4 (ofFlag i.outputPositionPresent) ++
      ofWord32 i.tessellatorDomain
  | .geometry i =>
    ofWord32 i.inputPrimitive ++ ofWord32 i.outputTopology ++ ofWord32 i.outputStreamMask ++
      ofFlag i.outputPositionPresent
  | .pixel i => ofFlag i.depthOutput ++ ofFlag i.sampleFrequency
  | .compute => []
  | .library => []
  | .rayTracing _ => []
  | .amplification i => ofWord32 i.payloadSize
  | .mesh i =>
    ofWord32 i.groupSharedBytesUsed ++ ofWord32 i.groupSharedBytesDependentOnViewId ++
      ofWord32 i.payloadSize ++ ofWord16 i.maxOutputVertices ++ ofWord16 i.maxOutputPrimitives

def encode (i : StageInfo) : List UInt8 := padTo width i.fields

def decode (bytes : List UInt8) : Stage → StageInfo
  | .vertex => .vertex ⟨flagAt bytes 0⟩
  | .hull => .hull ⟨word32At bytes 0, word32At bytes 4, word32At bytes 8, word32At bytes 12⟩
  | .domain => .domain ⟨word32At bytes 0, flagAt bytes 4, word32At bytes 8⟩
  | .geometry =>
    .geometry ⟨word32At bytes 0, word32At bytes 4, word32At bytes 8, flagAt bytes 12⟩
  | .pixel => .pixel ⟨flagAt bytes 0, flagAt bytes 1⟩
  | .compute => .compute
  | .library => .library
  | .amplification => .amplification ⟨word32At bytes 0⟩
  | .mesh =>
    .mesh ⟨word32At bytes 0, word32At bytes 4, word32At bytes 8, word16At bytes 12,
      word16At bytes 14⟩
  | stage => .rayTracing stage

theorem length_encode (i : StageInfo) : i.encode.length = width := by
  refine length_padTo ?_
  cases i <;> exact Nat.le_of_ble_eq_true rfl

end StageInfo

/-- The later union: a payload of geometry, of hull and domain, or of mesh shaders. -/
inductive StageExtra
  | none
  | maxVertexCount (n : UInt16)
  | patchConstantVectors (n : UInt8)
  | mesh (primitiveVectors outputTopology : UInt8)
  deriving DecidableEq, Repr

namespace StageExtra

open Bytes

def width : Nat := 2

/-- Whether a payload may go with a stage; no payload goes with every stage. -/
def fits : StageExtra → Stage → Bool
  | .none, _ => true
  | .maxVertexCount _, stage => stage = .geometry
  | .patchConstantVectors _, stage => stage = .hull || stage = .domain
  | .mesh _ _, stage => stage = .mesh

/-- The stage that is named when a payload does not fit. -/
def owner : StageExtra → Option Stage
  | .none => Option.none
  | .maxVertexCount _ => some .geometry
  | .patchConstantVectors _ => some .hull
  | .mesh _ _ => some .mesh

def check (x : StageExtra) (stage : Stage) : Except RecordError Unit :=
  match x.owner with
  | some found => if x.fits stage then .ok () else .error (.stageMismatch stage found)
  | Option.none => .ok ()

def encode : StageExtra → List UInt8
  | .none => [0, 0]
  | .maxVertexCount n => ofWord16 n
  | .patchConstantVectors n => [n, 0]
  | .mesh primitiveVectors outputTopology => [primitiveVectors, outputTopology]

def decode (bytes : List UInt8) : Stage → StageExtra
  | .geometry => .maxVertexCount (word16At bytes 0)
  | .hull => .patchConstantVectors (byteAt bytes 0)
  | .domain => .patchConstantVectors (byteAt bytes 0)
  | .mesh => .mesh (byteAt bytes 0) (byteAt bytes 1)
  | _ => .none

def ofMaxVertexCount (n : Nat) : Except RecordError StageExtra :=
  if n < UInt16.size then .ok (.maxVertexCount (UInt16.ofNat n))
  else .error (.countOverflow .maxVertex n (UInt16.size - 1))

theorem length_encode (x : StageExtra) : x.encode.length = width := by
  cases x <;> rfl

end StageExtra

end ShaderIR
