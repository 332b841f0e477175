import ShaderIR.Proofs.RecordLaws

/-! Reading a record back. Every field stands where it is looked for, so a record that has been
written is read as what its version covers of it. -/

namespace ShaderIR

namespace Bytes

attribute [simp] length_ofFlag length_ofWord16 length_ofWord32

variable {xs ys : List UInt8} {i : Nat}

@[simp]
theorem byteAt_append_right (h : xs.length ≤ i) :
    byteAt (xs ++ ys) i = byteAt ys (i - xs.length) := by
  rw [byteAt, List.getElem?_append_right h, byteAt]

@[simp]
theorem flagAt_append_right (h : xs.length ≤ i) :
    flagAt (xs ++ ys) i = flagAt ys (i - xs.length) := by
  rw [flagAt, byteAt_append_right h, flagAt]

@[simp]
theorem word16At_append_right (h : xs.length ≤ i) :
    word16At (xs ++ ys) i = word16At ys (i - xs.length) := by
  have hbyte : byteAt (xs ++ ys) (i + 1) = byteAt ys (i - xs.length + 1) := by
    rw [byteAt_append_right (by omega), Nat.sub_add_comm h]
  rw [word16At, hbyte, byteAt_append_right h, word16At]

@[simp]
theorem word32At_append_right (h : xs.length ≤ i) :
    word32At (xs ++ ys) i = word32At ys (i - xs.length) := by
  have hbyte (k : Nat) : byteAt (xs ++ ys) (i + k) = byteAt ys (i - xs.length + k) := by
    rw [byteAt_append_right (by omega), Nat.sub_add_comm h]
  rw [word32At, hbyte, hbyte, hbyte, byteAt_append_right h, word32At]

theorem byteAt_cons_zero {x : UInt8} : byteAt (x :: ys) 0 = x := rfl

@[simp]
theorem flagAt_cons {x : UInt8} (h : 0 < i) : flagAt (x :: ys) i = flagAt ys (i - 1) :=
  @flagAt_append_right [x] ys i h

@[simp]
theorem word32At_cons {x : UInt8} (h : 0 < i) : word32At (x :: ys) i = word32At ys (i - 1) :=
  @word32At_append_right [x] ys i h

@[simp]
theorem flagAt_ofFlag (b : Bool) (ys : List UInt8) : flagAt (ofFlag b ++ ys) 0 = b := by
  cases b <;> rfl

@[simp]
theorem drop_append_right (h : xs.length ≤ i) :
    (xs ++ ys).drop i = ys.drop (i - xs.length) := by
  rw [List.drop_append, List.drop_of_length_le h, List.nil_append]

@[simp]
theorem word16At_ofWord16 (x : UInt16) (ys : List UInt8) : word16At (ofWord16 x ++ ys) 0 = x := by
  change x.toUInt8.toUInt16 ||| (x >>> 8).toUInt8.toUInt16 <<< 8 = x
  apply UInt16.toBitVec_inj.1
  ext i hi
  -- the bits of the two bytes stay apart as long as no byte turns into a remainder
  simp [-UInt16.toUInt16_toUInt8]
  grind

@[simp]
theorem word32At_ofWord32 (x : UInt32) (ys : List UInt8) : word32At (ofWord32 x ++ ys) 0 = x := by
  change x.toUInt8.toUInt32 ||| (x >>> 8).toUInt8.toUInt32 <<< 8 |||
    (x >>> 16).toUInt8.toUInt32 <<< 16 ||| (x >>> 24).toUInt8.toUInt32 <<< 24 = x
  apply UInt32.toBitVec_inj.1
  ext i hi
  simp [-UInt32.toUInt32_toUInt8]
  grind

end Bytes

open Bytes

/-- A stage that traces no rays becomes the library stage it stands for. -/
def StageInfo.normal : StageInfo → StageInfo
  | .rayTracing stage => if stage.isRayTracing then .rayTracing stage else .library
  | i => i

attribute [simp] StageInfo.length_encode StageExtra.length_encode

theorem StageInfo.decode_encode (i : StageInfo) (rest : List UInt8) :
    decode (i.encode ++ rest) i.stage = i.normal := by
  cases i with
  | rayTracing stage => cases stage <;> rfl
  | compute => rfl
  | library => rfl
  | _ => simp -implicitDefEqProofs [encode, fields, padTo, stage, decode, normal]

/-- What is read where no payload was written. -/
def StageExtra.filled (x : StageExtra) (stage : Stage) : StageExtra :=
  match x, stage with
  | .none, .geometry => .maxVertexCount 0
  | .none, .hull => .patchConstantVectors 0
  | .none, .domain => .patchConstantVectors 0
  | .none, .mesh => .mesh 0 0
  | x, _ => x

theorem StageExtra.decode_encode {x : StageExtra} {stage : Stage} (h : x.fits stage = true)
    (rest : List UInt8) : decode (x.encode ++ rest) stage = x.filled stage := by
  cases x with
  | none =>
    cases stage with
    | geometry => exact congrArg _ (word16At_ofWord16 0 rest)
    | _ => rfl
  | maxVertexCount n =>
    obtain rfl : stage = .geometry := by simpa [fits] using h
    exact congrArg _ (word16At_ofWord16 n rest)
  | patchConstantVectors n =>
    obtain rfl | rfl : stage = .hull ∨ stage = .domain := by simpa [fits] using h
    all_goals rfl
  | mesh p t =>
    obtain rfl : stage = .mesh := by simpa [fits] using h
    rfl

@[simp]
theorem SignatureCounts.length_encode (c : SignatureCounts) : c.encode.length = 8 := rfl

@[simp]
theorem SignatureCounts.decode_encode (c : SignatureCounts) (rest : List UInt8) :
    decode (c.encode ++ rest) = c := rfl

theorem RecordVersion.ofSize_size (v : RecordVersion) : ofSize v.size = .ok v := by
  cases v <;> rfl

theorem StageExtra.check_eq (x : StageExtra) (stage : Stage) :
    x.check stage = if x.fits stage then .ok ()
      else .error (.stageMismatch stage (x.owner.getD stage)) := by
  cases x <;> rfl

namespace RuntimeInfo

/-- What a version covers of a record. The fields it does not cover are those of a new record, and
those it covers are what is read where they were written. -/
def restrict (i : RuntimeInfo) (v : RecordVersion) : RuntimeInfo :=
  let new : RuntimeInfo := { stageInfo := i.stageInfo.normal }
  { stageInfo := new.stageInfo
    minWaveLaneCount := i.minWaveLaneCount
    maxWaveLaneCount := i.maxWaveLaneCount
    usesViewId := if 1 ≤ v.number then i.usesViewId else new.usesViewId
    stageExtra := if 1 ≤ v.number then i.stageExtra.filled i.stage else new.stageExtra
    signature := if 1 ≤ v.number then i.signature else new.signature
    threads := if 2 ≤ v.number then i.threads else new.threads
    entryFunctionName := if 3 ≤ v.number then i.entryFunctionName else new.entryFunctionName }

theorem length_sections (i : RuntimeInfo) : i.sections.map List.length = [24, 12, 12, 4] := by
  simp -implicitDefEqProofs [sections, StageInfo.width, StageExtra.width]

theorem length_flatten_sections (i : RuntimeInfo) (v : RecordVersion) :
    (i.sections.take (v.number + 1)).flatten.length = v.size := by
  rw [List.length_flatten, List.map_take, length_sections]
  cases v <;> rfl

theorem decodeFields_sections (i : RuntimeInfo) (v : RecordVersion) (rest : List UInt8)
    (hfits : v ≠ .v0 → i.stageExtra.fits i.stage = true) :
    decodeFields ((i.sections.take (v.number + 1)).flatten ++ rest) v i.stage = i.restrict v := by
  have hextra (h : v ≠ .v0) (rest : List UInt8) :
      StageExtra.decode (i.stageExtra.encode ++ rest) i.stage = i.stageExtra.filled i.stage :=
    StageExtra.decode_encode (hfits h) rest
  have hstage (rest : List UInt8) :
      StageInfo.decode (i.stageInfo.encode ++ rest) i.stage = i.stageInfo.normal :=
    i.stageInfo.decode_encode rest
  simp only [decodeFields, sections, restrict]
  cases v
  all_goals
    simp -implicitDefEqProofs [RecordVersion.number, hstage, hextra, StageInfo.width,
      StageExtra.width]

theorem stageByte_sections (i : RuntimeInfo) {v : RecordVersion} (hv : v ≠ .v0)
    (rest : List UInt8) :
    byteAt ((i.sections.take (v.number + 1)).flatten ++ rest) stageOffset = i.stage.code := by
  cases v
  · contradiction
  all_goals
    simp -implicitDefEqProofs [sections, RecordVersion.number, stageOffset, StageInfo.width,
      byteAt_cons_zero]

theorem decodeStage_sections (i : RuntimeInfo) (v : RecordVersion) (rest : List UInt8)
    {hint : Option Stage} (hhint : hint = some i.stage ∨ hint = none ∧ v ≠ .v0) :
    decodeStage ((i.sections.take (v.number + 1)).flatten ++ rest) v hint = .ok i.stage :=
  decodeStage_eq_ok_iff.2 ⟨hhint, fun hv => stageByte_sections i hv rest⟩

/-- The bytes past the fields do not matter as long as they do not make up a newer version. -/
theorem decode_sections (i : RuntimeInfo) (v : RecordVersion) (rest : List UInt8)
    {hint : Option Stage} (hfits : v ≠ .v0 → i.stageExtra.fits i.stage = true)
    (hhint : hint = some i.stage ∨ hint = none ∧ v ≠ .v0)
    (hsize : RecordVersion.ofSize (v.size + rest.length) = .ok v) :
    decode ((i.sections.take (v.number + 1)).flatten ++ rest) hint =
      .ok ⟨v, i.restrict v, rest.length⟩ := by
  have hlength : ((i.sections.take (v.number + 1)).flatten ++ rest).length =
      v.size + rest.length := by
    rw [List.length_append, length_flatten_sections]
  refine decode_eq_ok_iff.2 ⟨v, ?_, i.stage, decodeStage_sections i v rest hhint, ?_⟩
  · rw [hlength]
    exact hsize
  · rw [decodeFields_sections i v rest hfits, hlength, Nat.add_sub_cancel_left]

theorem encode_eq (i : RuntimeInfo) (v : RecordVersion) :
    i.encode v = if v ≠ .v0 ∧ i.stageExtra.fits i.stage = false
      then .error (.stageMismatch i.stage (i.stageExtra.owner.getD i.stage))
      else .ok (i.sections.take (v.number + 1)).flatten := by
  rw [encode, StageExtra.check_eq]
  by_cases hv : v = .v0
  · rw [if_neg (not_not_intro hv), if_neg fun h => h.1 hv]
    rfl
  · rw [if_pos hv]
    cases hfits : i.stageExtra.fits i.stage with
    | false => simp [hv, Bind.bind, Except.bind]
    | true => simp [Bind.bind, Except.bind, pure, Except.pure]

/-- Writing fails for a payload of another stage. What has been written otherwise has the size of
its version, and is read as what the version covers of the record. -/
theorem encode_decode_restrict (i : RuntimeInfo) (v : RecordVersion) :
    ((∃ e, i.encode v = .error e) ↔ v ≠ .v0 ∧ i.stageExtra.fits i.stage = false) ∧
    ∀ bytes, i.encode v = .ok bytes →
      bytes.length = v.size ∧
      decode bytes (some i.stage) = .ok ⟨v, i.restrict v, 0⟩ ∧
      (v ≠ .v0 → decode bytes none = .ok ⟨v, i.restrict v, 0⟩) := by
  rw [encode_eq]
  split
  case isTrue h => exact ⟨⟨fun _ => h, fun _ => ⟨_, rfl⟩⟩, nofun⟩
  case isFalse h =>
    have hfits (hv : v ≠ .v0) : i.stageExtra.fits i.stage = true :=
      eq_true_of_ne_false fun hn => h ⟨hv, hn⟩
    refine ⟨⟨nofun, fun h' => absurd h' h⟩, ?_⟩
    rintro _ ⟨⟩
    have hread {hint : Option Stage} (hhint : hint = some i.stage ∨ hint = none ∧ v ≠ .v0) :=
      decode_sections i v [] hfits hhint v.ofSize_size
    rw [List.append_nil] at hread
    exact ⟨length_flatten_sections i v, hread (.inl rfl), fun hv => hread (.inr ⟨rfl, hv⟩)⟩

/-- A mesh shader without a payload, cut down to the second version. -/
theorem encode_decode_restrict_mesh :
    let i : RuntimeInfo :=
      { stageInfo := .mesh ⟨1, 2, 3, 256, 0xffff⟩, usesViewId := true, threads := ⟨8, 4, 1⟩ }
    ∃ bytes, i.encode .v1 = .ok bytes ∧ bytes.length = 36 ∧
      decode bytes none =
        .ok ⟨.v1, { i with stageExtra := .mesh 0 0, threads := ⟨0, 0, 0⟩ }, 0⟩ := by
  intro i
  have h := (encode_decode_restrict i .v1).2 _ rfl
  exact ⟨_, rfl, h.1, h.2.2 (by decide)⟩

end RuntimeInfo

end ShaderIR
