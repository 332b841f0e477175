import Mathlib.Data.List.Infix
import ShaderIR.Proofs.RecordReading

/-! Versions only append. An older version of a record is what a newer one starts with, and a
record that is cut off anywhere is read as a record of the version that is left. -/

namespace ShaderIR

namespace Bytes

variable {xs ys : List UInt8} {i : Nat}

theorem byteAt_append_left (h : i < xs.length) : byteAt (xs ++ ys) i = byteAt xs i := by
  rw [byteAt, List.getElem?_append_left h, byteAt]

theorem flagAt_append_left (h : i < xs.length) : flagAt (xs ++ ys) i = flagAt xs i := by
  rw [flagAt, byteAt_append_left h, flagAt]

theorem word16At_append_left (h : i + 2 ≤ xs.length) : word16At (xs ++ ys) i = word16At xs i := by
  rw [word16At, byteAt_append_left (by omega), byteAt_append_left (by omega), word16At]

theorem word32At_append_left (h : i + 4 ≤ xs.length) : word32At (xs ++ ys) i = word32At xs i := by
  rw [word32At, byteAt_append_left (by omega), byteAt_append_left (by omega),
    byteAt_append_left (by omega), byteAt_append_left (by omega), word32At]

end Bytes

open Bytes

variable {xs ys : List UInt8}

theorem StageInfo.decode_append (h : width ≤ xs.length) (s : Stage) :
    decode (xs ++ ys) s = decode xs s := by
  have h : 16 ≤ xs.length := h
  cases s <;> simp (disch := omega) only [decode, flagAt_append_left, word16At_append_left,
    word32At_append_left]

theorem StageExtra.decode_append (h : width ≤ xs.length) (s : Stage) :
    decode (xs ++ ys) s = decode xs s := by
  have h : 2 ≤ xs.length := h
  cases s <;> simp (disch := omega) only [decode, byteAt_append_left, word16At_append_left]

theorem SignatureCounts.decode_append (h : 8 ≤ xs.length) : decode (xs ++ ys) = decode xs := by
  simp (disch := omega) only [decode, byteAt_append_left]

namespace RuntimeInfo

variable {bytes : List UInt8} {v w : RecordVersion} {stage : Stage} {hint : Option Stage}

theorem decodeFields_append (h : v.size ≤ xs.length) :
    decodeFields (xs ++ ys) v stage = decodeFields xs v stage := by
  have hinfo : StageInfo.width ≤ xs.length := Nat.le_trans (by cases v <;> decide) h
  have hwaves : 24 ≤ xs.length := Nat.le_trans (by cases v <;> decide) h
  have hextra (h : 36 ≤ xs.length) : StageExtra.decode ((xs ++ ys).drop 26) stage =
      StageExtra.decode (xs.drop 26) stage := by
    rw [List.drop_append_of_le_length (by omega), StageExtra.decode_append]
    rw [List.length_drop]
    exact (by omega : 2 ≤ xs.length - 26)
  have hsignature (h : 36 ≤ xs.length) : SignatureCounts.decode ((xs ++ ys).drop 28) =
      SignatureCounts.decode (xs.drop 28) := by
    rw [List.drop_append_of_le_length (by omega), SignatureCounts.decode_append]
    rw [List.length_drop]
    omega
  cases v
  all_goals
    simp only [RecordVersion.size] at h
    simp (disch := omega) [decodeFields, RecordVersion.number, StageInfo.decode_append hinfo,
      hextra, hsignature, flagAt_append_left, word32At_append_left]

theorem decodeStage_of_append (h : v.size ≤ xs.length) (hv : v.number ≤ w.number)
    (hstage : decodeStage (xs ++ ys) w hint = .ok stage) :
    decodeStage xs v (some stage) = .ok stage := by
  refine decodeStage_eq_ok_iff.2 ⟨.inl rfl, fun hlater => ?_⟩
  -- only the first version ends before the byte of the stage
  have hoffset : stageOffset < v.size ∧ w ≠ .v0 := by
    cases v with
    | v0 => contradiction
    | _ => exact ⟨by decide, fun hw => absurd (hw ▸ hv) (by decide)⟩
  rw [← byteAt_append_left (Nat.lt_of_lt_of_le hoffset.1 h)]
  exact (decodeStage_eq_ok_iff.1 hstage).2 hoffset.2

theorem decode_of_append {r : DecodedRecord} (h : decode (xs ++ ys) hint = .ok r)
    (hv : RecordVersion.ofSize xs.length = .ok v) :
    decode xs (some r.info.stage) = .ok ⟨v, r.info.cut v, xs.length - v.size⟩ := by
  obtain ⟨w, hw, stage, hstage, rfl⟩ := decode_eq_ok_iff.1 h
  have hsize : v.size ≤ xs.length := (RecordVersion.newest_of_ofSize hv).1
  have hfits : v.size ≤ (xs ++ ys).length := by
    rw [List.length_append]
    omega
  have hle : v.number ≤ w.number := (RecordVersion.newest_of_ofSize hw).2 v hfits
  rw [stage_decodeFields]
  refine decode_eq_ok_iff.2 ⟨v, hv, stage, decodeStage_of_append hsize hle hstage, ?_⟩
  rw [cut_decodeFields _ _ hle, decodeFields_append hsize]

theorem encode_prefix {i : RuntimeInfo} {xs ys : List UInt8} (h : v.number ≤ w.number)
    (hxs : i.encode v = .ok xs) (hys : i.encode w = .ok ys) : xs <+: ys := by
  obtain ⟨-, rfl⟩ := encode_eq_ok_iff.1 hxs
  obtain ⟨-, rfl⟩ := encode_eq_ok_iff.1 hys
  exact List.IsPrefix.flatten (List.take_prefix_take_left (Nat.succ_le_succ h))

/-- Versions only append. What is written of an older version is how a newer one starts, and
of a record that has been read every first part that is long enough is read as well: as the version
that its length tells, with the fields that the version covers. -/
theorem versions_append :
    (∀ (i : RuntimeInfo) (v w : RecordVersion) (xs ys : List UInt8), v.number ≤ w.number →
      i.encode v = .ok xs → i.encode w = .ok ys → xs <+: ys) ∧
    ∀ (bytes : List UInt8) (hint : Option Stage) (r : DecodedRecord) (n : Nat),
      decode bytes hint = .ok r → 24 ≤ n → n ≤ bytes.length →
        ∃ v, RecordVersion.ofSize n = .ok v ∧
          decode (bytes.take n) (some r.info.stage) = .ok ⟨v, r.info.cut v, n - v.size⟩ := by
  refine ⟨fun i v w xs ys => encode_prefix, fun bytes hint r n hr hlow hhigh => ?_⟩
  obtain ⟨v, hv⟩ := RecordVersion.exists_ofSize_iff.2 hlow
  have hlength : (bytes.take n).length = n := List.length_take_of_le hhigh
  refine ⟨v, hv, ?_⟩
  rw [← List.take_append_drop n bytes] at hr
  have hread := decode_of_append hr (hlength.symm ▸ hv)
  rwa [hlength] at hread

/-- Sixty bytes of a hull shader. -/
def hullBytes : List UInt8 := (List.range 60).map fun n => UInt8.ofNat (n / 8)

/-- The first forty bytes are a record of the second version and four more. -/
theorem versions_append_hullBytes :
    ∃ r, decode hullBytes none = .ok r ∧ r.version = .v3 ∧ 40 ≤ hullBytes.length ∧
      (∃ v, RecordVersion.ofSize 40 = .ok v ∧
        decode (hullBytes.take 40) (some r.info.stage) = .ok ⟨v, r.info.cut v, 40 - v.size⟩) ∧
      ∃ xs ys, r.info.encode .v1 = .ok xs ∧ r.info.encode .v3 = .ok ys ∧ xs <+: ys := by
  let i := decodeFields hullBytes .v3 .hull
  have hread : decode hullBytes none = .ok ⟨.v3, i, 8⟩ := rfl
  have hxs : i.encode .v1 = .ok (i.sections.take 2).flatten := rfl
  have hys : i.encode .v3 = .ok (i.sections.take 4).flatten := rfl
  refine ⟨⟨.v3, i, 8⟩, hread, rfl, by decide, ?_, _, _, hxs, hys, ?_⟩
  · exact versions_append.2 hullBytes none _ 40 hread (by decide) (by decide)
  · exact versions_append.1 i .v1 .v3 _ _ (by decide) hxs hys

end RuntimeInfo

end ShaderIR
