import ShaderIR.Proofs.RecordRoundTrip

/-! Reading any bytes. A list of bytes is read if it is long enough and its stage is known. Whatever
stands in the bytes that no field of the stage uses, what is read is in the range of what is
written: the payload fits the stage and the fields past the version have their defaults, so that it
can be written and read again. -/

namespace ShaderIR

open Bytes

theorem StageInfo.stage_decode (bytes : List UInt8) (s : Stage) : (decode bytes s).stage = s := by
  cases s <;> rfl

theorem StageInfo.normal_decode (bytes : List UInt8) (s : Stage) :
    (decode bytes s).normal = decode bytes s := by
  cases s <;> rfl

theorem StageExtra.fits_decode (bytes : List UInt8) (s : Stage) :
    (decode bytes s).fits s = true := by
  cases s <;> rfl

theorem StageExtra.filled_decode (bytes : List UInt8) (s : Stage) :
    (decode bytes s).filled s = decode bytes s := by
  cases s <;> rfl

namespace RuntimeInfo

variable {bytes : List UInt8} {v w : RecordVersion} {stage : Stage} {hint : Option Stage}

def cut (i : RuntimeInfo) (v : RecordVersion) : RuntimeInfo :=
  let new : RuntimeInfo := { stageInfo := i.stageInfo }
  { stageInfo := i.stageInfo
    minWaveLaneCount := i.minWaveLaneCount
    maxWaveLaneCount := i.maxWaveLaneCount
    usesViewId := if 1 ≤ v.number then i.usesViewId else new.usesViewId
    stageExtra := if 1 ≤ v.number then i.stageExtra else new.stageExtra
    signature := if 1 ≤ v.number then i.signature else new.signature
    threads := if 2 ≤ v.number then i.threads else new.threads
    entryFunctionName := if 3 ≤ v.number then i.entryFunctionName else new.entryFunctionName }

theorem restrict_eq_cut {i : RuntimeInfo} (hinfo : i.stageInfo.normal = i.stageInfo)
    (hextra : v ≠ .v0 → i.stageExtra.filled i.stage = i.stageExtra) : i.restrict v = i.cut v := by
  cases v with
  | v0 => rw [restrict, hinfo]; rfl
  | _ =>
    rw [restrict, hinfo, hextra (by decide)]
    rfl

theorem cut_cut (i : RuntimeInfo) (h : v.number ≤ w.number) : (i.cut w).cut v = i.cut v := by
  have h1 (hv : 1 ≤ v.number) : 1 ≤ w.number := Nat.le_trans hv h
  have h2 (hv : 2 ≤ v.number) : 2 ≤ w.number := Nat.le_trans hv h
  have h3 (hv : 3 ≤ v.number) : 3 ≤ w.number := Nat.le_trans hv h
  simp only [cut, mk.injEq, true_and]
  grind

theorem decodeFields_eq_cut (bytes : List UInt8) (v : RecordVersion) (stage : Stage) :
    decodeFields bytes v stage = (decodeFields bytes .v3 stage).cut v := by
  cases v <;> rfl

theorem cut_decodeFields (bytes : List UInt8) (stage : Stage) (h : v.number ≤ w.number) :
    (decodeFields bytes w stage).cut v = decodeFields bytes v stage := by
  rw [decodeFields_eq_cut bytes w, cut_cut _ h, ← decodeFields_eq_cut]

theorem stage_decodeFields (bytes : List UInt8) (v : RecordVersion) (stage : Stage) :
    (decodeFields bytes v stage).stage = stage := by
  cases v <;> exact StageInfo.stage_decode bytes stage

theorem fits_decodeFields (bytes : List UInt8) (v : RecordVersion) (stage : Stage) :
    (decodeFields bytes v stage).stageExtra.fits stage = true := by
  cases v with
  | v0 => rfl
  | _ => exact StageExtra.fits_decode (bytes.drop 26) stage

theorem restrict_decodeFields (bytes : List UInt8) (v : RecordVersion) (stage : Stage) :
    (decodeFields bytes v stage).restrict v = decodeFields bytes v stage := by
  have hinfo : (decodeFields bytes v stage).stageInfo = StageInfo.decode bytes stage := by
    cases v <;> rfl
  have hextra (h : v ≠ .v0) :
      (decodeFields bytes v stage).stageExtra = StageExtra.decode (bytes.drop 26) stage := by
    cases v with
    | v0 => contradiction
    | _ => rfl
  rw [restrict_eq_cut, cut_decodeFields _ _ (Nat.le_refl _)]
  · rw [hinfo, StageInfo.normal_decode]
  · intro h
    rw [hextra h, stage_decodeFields, StageExtra.filled_decode]

theorem exists_decode_iff : (∃ r, decode bytes hint = .ok r) ↔
    24 ≤ bytes.length ∧ (bytes.length < 36 ∧ hint.isSome ∨
      36 ≤ bytes.length ∧ ∃ stage : Stage, bytes[24]? = some stage.code ∧
        (hint = some stage ∨ hint = none)) := by
  simp only [decode_eq_ok_iff]
  constructor
  · rintro ⟨r, v, hv, stage, hstage, -⟩
    obtain ⟨hhint, hcode⟩ := decodeStage_eq_ok_iff.1 hstage
    refine ⟨RecordVersion.exists_ofSize_iff.1 ⟨v, hv⟩, ?_⟩
    rcases Nat.lt_or_ge bytes.length 36 with hlt | hge
    · have hfirst : v = .v0 := (RecordVersion.eq_v0_iff_of_ofSize hv).2 hlt
      rcases hhint with rfl | ⟨-, hlater⟩
      · exact .inl ⟨hlt, rfl⟩
      · exact absurd hfirst hlater
    · have hlater : v ≠ .v0 := mt (RecordVersion.eq_v0_iff_of_ofSize hv).1 (Nat.not_lt.2 hge)
      have hbyte : bytes[24]? = some stage.code := by
        rw [getElem?_eq_byteAt (by omega)]
        exact congrArg some (hcode hlater)
      exact .inr ⟨hge, stage, hbyte, hhint.imp_right And.left⟩
  · rintro ⟨hsize, h⟩
    obtain ⟨v, hv⟩ := RecordVersion.exists_ofSize_iff.2 hsize
    rcases h with ⟨hlt, hhint⟩ | ⟨hge, stage, hbyte, hhint⟩
    · obtain ⟨stage, rfl⟩ := Option.isSome_iff_exists.1 hhint
      have hfirst : v = .v0 := (RecordVersion.eq_v0_iff_of_ofSize hv).2 hlt
      have hstage : decodeStage bytes v (some stage) = .ok stage :=
        decodeStage_eq_ok_iff.2 ⟨.inl rfl, fun hlater => absurd hfirst hlater⟩
      exact ⟨_, v, hv, stage, hstage, rfl⟩
    · have hlater : v ≠ .v0 := mt (RecordVersion.eq_v0_iff_of_ofSize hv).1 (Nat.not_lt.2 hge)
      have hcode : byteAt bytes stageOffset = stage.code := by
        rw [getElem?_eq_byteAt (by omega)] at hbyte
        exact Option.some.inj hbyte
      have hstage : decodeStage bytes v hint = .ok stage :=
        decodeStage_eq_ok_iff.2 ⟨hhint.imp_right fun hnone => ⟨hnone, hlater⟩, fun _ => hcode⟩
      exact ⟨_, v, hv, stage, hstage, rfl⟩

theorem encode_eq_ok_iff {i : RuntimeInfo} : i.encode v = .ok bytes ↔
    (v ≠ .v0 → i.stageExtra.fits i.stage = true) ∧
      (i.sections.take (v.number + 1)).flatten = bytes := by
  rw [encode_eq]
  split
  next h =>
    constructor
    · exact nofun
    · rintro ⟨hfits, -⟩
      exact absurd (hfits h.1) (ne_true_of_eq_false h.2)
  next h =>
    have hfits (hv : v ≠ .v0) : i.stageExtra.fits i.stage = true :=
      eq_true_of_ne_false fun hn => h ⟨hv, hn⟩
    exact ⟨fun hbytes => ⟨hfits, Except.ok.inj hbytes⟩, fun hbytes => congrArg _ hbytes.2⟩

theorem encode_decodeFields (bytes : List UInt8)
    (hhint : hint = some stage ∨ hint = none ∧ v ≠ .v0) :
    let i := decodeFields bytes v stage
    ∃ again, i.encode v = .ok again ∧ again.length = v.size ∧
      decode again hint = .ok ⟨v, i, 0⟩ := by
  intro i
  have hstage : i.stage = stage := stage_decodeFields bytes v stage
  have hfits : i.stageExtra.fits i.stage = true := hstage.symm ▸ fits_decodeFields bytes v stage
  refine ⟨(i.sections.take (v.number + 1)).flatten, ?_, length_flatten_sections i v, ?_⟩
  · exact encode_eq_ok_iff.2 ⟨fun _ => hfits, rfl⟩
  · have hread := decode_sections i v [] (fun _ => hfits) (hstage.symm ▸ hhint) v.ofSize_size
    -- what has been read has no fields that are lost or filled in
    rwa [List.append_nil, restrict_decodeFields] at hread

/-- Whether a list of bytes is read depends on its length, its byte for the stage and the hint.
What is read is always in the range of what is written. -/
theorem exists_decode_iff_and_reencode (bytes : List UInt8) (hint : Option Stage) :
    ((∃ r, decode bytes hint = .ok r) ↔
      24 ≤ bytes.length ∧ (bytes.length < 36 ∧ hint.isSome ∨
        36 ≤ bytes.length ∧ ∃ stage : Stage, bytes[24]? = some stage.code ∧
          (hint = some stage ∨ hint = none))) ∧
    ∀ r, decode bytes hint = .ok r →
      ∃ again, r.info.encode r.version = .ok again ∧ again.length = r.version.size ∧
        decode again hint = .ok ⟨r.version, r.info, 0⟩ := by
  refine ⟨exists_decode_iff, fun r hr => ?_⟩
  obtain ⟨v, -, stage, hstage, rfl⟩ := decode_eq_ok_iff.1 hr
  exact encode_decodeFields bytes (decodeStage_eq_ok_iff.1 hstage).1

/-- Fifty-five bytes of a geometry shader, with all other bits set: flags that are not one, bytes
that no field uses and three bytes past the fields. -/
def floodedBytes : List UInt8 := List.replicate 24 0xff ++ 2 :: List.replicate 30 0xff

theorem exists_decode_iff_and_reencode_floodedBytes :
    ∃ r, decode floodedBytes none = .ok r ∧ r.version = .v3 ∧ r.trailing = 3 ∧
      ∃ again, r.info.encode r.version = .ok again ∧ again.length = r.version.size ∧
        decode again none = .ok ⟨r.version, r.info, 0⟩ := by
  have hread : ∃ r, decode floodedBytes none = .ok r :=
    (exists_decode_iff_and_reencode floodedBytes none).1.2
      ⟨by decide, .inr ⟨by decide, .geometry, by decide, .inr rfl⟩⟩
  obtain ⟨r, hr⟩ := hread
  obtain ⟨hversion, htrailing⟩ : r.version = .v3 ∧ r.trailing = 3 := by
    cases hr
    exact ⟨rfl, rfl⟩
  exact ⟨r, hr, hversion, htrailing, (exists_decode_iff_and_reencode floodedBytes none).2 r hr⟩

end RuntimeInfo

end ShaderIR
