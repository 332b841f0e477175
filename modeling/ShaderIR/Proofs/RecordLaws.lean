import ShaderIR.RuntimeInfo.Record

/-! What it takes to read a record, function by function: which byte stands for which stage, which
size for which version, where the stage comes from, and what all of them make of a list of bytes. -/

namespace ShaderIR

open Bytes

theorem Bytes.getElem?_eq_byteAt {bytes : List UInt8} {i : Nat} (h : i < bytes.length) :
    bytes[i]? = some (byteAt bytes i) := by
  rw [byteAt, List.getElem?_eq_getElem h, Option.getD_some]

@[simp]
theorem bind_eq_ok_iff {α β : Type} {x : Except RecordError α} {f : α → Except RecordError β}
    {b : β} : x >>= f = .ok b ↔ ∃ a, x = .ok a ∧ f a = .ok b := by
  cases x with
  | error e => exact ⟨nofun, nofun⟩
  | ok a =>
    constructor
    · exact fun h => ⟨a, rfl, h⟩
    · rintro ⟨_, ⟨⟩, h⟩
      exact h

@[simp]
theorem pure_eq_ok_iff {α : Type} {a b : α} :
    (pure a : Except RecordError α) = .ok b ↔ a = b :=
  ⟨Except.ok.inj, congrArg Except.ok⟩

theorem Stage.ofCode_eq_ok_iff {c : UInt8} {stage : Stage} :
    ofCode c = .ok stage ↔ c = stage.code := by
  constructor
  · intro h
    rw [ofCode] at h
    split at h
    next s hs =>
      obtain rfl := Except.ok.inj h
      -- the stages stand in the order of their codes
      have hcodes : all.map code = (List.range 15).map UInt8.ofNat := by decide
      have hcode : (all.map code)[c.toNat]? = some s.code := by
        rw [List.getElem?_map, hs]
        rfl
      rw [hcodes, List.getElem?_map, Option.map_eq_some_iff] at hcode
      obtain ⟨n, hn, hcode⟩ := hcode
      obtain ⟨hlt, rfl⟩ := List.getElem?_eq_some_iff.1 hn
      rw [← hcode, List.getElem_range, UInt8.ofNat_toNat]
    next => cases h
  · rintro rfl
    exact ofCode_code stage

namespace RecordVersion

theorem mem_versions (v : RecordVersion) : v ∈ [RecordVersion.v3, .v2, .v1, .v0] := by
  cases v <;> decide

theorem newest_of_ofSize {n : Nat} {v : RecordVersion} (h : ofSize n = .ok v) :
    v.size ≤ n ∧ ∀ w : RecordVersion, w.size ≤ n → w.number ≤ v.number := by
  rw [ofSize] at h
  split at h
  next u hu =>
    obtain rfl := Except.ok.inj h
    obtain ⟨hsize, newer, older, hlist, hnewer⟩ := List.find?_eq_some_iff_append.1 hu
    refine ⟨of_decide_eq_true hsize, fun w hw => ?_⟩
    -- the versions are tried from the newest one down
    have hsorted : (newer ++ u :: older).Pairwise fun x y => y.number ≤ x.number :=
      hlist ▸ by decide
    rcases List.mem_append.1 (hlist ▸ mem_versions w) with hmem | hmem
    · exact absurd hw (by simpa using hnewer w hmem)
    rcases List.mem_cons.1 hmem with rfl | hmem
    · exact Nat.le_refl _
    · exact (List.pairwise_cons.1 (List.pairwise_append.1 hsorted).2.1).1 w hmem
  next => cases h

theorem exists_ofSize_iff {n : Nat} : (∃ v, ofSize n = .ok v) ↔ RecordVersion.v0.size ≤ n := by
  constructor
  · rintro ⟨v, hv⟩
    refine Nat.le_trans ?_ (newest_of_ofSize hv).1
    cases v <;> decide
  · intro h
    rw [ofSize]
    split
    next v _ => exact ⟨v, rfl⟩
    next hnone =>
      exact absurd (decide_eq_true h) (List.find?_eq_none.1 hnone .v0 (mem_versions .v0))

theorem eq_v0_iff_of_ofSize {n : Nat} {v : RecordVersion} (h : ofSize n = .ok v) :
    v = .v0 ↔ n < RecordVersion.v1.size := by
  obtain ⟨hsize, hnewest⟩ := newest_of_ofSize h
  constructor
  · rintro rfl
    exact Nat.lt_of_not_le fun hle => absurd (hnewest .v1 hle) (by decide)
  · intro hlt
    have hlt : v.size < 36 := Nat.lt_of_le_of_lt hsize hlt
    cases v with
    | v0 => rfl
    | _ => exact absurd hlt (by decide)

end RecordVersion

namespace RuntimeInfo

variable {bytes : List UInt8} {v : RecordVersion} {stage : Stage} {hint : Option Stage}

theorem agreeingStage_eq_ok_iff {stored : Stage} :
    agreeingStage stored hint = .ok stage ↔ stored = stage ∧ (hint = some stage ∨ hint = none) := by
  cases hint with
  | none => simp [agreeingStage]
  | some expected =>
    rw [agreeingStage]
    split
    next h => simp [h]
    next h => grind

theorem decodeStage_of_ne_v0 (hv : v ≠ .v0) : decodeStage bytes v hint =
    (Stage.ofCode (byteAt bytes stageOffset) >>= fun stored => agreeingStage stored hint) := by
  cases v with
  | v0 => contradiction
  | _ => rfl

theorem decodeStage_eq_ok_iff :
    decodeStage bytes v hint = .ok stage ↔
      (hint = some stage ∨ hint = none ∧ v ≠ .v0) ∧
        (v ≠ .v0 → byteAt bytes stageOffset = stage.code) := by
  by_cases hv : v = .v0
  · subst hv
    cases hint <;> simp [decodeStage]
  · rw [decodeStage_of_ne_v0 hv, bind_eq_ok_iff]
    constructor
    · rintro ⟨stored, hcode, hagrees⟩
      obtain ⟨rfl, hhint⟩ := agreeingStage_eq_ok_iff.1 hagrees
      exact ⟨hhint.imp_right fun hnone => ⟨hnone, hv⟩, fun _ => Stage.ofCode_eq_ok_iff.1 hcode⟩
    · rintro ⟨hhint, hcode⟩
      exact ⟨stage, Stage.ofCode_eq_ok_iff.2 (hcode hv),
        agreeingStage_eq_ok_iff.2 ⟨rfl, hhint.imp_right And.left⟩⟩

theorem decode_eq_ok_iff {r : DecodedRecord} :
    decode bytes hint = .ok r ↔
      ∃ v, RecordVersion.ofSize bytes.length = .ok v ∧ ∃ stage,
        decodeStage bytes v hint = .ok stage ∧
        (⟨v, decodeFields bytes v stage, bytes.length - v.size⟩ : DecodedRecord) = r := by
  simp only [decode, bind_eq_ok_iff, pure_eq_ok_iff]

end RuntimeInfo

end ShaderIR
