import ShaderIR.Proofs.RecordReading

/-! Records that stand one after the other, each behind its size. A record is read from as many
bytes as its size tells and from no others, so a row of records is read one by one, whatever
versions they have and whatever follows the last of them. -/

namespace ShaderIR

namespace Bytes

theorem ofWord32_word32At (bytes : List UInt8) (i : Nat) : ofWord32 (word32At bytes i) =
    [byteAt bytes i, byteAt bytes (i + 1), byteAt bytes (i + 2), byteAt bytes (i + 3)] := by
  rw [word32At]
  generalize byteAt bytes i = a, byteAt bytes (i + 1) = b, byteAt bytes (i + 2) = c,
    byteAt bytes (i + 3) = d
  simp only [ofWord32, List.cons.injEq, and_true]
  refine ⟨?_, ?_, ?_, ?_⟩
  -- each byte is compared bit by bit with a part of the word
  all_goals
    apply UInt8.toBitVec_inj.1
    ext i hi
  · simp
  all_goals
    simp
    grind

theorem ofWord32_append_drop {bytes : List UInt8} (h : 4 ≤ bytes.length) :
    ofWord32 (word32At bytes 0) ++ bytes.drop 4 = bytes := by
  rw [ofWord32_word32At]
  rcases bytes with _ | ⟨a, _ | ⟨b, _ | ⟨c, _ | ⟨d, rest⟩⟩⟩⟩
  case cons.cons.cons.cons => rfl
  all_goals exact absurd h (by simp)

end Bytes

namespace RuntimeInfo

open Bytes

variable {bytes rest : List UInt8} {hint : Option Stage} {r : DecodedRecord}

theorem decodeSized_eq (bytes : List UInt8) (hint : Option Stage) :
    let size := (word32At bytes 0).toNat
    decodeSized bytes hint =
      if bytes.length < 4 then .error (.truncated 4 bytes.length)
      else if bytes.length < 4 + size then .error (.truncated (4 + size) bytes.length)
      else do return (← decode ((bytes.drop 4).take size) hint, bytes.drop (4 + size)) :=
  rfl

theorem decodeSized_eq_ok_iff : decodeSized bytes hint = .ok (r, rest) ↔
    ∃ size body, bytes = ofWord32 size ++ body ++ rest ∧ body.length = size.toNat ∧
      decode body hint = .ok r := by
  constructor
  · intro h
    rw [decodeSized_eq] at h
    split at h
    next => cases h
    next hfour =>
      split at h
      next => cases h
      next hsize =>
        simp only [bind_eq_ok_iff, pure_eq_ok_iff, Prod.mk.injEq] at h
        obtain ⟨_, hr, rfl, rfl⟩ := h
        -- the bytes are those of the size, those that are decoded and those that follow
        refine ⟨word32At bytes 0, _, ?_, ?_, hr⟩
        · rw [List.append_assoc, ← List.drop_drop, List.take_append_drop,
            ofWord32_append_drop (Nat.le_of_not_lt hfour)]
        · rw [List.length_take, List.length_drop]
          omega
  · rintro ⟨size, body, rfl, hlength, hr⟩
    have hsize : word32At (ofWord32 size ++ body ++ rest) 0 = size := by
      rw [List.append_assoc, word32At_ofWord32]
    have htotal : (ofWord32 size ++ body ++ rest).length = 4 + size.toNat + rest.length := by
      rw [List.length_append, List.length_append, length_ofWord32, hlength]
    have hbody : ((ofWord32 size ++ body ++ rest).drop 4).take size.toNat = body := by
      rw [List.append_assoc, List.drop_left' (length_ofWord32 size), List.take_left' hlength]
    have hrest : (ofWord32 size ++ body ++ rest).drop (4 + size.toNat) = rest :=
      List.drop_left' (by rw [List.length_append, length_ofWord32, hlength])
    rw [decodeSized_eq, htotal, hsize, if_neg (by omega), if_neg (by omega), hbody, hr, hrest]
    rfl

theorem decodeSized_encodeSized {i : RuntimeInfo} {v : RecordVersion} {chunk : List UInt8}
    (h : i.encodeSized v = .ok chunk) : ∃ body r, i.encode v = .ok body ∧
      decode body (some i.stage) = .ok r ∧
      ∀ rest, decodeSized (chunk ++ rest) (some i.stage) = .ok (r, rest) := by
  simp only [encodeSized, bind_eq_ok_iff, pure_eq_ok_iff] at h
  obtain ⟨body, hbody, rfl⟩ := h
  obtain ⟨hfits, hsections⟩ := encode_eq_ok_iff.1 hbody
  have hlength : body.length = v.size := hsections ▸ length_flatten_sections i v
  have hread : decode body (some i.stage) = .ok ⟨v, i.restrict v, 0⟩ := by
    have hread := decode_sections i v [] hfits (.inl rfl) v.ofSize_size
    rwa [List.append_nil, hsections] at hread
  refine ⟨body, _, hbody, hread, fun rest => decodeSized_eq_ok_iff.2 ⟨_, body, rfl, ?_, hread⟩⟩
  rw [hlength]
  cases v <;> rfl

/-- Records one after the other, each behind its size and read with the stage that is due. What
follows the last of them is left. -/
def decodeEach : List Stage → List UInt8 → Except RecordError (List DecodedRecord × List UInt8)
  | [], bytes => return ([], bytes)
  | stage :: stages, bytes => do
    let (record, rest) ← decodeSized bytes (some stage)
    let (records, rest) ← decodeEach stages rest
    return (record :: records, rest)

theorem decodeEach_encodeSized {items : List (RuntimeInfo × RecordVersion)}
    {chunks : List (List UInt8)} (h : items.mapM (fun x => x.1.encodeSized x.2) = .ok chunks)
    (tail : List UInt8) : ∃ records,
      items.mapM (fun x => do decode (← x.1.encode x.2) (some x.1.stage)) = .ok records ∧
      decodeEach (items.map fun x => x.1.stage) (chunks.flatten ++ tail) = .ok (records, tail) := by
  induction items generalizing chunks with
  | nil =>
    obtain rfl := pure_eq_ok_iff.1 h
    exact ⟨[], rfl, rfl⟩
  | cons x items ih =>
    simp only [List.mapM_cons, bind_eq_ok_iff, pure_eq_ok_iff] at h
    obtain ⟨chunk, hchunk, chunks, hchunks, rfl⟩ := h
    obtain ⟨body, r, hbody, hr, hsized⟩ := decodeSized_encodeSized hchunk
    obtain ⟨records, halone, hrow⟩ := ih hchunks
    refine ⟨r :: records, ?_, ?_⟩
    · simp only [List.mapM_cons, bind_eq_ok_iff, pure_eq_ok_iff]
      exact ⟨r, ⟨body, hbody, hr⟩, records, halone, rfl⟩
    · rw [List.map_cons, decodeEach, List.flatten_cons, List.append_assoc, hsized]
      simp only [bind_eq_ok_iff, pure_eq_ok_iff]
      exact ⟨(r, _), rfl, (records, tail), hrow, rfl⟩

/-- Records that have been written behind their sizes are read one by one, each as if it stood
alone. Whatever else is read this way is a size with as many bytes behind it that make up a record,
and all that follows these is left. -/
theorem decodeSized_framing :
    (∀ (items : List (RuntimeInfo × RecordVersion)) (chunks : List (List UInt8))
      (tail : List UInt8), items.mapM (fun x => x.1.encodeSized x.2) = .ok chunks →
        ∃ records,
          items.mapM (fun x => do decode (← x.1.encode x.2) (some x.1.stage)) = .ok records ∧
          decodeEach (items.map fun x => x.1.stage) (chunks.flatten ++ tail) =
            .ok (records, tail)) ∧
    ∀ (bytes : List UInt8) (hint : Option Stage) (r : DecodedRecord) (rest : List UInt8),
      decodeSized bytes hint = .ok (r, rest) ↔
        ∃ size body, bytes = ofWord32 size ++ body ++ rest ∧ body.length = size.toNat ∧
          decode body hint = .ok r :=
  ⟨fun _ _ tail h => decodeEach_encodeSized h tail, fun _ _ _ _ => decodeSized_eq_ok_iff⟩

/-- A short record, a long one and two bytes more. -/
def framedItems : List (RuntimeInfo × RecordVersion) :=
  [({ stageInfo := .pixel ⟨true, false⟩, minWaveLaneCount := 4 }, .v0),
    ({ stageInfo := .mesh ⟨1, 2, 3, 256, 0xffff⟩, stageExtra := .mesh 2 1,
       entryFunctionName := 17 }, .v3)]

theorem decodeSized_framing_framedItems :
    ∃ chunks, framedItems.mapM (fun x => x.1.encodeSized x.2) = .ok chunks ∧
      chunks.flatten.length = 84 ∧ ∃ records,
        framedItems.mapM (fun x => do decode (← x.1.encode x.2) (some x.1.stage)) = .ok records ∧
        decodeEach (framedItems.map fun x => x.1.stage) (chunks.flatten ++ [0xaa, 0xbb]) =
          .ok (records, [0xaa, 0xbb]) :=
  ⟨_, rfl, rfl, decodeSized_framing.1 framedItems _ [0xaa, 0xbb] rfl⟩

end RuntimeInfo

end ShaderIR
