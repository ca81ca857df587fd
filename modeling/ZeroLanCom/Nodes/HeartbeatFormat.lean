import ZeroLanCom.Nodes.NodeInfo

/-!
# The heartbeat format

Five words and an identifier at fixed places, then the group name up to the
end of the datagram. Encoder and decoder are inverse to each other: on messages
whose identifier has 36 bytes, and on buffers that hold at least the header.
-/

namespace ZeroLanCom

section Fields

variable {data field rest : Bytes} {offset n : Nat}

/-- Behind a field comes what was written after it. -/
theorem drop_field (h : data.drop offset = field ++ rest) (hn : field.length = n) :
    data.drop (offset + n) = rest := by
  rw [← List.drop_drop, h, List.drop_left' hn]

/-- A field is read where the bytes in front of it end. -/
theorem take_field (h : data.drop offset = field ++ rest) (hn : field.length = n) :
    (data.drop offset).take n = field := by
  rw [h, List.take_left' hn]

/-- A word that was written at a place is read from there. -/
theorem decodeInt32_field {x : Int32} (h : data.drop offset = encodeInt32 x ++ rest) :
    decodeInt32 data offset = x := by
  rw [decodeInt32, h, encodeInt32, readBe32_be32, Int32.toInt32_toUInt32]

/-- A word that lies inside the buffer is written back as it was read. -/
theorem encodeInt32_decodeInt32 (h : offset + 4 ≤ data.length) :
    encodeInt32 (decodeInt32 data offset) = (data.drop offset).take 4 := by
  rw [encodeInt32, decodeInt32, UInt32.toUInt32_toInt32]
  have hlength : 4 ≤ (data.drop offset).length := by
    rw [List.length_drop]
    omega
  match data.drop offset, hlength with
  | a :: b :: c :: d :: rest, _ => exact be32_readBe32 a b c d rest

/-- A field and what follows it. -/
theorem take_append_rest (data : Bytes) (offset n : Nat) :
    (data.drop offset).take n ++ data.drop (offset + n) = data.drop offset := by
  rw [← List.drop_drop, List.take_append_drop]

@[simp] theorem length_encodeInt32 (x : Int32) : (encodeInt32 x).length = 4 := rfl

end Fields

namespace HeartbeatMessage

/-- Only an id of another length does not encode. -/
theorem encode_error_iff {m : HeartbeatMessage} :
    (∃ e, m.encode = .error e) ↔ m.nodeId.length ≠ 36 := by
  unfold encode
  split_ifs with h
  · simpa using h
  · simpa using h

/-- Only a message that is too short does not decode. -/
theorem decode_error_iff {data : Bytes} :
    (∃ e, decode data = .error e) ↔ data.length < heartbeatFixedSize := by
  unfold decode
  split_ifs with h
  · simpa using h
  · simpa using h

/-- What decodes has all fixed fields. -/
theorem length_of_decode {m : HeartbeatMessage} {data : Bytes} (h : decode data = .ok m) :
    heartbeatFixedSize ≤ data.length := by
  by_contra hshort
  obtain ⟨e, he⟩ := decode_error_iff.mpr (Nat.not_le.mp hshort)
  rw [h] at he
  cases he

/-- The layout of an encoded message. -/
theorem encode_layout {m : HeartbeatMessage} {data : Bytes} (h : m.encode = .ok data) :
    m.nodeId.length = 36 ∧
      data = encodeInt32 m.zlcVersion.1 ++ (encodeInt32 m.zlcVersion.2.1 ++
        (encodeInt32 m.zlcVersion.2.2 ++ (m.nodeId ++ (encodeInt32 m.infoId ++
          (encodeInt32 m.servicePort ++ m.groupName))))) := by
  unfold encode at h
  split_ifs at h with hlength
  cases h
  exact ⟨not_not.mp hlength, by simp only [List.append_assoc]⟩

/-- An encoded message is as long as its fields. -/
theorem length_of_encode {m : HeartbeatMessage} {data : Bytes} (h : m.encode = .ok data) :
    data.length = heartbeatFixedSize + m.groupName.length := by
  obtain ⟨hid, rfl⟩ := encode_layout h
  simp only [List.length_append, length_encodeInt32, hid, heartbeatFixedSize]
  omega

/-- The decoder always finds the rest of the buffer behind the header. -/
theorem decode_of_length {data : Bytes} (h : heartbeatFixedSize ≤ data.length) :
    decode data = .ok {
      zlcVersion := (decodeInt32 data 0, decodeInt32 data 4, decodeInt32 data 8)
      nodeId := (data.drop 12).take 36
      infoId := decodeInt32 data 48
      servicePort := decodeInt32 data 52
      groupName := data.drop 56 } := by
  rw [decode, if_neg (Nat.not_lt.mpr h)]
  by_cases htail : heartbeatFixedSize < data.length
  · rw [if_pos htail]
  · have hnone : data.drop 56 = [] := List.drop_eq_nil_of_le (Nat.not_lt.mp htail)
    rw [if_neg htail, hnone]

/-- Decoding inverts encoding. -/
theorem decode_of_encode {m : HeartbeatMessage} {data : Bytes} (h : m.encode = .ok data) :
    decode data = .ok m := by
  obtain ⟨hid, hmajor⟩ := encode_layout h
  rw [← List.drop_zero (l := data)] at hmajor
  have hminor : data.drop 4 = _ := drop_field hmajor (length_encodeInt32 _)
  have hpatch : data.drop 8 = _ := drop_field hminor (length_encodeInt32 _)
  have hnodeId : data.drop 12 = _ := drop_field hpatch (length_encodeInt32 _)
  have hinfoId : data.drop 48 = _ := drop_field hnodeId hid
  have hport : data.drop 52 = _ := drop_field hinfoId (length_encodeInt32 _)
  have hgroup : data.drop 56 = _ := drop_field hport (length_encodeInt32 _)
  have hlength : heartbeatFixedSize ≤ data.length := by
    rw [length_of_encode h]
    exact Nat.le_add_right _ _
  rw [decode_of_length hlength, decodeInt32_field hmajor, decodeInt32_field hminor,
    decodeInt32_field hpatch, take_field hnodeId hid, decodeInt32_field hinfoId,
    decodeInt32_field hport, hgroup]

/-- Encoding inverts decoding. -/
theorem encode_of_decode {m : HeartbeatMessage} {data : Bytes} (h : decode data = .ok m) :
    m.encode = .ok data := by
  have hlength := length_of_decode h
  have hbound : 56 ≤ data.length := hlength
  rw [decode_of_length hlength] at h
  cases h
  have hid : ((data.drop 12).take 36).length = 36 := by
    rw [List.length_take, List.length_drop]
    omega
  rw [encode, if_neg (not_not.mpr hid)]
  -- the fields put together, from the last one backwards
  simp only [List.append_assoc, encodeInt32_decodeInt32 (show 0 + 4 ≤ data.length by omega),
    encodeInt32_decodeInt32 (show 4 + 4 ≤ data.length by omega),
    encodeInt32_decodeInt32 (show 8 + 4 ≤ data.length by omega),
    encodeInt32_decodeInt32 (show 48 + 4 ≤ data.length by omega),
    encodeInt32_decodeInt32 (show 52 + 4 ≤ data.length by omega)]
  rw [take_append_rest data 52 4, take_append_rest data 48 4, take_append_rest data 12 36,
    take_append_rest data 8 4, take_append_rest data 4 4, take_append_rest data 0 4, List.drop_zero]

/-- `memcpy` from a range of the buffer; there is no result when it leaves the buffer. -/
def readInside (data : Bytes) (offset n : Nat) : Option Bytes :=
  if offset + n ≤ data.length then some ((data.drop offset).take n) else none

/-- A read that ends within the message succeeds. -/
theorem readInside_of_le {data : Bytes} {offset n : Nat} (h : offset + n ≤ data.length) :
    readInside data offset n = some ((data.drop offset).take n) := if_pos h

/-- The rest of the buffer, if there is any. -/
def readGroupName (data : Bytes) : Option Bytes :=
  if heartbeatFixedSize < data.length then readInside data 56 (data.length - 56) else some []

/-- `HeartbeatMessage::decode` with every read checked, in the order of the source. -/
def decodeInside (data : Bytes) : Except Exn (Option HeartbeatMessage) :=
  if data.length < heartbeatFixedSize then .error .stdException
  else .ok do
    let major ← readInside data 0 4
    let minor ← readInside data 4 4
    let patch ← readInside data 8 4
    let nodeId ← readInside data 12 36
    let infoId ← readInside data 48 4
    let servicePort ← readInside data 52 4
    let groupName ← readGroupName data
    return {
      zlcVersion := ((readBe32 major).toInt32, (readBe32 minor).toInt32, (readBe32 patch).toInt32)
      nodeId := nodeId
      infoId := (readBe32 infoId).toInt32
      servicePort := (readBe32 servicePort).toInt32
      groupName := groupName }

/-- Four bytes are all that is read of a word. -/
theorem readBe32_take (data : Bytes) (offset : Nat) :
    (readBe32 ((data.drop offset).take 4)).toInt32 = decodeInt32 data offset := by
  rw [decodeInt32]
  match data.drop offset with
  | [] => rfl
  | [_] => rfl
  | [_, _] => rfl
  | [_, _, _] => rfl
  | _ :: _ :: _ :: _ :: _ => rfl

/-- The group name is what lies behind the fixed fields. -/
theorem readGroupName_of_length {data : Bytes} (h : heartbeatFixedSize ≤ data.length) :
    readGroupName data = some (data.drop 56) := by
  have hbound : 56 ≤ data.length := h
  unfold readGroupName
  split_ifs with htail
  · rw [readInside_of_le (by omega), ← List.length_drop, List.take_length]
  · have hnone : data.drop 56 = [] := List.drop_eq_nil_of_le (Nat.not_lt.mp htail)
    rw [hnone]

/-- No read of the decoder leaves the buffer. -/
theorem decodeInside_of_decode {m : HeartbeatMessage} {data : Bytes} (h : decode data = .ok m) :
    decodeInside data = .ok (some m) := by
  have hlength := length_of_decode h
  have hbound : 56 ≤ data.length := hlength
  rw [decode_of_length hlength] at h
  cases h
  rw [decodeInside, if_neg (Nat.not_lt.mpr hlength), readGroupName_of_length hlength]
  simp only [readInside_of_le (show 0 + 4 ≤ data.length by omega),
    readInside_of_le (show 4 + 4 ≤ data.length by omega),
    readInside_of_le (show 8 + 4 ≤ data.length by omega),
    readInside_of_le (show 12 + 36 ≤ data.length by omega),
    readInside_of_le (show 48 + 4 ≤ data.length by omega),
    readInside_of_le (show 52 + 4 ≤ data.length by omega), Option.bind_eq_bind, Option.bind_some,
    Option.pure_def, readBe32_take]

/-- Encoder and decoder are inverse to each other, fail exactly outside of their domains, and
the decoder stays inside its buffer. -/
theorem format_bijective :
    (∀ m : HeartbeatMessage, ((∃ e, m.encode = .error e) ↔ m.nodeId.length ≠ 36) ∧
      ∀ data, m.encode = .ok data →
        decode data = .ok m ∧ data.length = heartbeatFixedSize + m.groupName.length) ∧
    ∀ data, ((∃ e, decode data = .error e) ↔ data.length < heartbeatFixedSize) ∧
      ∀ m, decode data = .ok m → decodeInside data = .ok (some m) ∧ m.encode = .ok data :=
  ⟨fun _ => ⟨encode_error_iff, fun _ h => ⟨decode_of_encode h, length_of_encode h⟩⟩,
    fun _ => ⟨decode_error_iff, fun _ h => ⟨decodeInside_of_decode h, encode_of_decode h⟩⟩⟩

end HeartbeatMessage

end ZeroLanCom
