import NmosReference.Raft.Frames

open Protobuf

-- A frame is accepted just as it was written, and damage to it is noticed.
namespace Raft

section Slices

variable {data before part after : Bytes} {i j k size value : Nat}

theorem length_slice (h : j ≤ data.length) : (slice data i j).length = j - i := by
  simp [slice, Nat.min_eq_left h]

theorem slice_append (hij : i ≤ j) (hjk : j ≤ k) : slice data i j ++ slice data j k = slice data i k := by
  obtain ⟨n, rfl⟩ := Nat.exists_eq_add_of_le hjk
  rw [slice, slice, slice, List.take_add, List.drop_append, List.drop_append]
  by_cases hj : j ≤ data.length
  case pos => simp [Nat.min_eq_left hj, Nat.sub_eq_zero_of_le hij]
  case neg =>
    have : data.drop j = [] := List.drop_eq_nil_of_le (by omega)
    simp [this]

theorem slice_all : slice data 0 data.length = data := by
  simp [slice]

theorem slice_part : slice (before ++ part ++ after) before.length (before.length + part.length) = part := by
  rw [slice, ← List.length_append, List.take_left, List.drop_left]

theorem encode_fromBytes (h : j ≤ data.length) (hn : j - i = size) :
    LittleEndian.encode size (fromBytes data i j) = slice data i j := by
  rw [fromBytes, ← hn, ← length_slice h, LittleEndian.encode_decode]

theorem fromBytes_lt (h : j ≤ data.length) : fromBytes data i j < 2 ^ (8 * (j - i)) := by
  rw [← length_slice h]
  exact LittleEndian.decode_lt

-- One of the parts that some bytes consist of.
theorem slice_flatten {parts : List Bytes} (hk : parts[k]? = some part) (hi : (parts.take k).flatten.length = i)
    (hj : i + part.length = j) : slice parts.flatten i j = part := by
  obtain ⟨hk, rfl⟩ := List.getElem?_eq_some_iff.mp hk
  have hparts : parts.flatten = (parts.take k).flatten ++ parts[k] ++ (parts.drop (k + 1)).flatten := by
    rw [List.append_assoc, ← List.flatten_cons, List.getElem_cons_drop, ← List.flatten_append,
      List.take_append_drop]
  rw [hparts, ← hj, ← hi]
  exact slice_part

theorem fromBytes_flatten {parts : List Bytes} (hk : parts[k]? = some (LittleEndian.encode size value))
    (hi : (parts.take k).flatten.length = i) (hj : i + size = j) (hv : value < 2 ^ (8 * size)) :
    fromBytes parts.flatten i j = value := by
  rw [fromBytes, slice_flatten hk hi (by rw [LittleEndian.length_encode, hj]), LittleEndian.decode_encode hv]

end Slices

theorem stream_eq_ok {n : Nat} {s : Stream} : stream n = .ok s ↔ n = s.value := by
  unfold stream
  split <;> cases s <;> simp_all [Stream.value]

theorem messageType_value {t : MessageType} : messageType t.value = .ok t := by
  cases t <;> rfl

theorem messageType_eq_ok {n : Nat} {t : MessageType} : messageType n = .ok t ↔ n = t.value := by
  constructor
  case mp =>
    unfold messageType
    split
    case h_1 h =>
      rintro ⟨⟩
      have := List.find?_some h
      exact (of_decide_eq_true this).symm
    case h_2 => nofun
  case mpr =>
    rintro rfl
    exact messageType_value

theorem Stream.value_lt {s : Stream} : s.value < 2 ^ 8 := by
  cases s <;> decide

theorem MessageType.value_lt {t : MessageType} : t.value < 2 ^ 8 := by
  cases t <;> decide

-- What the fields of some bytes say, for them to be a frame.
structure Framed (data : Bytes) (f : Frame) : Prop where
  length   : data.length = HEADER_SIZE + f.payload.length + TRAILER_SIZE
  cap      : f.payload.length ≤ MAX_FRAME
  magic    : fromBytes data 0 4 = MAGIC
  major    : fromBytes data 4 6 = PROTOCOL_MAJOR
  minor    : fromBytes data 6 8 = f.minor
  stream   : fromBytes data 8 9 = f.stream.value
  type     : fromBytes data 9 10 = f.type.value
  flags    : fromBytes data 10 12 = f.flags
  reserved : f.flags &&& RESERVED_FLAGS = 0
  size     : fromBytes data 12 16 = f.payload.length
  payload  : slice data HEADER_SIZE (HEADER_SIZE + f.payload.length) = f.payload
  checksum : fromBytes data (HEADER_SIZE + f.payload.length) data.length =
    crc32 (slice data 4 (HEADER_SIZE + f.payload.length))

theorem crc32_lt {data : Bytes} : crc32 data < 2 ^ (8 * 4) :=
  BitVec.isLt _

variable {data : Bytes} {f : Frame}

theorem decodeFrame_eq_ok : decodeFrame data = .ok f ↔ Framed data f := by
  constructor
  case mp =>
    intro h
    simp only [decodeFrame, bind, Except.bind, pure, Except.pure] at h
    repeat' split at h
    all_goals first | contradiction | skip
    rename_i magic major cap length checksum reserved _ stream hs _ type ht
    rw [not_not] at magic major length checksum reserved
    cases h
    have hp : (slice data HEADER_SIZE (HEADER_SIZE + fromBytes data 12 16)).length = fromBytes data 12 16 := by
      rw [length_slice (by omega), Nat.add_sub_cancel_left]
    exact {
      magic, major, reserved
      length   := by rw [hp, length]
      cap      := hp.trans_le (Nat.le_of_not_lt cap)
      minor    := rfl
      stream   := stream_eq_ok.mp hs
      type     := messageType_eq_ok.mp ht
      flags    := rfl
      size     := hp.symm
      payload  := by rw [hp]
      checksum := by rw [hp, checksum] }
  case mpr =>
    intro h
    have hl : ¬data.length < HEADER_SIZE + TRAILER_SIZE := by
      have := h.length
      omega
    have hs : Raft.stream (fromBytes data 8 9) = .ok f.stream := stream_eq_ok.mpr h.stream
    have ht : messageType (fromBytes data 9 10) = .ok f.type := messageType_eq_ok.mpr h.type
    have hcap : ¬MAX_FRAME < f.payload.length := Nat.not_lt.mpr h.cap
    simp only [decodeFrame, bind, Except.bind, pure, Except.pure, hl, h.magic, h.major, h.size, hcap, ← h.length,
      h.checksum, h.flags, h.reserved, hs, ht, h.payload, h.minor, ne_eq, not_true_eq_false, if_false]

-- What the checksum covers, in parts.
def Frame.parts (f : Frame) : List Bytes :=
  [LittleEndian.encode 2 PROTOCOL_MAJOR, LittleEndian.encode 2 f.minor, LittleEndian.encode 1 f.stream.value,
    LittleEndian.encode 1 f.type.value, LittleEndian.encode 2 f.flags, LittleEndian.encode 4 f.payload.length, f.payload]

def Frame.bytes (f : Frame) : Bytes :=
  (LittleEndian.encode 4 MAGIC :: f.parts ++ [LittleEndian.encode 4 (crc32 f.parts.flatten)]).flatten

-- The fields of a frame are in the ranges of what is written for them.
structure Frame.Fits (f : Frame) : Prop where
  cap   : f.payload.length ≤ MAX_FRAME
  minor : f.minor < 2 ^ 16
  flags : f.flags < 2 ^ 16

theorem length_covered : f.parts.flatten.length = 12 + f.payload.length := by
  simp [Frame.parts]
  omega

theorem length_bytes : f.bytes.length = HEADER_SIZE + f.payload.length + TRAILER_SIZE := by
  simp [Frame.bytes, Frame.parts, HEADER_SIZE, TRAILER_SIZE]
  omega

theorem encodeFrame_eq_ok : encodeFrame f = .ok data ↔ f.Fits ∧ f.bytes = data := by
  have hcovered : LittleEndian.encode 2 PROTOCOL_MAJOR ++ LittleEndian.encode 2 f.minor ++
      [UInt8.ofNat f.stream.value, .ofNat f.type.value] ++ LittleEndian.encode 2 f.flags ++
      LittleEndian.encode 4 f.payload.length ++ f.payload = f.parts.flatten := by
    simp [Frame.parts, LittleEndian.encode]
  have hmajor : PROTOCOL_MAJOR < 2 ^ (8 * 2) := by decide
  have hmagic : MAGIC < 2 ^ (8 * 4) := by decide
  have hmax : MAX_FRAME < 2 ^ (8 * 4) := by decide
  unfold encodeFrame
  by_cases hc : MAX_FRAME < f.payload.length
  case pos =>
    simp only [hc, if_true, reduceCtorEq, false_iff]
    exact fun h => absurd h.1.cap (Nat.not_le.mpr hc)
  case neg =>
    have hlength : f.payload.length < 2 ^ (8 * 4) := by omega
    simp only [hc, if_false, Frame.body, toBytes, hmajor, hmagic, hlength, crc32_lt, if_true, bind, Except.bind, pure,
      Except.pure]
    by_cases hm : f.minor < 2 ^ (8 * 2)
    case neg =>
      simp only [hm, if_false, reduceCtorEq, false_iff]
      exact fun h => hm h.1.minor
    by_cases hf : f.flags < 2 ^ (8 * 2)
    case neg =>
      simp only [hm, hf, if_true, if_false, reduceCtorEq, false_iff]
      exact fun h => hf h.1.flags
    have hbytes : LittleEndian.encode 4 MAGIC ++ f.parts.flatten ++ LittleEndian.encode 4 (crc32 f.parts.flatten) = f.bytes := by
      simp [Frame.bytes]
    simp only [hm, hf, if_true, hcovered, hbytes, Except.ok.injEq]
    exact ⟨fun h => ⟨⟨Nat.le_of_not_lt hc, hm, hf⟩, h⟩, And.right⟩

theorem Framed.bytes (h : Framed data f) : f.Fits ∧ f.bytes = data := by
  have hl := h.length
  simp only [HEADER_SIZE, TRAILER_SIZE] at hl
  have hlt {i j : Nat} (hj : j ≤ 16) : fromBytes data i j < 2 ^ (8 * (j - i)) := fromBytes_lt (by omega)
  refine ⟨⟨h.cap, h.minor ▸ hlt (by omega), h.flags ▸ hlt (by omega)⟩, ?_⟩
  have hcovered : f.parts.flatten = slice data 4 (HEADER_SIZE + f.payload.length) := by
    have hpart {i j k : Nat} (hj : j ≤ 16) (hk : j - i = k) : LittleEndian.encode k (fromBytes data i j) = slice data i j :=
      encode_fromBytes (by omega) hk
    rw [Frame.parts, ← h.major, ← h.minor, ← h.stream, ← h.type, ← h.flags, ← h.size, hpart (by omega) (by omega),
      hpart (by omega) (by omega), hpart (by omega) (by omega), hpart (by omega) (by omega), hpart (by omega) (by omega),
      hpart (by omega) (by omega)]
    conv_lhs => rw [← h.payload]
    simp only [List.flatten_cons, List.flatten_nil, List.append_nil, HEADER_SIZE]
    repeat rw [slice_append (by omega) (by omega)]
    rw [h.size]
  rw [Frame.bytes, List.flatten_append, List.flatten_cons, List.flatten_singleton, hcovered, ← h.checksum,
    ← h.magic, encode_fromBytes (by omega) (by omega),
    encode_fromBytes le_rfl (by simp only [HEADER_SIZE]; omega), slice_append (by omega) (by simp only [HEADER_SIZE]; omega),
    slice_append (by omega) (by simp only [HEADER_SIZE]; omega), slice_all]

theorem Frame.Fits.framed (h : f.Fits) (hr : f.flags &&& RESERVED_FLAGS = 0) : Framed f.bytes f := by
  have hcovered : slice f.bytes 4 (HEADER_SIZE + f.payload.length) = f.parts.flatten := by
    have hb : f.bytes = [LittleEndian.encode 4 MAGIC, f.parts.flatten,
        LittleEndian.encode 4 (crc32 f.parts.flatten)].flatten := by
      simp [Frame.bytes]
    rw [hb]
    exact slice_flatten (k := 1) rfl (by simp) (by rw [length_covered, HEADER_SIZE]; omega)
  have hmax : MAX_FRAME < 2 ^ (8 * 4) := by decide
  exact {
    length   := length_bytes
    cap      := h.cap
    magic    := fromBytes_flatten (k := 0) rfl rfl rfl (by decide)
    major    := fromBytes_flatten (k := 1) rfl rfl rfl (by decide)
    minor    := fromBytes_flatten (k := 2) rfl rfl rfl h.minor
    stream   := fromBytes_flatten (k := 3) rfl rfl rfl Stream.value_lt
    type     := fromBytes_flatten (k := 4) rfl rfl rfl MessageType.value_lt
    flags    := fromBytes_flatten (k := 5) rfl rfl rfl h.flags
    reserved := hr
    size     := fromBytes_flatten (k := 6) rfl rfl rfl (h.cap.trans_lt hmax)
    payload  := slice_flatten (k := 7) rfl rfl rfl
    checksum := by
      rw [hcovered]
      refine fromBytes_flatten (k := 8) rfl ?_ ?_ crc32_lt
      · simp [Frame.parts, HEADER_SIZE]
        omega
      · rw [length_bytes, TRAILER_SIZE] }

-- A frame is accepted from just the bytes that are written for it.
theorem decodeFrame_iff : decodeFrame data = .ok f ↔ encodeFrame f = .ok data ∧ f.flags &&& RESERVED_FLAGS = 0 := by
  rw [decodeFrame_eq_ok, encodeFrame_eq_ok]
  constructor
  case mp  => exact fun h => ⟨h.bytes, h.reserved⟩
  case mpr =>
    rintro ⟨⟨h, rfl⟩, hr⟩
    exact h.framed hr

-- Damage.

-- The register over all that follows the magic is the same for every frame.
def RESIDUE : BitVec 32 :=
  Crc.shifts POLYNOMIAL 32 (.allOnes 32)

theorem register_checksum : Crc.register POLYNOMIAL (.allOnes 32) (data ++ LittleEndian.encode 4 (crc32 data)) = RESIDUE := by
  rw [Crc.register_append, Crc.register_eq (by simp), LittleEndian.length_encode, LittleEndian.decode_encode crc32_lt, crc32,
    BitVec.ofNat_toNat, BitVec.setWidth_eq]
  generalize Crc.register POLYNOMIAL (.allOnes 32) data = c
  rw [BitVec.not_def, ← BitVec.xor_assoc, BitVec.xor_comm c, BitVec.xor_assoc, BitVec.xor_self, BitVec.xor_zero, RESIDUE]

theorem decodeFrame_register (h : decodeFrame data = .ok f) :
    data.take 4 = LittleEndian.encode 4 MAGIC ∧ Crc.register POLYNOMIAL (.allOnes 32) (data.drop 4) = RESIDUE := by
  obtain ⟨_, rfl⟩ := (decodeFrame_eq_ok.mp h).bytes
  have hb : f.bytes = LittleEndian.encode 4 MAGIC ++ (f.parts.flatten ++ LittleEndian.encode 4 (crc32 f.parts.flatten)) := by
    simp [Frame.bytes]
  rw [hb, List.take_left' LittleEndian.length_encode, List.drop_left' LittleEndian.length_encode]
  exact ⟨rfl, register_checksum⟩

-- No four bytes in a row, wherever they are in a frame, can be mistaken for four others.
theorem decodeFrame_burst {before after part part' : Bytes} {f f' : Frame} (hl : part.length = part'.length)
    (hb : part.length ≤ 4) (h : decodeFrame (before ++ part ++ after) = .ok f)
    (h' : decodeFrame (before ++ part' ++ after) = .ok f') : part = part' := by
  have ⟨ht, hr⟩ := decodeFrame_register h
  have ⟨ht', hr'⟩ := decodeFrame_register h'
  let k := 4 - before.length
  have htake : part.take k = part'.take k := by
    have he := ht.trans ht'.symm
    simp only [List.take_append] at he
    exact (List.append_inj_right (List.append_inj_left he (by simp [hl])) rfl)
  have hdrop : part.drop k = part'.drop k := by
    have he := hr.trans hr'.symm
    simp only [List.drop_append, List.length_append, ← hl] at he
    exact Crc.register_burst (by decide) (by simp [hl]) (by simp; omega) he
  rw [← List.take_append_drop k part, htake, hdrop, List.take_append_drop]

-- Damage to a frame, within four bytes in a row, is never taken for another frame.
theorem damage_noticed {before after part part' : Bytes} (h : decodeFrame (before ++ part ++ after) = .ok f)
    (hl : part'.length = part.length) (hb : part.length ≤ 4) (hn : part' ≠ part) :
    ∃ reason, decodeFrame (before ++ part' ++ after) = .error reason := by
  cases h' : decodeFrame (before ++ part' ++ after) with
  | error reason => exact ⟨reason, rfl⟩
  | ok f'        => exact absurd (decodeFrame_burst hl.symm hb h h').symm hn

def pong : Frame where
  stream  := .control
  type    := .pong
  flags   := FLAG_REPLY
  payload := (Message.pong ⟨7⟩).encode

theorem damage_noticed_length : ∃ reason,
    decodeFrame (pong.bytes.take 12 ++ [3, 0, 0, 0] ++ pong.bytes.drop 16) = .error reason := by
  have h : decodeFrame (pong.bytes.take 12 ++ [2, 0, 0, 0] ++ pong.bytes.drop 16) = .ok pong := by decide +kernel
  exact damage_noticed h rfl (by decide) (by decide)

end Raft
