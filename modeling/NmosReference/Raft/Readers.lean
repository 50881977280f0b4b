import NmosReference.Library.Handler
import NmosReference.Library.Protobuf

open Protobuf

-- The reader of payloads, and its port: the one computes with integers of any size, the other with 64 bits.
namespace Raft

inductive WireType
  | varint | lengthDelimited
  deriving DecidableEq, Repr

structure Reader where
  data    : Bytes
  offset  : Nat
  -- The field that was yielded last was neither read nor skipped so far.
  pending : Bool
  deriving DecidableEq, Repr

def Reader.new (data : Bytes) : Reader :=
  { data, offset := 0, pending := false }

-- What a decoder asks of a reader, and what it is told.
inductive Call
  | next | uint | bool | bytes | string
  | skip (wire : WireType)
  deriving DecidableEq, Repr

inductive Reply
  | field  (number : Nat) (wire : WireType)
  | ended
  | uint   (value : Nat)
  | bool   (value : Bool)
  | bytes  (value : Bytes)
  | string (value : String)
  | skipped
  deriving DecidableEq, Repr

-- The replies to a sequence of calls, up to the first one that is refused.
def replies (step : Reader → Call → Except String (Reply × Reader)) : Reader → List Call → List (Except String Reply)
  | _, []         => []
  | r, c :: calls =>
    match step r c with
    | .error reason  => [.error reason]
    | .ok (reply, r) => .ok reply :: replies step r calls

namespace Reader

-- The value, and the offset after it.
def decodeVarintIn (data : Bytes) : (turns offset shift value : Nat) → Except String (Nat × Nat)
  | 0,         _,      _,     _     => .error "varint is truncated or longer than 10 bytes"
  | turns + 1, offset, shift, value =>
    match data[offset]? with
    | none   => .error "varint is truncated or longer than 10 bytes"
    | some b =>
      let value := value ||| (b.toNat &&& 0x7f) <<< shift
      if b.toNat &&& 0x80 = 0 then .ok (value, offset + 1) else decodeVarintIn data turns (offset + 1) (shift + 7) value

def decodeVarint (data : Bytes) (offset : Nat) : Except String (Nat × Nat) :=
  decodeVarintIn data 10 offset 0 0

variable (r : Reader)

def next : Except String (Reply × Reader) := do
  if r.data.length ≤ r.offset then
    .ok (.ended, r)
  else if r.pending then
    .error "previous field was neither read nor skipped"
  else
    let (tag, offset) ← decodeVarint r.data r.offset
    match tag &&& 0x07 with
    | 0    => .ok (.field (tag >>> 3) .varint, { r with offset, pending := true })
    | 2    => .ok (.field (tag >>> 3) .lengthDelimited, { r with offset, pending := true })
    | wire => .error s!"unsupported wire type {wire}"

def uint : Except String (Nat × Reader) := do
  let (value, offset) ← decodeVarint r.data r.offset
  return (value, { r with offset, pending := false })

def bytes : Except String (Bytes × Reader) := do
  let (length, offset) ← decodeVarint r.data r.offset
  let stop := offset + length
  if r.data.length < stop then
    .error "length-delimited field runs past the end"
  else
    .ok ((r.data.take stop).drop offset, { r with offset := stop, pending := false })

def step : Call → Except String (Reply × Reader)
  | .next                  => r.next
  | .uint                  => do
    let (value, r) ← r.uint
    return (.uint value, r)
  | .bool                  => do
    let (value, r) ← r.uint
    return (.bool (value ≠ 0), r)
  | .bytes                 => do
    let (value, r) ← r.bytes
    return (.bytes value, r)
  | .string                => do
    let (value, r) ← r.bytes
    return (.string (← ofUtf8 value), r)
  | .skip .varint          => do
    let (_, r) ← r.uint
    return (.skipped, r)
  | .skip .lengthDelimited => do
    let (_, r) ← r.bytes
    return (.skipped, r)

-- No call reads an integer that 64 bits do not hold.
def Narrow : Reader → List Call → Prop
  | _, []         => True
  | r, c :: calls =>
    (∀ value offset, decodeVarint r.data r.offset = .ok (value, offset) → value < 2 ^ 64) ∧
      ∀ reply r', r.step c = .ok (reply, r') → Narrow r' calls

instance decidableNarrow : (r : Reader) → (calls : List Call) → Decidable (Narrow r calls)
  | _, []         => .isTrue trivial
  | r, c :: calls =>
    have := fun r' => decidableNarrow r' calls
    decidable_of_iff
      ((∀ p ∈ (decodeVarint r.data r.offset).toOption, p.1 < 2 ^ 64) ∧ ∀ p ∈ (r.step c).toOption, Narrow p.2 calls) <| by
        simp only [Option.mem_def, Except.toOption_eq_some, Prod.forall, Narrow]

end Reader

-- The port.
namespace Rust

def decodeVarintIn (data : Bytes) : (turns offset : Nat) → (shift value : UInt64) → Except String (UInt64 × Nat)
  | 0,         _,      _,     _     => .error "varint is truncated or longer than 10 bytes"
  | turns + 1, offset, shift, value =>
    match data[offset]? with
    | none   => .error "varint is truncated or longer than 10 bytes"
    | some b =>
      let value := value ||| (b &&& 0x7f).toUInt64 <<< shift
      if b &&& 0x80 = 0 then .ok (value, offset + 1) else decodeVarintIn data turns (offset + 1) (shift + 7) value

def decodeVarint (data : Bytes) (offset : Nat) : Except String (UInt64 × Nat) :=
  decodeVarintIn data 10 offset 0 0

variable (r : Reader)

def next : Except String (Reply × Reader) := do
  if r.data.length ≤ r.offset then
    .ok (.ended, r)
  else if r.pending then
    .error "previous field was neither read nor skipped"
  else
    let (tag, offset) ← decodeVarint r.data r.offset
    match tag &&& 0x07 with
    | 0    => .ok (.field (tag >>> 3).toNat .varint, { r with offset, pending := true })
    | 2    => .ok (.field (tag >>> 3).toNat .lengthDelimited, { r with offset, pending := true })
    | wire => .error s!"unsupported wire type {wire}"

def uint : Except String (UInt64 × Reader) := do
  let (value, offset) ← decodeVarint r.data r.offset
  return (value, { r with offset, pending := false })

-- Memory has 64-bit addresses.
def bytes : Except String (Bytes × Reader) := do
  let (length, offset) ← decodeVarint r.data r.offset
  let stop := offset + length.toNat
  if 2 ^ 64 ≤ stop then
    .error "length overflows"
  else if r.data.length < stop then
    .error "length-delimited field runs past the end"
  else
    .ok ((r.data.take stop).drop offset, { r with offset := stop, pending := false })

def step : Call → Except String (Reply × Reader)
  | .next                  => next r
  | .uint                  => do
    let (value, r) ← uint r
    return (.uint value.toNat, r)
  | .bool                  => do
    let (value, r) ← uint r
    return (.bool (value ≠ 0), r)
  | .bytes                 => do
    let (value, r) ← bytes r
    return (.bytes value, r)
  | .string                => do
    let (value, r) ← bytes r
    return (.string (← ofUtf8 value), r)
  | .skip .varint          => do
    let (_, r) ← uint r
    return (.skipped, r)
  | .skip .lengthDelimited => do
    let (_, r) ← bytes r
    return (.skipped, r)

end Rust

section Agreement

variable {data : Bytes} {turns offset shift value : Nat} {r r' : Reader} {c : Call} {calls : List Call}

-- One more byte of a varint, in 64 bits.
theorem ofNat_or_shiftLeft {b : UInt8} (h : shift < 64) :
    UInt64.ofNat value ||| (b &&& 0x7f).toUInt64 <<< UInt64.ofNat shift =
      UInt64.ofNat (value ||| (b.toNat &&& 0x7f) <<< shift) := by
  have hs : shift % 2 ^ 64 % 64 = shift := by omega
  rw [← UInt64.toNat_inj]
  simp only [UInt64.toNat_or, UInt64.toNat_shiftLeft, UInt64.toNat_ofNat', UInt8.toNat_toUInt64, UInt8.toNat_and, hs,
    Nat.or_mod_two_pow]
  rfl

theorem Rust.decodeVarintIn_eq (h : shift + 7 * turns ≤ 70) :
    decodeVarintIn data turns offset (.ofNat shift) (.ofNat value) =
      (Reader.decodeVarintIn data turns offset shift value).map fun v => (.ofNat v.1, v.2) := by
  induction turns generalizing offset shift value with
  | zero          => rfl
  | succ turns hi =>
    rw [decodeVarintIn, Reader.decodeVarintIn]
    cases data[offset]? with
    | none   => rfl
    | some b =>
      have hb : b &&& 0x80 = 0 ↔ b.toNat &&& 0x80 = 0 := by
        rw [← UInt8.toNat_inj, UInt8.toNat_and]
        rfl
      have hs : UInt64.ofNat shift + 7 = .ofNat (shift + 7) := (UInt64.ofNat_add shift 7).symm
      simp only [ofNat_or_shiftLeft (by omega : shift < 64), hb, hs]
      split
      case isTrue  => rfl
      case isFalse => exact hi (by omega)

theorem Rust.decodeVarint_eq :
    decodeVarint data offset = (Reader.decodeVarint data offset).map fun v => (.ofNat v.1, v.2) :=
  decodeVarintIn_eq (by decide)

-- Two outcomes are the same. The wording of a refusal is left open.
def Same {α : Type} (x y : Except String α) : Prop :=
  x.toOption = y.toOption

theorem Same.of_eq {α : Type} {x y : Except String α} (h : x = y) : Same x y :=
  congrArg _ h

theorem Same.errors {α : Type} {e e' : String} : Same (α := α) (.error e) (.error e') :=
  rfl

theorem Same.bind {α β : Type} {x y : Except String α} {f g : α → Except String β} (h : Same x y)
    (hf : ∀ a, Same (f a) (g a)) : Same (x >>= f) (y >>= g) := by
  cases x <;> cases y <;> simp_all [Same, Except.toOption, Bind.bind, Except.bind]

variable (hn : ∀ value offset, Reader.decodeVarint r.data r.offset = .ok (value, offset) → value < 2 ^ 64)
include hn

theorem Rust.uint_eq : (Rust.uint r).map (fun v => (v.1.toNat, v.2)) = r.uint := by
  rw [Rust.uint, Reader.uint, Rust.decodeVarint_eq]
  cases h : Reader.decodeVarint r.data r.offset with
  | error _ => rfl
  | ok v    =>
    have hv : (UInt64.ofNat v.1).toNat = v.1 := UInt64.toNat_ofNat_of_lt' (hn _ _ h)
    simp only [Except.map, bind, Except.bind, pure, Except.pure, hv]

theorem Rust.next_same : Same (Rust.next r) r.next := by
  rw [Rust.next, Reader.next, Rust.decodeVarint_eq]
  split
  case isTrue => rfl
  split
  case isTrue => rfl
  cases h : Reader.decodeVarint r.data r.offset with
  | error _ => rfl
  | ok v    =>
    obtain ⟨tag, offset⟩ := v
    have ht : (UInt64.ofNat tag).toNat = tag := UInt64.toNat_ofNat_of_lt' (hn _ _ h)
    have hw : (UInt64.ofNat tag &&& 0x07).toNat = tag &&& 0x07 := by
      rw [UInt64.toNat_and, ht]
      rfl
    have hf : (UInt64.ofNat tag >>> 3).toNat = tag >>> 3 := by
      rw [UInt64.toNat_shiftRight, ht]
      rfl
    have hwire {n : Nat} (h : n < 2 ^ 64) : UInt64.ofNat tag &&& 0x07 = .ofNat n ↔ tag &&& 0x07 = n := by
      rw [← UInt64.toNat_inj, hw, UInt64.toNat_ofNat_of_lt' h]
    simp only [Except.map, bind, Except.bind, hf]
    split
    case h_1 h0 =>
      rw [(hwire (n := 0) (by decide)).mp h0]
      rfl
    case h_2 h2 =>
      rw [(hwire (n := 2) (by decide)).mp h2]
      rfl
    case h_3 h0 h2 =>
      split
      case h_1 h => exact absurd ((hwire (n := 0) (by decide)).mpr h) h0
      case h_2 h => exact absurd ((hwire (n := 2) (by decide)).mpr h) h2
      case h_3   => exact .errors

theorem Rust.bytes_same (hl : r.data.length < 2 ^ 64) : Same (Rust.bytes r) r.bytes := by
  rw [Rust.bytes, Reader.bytes, Rust.decodeVarint_eq]
  cases h : Reader.decodeVarint r.data r.offset with
  | error _ => rfl
  | ok v    =>
    have hv : (UInt64.ofNat v.1).toNat = v.1 := UInt64.toNat_ofNat_of_lt' (hn _ _ h)
    simp only [Except.map, bind, Except.bind, hv]
    by_cases hs : 2 ^ 64 ≤ v.2 + v.1
    case pos =>
      rw [if_pos hs, if_pos (by omega)]
      rfl
    case neg => rw [if_neg hs]; rfl

theorem Rust.step_same (hl : r.data.length < 2 ^ 64) : Same (Rust.step r c) (r.step c) := by
  have hu {f : Nat × Reader → Except String (Reply × Reader)} :
      Same ((Rust.uint r) >>= fun v => f (v.1.toNat, v.2)) (r.uint >>= f) := by
    rw [← Rust.uint_eq hn]
    cases Rust.uint r <;> rfl
  have hb {f : Bytes × Reader → Except String (Reply × Reader)} : Same (Rust.bytes r >>= f) (r.bytes >>= f) :=
    (Rust.bytes_same hn hl).bind fun _ => .of_eq rfl
  cases c with
  | next     => exact Rust.next_same hn
  | uint     => exact hu (f := fun v => pure (.uint v.1, v.2))
  | bool     =>
    have hz (v : UInt64) : (decide (v ≠ 0)) = decide (v.toNat ≠ 0) := by
      simp [← UInt64.toNat_inj]
    simp only [Rust.step, hz]
    exact hu (f := fun v => pure (.bool (v.1 ≠ 0), v.2))
  | bytes    => exact hb
  | string   => exact hb
  | skip wire =>
    cases wire with
    | varint          => exact hu (f := fun v => pure (.skipped, v.2))
    | lengthDelimited => exact hb

omit hn in
theorem Reader.step_data {reply : Reply} (h : r.step c = .ok (reply, r')) : r'.data = r.data := by
  have hu {v : Nat × Reader} (h : r.uint = .ok v) : v.2.data = r.data := by
    obtain ⟨_, _, ⟨⟩⟩ := Except.bind_eq_ok.mp h
    rfl
  have hb {v : Bytes × Reader} (h : r.bytes = .ok v) : v.2.data = r.data := by
    obtain ⟨_, _, h⟩ := Except.bind_eq_ok.mp h
    dsimp only at h
    split at h
    case isTrue  => cases h
    case isFalse => cases h; rfl
  cases c with
  | next     =>
    simp only [step, next] at h
    split at h
    case isTrue => cases h; rfl
    split at h
    case isTrue => cases h
    obtain ⟨_, _, h⟩ := Except.bind_eq_ok.mp h
    split at h <;> cases h <;> rfl
  | uint | bool =>
    obtain ⟨_, hv, ⟨⟩⟩ := Except.bind_eq_ok.mp h
    exact hu hv
  | bytes    =>
    obtain ⟨_, hv, ⟨⟩⟩ := Except.bind_eq_ok.mp h
    exact hb hv
  | string   =>
    obtain ⟨_, hv, h⟩ := Except.bind_eq_ok.mp h
    obtain ⟨_, _, ⟨⟩⟩ := Except.bind_eq_ok.mp h
    exact hb hv
  | skip wire =>
    cases wire with
    | varint          =>
      obtain ⟨_, hv, ⟨⟩⟩ := Except.bind_eq_ok.mp h
      exact hu hv
    | lengthDelimited =>
      obtain ⟨_, hv, ⟨⟩⟩ := Except.bind_eq_ok.mp h
      exact hb hv

end Agreement

theorem eq_map_ok {α : Type} {xs : List (Except String α)} {ys : List α}
    (h : xs.map Except.toOption = ys.map some) : xs = ys.map .ok := by
  induction xs generalizing ys with
  | nil          => cases ys <;> simp_all
  | cons x xs hi =>
    cases ys with
    | nil       => simp at h
    | cons y ys =>
      simp only [List.map_cons, List.cons.injEq] at h
      obtain rfl : x = .ok y := by cases x <;> simp_all [Except.toOption]
      rw [List.map_cons, hi h.2]

theorem replies_same {r : Reader} {calls : List Call} (hl : r.data.length < 2 ^ 64) (hn : r.Narrow calls) :
    (replies Rust.step r calls).map Except.toOption = (replies Reader.step r calls).map Except.toOption := by
  induction calls generalizing r with
  | nil          => rfl
  | cons c calls hi =>
    obtain ⟨hv, hn⟩ := hn
    have hs := Rust.step_same (c := c) hv hl
    rw [replies, replies]
    cases h : r.step c with
    | error _ =>
      cases h' : Rust.step r c with
      | error _ => rfl
      | ok _    => simp [Same, h, h', Except.toOption] at hs
    | ok v    =>
      cases h' : Rust.step r c with
      | error _ => simp [Same, h, h', Except.toOption] at hs
      | ok v'   =>
        obtain rfl : v' = v := by simpa [Same, h, h', Except.toOption] using hs
        obtain ⟨reply, r'⟩ := v'
        have hd := Reader.step_data h
        exact congrArg (some reply :: ·) (hi (hd ▸ hl) (hn _ _ h))

section Written

variable {before after data : Bytes} {value offset : Nat} {pending : Bool} {f : Field} {fields : List Field}
variable {calls : List Call}

-- How a decoder reads a field that it knows.
def accessor : Field → Call
  | .uint ..   => .uint
  | .bool ..   => .bool
  | .bytes ..  => .bytes
  | .string .. => .string

def wireOf : Field → WireType
  | .uint .. | .bool ..    => .varint
  | .bytes .. | .string .. => .lengthDelimited

def valueOf : Field → Reply
  | .uint _ value   => .uint value
  | .bool _ value   => .bool value
  | .bytes _ value  => .bytes value
  | .string _ value => .string value

-- The reader goes by offsets, the decoders of the messages by what is left.
theorem Reader.decodeVarintIn_drop {turns shift : Nat} :
    decodeVarintIn data turns offset shift value =
      (Protobuf.decodeVarintIn turns shift value (data.drop offset)).map fun v => (v.1, data.length - v.2.length) := by
  induction turns generalizing offset shift value with
  | zero          => rfl
  | succ turns hi =>
    rw [decodeVarintIn]
    cases h : data[offset]? with
    | none   =>
      rw [List.drop_eq_nil_of_le (List.getElem?_eq_none_iff.mp h)]
      rfl
    | some b =>
      obtain ⟨ho, rfl⟩ := List.getElem?_eq_some_iff.mp h
      rw [List.drop_eq_getElem_cons ho]
      simp only [Protobuf.decodeVarintIn]
      split
      case isTrue =>
        simp only [Except.map, List.length_drop]
        congr
        omega
      case isFalse => exact hi

theorem Reader.decodeVarint_encode (h : value < 2 ^ 70) (hd : data.drop offset = encodeVarint value ++ after) :
    decodeVarint data offset = .ok (value, offset + (encodeVarint value).length) := by
  have hv : Protobuf.decodeVarintIn 10 0 0 (encodeVarint value ++ after) = .ok (value, after) := decodeVarint_encodeVarint h
  have hpos : 0 < (encodeVarint value).length := (encodeVarint_spells).length_pos
  have hl := congrArg List.length hd
  rw [List.length_drop, List.length_append] at hl
  rw [decodeVarint, decodeVarintIn_drop, hd, hv]
  simp only [Except.map]
  congr
  omega

theorem Reader.bytes_encode {body : Bytes} (hb : body.length < 2 ^ 64)
    (hd : data.drop offset = encodeVarint body.length ++ body ++ after) :
    Reader.bytes ⟨data, offset, pending⟩ =
      .ok (body, ⟨data, offset + (encodeVarint body.length ++ body).length, false⟩) := by
  have hl := congrArg List.length hd
  simp only [List.length_drop, List.length_append] at hl
  have hpos : 0 < (encodeVarint body.length).length := (encodeVarint_spells).length_pos
  have hstop : ¬data.length < offset + (encodeVarint body.length).length + body.length := by omega
  have hslice : (data.take (offset + (encodeVarint body.length).length + body.length)).drop
      (offset + (encodeVarint body.length).length) = body := by
    rw [List.drop_take, Nat.add_sub_cancel_left, ← List.drop_drop, hd, List.append_assoc, List.drop_left, List.take_left]
  rw [List.append_assoc] at hd
  rw [Reader.bytes, decodeVarint_encode (hb.trans (by decide)) hd]
  simp only [bind, Except.bind]
  rw [if_neg hstop, hslice, List.length_append, Nat.add_assoc]

-- A field, once its tag has been read.
theorem Reader.step_content (hf : f.Fits) (hl : f.encode.length < 2 ^ 64) (hd : data.drop offset = f.content ++ after) :
    Reader.step ⟨data, offset, pending⟩ (accessor f) = .ok (valueOf f, ⟨data, offset + f.content.length, false⟩) := by
  rw [Field.encode_eq, List.length_append] at hl
  cases f with
  | uint number value   =>
    simp only [step, uint, decodeVarint_encode (hf.2.trans (by decide)) hd, accessor, bind, Except.bind, pure, Except.pure,
      valueOf, Field.content]
  | bool number value   =>
    have hv : (if value then 1 else 0) < 2 ^ 70 := by cases value <;> decide
    simp only [step, uint, decodeVarint_encode hv hd, accessor, bind, Except.bind, pure, Except.pure, valueOf, Field.content]
    cases value <;> rfl
  | bytes number value  =>
    simp only [Field.content, List.length_append] at hl
    simp only [step, bytes_encode (by omega) hd, accessor, bind, Except.bind, pure, Except.pure, valueOf, Field.content]
  | string number value =>
    simp only [Field.content, List.length_append] at hl
    simp only [step, bytes_encode (by omega) hd, ofUtf8_utf8, accessor, bind, Except.bind, pure, Except.pure, valueOf,
      Field.content]

theorem tag_lt (hf : f.Fits) : f.number <<< 3 ||| f.wire < 2 ^ 64 := by
  have hw : f.wire < 8 := by cases f <;> simp [Field.wire, VARINT, LENGTH_DELIMITED]
  have hn : f.number < 2 ^ 29 := by
    cases f
    case uint => exact hf.1
    all_goals exact hf
  rw [← Nat.shiftLeft_add_eq_or_of_lt (i := 3) hw, Nat.shiftLeft_eq]
  omega

theorem Reader.next_encode (hf : f.Fits) (hd : data.drop offset = f.encode ++ after) :
    Reader.step ⟨data, offset, false⟩ .next =
      .ok (.field f.number (wireOf f), ⟨data, offset + (encodeTag f.number f.wire).length, true⟩) := by
  have hw : f.wire < 8 := by cases f <;> simp [Field.wire, VARINT, LENGTH_DELIMITED]
  have ht : f.number <<< 3 ||| f.wire < 2 ^ 70 := (tag_lt hf).trans (by decide)
  have hpos : 0 < (encodeTag f.number f.wire).length := (encodeVarint_spells).length_pos
  have hl := congrArg List.length hd
  rw [Field.encode_eq, List.append_assoc] at hd
  rw [Field.encode_eq, List.length_drop, List.length_append, List.length_append] at hl
  simp only [step, next, if_neg (by omega : ¬data.length ≤ offset), Bool.false_eq_true, if_false,
    decodeVarint_encode ht hd, bind, Except.bind, tag_wire hw, tag_number hw]
  cases f <;> rfl

-- What was written is read, field by field.
theorem Reader.replies_encode (hf : ∀ f ∈ fields, f.Fits) (hl : data.length < 2 ^ 64) (hd : data.drop offset = encode fields) :
    replies Reader.step ⟨data, offset, false⟩ (fields.flatMap fun f => [.next, accessor f]) =
      (fields.flatMap fun f => [.field f.number (wireOf f), valueOf f]).map .ok := by
  induction fields generalizing offset with
  | nil            => rfl
  | cons f fields hi =>
    have hfit := hf f List.mem_cons_self
    have he : data.drop offset = f.encode ++ encode fields := hd
    have hlength := congrArg List.length he
    rw [List.length_drop, List.length_append] at hlength
    have hc : data.drop (offset + (encodeTag f.number f.wire).length) = f.content ++ encode fields := by
      rw [← List.drop_drop, he, Field.encode_eq, List.append_assoc, List.drop_left]
    have hrest : data.drop (offset + (encodeTag f.number f.wire).length + f.content.length) = encode fields := by
      rw [← List.drop_drop, hc, List.drop_left]
    have hr := hi (fun f h => hf f (List.mem_cons_of_mem _ h)) hrest
    simp only [List.flatMap_cons, List.cons_append, List.nil_append, replies, next_encode hfit he,
      step_content hfit (by omega) hc, hr, List.map_cons]

-- A field begins with an integer, after its tag too.
theorem content_varint (hf : f.Fits) (hl : f.encode.length < 2 ^ 64) :
    ∃ value rest, value < 2 ^ 64 ∧ f.content = encodeVarint value ++ rest := by
  rw [Field.encode_eq, List.length_append] at hl
  cases f with
  | uint _ value   => exact ⟨value, [], hf.2, (List.append_nil _).symm⟩
  | bool _ value   =>
    refine ⟨if value then 1 else 0, [], ?_, (List.append_nil _).symm⟩
    cases value <;> decide
  | bytes _ value  =>
    simp only [Field.content, List.length_append] at hl
    exact ⟨value.length, value, by omega, rfl⟩
  | string _ value =>
    simp only [Field.content, List.length_append] at hl
    exact ⟨(utf8 value).length, utf8 value, by omega, rfl⟩

theorem Reader.narrow_encode (hf : ∀ f ∈ fields, f.Fits) (hl : data.length < 2 ^ 64) (hd : data.drop offset = encode fields) :
    Narrow ⟨data, offset, false⟩ (fields.flatMap fun f => [.next, accessor f]) := by
  induction fields generalizing offset with
  | nil            => trivial
  | cons f fields hi =>
    have hfit := hf f List.mem_cons_self
    have he : data.drop offset = f.encode ++ encode fields := hd
    have hlength := congrArg List.length he
    rw [List.length_drop, List.length_append] at hlength
    have hc : data.drop (offset + (encodeTag f.number f.wire).length) = f.content ++ encode fields := by
      rw [← List.drop_drop, he, Field.encode_eq, List.append_assoc, List.drop_left]
    have hrest : data.drop (offset + (encodeTag f.number f.wire).length + f.content.length) = encode fields := by
      rw [← List.drop_drop, hc, List.drop_left]
    have ht : f.number <<< 3 ||| f.wire < 2 ^ 64 := tag_lt hfit
    have hvarint {k value : Nat} {rest : Bytes} (hv : value < 2 ^ 64) (hk : data.drop k = encodeVarint value ++ rest) :
        ∀ v next, decodeVarint data k = .ok (v, next) → v < 2 ^ 64 := by
      rintro v next h
      rw [decodeVarint_encode (hv.trans (by decide)) hk] at h
      cases h
      exact hv
    obtain ⟨value, rest, hv, hcontent⟩ := content_varint hfit (by omega)
    refine ⟨hvarint ht (by rw [he, Field.encode_eq, List.append_assoc]; rfl), fun _ _ hn => ?_⟩
    rw [next_encode hfit he] at hn
    cases hn
    refine ⟨hvarint hv (by rw [hc, hcontent, List.append_assoc]), fun _ _ hs => ?_⟩
    rw [step_content hfit (by omega) hc] at hs
    cases hs
    exact hi (fun f h => hf f (List.mem_cons_of_mem _ h)) hrest

end Written

-- A member reads what was written, whichever of the two it is built from.
theorem Rust.replies_encode {fields : List Field} (hf : ∀ f ∈ fields, f.Fits) (hl : (encode fields).length < 2 ^ 64) :
    replies Rust.step (.new (encode fields)) (fields.flatMap fun f => [.next, accessor f]) =
      (fields.flatMap fun f => [.field f.number (wireOf f), valueOf f]).map .ok := by
  have h := replies_same (r := .new (encode fields)) hl (Reader.narrow_encode hf hl rfl)
  rw [Reader.new, Reader.replies_encode hf hl rfl, List.map_map] at h
  exact eq_map_ok h

-- Whatever a decoder asks, the two readers answer alike, as long as no integer is too wide. None is in what a writer
-- wrote, and both read it back.
theorem readers_agree :
    (∀ (r : Reader) (calls : List Call), r.data.length < 2 ^ 64 → r.Narrow calls →
      (replies Rust.step r calls).map Except.toOption = (replies Reader.step r calls).map Except.toOption) ∧
    ∀ fields : List Field, (∀ f ∈ fields, f.Fits) → (encode fields).length < 2 ^ 64 →
      ∀ step ∈ [Reader.step, Rust.step],
        replies step (.new (encode fields)) (fields.flatMap fun f => [.next, accessor f]) =
          (fields.flatMap fun f => [.field f.number (wireOf f), valueOf f]).map .ok := by
  refine ⟨fun _ _ hl hn => replies_same hl hn, fun fields hf hl step hs => ?_⟩
  rcases List.mem_pair.mp hs with rfl | rfl
  case inl => exact Reader.replies_encode hf hl rfl
  case inr => exact Rust.replies_encode hf hl

namespace Written

-- One field of each kind, after the two that every vote request has.
def fields : List Field :=
  [.uint 1 (2 ^ 40), .uint 2 3, .bool 5 true, .bytes 6 [0xff, 0x00], .string 7 "é"]

-- Fields are passed over, a number is read as a flag, and the last field is read before it is asked for.
def calls : List Call :=
  [.next, .skip .varint, .next, .bool, .next, .skip .varint, .next, .bytes, .string, .next]

theorem readers_agree_written : (replies Rust.step (.new (encode fields)) calls).map Except.toOption =
      (replies Reader.step (.new (encode fields)) calls).map Except.toOption ∧
    ∀ step ∈ [Reader.step, Rust.step], replies step (.new (encode fields)) (fields.flatMap fun f => [.next, accessor f]) =
      [ .ok (.field 1 .varint), .ok (.uint (2 ^ 40)), .ok (.field 2 .varint), .ok (.uint 3), .ok (.field 5 .varint), .ok (.bool true),
        .ok (.field 6 .lengthDelimited), .ok (.bytes [0xff, 0x00]), .ok (.field 7 .lengthDelimited), .ok (.string "é") ] := by
  have hl : (encode fields).length < 2 ^ 64 := by decide +kernel
  exact ⟨readers_agree.1 (.new (encode fields)) calls hl (by decide +kernel), readers_agree.2 fields (by decide +kernel) hl⟩

end Written

-- Two to the 64, on ten bytes: one reader takes it for what it is, and the other for zero.
def wide : Bytes :=
  [0x80, 0x80, 0x80, 0x80, 0x80, 0x80, 0x80, 0x80, 0x80, 0x02]

example : replies Reader.step (.new wide) [.bool] = [.ok (.bool true)] ∧
    replies Rust.step (.new wide) [.bool] = [.ok (.bool false)] := by
  decide +kernel

end Raft
