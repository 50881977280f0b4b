import Mathlib

-- The protobuf wire format, as far as varints and length-delimited fields.
namespace Protobuf

abbrev Bytes :=
  List UInt8

-- LEB128. A shift by seven always makes the value smaller, so the value itself bounds the turns.
def encodeVarintIn : Nat → Nat → Bytes
  | 0,         value => [.ofNat (value &&& 0x7f)]
  | turns + 1, value =>
    if value >>> 7 = 0 then [.ofNat (value &&& 0x7f)]
    else .ofNat (value &&& 0x7f ||| 0x80) :: encodeVarintIn turns (value >>> 7)

def encodeVarint (value : Nat) : Bytes :=
  encodeVarintIn value value

-- Reads a varint within a number of bytes: its value, and what comes after it.
def decodeVarintIn : Nat → (shift value : Nat) → Bytes → Except String (Nat × Bytes)
  | turns + 1, shift, value, b :: data =>
    let value := value ||| (b.toNat &&& 0x7f) <<< shift
    if b.toNat &&& 0x80 = 0 then .ok (value, data) else decodeVarintIn turns (shift + 7) value data
  | _,         _,     _,     _         => .error "varint is truncated or longer than 10 bytes"

def decodeVarint (data : Bytes) : Except String (Nat × Bytes) :=
  decodeVarintIn 10 0 0 data

example : encodeVarint 300 = [0xac, 0x02] ∧ decodeVarint [0xac, 0x02, 0x01] = .ok (300, [0x01]) := by
  decide

-- The wire types in use.
def VARINT           : Nat := 0
def LENGTH_DELIMITED : Nat := 2

def utf8 (text : String) : Bytes :=
  text.toByteArray.data.toList

def ofUtf8 (data : Bytes) : Except String String :=
  match String.fromUTF8? ⟨data.toArray⟩ with
  | some text => .ok text
  | none      => .error "string field is not valid UTF-8"

-- One field, as it is written.
inductive Field
  | uint   (number value : Nat)
  | bool   (number : Nat) (value : Bool)
  | bytes  (number : Nat) (value : Bytes)
  | string (number : Nat) (value : String)
  deriving DecidableEq

def encodeTag (number wire : Nat) : Bytes :=
  encodeVarint (number <<< 3 ||| wire)

def Field.encode : Field → Bytes
  | uint number value   => encodeTag number VARINT ++ encodeVarint value
  | bool number value   => encodeTag number VARINT ++ encodeVarint (if value then 1 else 0)
  | bytes number value  =>
    encodeTag number LENGTH_DELIMITED ++ (encodeVarint value.length ++ value)
  | string number value =>
    encodeTag number LENGTH_DELIMITED ++ (encodeVarint (utf8 value).length ++ utf8 value)

def encode (fields : List Field) : Bytes :=
  fields.flatMap Field.encode

def decodeBytes (data : Bytes) : Except String (Bytes × Bytes) := do
  let (length, data) ← decodeVarint data
  if length > data.length then .error "length-delimited field runs past the end"
  else .ok (data.take length, data.drop length)

def skip (wire : Nat) (data : Bytes) : Except String Bytes := do
  if wire = VARINT then
    let (_, data) ← decodeVarint data
    .ok data
  else
    let (_, data) ← decodeBytes data
    .ok data

-- How a decoder reads one field into what it has decoded so far.
inductive Access (σ : Type)
  | uint   (store : Nat → Except String σ)
  | bool   (store : Bool → Except String σ)
  | bytes  (store : Bytes → Except String σ)
  | string (store : String → Except String σ)
  | skip

-- A decoder: what it does with a field of each number.
abbrev Decoder (σ : Type) :=
  σ → Nat → Access σ

variable {σ : Type}

def readField (access : Access σ) (s : σ) (wire : Nat) (data : Bytes) : Except String (σ × Bytes) :=
  match access with
  | .uint store   => do
    let (value, data) ← decodeVarint data
    .ok (← store value, data)
  | .bool store   => do
    let (value, data) ← decodeVarint data
    .ok (← store (value ≠ 0), data)
  | .bytes store  => do
    let (value, data) ← decodeBytes data
    .ok (← store value, data)
  | .string store => do
    let (value, data) ← decodeBytes data
    .ok (← store (← ofUtf8 value), data)
  | .skip         => do
    .ok (s, ← skip wire data)

-- The loop over the fields of a payload. Every turn reads a tag at least, so the length of the payload
-- bounds the turns.
def decodeIn (step : Decoder σ) : Nat → σ → Bytes → Except String σ
  | _,         s, []        => .ok s
  | 0,         _, _ :: _    => .error "varint is truncated or longer than 10 bytes"
  | turns + 1, s, b :: data => do
    let (tag, data) ← decodeVarint (b :: data)
    let wire := tag &&& 0x07
    if wire ≠ VARINT ∧ wire ≠ LENGTH_DELIMITED then
      .error s!"unsupported wire type {wire}"
    else
      let (s, data) ← readField (step s (tag >>> 3)) s wire data
      decodeIn step turns s data

def decode (step : Decoder σ) (s : σ) (payload : Bytes) : Except String σ :=
  decodeIn step payload.length s payload

-- Any bytes that spell a number: seven bits a byte, the lowest first, a continuation bit on all but the
-- last. A number has many spellings; the encoder writes the shortest.
inductive Spells : Nat → Bytes → Prop
  | last {b : UInt8} (h : b.toNat < 128) : Spells b.toNat [b]
  | more {b : UInt8} {value : Nat} {data : Bytes} (h : 128 ≤ b.toNat) (hd : Spells value data) :
    Spells (b.toNat - 128 + 128 * value) (b :: data)

section Varint

variable {value turns shift : Nat} {data rest : Bytes}

theorem and_continuation {b : UInt8} : b.toNat &&& 0x80 = 0 ↔ b.toNat < 128 := by
  have h : ∀ n : Fin 256, n.val &&& 0x80 = 0 ↔ n.val < 128 := by decide +kernel
  exact h ⟨b.toNat, b.toNat_lt⟩

theorem and_payload {n : Nat} : n &&& 0x7f = n % 128 :=
  Nat.and_two_pow_sub_one_eq_mod n 7

theorem decodeVarintIn_spells (h : Spells value data) (hl : data.length ≤ turns) {n : Nat}
    (hn : n < 2 ^ shift) :
    decodeVarintIn turns shift n (data ++ rest) = .ok (n + value * 2 ^ shift, rest) := by
  induction h generalizing turns shift n with
  | last hb =>
    cases turns
    case zero => simp at hl
    case succ =>
      simp only [List.cons_append, List.nil_append, decodeVarintIn, and_continuation, hb, if_true]
      rw [and_payload, Nat.mod_eq_of_lt hb, Nat.or_comm, ← Nat.shiftLeft_add_eq_or_of_lt hn,
        Nat.shiftLeft_eq, Nat.add_comm]
  | more hb hd ih =>
    cases turns
    case zero => simp at hl
    case succ turns =>
      rename_i b value data
      have hm : b.toNat % 128 = b.toNat - 128 := by
        have := b.toNat_lt
        omega
      have hc : ¬b.toNat < 128 := by omega
      have hlt : n + (b.toNat - 128) * 2 ^ shift < 2 ^ (shift + 7) := by
        have : b.toNat - 128 ≤ 127 := by
          have := b.toNat_lt
          omega
        have := Nat.mul_le_mul_right (2 ^ shift) this
        rw [Nat.pow_add]
        omega
      simp only [List.cons_append, decodeVarintIn, and_continuation, hc, if_false]
      rw [and_payload, hm, Nat.or_comm, ← Nat.shiftLeft_add_eq_or_of_lt hn, Nat.shiftLeft_eq,
        Nat.add_comm _ n, ih (by simpa using hl) hlt]
      congr 2
      rw [Nat.pow_add]
      ring

theorem decodeVarint_spells (h : Spells value data) (hl : data.length ≤ 10) :
    decodeVarint (data ++ rest) = .ok (value, rest) := by
  have hd : decodeVarintIn 10 0 0 (data ++ rest) = .ok (0 + value * 2 ^ 0, rest) :=
    decodeVarintIn_spells h hl (by simp)
  simpa [decodeVarint] using hd

theorem encodeVarintIn_spells (h : value ≤ turns) : Spells value (encodeVarintIn turns value) := by
  have hlow (v : Nat) : (UInt8.ofNat (v % 128)).toNat = v % 128 :=
    Nat.mod_eq_of_lt ((Nat.mod_lt v (by omega)).trans (by omega))
  have hor (v : Nat) : v % 128 ||| 0x80 = v % 128 + 128 := by
    have ho := Nat.shiftLeft_add_eq_or_of_lt (i := 7) (b := v % 128) (Nat.mod_lt v (by omega)) 1
    rw [Nat.or_comm]
    exact ho.symm.trans (Nat.add_comm _ _)
  induction turns generalizing value with
  | zero =>
    obtain rfl : value = 0 := by omega
    exact Spells.last (b := 0) (by decide)
  | succ turns ih =>
    simp only [encodeVarintIn, and_payload, Nat.shiftRight_eq_div_pow]
    split
    case isTrue h0 =>
      have hv : value % 128 = value := by omega
      have hs := Spells.last (b := .ofNat (value % 128)) (by rw [hlow]; omega)
      rw [hlow] at hs
      exact Eq.subst (motive := (Spells · [.ofNat (value % 128)])) hv hs
    case isFalse h0 =>
      have hb : (UInt8.ofNat (value % 128 ||| 0x80)).toNat = value % 128 + 128 := by
        rw [hor]
        exact Nat.mod_eq_of_lt (by omega)
      have hd : Spells (value / 2 ^ 7) (encodeVarintIn turns (value / 2 ^ 7)) := ih (by omega)
      have hs := Spells.more (b := .ofNat (value % 128 ||| 0x80)) (by omega) hd
      have hv : value % 128 + 128 - 128 + 128 * (value / 2 ^ 7) = value := by omega
      rwa [hb, hv] at hs

theorem encodeVarint_spells : Spells value (encodeVarint value) :=
  encodeVarintIn_spells le_rfl

theorem length_encodeVarintIn {n : Nat} (h : value < 2 ^ (7 * (n + 1))) :
    (encodeVarintIn turns value).length ≤ n + 1 := by
  induction n generalizing turns value with
  | zero =>
    cases turns
    case zero => simp [encodeVarintIn]
    case succ => 
      have : value >>> 7 = 0 := by
        rw [Nat.shiftRight_eq_div_pow]
        omega
      simp [encodeVarintIn, this]
  | succ n ih =>
    cases turns
    case zero => simp [encodeVarintIn]
    case succ =>
      rw [encodeVarintIn]
      split
      · simp
      · have hs : value >>> 7 < 2 ^ (7 * (n + 1)) := by
          rw [Nat.shiftRight_eq_div_pow, Nat.div_lt_iff_lt_mul (by decide), ← Nat.pow_add]
          exact h
        simpa using ih hs

-- Ten bytes hold any number of seventy bits.
theorem length_encodeVarint (h : value < 2 ^ 70) : (encodeVarint value).length ≤ 10 :=
  length_encodeVarintIn h

theorem decodeVarint_encodeVarint (h : value < 2 ^ 70) :
    decodeVarint (encodeVarint value ++ rest) = .ok (value, rest) :=
  decodeVarint_spells encodeVarint_spells (length_encodeVarint h)

end Varint

theorem ofUtf8_utf8 {text : String} : ofUtf8 (utf8 text) = .ok text := by
  have h : String.fromUTF8? text.toByteArray = some text := dif_pos text.isValidUTF8
  simp only [ofUtf8, utf8, Array.toArray_toList]
  rw [h]

namespace Field

def number : Field → Nat
  | uint number _ | bool number _ | bytes number _ | string number _ => number

def wire : Field → Nat
  | uint .. | bool ..    => VARINT
  | bytes .. | string .. => LENGTH_DELIMITED

-- The encoding, less the tag.
def content : Field → Bytes
  | uint _ value   => encodeVarint value
  | bool _ value   => encodeVarint (if value then 1 else 0)
  | bytes _ value  => encodeVarint value.length ++ value
  | string _ value => encodeVarint (utf8 value).length ++ utf8 value

theorem encode_eq {f : Field} : f.encode = encodeTag f.number f.wire ++ f.content := by
  cases f <;> rfl

-- Numbers of fields are small, and integers have 64 bits.
def Fits : Field → Prop
  | uint number value => number < 2 ^ 29 ∧ value < 2 ^ 64
  | f                 => f.number < 2 ^ 29

instance {f : Field} : Decidable f.Fits :=
  match f with
  | uint .. => inferInstanceAs <| Decidable (_ ∧ _)
  | bool .. | bytes .. | string .. => inferInstanceAs <| Decidable (_ < _)

@[simp]
theorem fits_uint {number value : Nat} : (uint number value).Fits ↔ number < 2 ^ 29 ∧ value < 2 ^ 64 :=
  .rfl

@[simp]
theorem fits_bool {number : Nat} {value : Bool} : (bool number value).Fits ↔ number < 2 ^ 29 :=
  .rfl

@[simp]
theorem fits_bytes {number : Nat} {value : Bytes} : (bytes number value).Fits ↔ number < 2 ^ 29 :=
  .rfl

@[simp]
theorem fits_string {number : Nat} {value : String} : (string number value).Fits ↔ number < 2 ^ 29 :=
  .rfl

-- What a decoder makes of a field that it reads with the accessor matching its writer.
def feed (step : Decoder σ) (s : σ) : Field → Except String σ
  | uint number value   =>
    match step s number with
    | .uint store => store value
    | _           => .error "the field is read with another accessor"
  | bool number value   =>
    match step s number with
    | .bool store => store value
    | _           => .error "the field is read with another accessor"
  | bytes number value  =>
    match step s number with
    | .bytes store => store value
    | _            => .error "the field is read with another accessor"
  | string number value =>
    match step s number with
    | .string store => store value
    | _             => .error "the field is read with another accessor"

end Field

-- A well-formed field of a number that the decoder skips.
inductive Unknown (step : Decoder σ) : Bytes → Prop
  | varint {tag value : Nat} {t v : Bytes} (ht : Spells tag t) (hl : t.length ≤ 10)
    (hw : tag &&& 0x07 = VARINT) (hs : ∀ s, step s (tag >>> 3) = .skip) (hv : Spells value v)
    (hl' : v.length ≤ 10) : Unknown step (t ++ v)
  | bytes {tag : Nat} {t l body : Bytes} (ht : Spells tag t) (hl : t.length ≤ 10)
    (hw : tag &&& 0x07 = LENGTH_DELIMITED) (hs : ∀ s, step s (tag >>> 3) = .skip)
    (hb : Spells body.length l) (hl' : l.length ≤ 10) : Unknown step (t ++ (l ++ body))

-- The encoding of some fields, with unknown fields at any of the boundaries.
inductive Padded (step : Decoder σ) : List Field → Bytes → Prop
  | nil : Padded step [] []
  | field {f : Field} {fields : List Field} {payload : Bytes} (h : Padded step fields payload) :
    Padded step (f :: fields) (f.encode ++ payload)
  | unknown {fields : List Field} {u payload : Bytes} (hu : Unknown step u)
    (h : Padded step fields payload) : Padded step fields (u ++ payload)

section Decode

variable {step : Decoder σ} {s s' : σ} {f : Field} {fields : List Field} {payload rest : Bytes}

theorem Padded.encode : Padded step fields (encode fields) := by
  induction fields with
  | nil => exact .nil
  | cons f fields ih => exact .field ih

theorem decodeBytes_spells {l body : Bytes} (h : Spells body.length l) (hl : l.length ≤ 10) :
    decodeBytes (l ++ body ++ rest) = .ok (body, rest) := by
  rw [decodeBytes, List.append_assoc, decodeVarint_spells h hl]
  simp [bind, Except.bind]

theorem Spells.length_pos {value : Nat} {data : Bytes} (h : Spells value data) : 0 < data.length := by
  cases h <;> simp

theorem tag_wire {number wire : Nat} (h : wire < 8) : (number <<< 3 ||| wire) &&& 0x07 = wire := by
  rw [← Nat.shiftLeft_add_eq_or_of_lt (i := 3) h, show 0x07 = 2 ^ 3 - 1 from rfl,
    Nat.and_two_pow_sub_one_eq_mod, Nat.shiftLeft_eq]
  omega

theorem tag_number {number wire : Nat} (h : wire < 8) : (number <<< 3 ||| wire) >>> 3 = number := by
  rw [← Nat.shiftLeft_add_eq_or_of_lt (i := 3) h, Nat.shiftLeft_eq, Nat.shiftRight_eq_div_pow]
  omega

-- One turn of the loop, whose tag may be spelled in any way.
theorem decodeIn_turn {turns tag : Nat} {t data : Bytes} (ht : Spells tag t) (hl : t.length ≤ 10)
    (hw : tag &&& 0x07 = VARINT ∨ tag &&& 0x07 = LENGTH_DELIMITED)
    (hr : readField (step s (tag >>> 3)) s (tag &&& 0x07) data = .ok (s', rest)) :
    decodeIn step (turns + 1) s (t ++ data) = decodeIn step turns s' rest := by
  obtain ⟨b, t', rfl⟩ : ∃ b t', t = b :: t' := by cases ht <;> exact ⟨_, _, rfl⟩
  have hd : decodeVarint (b :: (t' ++ data)) = .ok (tag, data) := decodeVarint_spells ht hl
  have hn : ¬(tag &&& 0x07 ≠ VARINT ∧ tag &&& 0x07 ≠ LENGTH_DELIMITED) := by
    rintro ⟨h, h'⟩
    exact hw.elim h h'
  simp only [List.cons_append, decodeIn, hd, bind, Except.bind, if_neg hn, hr]

theorem readField_content (hf : f.Fits) (hl : f.encode.length < 2 ^ 64) (h : f.feed step s = .ok s') :
    readField (step s f.number) s f.wire (f.content ++ rest) = .ok (s', rest) := by
  have hbytes {body : Bytes} (hb : body.length < 2 ^ 64) :
      decodeBytes (encodeVarint body.length ++ body ++ rest) = .ok (body, rest) :=
    decodeBytes_spells encodeVarint_spells (length_encodeVarint (hb.trans (by decide)))
  rw [Field.encode_eq, List.length_append] at hl
  cases f with
  | uint number value =>
    simp only [Field.feed] at h
    split at h
    case h_2 => cases h
    case h_1 store ha =>
      simp only [Field.number, Field.content, ha, readField,
        decodeVarint_encodeVarint (hf.2.trans (by decide)), bind, Except.bind, h]
  | bool number value =>
    simp only [Field.feed] at h
    split at h
    case h_2 => cases h
    case h_1 store ha =>
      have hv : (if value then 1 else 0) < 2 ^ 70 := by cases value <;> decide
      have hb : decide ((if value then 1 else 0) ≠ 0) = value := by cases value <;> rfl
      simp only [Field.number, Field.content, ha, readField, decodeVarint_encodeVarint hv, bind,
        Except.bind, hb, h]
  | bytes number value =>
    simp only [Field.feed] at h
    split at h
    case h_2 => cases h
    case h_1 store ha =>
      have hl : value.length < 2 ^ 64 := by
        simp only [Field.content, List.length_append] at hl
        omega
      simp only [Field.number, Field.content, ha, readField, hbytes hl, bind, Except.bind, h]
  | string number value =>
    simp only [Field.feed] at h
    split at h
    case h_2 => cases h
    case h_1 store ha =>
      have hl : (utf8 value).length < 2 ^ 64 := by
        simp only [Field.content, List.length_append] at hl
        omega
      simp only [Field.number, Field.content, ha, readField, hbytes hl, bind, Except.bind, ofUtf8_utf8, h]

theorem Unknown.length_pos {u : Bytes} (h : Unknown step u) : 0 < u.length := by
  cases h with
  | varint ht => have := ht.length_pos; simp only [List.length_append]; omega
  | bytes ht  => have := ht.length_pos; simp only [List.length_append]; omega

theorem decodeIn_field {turns : Nat} (hf : f.Fits) (hl : f.encode.length < 2 ^ 64)
    (h : f.feed step s = .ok s') :
    decodeIn step (turns + 1) s (f.encode ++ rest) = decodeIn step turns s' rest := by
  have hw : f.wire < 8 := by cases f <;> simp [Field.wire, VARINT, LENGTH_DELIMITED]
  have hn : f.number < 2 ^ 29 := by
    cases f
    case uint => exact hf.1
    all_goals exact hf
  have ht : f.number <<< 3 ||| f.wire < 2 ^ 70 := by
    rw [← Nat.shiftLeft_add_eq_or_of_lt (i := 3) hw, Nat.shiftLeft_eq]
    omega
  rw [Field.encode_eq, List.append_assoc]
  refine decodeIn_turn encodeVarint_spells (length_encodeVarint ht) ?_ ?_
  · rw [tag_wire hw]
    cases f
    case uint | bool => exact .inl rfl
    case bytes | string => exact .inr rfl
  · rw [tag_number hw, tag_wire hw]
    exact readField_content hf hl h

theorem decodeIn_unknown {turns : Nat} {u : Bytes} (h : Unknown step u) :
    decodeIn step (turns + 1) s (u ++ rest) = decodeIn step turns s rest := by
  cases h with
  | varint ht hl hw hs hv hl' =>
    rw [List.append_assoc]
    refine decodeIn_turn ht hl (.inl hw) ?_
    simp only [hs, hw, readField, skip, if_true, decodeVarint_spells hv hl', bind, Except.bind]
  | bytes ht hl hw hs hb hl' =>
    rw [List.append_assoc]
    refine decodeIn_turn ht hl (.inr hw) ?_
    have hn : LENGTH_DELIMITED ≠ VARINT := by decide
    simp only [hs, hw, readField, skip, hn, if_false, decodeBytes_spells hb hl', bind, Except.bind]

theorem Padded.decodeIn {turns : Nat} (h : Padded step fields payload) (hf : ∀ f ∈ fields, f.Fits)
    (hl : payload.length < 2 ^ 64) (ht : payload.length ≤ turns)
    (hs : fields.foldlM (Field.feed step) s = .ok s') : decodeIn step turns s payload = .ok s' := by
  induction h generalizing s turns with
  | nil =>
    cases hs
    rw [Protobuf.decodeIn]
  | @field f fields payload h ih =>
    simp only [List.foldlM_cons, bind, Except.bind] at hs
    split at hs
    case h_1 => cases hs
    case h_2 s₁ hs₁ =>
      rw [List.length_append] at hl ht
      have hp : 0 < f.encode.length := by
        have ht : Spells (f.number <<< 3 ||| f.wire) (encodeTag f.number f.wire) := encodeVarint_spells
        rw [Field.encode_eq, List.length_append]
        exact Nat.add_pos_left ht.length_pos _
      obtain ⟨turns, rfl⟩ : ∃ n, turns = n + 1 := ⟨turns - 1, by omega⟩
      rw [decodeIn_field (hf _ List.mem_cons_self) (by omega) hs₁]
      exact ih (fun f hm => hf f (List.mem_cons_of_mem _ hm)) (by omega) (by omega) hs
  | unknown hu h ih =>
    rw [List.length_append] at hl ht
    have hp := hu.length_pos
    obtain ⟨turns, rfl⟩ : ∃ n, turns = n + 1 := ⟨turns - 1, by omega⟩
    rw [decodeIn_unknown hu]
    exact ih hf (by omega) (by omega) hs

-- A payload decodes to what its fields make of the start, whatever unknown fields are in between.
theorem Padded.decode (h : Padded step fields payload) (hf : ∀ f ∈ fields, f.Fits)
    (hl : payload.length < 2 ^ 64) (hs : fields.foldlM (Field.feed step) s = .ok s') :
    decode step s payload = .ok s' :=
  h.decodeIn hf hl le_rfl hs

-- A repeated field, whose values are collected in order.
theorem feed_repeated {β : Type} {fields : List Field} {values acc : List β} {g : List β → σ}
    (h : List.Forall₂ (fun f v => ∀ acc, f.feed step (g acc) = .ok (g (acc ++ [v]))) fields values) :
    fields.foldlM (Field.feed step) (g acc) = .ok (g (acc ++ values)) := by
  induction h generalizing acc with
  | nil => simp [pure, Except.pure]
  | @cons f v fields values hv h ih =>
    simp only [List.foldlM_cons, hv, bind, Except.bind]
    rw [ih, List.append_assoc, List.singleton_append]

theorem forall₂_imp_mem {α β : Type} {P Q : α → β → Prop} {l : List α} {l' : List β}
    (h : List.Forall₂ P l l') (hi : ∀ a ∈ l, ∀ b ∈ l', P a b → Q a b) : List.Forall₂ Q l l' := by
  have h := (List.forall₂_and_left l l').mpr ⟨fun _ h => h, h⟩
  have h := (List.forall₂_and_left l' l).mpr ⟨fun _ h => h, h.flip⟩
  exact h.flip.imp fun a b ⟨hb, ha, hp⟩ => hi a ha b hb hp

theorem feed_append {fields' : List Field} {t : σ} (h : fields.foldlM (Field.feed step) s = .ok t) :
    (fields ++ fields').foldlM (Field.feed step) s = fields'.foldlM (Field.feed step) t := by
  simp only [List.foldlM_append, h, bind, Except.bind]

-- What a payload holds is no longer than the payload.
theorem Padded.length_le (h : Padded step fields payload) (hf : f ∈ fields) :
    f.encode.length ≤ payload.length := by
  induction h with
  | nil => cases hf
  | field h ih =>
    rw [List.length_append]
    rcases List.mem_cons.mp hf with rfl | hf
    · exact Nat.le_add_right _ _
    · exact (ih hf).trans (Nat.le_add_left _ _)
  | unknown hu h ih =>
    rw [List.length_append]
    exact (ih hf).trans (Nat.le_add_left _ _)

theorem Padded.length_bytes_le {n : Nat} {body : Bytes} (h : Padded step fields payload)
    (hf : .bytes n body ∈ fields) : body.length ≤ payload.length := by
  have hl := h.length_le hf
  simp only [Field.encode, List.length_append] at hl
  omega

end Decode
end Protobuf
