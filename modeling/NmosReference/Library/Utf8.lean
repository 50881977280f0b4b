import Mathlib

-- Text as bytes, and bytes that need not be text.
namespace Utf8

def encode (cs : List Char) : List UInt8 :=
  cs.flatMap String.utf8EncodeChar

-- The bytes that a first byte announces.
def announced (b : UInt8) : Nat :=
  if 0xc2 ≤ b ∧ b ≤ 0xdf then 1
  else if 0xe0 ≤ b ∧ b ≤ 0xef then 2
  else if 0xf0 ≤ b ∧ b ≤ 0xf4 then 3
  else 0

def isContinuation (b : UInt8) : Bool :=
  0x80 ≤ b ∧ b ≤ 0xbf

-- Overlong forms, surrogates and what is above the last code point show in the second byte.
def isSecond (b c : UInt8) : Bool :=
  isContinuation c ∧ (b = 0xe0 → 0xa0 ≤ c) ∧ (b = 0xed → c ≤ 0x9f) ∧ (b = 0xf0 → 0x90 ≤ c) ∧ (b = 0xf4 → c ≤ 0x8f)

-- How much of ill-formed bytes one replacement stands for: what could still begin a character, or one byte.
def illFormed : List UInt8 → Nat
  | b :: c :: bs =>
    if 0 < announced b ∧ isSecond b c then 2 + ((bs.take (announced b - 1)).takeWhile isContinuation).length
    else 1
  | _            => 1

def decodeLoop : Nat → List UInt8 → List Char
  | 0, _          => []
  | _, []         => []
  | fuel + 1, bs  =>
    match bs.toByteArray.utf8DecodeChar? 0 with
    | some c => c :: decodeLoop fuel (bs.drop c.utf8Size)
    | none   => '\uFFFD' :: decodeLoop fuel (bs.drop (illFormed bs))

-- `data.decode("utf-8", errors="replace")`
def decode (bs : List UInt8) : List Char :=
  decodeLoop bs.length bs

example : decode [0x61, 0xc3, 0xa9, 0xff, 0xe2, 0x82, 0x62] = ['a', 'é', '\uFFFD', '\uFFFD', 'b'] := by decide +kernel

theorem decodeLoop_encode {cs : List Char} {fuel : Nat} (h : (encode cs).length ≤ fuel) :
    decodeLoop fuel (encode cs) = cs := by
  induction cs generalizing fuel with
  | nil          => cases fuel <;> rfl
  | cons c cs hi =>
    have hsize := c.utf8Size_pos
    have he : encode (c :: cs) = String.utf8EncodeChar c ++ encode cs := List.flatMap_cons
    have hl : (String.utf8EncodeChar c).length = c.utf8Size := String.length_utf8EncodeChar c
    rw [he, List.length_append, hl] at h
    obtain ⟨fuel, rfl⟩ := Nat.exists_eq_succ_of_ne_zero (by omega : fuel ≠ 0)
    have hc : (encode (c :: cs)).toByteArray.utf8DecodeChar? 0 = some c := by
      rw [he, List.toByteArray_append]
      exact ByteArray.utf8DecodeChar?_utf8EncodeChar_append
    have hne : encode (c :: cs) ≠ [] := fun hn => by simp [he] at hn
    rw [decodeLoop, hc]
    · dsimp only
      rw [he, ← hl, List.drop_left, hi (by omega)]
    · exact hne

theorem decode_encode (cs : List Char) : decode (encode cs) = cs :=
  decodeLoop_encode (Nat.le_refl _)

-- The bytes are text.
def Valid (bs : List UInt8) : Prop :=
  encode (decode bs) = bs

instance {bs : List UInt8} : Decidable (Valid bs) :=
  inferInstanceAs <| Decidable (_ = _)

theorem valid_encode {cs : List Char} : Valid (encode cs) := by
  rw [Valid, decode_encode]

end Utf8
