import Mathlib

-- Base64, with a reader that skips what is not in the alphabet.
namespace Base64

abbrev Bytes :=
  List UInt8

def alphabet : List Char :=
  "ABCDEFGHIJKLMNOPQRSTUVWXYZabcdefghijklmnopqrstuvwxyz0123456789+/".toList

def symbol (value : Nat) : Char :=
  alphabet.getD value 'A'

def value (c : Char) : Option Nat :=
  if c ∈ alphabet then some (alphabet.idxOf c) else none

def encodeChars : Bytes → List Char
  | []               => []
  | [a]              => [symbol (a.toNat / 4), symbol (a.toNat % 4 * 16), '=', '=']
  | [a, b]           =>
    [symbol (a.toNat / 4), symbol (a.toNat % 4 * 16 + b.toNat / 16), symbol (b.toNat % 16 * 4), '=']
  | a :: b :: c :: s =>
    symbol (a.toNat / 4) :: symbol (a.toNat % 4 * 16 + b.toNat / 16) ::
      symbol (b.toNat % 16 * 4 + c.toNat / 64) :: symbol (c.toNat % 64) :: encodeChars s

def encode (data : Bytes) : String :=
  .ofList (encodeChars data)

-- Where the reader stands within a group of four: how many symbols it has seen, the bits of the last one
-- that are not written yet, and the pads seen since.
def decodeChars (position left pads : Nat) : List Char → Option Bytes
  | []      => if position = 0 then some [] else none
  | c :: cs =>
    if c = '=' then
      if 2 ≤ position then
        -- A full set of pads ends the data, whatever follows.
        if 4 ≤ position + (pads + 1) then some [] else decodeChars position left (pads + 1) cs
      else
        decodeChars position left pads cs
    else
      match value c with
      | none   => decodeChars position left pads cs
      | some v =>
        match position with
        | 0 => decodeChars 1 v 0 cs
        | 1 => (decodeChars 2 (v % 16) 0 cs).map (.ofNat (left * 4 + v / 16) :: ·)
        | 2 => (decodeChars 3 (v % 4) 0 cs).map (.ofNat (left * 16 + v / 4) :: ·)
        | _ => (decodeChars 0 0 0 cs).map (.ofNat (left * 64 + v) :: ·)

-- `none` for text that is not ASCII, or that ends within a group.
def decode (text : String) : Option Bytes :=
  if text.toList.all (·.toNat < 128) then decodeChars 0 0 0 text.toList else none

example : encode [0x66, 0x6f] = "Zm8=" ∧ decode "Zm8=" = some [0x66, 0x6f] := by decide +kernel
example : decode "Z-m\n8=..." = some [0x66, 0x6f] := by decide +kernel

theorem symbol_spec {v : Nat} (h : v < 64) :
    value (symbol v) = some v ∧ symbol v ≠ '=' ∧ (symbol v).toNat < 128 := by
  have hs : ∀ v : Fin 64, value (symbol v) = some v.val ∧ symbol v ≠ '=' ∧ (symbol v).toNat < 128 := by
    decide +kernel
  exact hs ⟨v, h⟩

section

variable {left pads v : Nat} {cs : List Char} {data : Bytes}

-- The four places in a group.

theorem decodeChars_first (h : v < 64) :
    decodeChars 0 left pads (symbol v :: cs) = decodeChars 1 v 0 cs := by
  have ⟨hv, hp, _⟩ := symbol_spec h
  simp only [decodeChars, if_neg hp, hv]

theorem decodeChars_second (h : v < 64) : decodeChars 1 left pads (symbol v :: cs) =
    (decodeChars 2 (v % 16) 0 cs).map (.ofNat (left * 4 + v / 16) :: ·) := by
  have ⟨hv, hp, _⟩ := symbol_spec h
  simp only [decodeChars, if_neg hp, hv]

theorem decodeChars_third (h : v < 64) : decodeChars 2 left pads (symbol v :: cs) =
    (decodeChars 3 (v % 4) 0 cs).map (.ofNat (left * 16 + v / 4) :: ·) := by
  have ⟨hv, hp, _⟩ := symbol_spec h
  simp only [decodeChars, if_neg hp, hv]

theorem decodeChars_fourth (h : v < 64) : decodeChars 3 left pads (symbol v :: cs) =
    (decodeChars 0 0 0 cs).map (.ofNat (left * 64 + v) :: ·) := by
  have ⟨hv, hp, _⟩ := symbol_spec h
  simp only [decodeChars, if_neg hp, hv]

theorem ofNat_eq {b : UInt8} {n : Nat} (h : n = b.toNat) : UInt8.ofNat n = b := by
  simp [h]

theorem decodeChars_encodeChars : decodeChars 0 0 0 (encodeChars data) = some data := by
  have hb (b : UInt8) : b.toNat < 256 := b.toNat_lt
  induction data using encodeChars.induct with
  | case1 => rfl
  | case2 a =>
    have := hb a
    have ha : UInt8.ofNat (a.toNat / 4 * 4 + a.toNat % 4 * 16 / 16) = a := ofNat_eq (by omega)
    rw [encodeChars, decodeChars_first (by omega), decodeChars_second (by omega), ha]
    rfl
  | case3 a b =>
    have := hb a
    have := hb b
    have ha : UInt8.ofNat (a.toNat / 4 * 4 + (a.toNat % 4 * 16 + b.toNat / 16) / 16) = a :=
      ofNat_eq (by omega)
    have hb : UInt8.ofNat ((a.toNat % 4 * 16 + b.toNat / 16) % 16 * 16 + b.toNat % 16 * 4 / 4) = b :=
      ofNat_eq (by omega)
    rw [encodeChars, decodeChars_first (by omega), decodeChars_second (by omega),
      decodeChars_third (by omega), ha, hb]
    rfl
  | case4 a b c s ih =>
    have := hb a
    have := hb b
    have := hb c
    have ha : UInt8.ofNat (a.toNat / 4 * 4 + (a.toNat % 4 * 16 + b.toNat / 16) / 16) = a :=
      ofNat_eq (by omega)
    have hb : UInt8.ofNat ((a.toNat % 4 * 16 + b.toNat / 16) % 16 * 16 +
        (b.toNat % 16 * 4 + c.toNat / 64) / 4) = b := ofNat_eq (by omega)
    have hc : UInt8.ofNat ((b.toNat % 16 * 4 + c.toNat / 64) % 4 * 64 + c.toNat % 64) = c :=
      ofNat_eq (by omega)
    rw [encodeChars, decodeChars_first (by omega), decodeChars_second (by omega),
      decodeChars_third (by omega), decodeChars_fourth (by omega), ih, ha, hb, hc]
    rfl

theorem ascii_encodeChars : ∀ c ∈ encodeChars data, c.toNat < 128 := by
  have hs {v : Nat} (h : v < 64) : (symbol v).toNat < 128 := (symbol_spec h).2.2
  have hb (b : UInt8) : b.toNat < 256 := b.toNat_lt
  induction data using encodeChars.induct with
  | case1 => simp [encodeChars]
  | case2 a =>
    have := hb a
    simp only [encodeChars, List.forall_mem_cons]
    exact ⟨hs (by omega), hs (by omega), by decide, by decide, by simp⟩
  | case3 a b =>
    have := hb a
    have := hb b
    simp only [encodeChars, List.forall_mem_cons]
    exact ⟨hs (by omega), hs (by omega), hs (by omega), by decide, by simp⟩
  | case4 a b c s ih =>
    have := hb a
    have := hb b
    have := hb c
    simp only [encodeChars, List.forall_mem_cons]
    exact ⟨hs (by omega), hs (by omega), hs (by omega), hs (by omega), ih⟩

theorem decode_encode : decode (encode data) = some data := by
  have ha : (encodeChars data).all (·.toNat < 128) := by simpa using ascii_encodeChars
  simp only [decode, encode, String.toList_ofList, ha, if_true, decodeChars_encodeChars]

end
end Base64
