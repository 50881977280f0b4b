import NmosReference.Registry.Types
import Mathlib

-- Base-62 numbers that know their length. Text is a list of characters.
namespace Uuid

inductive UuidError
  | invalidParameter (msg : String)
  | invalidData (msg : String)
  deriving DecidableEq, Repr

def ALPHABET : List Char :=
  "0123456789ABCDEFGHIJKLMNOPQRSTUVWXYZabcdefghijklmnopqrstuvwxyz".toList

def BASE : Nat := 62

def MAX_ENCODED_CHARS : Nat := 10
def MAX_SERIAL_LENGTH : Nat := 12

def charToPos (c : Char) : Option Nat :=
  if c ∈ ALPHABET then some (ALPHABET.idxOf c) else none

-- The entries of `_OFFSETS`: where the range of the texts of a length starts.
def offset : Nat → Nat
  | 0     => 0
  | n + 1 => offset n + BASE ^ n

-- The digits of a number, as many as its length says.
def digits : Nat → Nat → List Char
  | 0,     _          => []
  | n + 1, positional => digits n (positional / BASE) ++ [ALPHABET.getD (positional % BASE) '0']

-- The length of the texts whose range the value is in.
def lengthOf (value : Nat) : Option Nat :=
  (List.range' 1 MAX_ENCODED_CHARS).find? fun n => value < offset (n + 1)

def decode (value : Nat) : Except UuidError (List Char) :=
  if value = 0 then
    .ok []
  else
    match lengthOf value with
    | some length => .ok (digits length (value - offset length))
    | none        => .error (.invalidParameter s!"encoded value {value} exceeds max range")

def isValidSerial (s : List Char) : Bool :=
  s ≠ [] ∧ s.length ≤ MAX_SERIAL_LENGTH ∧ s.all (· ∈ ALPHABET)

variable {c : Char} {s : List Char} {n value : Nat}

theorem charToPos_of_mem (h : c ∈ ALPHABET) :
    ∃ pos < BASE, charToPos c = some pos ∧ ALPHABET.getD pos '0' = c := by
  have hlt : ALPHABET.idxOf c < ALPHABET.length := List.idxOf_lt_length_iff.mpr h
  refine ⟨ALPHABET.idxOf c, hlt, if_pos h, ?_⟩
  rw [List.getD_eq_getElem _ _ hlt]
  exact List.getElem_idxOf hlt

theorem charToPos_getD (h : n < BASE) :
    ALPHABET.getD n '0' ∈ ALPHABET ∧ charToPos (ALPHABET.getD n '0') = some n := by
  have hs : ∀ n : Fin BASE, ALPHABET.getD n.val '0' ∈ ALPHABET ∧
      charToPos (ALPHABET.getD n.val '0') = some n.val := by decide +kernel
  exact hs ⟨n, h⟩

theorem offset_mono {n m : Nat} (h : n ≤ m) : offset n ≤ offset m := by
  induction h with
  | refl => exact le_rfl
  | step h ih => exact ih.trans (Nat.le_add_right _ _)

theorem offset_pos (h : 0 < n) : 0 < offset n := by
  obtain ⟨m, rfl⟩ : ∃ m, n = m + 1 := ⟨n - 1, by omega⟩
  exact Nat.add_pos_right _ (Nat.pow_pos (by decide))

theorem length_digits (n p : Nat) : (digits n p).length = n := by
  induction n generalizing p with
  | zero => rfl
  | succ n ih => simp [digits, ih]

-- The ranges of the lengths follow each other, so a value is in one of them only.
theorem lengthOf_eq (hn : 0 < n) (hm : n ≤ MAX_ENCODED_CHARS) (hl : offset n ≤ value)
    (hu : value < offset (n + 1)) : lengthOf value = some n := by
  rw [lengthOf, List.find?_range'_eq_some]
  simp only [decide_eq_true_eq, List.mem_range'_1, Bool.not_eq_true', decide_eq_false_iff_not, not_lt]
  exact ⟨hu, ⟨hn, by omega⟩, fun j hj hlt => (offset_mono (by omega)).trans hl⟩

theorem lengthOf_spec (h : lengthOf value = some n) (hv : value ≠ 0) :
    0 < n ∧ n ≤ MAX_ENCODED_CHARS ∧ offset n ≤ value ∧ value < offset (n + 1) := by
  rw [lengthOf, List.find?_range'_eq_some] at h
  simp only [decide_eq_true_eq, List.mem_range'_1, Bool.not_eq_true', decide_eq_false_iff_not, not_lt] at h
  obtain ⟨hu, ⟨hn, hm⟩, hf⟩ := h
  refine ⟨hn, by omega, ?_, hu⟩
  by_cases h1 : n = 1
  · subst h1
    simp only [offset, BASE]
    omega
  · have := hf (n - 1) (by omega) (by omega)
    rwa [Nat.sub_add_cancel (by omega)] at this

theorem decode_error (h : offset (MAX_ENCODED_CHARS + 1) ≤ value) :
    decode value = .error (.invalidParameter s!"encoded value {value} exceeds max range") := by
  have hv : value ≠ 0 := by
    have := offset_pos (n := MAX_ENCODED_CHARS + 1) (by decide)
    omega
  have hn : lengthOf value = none := by
    rw [lengthOf, List.find?_eq_none]
    intro n hn
    simp only [List.mem_range'_1] at hn
    simpa using (offset_mono (by omega)).trans h
  simp only [decode, hv, if_false, hn]

variable [Python]

def notAlphanumeric (c : Char) : UuidError :=
  .invalidParameter s!"character {Python.repr c.toString} is not alphanumeric (base-62)"

def positional (s : List Char) : Except UuidError Nat :=
  s.foldlM (fun positional c =>
    match charToPos c with
    | some pos => .ok (positional * BASE + pos)
    | none     => .error (notAlphanumeric c)) 0

def encode (s : List Char) : Except UuidError Nat :=
  if s.length > MAX_ENCODED_CHARS then
    .error (.invalidParameter s!"encoded portion exceeds {MAX_ENCODED_CHARS} chars, got {s.length}")
  else if s = [] then
    .ok 0
  else do
    .ok (offset s.length + (← positional s))

example : encode ['z', 'z'] = .ok 3906 ∧ decode 3906 = .ok ['z', 'z'] :=
  ⟨rfl, by decide +kernel⟩

theorem positional_append (s : List Char) (c : Char) : positional (s ++ [c]) = (do
    let positional ← positional s
    match charToPos c with
    | some pos => .ok (positional * BASE + pos)
    | none     => .error (notAlphanumeric c)) := by
  simp only [positional, List.foldlM_append, List.foldlM_cons, List.foldlM_nil]
  congr 1
  funext p
  cases charToPos c <;> rfl

-- A text is the digits of its number, and the number is one of that many digits.
theorem positional_spec (h : ∀ c ∈ s, c ∈ ALPHABET) :
    ∃ p < BASE ^ s.length, positional s = .ok p ∧ digits s.length p = s := by
  induction s using List.reverseRecOn with
  | nil => exact ⟨0, by decide, rfl, rfl⟩
  | append_singleton s c ih =>
    obtain ⟨p, hp, e, hd⟩ := ih fun c hc => h c (List.mem_append_left _ hc)
    obtain ⟨pos, hpos, hc, hg⟩ := charToPos_of_mem (h c (by simp))
    refine ⟨p * BASE + pos, ?_, ?_, ?_⟩
    · rw [List.length_append, List.length_singleton, Nat.pow_succ]
      calc p * BASE + pos
        _ < (p + 1) * BASE := by rw [Nat.succ_mul]; omega
        _ ≤ BASE ^ s.length * BASE := Nat.mul_le_mul_right _ hp
    · rw [positional_append, e]
      simp only [hc, bind, Except.bind]
    · rw [List.length_append, List.length_singleton, digits, Nat.mul_comm,
        Nat.mul_add_div (by decide), Nat.div_eq_of_lt hpos, Nat.add_zero, hd, Nat.mul_add_mod,
        Nat.mod_eq_of_lt hpos, hg]

theorem positional_digits {p : Nat} (h : p < BASE ^ n) : positional (digits n p) = .ok p := by
  induction n generalizing p with
  | zero =>
    obtain rfl : p = 0 := by simpa using h
    rfl
  | succ n ih =>
    rw [digits, positional_append, ih (Nat.div_lt_of_lt_mul (by rwa [Nat.pow_succ, Nat.mul_comm] at h))]
    simp only [(charToPos_getD (Nat.mod_lt p (by decide : 0 < BASE))).2, bind, Except.bind]
    rw [Nat.mul_comm, Nat.div_add_mod]

theorem decode_encode (h : ∀ c ∈ s, c ∈ ALPHABET) (hl : s.length ≤ MAX_ENCODED_CHARS) :
    ∃ value < offset (MAX_ENCODED_CHARS + 1), encode s = .ok value ∧ decode value = .ok s ∧
      (value = 0 ↔ s = []) := by
  by_cases hs : s = []
  · subst hs
    exact ⟨0, by decide, rfl, rfl, by simp⟩
  · obtain ⟨p, hp, e, hd⟩ := positional_spec h
    have hpos : 0 < s.length := List.length_pos_iff.mpr hs
    have hu : offset s.length + p < offset (s.length + 1) := Nat.add_lt_add_left hp _
    have hv : offset s.length + p ≠ 0 := by
      have := offset_pos hpos
      omega
    refine ⟨offset s.length + p, hu.trans_le (offset_mono (by omega)), ?_, ?_, iff_of_false hv hs⟩
    · simp only [encode, not_lt.mpr hl, if_false, hs, e, bind, Except.bind]
    · simp only [decode, hv, if_false, lengthOf_eq hpos hl (Nat.le_add_right _ _) hu,
        Nat.add_sub_cancel_left, hd]

theorem encode_decode (h : value < offset (MAX_ENCODED_CHARS + 1)) :
    ∃ s, decode value = .ok s ∧ encode s = .ok value ∧ (s = [] ↔ value = 0) := by
  by_cases hv : value = 0
  · subst hv
    exact ⟨[], rfl, rfl, by simp⟩
  · have hsome : (lengthOf value).isSome := by
      rw [lengthOf, List.find?_isSome]
      exact ⟨MAX_ENCODED_CHARS, by decide, by simpa using h⟩
    obtain ⟨n, hn⟩ := Option.isSome_iff_exists.mp hsome
    have ⟨hpos, hm, hl, hu⟩ := lengthOf_spec hn hv
    have hne : digits n (value - offset n) ≠ [] := by
      rw [← List.length_pos_iff, length_digits]
      exact hpos
    refine ⟨digits n (value - offset n), by simp only [decode, hv, if_false, hn], ?_,
      iff_of_false hne hv⟩
    have hp : value - offset n < BASE ^ n := by
      rw [offset] at hu
      omega
    simp only [encode, length_digits, not_lt.mpr hm, if_false, hne, positional_digits hp, bind, Except.bind]
    rw [Nat.add_sub_cancel' hl]

end Uuid
