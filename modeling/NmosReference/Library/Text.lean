import Mathlib

-- White space and decimal numbers in text, as they are in every script.
namespace Text

-- The code points of the zeros, in Unicode 15. Each begins a run of the ten digits in order.
def decimalZeros : List Nat :=
  [0x30, 0x660, 0x6f0, 0x7c0, 0x966, 0x9e6, 0xa66, 0xae6, 0xb66, 0xbe6, 0xc66, 0xce6, 0xd66, 0xde6,
    0xe50, 0xed0, 0xf20, 0x1040, 0x1090, 0x17e0, 0x1810, 0x1946, 0x19d0, 0x1a80, 0x1a90, 0x1b50,
    0x1bb0, 0x1c40, 0x1c50, 0xa620, 0xa8d0, 0xa900, 0xa9d0, 0xa9f0, 0xaa50, 0xabf0, 0xff10, 0x104a0,
    0x10d30, 0x11066, 0x110f0, 0x11136, 0x111d0, 0x112f0, 0x11450, 0x114d0, 0x11650, 0x116c0,
    0x11730, 0x118e0, 0x11950, 0x11c50, 0x11d50, 0x11da0, 0x11f50, 0x16a60, 0x16ac0, 0x16b50, 0x1d7ce,
    0x1d7d8, 0x1d7e2, 0x1d7ec, 0x1d7f6, 0x1e140, 0x1e2f0, 0x1e4f0, 0x1e950, 0x1fbf0]

def decimalDigit (c : Char) : Option Nat :=
  decimalZeros.findSome? fun z =>
    if z ≤ c.toNat ∧ c.toNat < z + 10 then some (c.toNat - z) else none

-- The number a non-empty run of digits denotes.
def decimal (cs : List Char) : Option Nat :=
  if cs.isEmpty then none else do
    let digits ← cs.mapM decimalDigit
    some <| digits.foldl (fun n d => 10 * n + d) 0

example : decimal "1024".toList = some 1024 := by decide
example : decimal "-1".toList = none := by decide

-- The digits that are not decimal: superscripts, circled and other numerals with a digit value.
def otherDigits : List (Nat × Nat) :=
  [(0xb2, 0xb3), (0xb9, 0xb9), (0x1369, 0x1371), (0x19da, 0x19da), (0x2070, 0x2070), (0x2074, 0x2079),
    (0x2080, 0x2089), (0x2460, 0x2468), (0x2474, 0x247c), (0x2488, 0x2490), (0x24ea, 0x24ea),
    (0x24f5, 0x24fd), (0x24ff, 0x24ff), (0x2776, 0x277e), (0x2780, 0x2788), (0x278a, 0x2792),
    (0x10a40, 0x10a43), (0x10e60, 0x10e68), (0x11052, 0x1105a), (0x1f100, 0x1f10a)]

-- `isdigit`, which holds of more characters than `int` reads.
def isDigits (cs : List Char) : Bool :=
  !cs.isEmpty && cs.all fun c =>
    (decimalDigit c).isSome || otherDigits.any fun r => r.1 ≤ c.toNat && c.toNat ≤ r.2

example : isDigits "1²".toList = true ∧ decimal "1²".toList = none := by decide

theorem decimalDigit_digitChar {d : Nat} (h : d < 10) : decimalDigit d.digitChar = some d := by
  have : ∀ d : Fin 10, decimalDigit d.val.digitChar = some d.val := by decide
  exact this ⟨d, h⟩

theorem isDigit_of_mem_toDigits {c : Char} {n : Nat} (h : c ∈ Nat.toDigits 10 n) : c.isDigit :=
  Nat.isDigit_of_mem_toDigits (by decide) (by decide) h

theorem exists_digitChar_of_isDigit {c : Char} (h : c.isDigit) : ∃ d < 10, c = d.digitChar := by
  have hc : 48 ≤ c.toNat ∧ c.toNat ≤ 57 := Char.isDigit_iff_toNat.mp h
  refine ⟨c.toNat - 48, by omega, Char.toNat_inj.mp ?_⟩
  rw [Nat.toNat_digitChar_of_lt_ten (by omega)]
  omega

theorem toDigits_ne {c c' : Char} {n : Nat} (hc' : c'.isDigit = false) (hc : c ∈ Nat.toDigits 10 n) :
    c ≠ c' := by
  rintro rfl
  exact Bool.eq_false_iff.mp hc' (isDigit_of_mem_toDigits hc)

-- What ASCII digits denote.
theorem decimal_eq_ofDigitChars {cs : List Char} (hne : cs ≠ []) (h : ∀ c ∈ cs, c.isDigit) :
    decimal cs = some (Nat.ofDigitChars 10 cs 0) := by
  have hd : ∀ cs : List Char, (∀ c ∈ cs, ∃ d < 10, c = d.digitChar) →
      ∃ digits, cs.mapM decimalDigit = some digits ∧
        ∀ init, digits.foldl (fun n d => 10 * n + d) init = Nat.ofDigitChars 10 cs init := by
    intro cs
    induction cs with
    | nil => exact fun _ => ⟨[], rfl, by simp⟩
    | cons c cs hi =>
      intro h
      obtain ⟨digits, hm, hf⟩ := hi fun c hc => h c (by simp [hc])
      obtain ⟨d, hlt, rfl⟩ := h c (by simp)
      refine ⟨d :: digits, by simp [decimalDigit_digitChar hlt, hm], fun init => ?_⟩
      rw [List.foldl_cons, hf, Nat.ofDigitChars_cons_digitChar_of_lt_ten hlt]
  obtain ⟨digits, hm, hf⟩ := hd cs fun c hc => exists_digitChar_of_isDigit (h c hc)
  simp [decimal, hne, hm, hf]

-- Reading back what was written.
theorem decimal_toDigits (n : Nat) : decimal (Nat.toDigits 10 n) = some n := by
  rw [decimal_eq_ofDigitChars Nat.toDigits_ne_nil fun c => isDigit_of_mem_toDigits, Nat.ofDigitChars_ten_toDigits]

theorem isDigits_of_isDigit {cs : List Char} (hne : cs ≠ []) (h : ∀ c ∈ cs, c.isDigit) : isDigits cs := by
  simp only [isDigits, Bool.and_eq_true, List.all_eq_true, Bool.or_eq_true]
  refine ⟨by simp [hne], fun c hc => .inl ?_⟩
  obtain ⟨d, hlt, rfl⟩ := exists_digitChar_of_isDigit (h c hc)
  rw [decimalDigit_digitChar hlt]
  rfl

theorem isDigits_toDigits {n : Nat} : isDigits (Nat.toDigits 10 n) :=
  isDigits_of_isDigit Nat.toDigits_ne_nil fun _ => isDigit_of_mem_toDigits

-- `isspace`, where `strip` does not stop.
def isSpace (c : Char) : Bool :=
  c.toNat ∈ [0x20, 0x85, 0xa0, 0x1680, 0x2028, 0x2029, 0x202f, 0x205f, 0x3000] ||
    0x09 ≤ c.toNat && c.toNat ≤ 0x0d || 0x1c ≤ c.toNat && c.toNat ≤ 0x1f ||
    0x2000 ≤ c.toNat && c.toNat ≤ 0x200a

def rstrip (s : List Char) : List Char :=
  (s.reverse.dropWhile isSpace).reverse

end Text
