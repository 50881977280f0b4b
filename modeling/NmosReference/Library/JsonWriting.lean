import NmosReference.Library.JsonReading
import NmosReference.Library.Text

-- Writing JSON, as `json.dumps` does with `ensure_ascii=False`.
namespace Json

section Strings

def shortEscape (c : Char) : Option Char :=
  match c with
  | '"'    => some '"'
  | '\\'   => some '\\'
  | '\n'   => some 'n'
  | '\r'   => some 'r'
  | '\t'   => some 't'
  | '\x08' => some 'b'
  | '\x0c' => some 'f'
  | _      => none

def dumpChar (c : Char) : List Char :=
  match shortEscape c with
  | some e => ['\\', e]
  | none   =>
    if c.toNat < 0x20 then
      ['\\', 'u', '0', '0', Nat.digitChar (c.toNat / 16), Nat.digitChar (c.toNat % 16)]
    else [c]

def dumpString (s : String) : List Char :=
  '"' :: (s.toList.flatMap dumpChar ++ ['"'])

def dumpInt (n : Int) : List Char :=
  (toString n).toList

-- `str`, where it does not raise.
def strInt (n : Int) : Option (List Char) :=
  if Printable n then some (dumpInt n) else none

variable {cs rest t : List Char} {us : Str} {c : Char}

theorem unescape_shortEscape {e : Char} (h : shortEscape c = some e) : e ≠ 'u' ∧ unescape e = some c.toNat := by
  unfold shortEscape at h
  split at h
  all_goals cases h
  all_goals exact ⟨by decide, by decide⟩

theorem scanUnits_dumpChar (h : scanUnits cs = some (us, rest)) :
    scanUnits (dumpChar c ++ cs) = some (c.toNat :: us, rest) := by
  unfold dumpChar
  split
  case h_1 e he =>
    obtain ⟨hu, hun⟩ := unescape_shortEscape he
    exact scanUnits_escape hu hun h
  case h_2 hno =>
    split
    case isTrue hlt =>
      have hhex : ∀ n < 0x20, hex4 '0' '0' (Nat.digitChar (n / 16)) (Nat.digitChar (n % 16)) = some n := by decide
      exact scanUnits_unicode (hhex _ hlt) h
    case isFalse hge =>
      refine scanUnits_plain ?_ ?_ hge h
      all_goals
        rintro rfl
        cases hno

theorem scanUnits_dump {s : List Char} : scanUnits (s.flatMap dumpChar ++ '"' :: t) = some (s.map Char.toNat, t) := by
  induction s with
  | nil         => exact scanUnits_quote
  | cons c s hi =>
    rw [List.flatMap_cons, List.append_assoc]
    exact scanUnits_dumpChar hi

theorem not_surrogate (c : Char) : ¬(0xd800 ≤ c.toNat ∧ c.toNat ≤ 0xdbff) := by
  have h := c.valid
  simp only [UInt32.isValidChar, Nat.isValidChar] at h
  change c.toNat < 0xd800 ∨ 0xdfff < c.toNat ∧ c.toNat < 0x110000 at h
  omega

theorem joinSurrogates_chars {s : List Char} : joinSurrogates (s.map Char.toNat) = s.map Char.toNat := by
  induction s with
  | nil         => rfl
  | cons c s hi =>
    cases s with
    | nil      => rfl
    | cons d s =>
      have hc := not_surrogate c
      simp only [List.map_cons] at hi ⊢
      rw [joinSurrogates, if_neg (by tauto), hi]

theorem scanString_dumpString {s : String} :
    scanString (s.toList.flatMap dumpChar ++ '"' :: t) = some (Str.of s, t) := by
  rw [scanString, scanUnits_dump]
  simp only [Option.map_some, joinSurrogates_chars]
  rfl

theorem rawDecode_dumpString {s : String} : rawDecode (dumpString s ++ t) = some (.str (Str.of s), t) := by
  have e : dumpString s ++ t = '"' :: (s.toList.flatMap dumpChar ++ '"' :: t) := by simp [dumpString]
  rw [e]
  change (scanString _).map _ = _
  rw [scanString_dumpString]
  rfl

end Strings

section Numbers

variable {t : List Char}

-- No number but zero is written with a leading zero.
theorem toDigits_head {n : Nat} (hn : 0 < n) : ∀ c ∈ (Nat.toDigits 10 n).head?, c ≠ '0' := by
  induction n using Nat.base_induction 10 (by decide) with
  | single m hm =>
    have hsmall : ∀ m < 10, 0 < m → Nat.digitChar m ≠ '0' := by decide
    rw [Nat.toDigits_of_lt_base hm]
    rintro c ⟨⟩
    exact hsmall m hm hn
  | digit m k hk hm hi =>
    rw [← Nat.toDigits_append_toDigits (by decide) hm hk, List.head?_append_of_ne_nil _ Nat.toDigits_ne_nil]
    exact hi hm

theorem scanInt_toDigits {n : Nat} (ht : Stops t) : scanInt (Nat.toDigits 10 n ++ t) = some (Nat.toDigits 10 n, t) := by
  obtain rfl | hn := Nat.eq_zero_or_pos n
  · rfl
  · have hhead := toDigits_head hn
    have hspan := span_digits (fun c => Text.isDigit_of_mem_toDigits (n := n)) ht.stopsDigits
    obtain ⟨c, ds, hd⟩ := List.exists_cons_of_ne_nil (Nat.toDigits_ne_nil (n := n) (b := 10))
    rw [hd] at hhead hspan ⊢
    unfold scanInt
    split
    case h_1 e => cases e; exact absurd rfl (hhead '0' rfl)
    case h_2   => rw [hspan]

theorem scanUnsigned_toDigits {n : Nat} (negative : Bool) (hn : Printable n) (ht : Stops t) :
    scanUnsigned negative (Nat.toDigits 10 n ++ t) = some (.int (if negative then -n else n), t) := by
  have hlen : ¬MAX_STR_DIGITS < (Nat.toDigits 10 n).length := Nat.not_lt.mpr hn
  rw [scanUnsigned, scanInt_toDigits ht]
  simp [scanFraction_none fun c hc => (ht c hc).2.1, scanExponent_none ht, intValue, Nat.ofDigitChars_ten_toDigits, hlen]

theorem dumpInt_eq (n : Int) : ∃ sign ds, (sign = [] ∨ sign = ['-']) ∧ dumpInt n = sign ++ ds ∧
    ds ≠ [] ∧ (∀ c ∈ ds, c.isDigit) ∧
      (Printable n → ∀ t, Stops t → scanNumber (sign ++ ds ++ t) = some (.int n, t)) := by
  cases n with
  | ofNat n =>
    refine ⟨[], Nat.toDigits 10 n, .inl rfl, ?_, Nat.toDigits_ne_nil, fun c => Text.isDigit_of_mem_toDigits, ?_⟩
    · simp [dumpInt, toString, Int.repr, Nat.toList_repr]
    · intro hp t ht
      obtain ⟨c, ds, hd⟩ := List.exists_cons_of_ne_nil (Nat.toDigits_ne_nil (n := n) (b := 10))
      have hc : c.isDigit := Text.isDigit_of_mem_toDigits (n := n) (by simp [hd])
      have hread := scanUnsigned_toDigits (n := n) false hp ht
      rw [hd] at hread ⊢
      exact (scanNumber_of_digit hc).trans hread
  | negSucc n =>
    refine ⟨['-'], Nat.toDigits 10 (n + 1), .inr rfl, ?_, Nat.toDigits_ne_nil,
      fun c => Text.isDigit_of_mem_toDigits, fun hp t ht => ?_⟩
    · simp [dumpInt, toString, Int.repr, Nat.toList_repr]
    · exact scanUnsigned_toDigits true hp ht

theorem rawDecode_dumpInt {n : Int} (hp : Printable n) (ht : Stops t) : rawDecode (dumpInt n ++ t) = some (.int n, t) := by
  obtain ⟨sign, ds, hs, e, hne, hdigits, hread⟩ := dumpInt_eq n
  obtain ⟨c, ds, rfl⟩ := List.exists_cons_of_ne_nil hne
  have hnum := hread hp t ht
  rw [List.append_assoc, List.cons_append] at hnum
  rw [e, List.append_assoc, List.cons_append, rawDecode_number hs (hdigits c List.mem_cons_self), hnum]

end Numbers

section Objects

-- The text of a value, however it is followed.
structure Written (text : List Char) (v : Value) : Prop where
  start : skipWs text = text
  nonempty : text ≠ []
  reads : ∀ t, Stops t → rawDecode (text ++ t) = some (v, t)

def dumpMember (m : String × List Char) : List Char :=
  dumpString m.1 ++ ':' :: ' ' :: m.2

def dumpMembers (ms : List (String × List Char)) : List Char :=
  [',', ' '].intercalate (ms.map dumpMember)

-- An object, from the texts of its members' values.
def dumpObject (ms : List (String × List Char)) : List Char :=
  '{' :: (dumpMembers ms ++ ['}'])

variable {text t : List Char} {v : Value}

theorem Written.skipWs_append (h : Written text v) : skipWs (text ++ t) = text ++ t := by
  obtain ⟨c, cs, rfl⟩ := List.exists_cons_of_ne_nil h.nonempty
  have hc : isWs c = false := by
    by_contra hws
    have hlen := congrArg List.length h.start
    rw [skipWs, List.dropWhile_cons_of_pos (by simpa using hws)] at hlen
    have hle := (List.dropWhile_suffix isWs (l := cs)).length_le
    simp at hlen
    omega
  exact List.dropWhile_cons_of_neg (by simp [hc])

theorem written_string {s : String} : Written (dumpString s) (.str (Str.of s)) where
  start    := rfl
  nonempty := List.cons_ne_nil _ _
  reads _ _ := rawDecode_dumpString

theorem written_int {n : Int} (hp : Printable n) : Written (dumpInt n) (.int n) where
  start := by
    obtain ⟨sign, ds, hs, e, hne, hdigits, -⟩ := dumpInt_eq n
    obtain ⟨c, ds, rfl⟩ := List.exists_cons_of_ne_nil hne
    rw [e]
    obtain rfl | rfl := hs
    · have hc := hdigits c List.mem_cons_self
      refine List.dropWhile_cons_of_neg ?_
      simp only [isWs, Bool.or_eq_true, decide_eq_true_eq]
      rintro (((rfl | rfl) | rfl) | rfl) <;> cases hc
    · rfl
  nonempty := by
    obtain ⟨sign, ds, -, e, hne, -⟩ := dumpInt_eq n
    simp [e, hne]
  reads _ ht := rawDecode_dumpInt hp ht

theorem dumpMembers_cons {m : String × List Char} {ms : List (String × List Char)} (h : ms ≠ []) :
    dumpMembers (m :: ms) = dumpMember m ++ ',' :: ' ' :: dumpMembers ms := by
  obtain ⟨m', ms, rfl⟩ := List.exists_cons_of_ne_nil h
  simp [dumpMembers, List.intercalate_cons_cons]

theorem dumpMembers_start (ms : List (String × List Char)) (h : ms ≠ []) : ∃ cs, dumpMembers ms = '"' :: cs := by
  obtain ⟨m, ms, rfl⟩ := List.exists_cons_of_ne_nil h
  cases ms with
  | nil      => exact ⟨_, by simp [dumpMembers, dumpMember, dumpString]; rfl⟩
  | cons _ _ => exact ⟨_, by rw [dumpMembers_cons (by simp)]; rfl⟩

theorem length_le_dumpMembers (ms : List (String × List Char)) : ms.length ≤ (dumpMembers ms).length := by
  induction ms with
  | nil          => simp
  | cons m l hi =>
    cases l with
    | nil      => simp [dumpMembers, dumpMember, dumpString]
    | cons _ _ =>
      rw [dumpMembers_cons (by simp)]
      simp only [List.length_append, List.length_cons] at hi ⊢
      omega

theorem dumpMembers_append {ms : List (String × List Char)} {m : String × List Char} (h : ms ≠ []) :
    dumpMembers (ms ++ [m]) = dumpMembers ms ++ ',' :: ' ' :: dumpMember m := by
  induction ms with
  | nil          => contradiction
  | cons m' l hi =>
    cases l with
    | nil      => simp [dumpMembers, List.intercalate_cons_cons]
    | cons _ _ =>
      rw [List.cons_append, dumpMembers_cons (by simp), dumpMembers_cons (by simp), hi (by simp)]
      simp

-- Spliced in before the closing brace, a member is the last one.
theorem dumpObject_append (ms : List (String × List Char)) (m : String × List Char) (h : ms ≠ []) :
    (dumpObject ms).dropLast ++ ',' :: ' ' :: dumpMember m ++ ['}'] = dumpObject (ms ++ [m]) := by
  have hdrop : ('{' :: dumpMembers ms ++ ['}']).dropLast = '{' :: dumpMembers ms := List.dropLast_concat
  rw [dumpObject, ← List.cons_append, hdrop, dumpObject, dumpMembers_append h]
  simp

end Objects

end Json
