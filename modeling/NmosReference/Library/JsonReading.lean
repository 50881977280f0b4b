import NmosReference.Library.Json
import Mathlib

-- What a value is read from, and that it is read so wherever it stands.
namespace Json

-- Nothing that a number could go on with.
def Stops (t : List Char) : Prop :=
  ∀ c ∈ t.head?, c.isDigit = false ∧ c ≠ '.' ∧ c ≠ 'e' ∧ c ≠ 'E'

@[simp] theorem stops_nil : Stops [] := nofun

theorem stops_cons {c : Char} {t : List Char} : Stops (c :: t) ↔ c.isDigit = false ∧ c ≠ '.' ∧ c ≠ 'e' ∧ c ≠ 'E' := by
  simp [Stops]

theorem stops_brace : Stops ['}'] :=
  stops_cons.mpr (by decide)

theorem stops_bracket : Stops [']'] :=
  stops_cons.mpr (by decide)

section Strings

variable {cs rest t : List Char} {us s : Str} {a b c d e : Char} {u : Nat}

theorem scanUnits_quote : scanUnits ('"' :: cs) = some ([], cs) := by
  rw [scanUnits.eq_def]
  simp

theorem scanUnits_unicode (hu : hex4 a b c d = some u) (h : scanUnits cs = some (us, rest)) :
    scanUnits ('\\' :: 'u' :: a :: b :: c :: d :: cs) = some (u :: us, rest) := by
  rw [scanUnits.eq_def]
  simp [hu, h]

theorem scanUnits_escape (he : e ≠ 'u') (hu : unescape e = some u) (h : scanUnits cs = some (us, rest)) :
    scanUnits ('\\' :: e :: cs) = some (u :: us, rest) := by
  rw [scanUnits.eq_def]
  simp [he, hu, h]

theorem scanUnits_plain (hq : e ≠ '"') (hs : e ≠ '\\') (hc : ¬e.toNat < 0x20) (h : scanUnits cs = some (us, rest)) :
    scanUnits (e :: cs) = some (e.toNat :: us, rest) := by
  rw [scanUnits.eq_def]
  simp [hq, hs, hc, h]

theorem scanUnits_used (h : scanUnits cs = some (us, rest)) :
    ∃ used, cs = used ++ rest ∧ ∀ t, scanUnits (used ++ t) = some (us, t) := by
  fun_induction scanUnits cs generalizing us rest
  case case1 => cases h
  case case2 =>
    cases h
    exact ⟨['"'], rfl, fun _ => scanUnits_quote⟩
  case case3 => cases h
  case case4 a b c d cs u us' rest' h' hu _ hi =>
    cases h
    obtain ⟨used, rfl, hr⟩ := hi h'
    exact ⟨'\\' :: 'u' :: a :: b :: c :: d :: used, rfl, fun t => scanUnits_unicode hu (hr t)⟩
  case case5 => cases h
  case case6 => cases h
  case case7 e cs he u us' rest' h' hu _ hi =>
    cases h
    obtain ⟨used, rfl, hr⟩ := hi h'
    exact ⟨'\\' :: e :: used, rfl, fun t => scanUnits_escape he hu (hr t)⟩
  case case8 => cases h
  case case9 => cases h
  case case10 e cs hq hs hc us' rest' h' hi =>
    cases h
    obtain ⟨used, rfl, hr⟩ := hi h'
    exact ⟨e :: used, rfl, fun t => scanUnits_plain hq hs hc (hr t)⟩
  case case11 => cases h

theorem scanString_used (h : scanString cs = some (s, rest)) :
    ∃ used, cs = used ++ rest ∧ ∀ t, scanString (used ++ t) = some (s, t) := by
  obtain ⟨⟨us, _⟩, hu, e⟩ := Option.map_eq_some_iff.mp h
  cases e
  obtain ⟨used, rfl, hr⟩ := scanUnits_used hu
  exact ⟨used, rfl, fun t => by rw [scanString, hr t]; rfl⟩

end Strings

section Numbers

variable {cs digits rest t : List Char} {v : Value}

theorem span_digits (hd : ∀ c ∈ digits, c.isDigit) (ht : ∀ c ∈ t.head?, c.isDigit = false) :
    (digits ++ t).span Char.isDigit = (digits, t) := by
  rw [List.span_eq_takeWhile_dropWhile, List.takeWhile_append_of_pos hd, List.dropWhile_append_of_pos hd]
  cases t with
  | nil      => simp
  | cons c t => simp [ht c rfl]

-- What `span` gives is a run of digits, and the rest does not go on with one.
theorem of_span_digits (h : cs.span Char.isDigit = (digits, rest)) :
    cs = digits ++ rest ∧ (∀ c ∈ digits, c.isDigit) ∧ ∀ c ∈ rest.head?, c.isDigit = false := by
  rw [List.span_eq_takeWhile_dropWhile, Prod.mk.injEq] at h
  obtain ⟨rfl, rfl⟩ := h
  refine ⟨(List.takeWhile_append_dropWhile).symm, fun c => List.mem_takeWhile_imp, fun c hc => ?_⟩
  have hnot := List.head?_dropWhile_not Char.isDigit cs
  rw [Option.mem_def.mp hc] at hnot
  exact hnot

-- Nothing that digits could go on with.
def StopsDigits (t : List Char) : Prop :=
  ∀ c ∈ t.head?, c.isDigit = false

theorem scanInt_used (h : scanInt cs = some (digits, rest)) :
    cs = digits ++ rest ∧ digits ≠ [] ∧ (∀ c ∈ digits, c.isDigit) ∧
      ∀ t, StopsDigits t → scanInt (digits ++ t) = some (digits, t) := by
  unfold scanInt at h
  split at h
  case h_1 =>
    cases h
    exact ⟨rfl, List.cons_ne_nil _ _, fun c hc => List.mem_singleton.mp hc ▸ rfl, fun _ _ => rfl⟩
  case h_2 cs hz =>
    split at h
    case h_1                   => cases h
    case h_2 digits' rest' hne hd =>
      cases h
      obtain ⟨rfl, hdigits, -⟩ := of_span_digits hd
      have hnil : digits ≠ [] := hne
      refine ⟨rfl, hnil, hdigits, fun t ht => ?_⟩
      unfold scanInt
      split
      case h_1 cs' e =>
        obtain ⟨c, ds, rfl⟩ := List.exists_cons_of_ne_nil hnil
        cases e
        exact absurd rfl (hz (ds ++ rest))
      case h_2 =>
        rw [span_digits hdigits ht]
        cases digits with
        | nil       => exact absurd rfl hnil
        | cons c ds => rfl

theorem scanFraction_none (ht : ∀ c ∈ t.head?, c ≠ '.') : scanFraction t = ([], t) := by
  unfold scanFraction
  split
  case h_1 cs' => exact absurd rfl (ht '.' rfl)
  case h_2     => rfl

theorem scanFraction_used {fraction : List Char} (h : scanFraction cs = (fraction, rest)) :
    cs = fraction ++ rest ∧ (∀ c ∈ fraction.head?, c = '.') ∧
      ∀ t, StopsDigits t → (∀ c ∈ t.head?, c ≠ '.') → scanFraction (fraction ++ t) = (fraction, t) := by
  unfold scanFraction at h
  split at h
  case h_1 cs' =>
    split at h
    case h_1               => cases h; exact ⟨rfl, nofun, fun t _ ht => scanFraction_none ht⟩
    case h_2 digits' rest' hne hd =>
      cases h
      obtain ⟨rfl, hdigits, -⟩ := of_span_digits hd
      refine ⟨rfl, fun c hc => by simpa using hc.symm, fun t ht _ => ?_⟩
      change scanFraction ('.' :: (digits' ++ t)) = _
      simp only [scanFraction, span_digits hdigits ht]
  case h_2 => cases h; exact ⟨rfl, nofun, fun t _ ht => scanFraction_none ht⟩

theorem scanSign_used {sign : List Char} (h : scanSign cs = (sign, rest)) :
    cs = sign ++ rest ∧ ∀ c t, c.isDigit → scanSign (sign ++ c :: t) = (sign, c :: t) := by
  unfold scanSign at h
  split at h
  case h_1 => cases h; exact ⟨rfl, fun _ _ _ => rfl⟩
  case h_2 => cases h; exact ⟨rfl, fun _ _ _ => rfl⟩
  case h_3 =>
    cases h
    refine ⟨rfl, fun c t hc => ?_⟩
    unfold scanSign
    split
    case h_1 e => cases e; exact absurd hc (by decide)
    case h_2 e => cases e; exact absurd hc (by decide)
    case h_3   => rfl

theorem scanExponent_none (ht : Stops t) : scanExponent t = ([], t) := by
  cases t with
  | nil      => rfl
  | cons c t => simp [scanExponent, (stops_cons.mp ht).2.2]

theorem scanExponent_used {exponent : List Char} (h : scanExponent cs = (exponent, rest)) :
    cs = exponent ++ rest ∧ (∀ c ∈ exponent.head?, c = 'e' ∨ c = 'E') ∧
      ∀ t, Stops t → scanExponent (exponent ++ t) = (exponent, t) := by
  unfold scanExponent at h
  split at h
  case h_1 e cs' =>
    split at h
    case isTrue he =>
      generalize hs : scanSign cs' = signed at h
      obtain ⟨sign, cs''⟩ := signed
      obtain ⟨rfl, hagain⟩ := scanSign_used hs
      dsimp only at h
      split at h
      case h_1                   => cases h; exact ⟨rfl, nofun, fun _ => scanExponent_none⟩
      case h_2 digits' rest' hne hd =>
        cases h
        obtain ⟨rfl, hdigits, -⟩ := of_span_digits hd
        refine ⟨by simp, fun c hc => ?_, fun t ht => ?_⟩
        · simp only [List.cons_append, List.head?_cons, Option.mem_def, Option.some.injEq] at hc
          exact hc ▸ he
        · have hspan : (digits' ++ t).span Char.isDigit = (digits', t) := span_digits hdigits fun c hc => (ht c hc).1
          obtain ⟨c, ds, rfl⟩ := List.exists_cons_of_ne_nil (hne : digits' ≠ [])
          have hsign : scanSign (sign ++ (c :: ds ++ t)) = (sign, c :: ds ++ t) :=
            hagain c (ds ++ t) (hdigits c List.mem_cons_self)
          simp only [scanExponent, List.cons_append, List.append_assoc, if_pos he]
          rw [List.cons_append] at hsign hspan
          simp only [hsign, hspan]
    case isFalse => cases h; exact ⟨rfl, nofun, fun _ => scanExponent_none⟩
  case h_2 => cases h; exact ⟨rfl, nofun, fun _ => scanExponent_none⟩

theorem StopsDigits.append (h : ∀ c ∈ cs.head?, c.isDigit = false) (ht : StopsDigits t) : StopsDigits (cs ++ t) := by
  cases cs with
  | nil      => exact ht
  | cons c _ => simpa [StopsDigits] using h c rfl

theorem Stops.stopsDigits (h : Stops t) : StopsDigits t :=
  fun c hc => (h c hc).1

theorem scanUnsigned_used {negative : Bool} (h : scanUnsigned negative cs = some (v, rest)) :
    ∃ c used, c.isDigit ∧ cs = c :: used ++ rest ∧
      ∀ t, Stops t → scanUnsigned negative (c :: used ++ t) = some (v, t) := by
  unfold scanUnsigned at h
  split at h
  case h_1              => cases h
  case h_2 digits cs hi =>
    generalize hf : scanFraction cs = fractioned at h
    obtain ⟨fraction, cs'⟩ := fractioned
    dsimp only at h
    generalize he : scanExponent cs' = exponented at h
    obtain ⟨exponent, cs''⟩ := exponented
    dsimp only at h
    obtain ⟨rfl, hne, hdigits, hint⟩ := scanInt_used hi
    obtain ⟨rfl, hdot, hfraction⟩ := scanFraction_used hf
    obtain ⟨rfl, hexp, hexponent⟩ := scanExponent_used he
    have hrest : cs'' = rest := by
      split at h
      case isTrue  =>
        split at h
        case isTrue  => cases h
        case isFalse => cases h; rfl
      case isFalse => cases h; rfl
    subst hrest
    obtain ⟨c, ds, rfl⟩ := List.exists_cons_of_ne_nil hne
    refine ⟨c, ds ++ fraction ++ exponent, hdigits c List.mem_cons_self, by simp, fun t ht => ?_⟩
    -- each part stops at the next one
    have htail : StopsDigits (exponent ++ t) :=
      .append (fun c hc => by obtain rfl | rfl := hexp c hc <;> rfl) ht.stopsDigits
    have hnodot : ∀ c ∈ (exponent ++ t).head?, c ≠ '.' := by
      cases exponent with
      | nil      => exact fun c hc => (ht c hc).2.1
      | cons e _ =>
        intro c hc
        obtain rfl | rfl := hexp c hc <;> decide
    have hmid : StopsDigits (fraction ++ (exponent ++ t)) :=
      .append (fun c hc => by obtain rfl := hdot c hc; rfl) htail
    rw [show c :: (ds ++ fraction ++ exponent) ++ t = c :: ds ++ (fraction ++ (exponent ++ t)) by simp, scanUnsigned,
      hint _ hmid]
    simp only [hfraction _ htail hnodot, hexponent t ht]
    split at h
    case isTrue hint  =>
      split at h
      case isTrue       => cases h
      case isFalse hlen => cases h; rw [if_pos hint, if_neg hlen]
    case isFalse hint => cases h; rw [if_neg hint]

theorem scanNumber_of_digit {c : Char} (h : c.isDigit) : scanNumber (c :: cs) = scanUnsigned false (c :: cs) := by
  unfold scanNumber
  split
  case h_1 e => cases e; exact absurd h (by decide)
  case h_2   => rfl

theorem scanNumber_used (h : scanNumber cs = some (v, rest)) :
    ∃ sign c used, (sign = [] ∨ sign = ['-']) ∧ c.isDigit ∧ cs = sign ++ c :: used ++ rest ∧
      ∀ t, Stops t → scanNumber (sign ++ c :: used ++ t) = some (v, t) := by
  unfold scanNumber at h
  split at h
  case h_1 =>
    obtain ⟨c, used, hc, rfl, hr⟩ := scanUnsigned_used h
    exact ⟨['-'], c, used, .inr rfl, hc, rfl, hr⟩
  case h_2 =>
    obtain ⟨c, used, hc, rfl, hr⟩ := scanUnsigned_used h
    exact ⟨[], c, used, .inl rfl, hc, rfl, fun t ht => (scanNumber_of_digit hc).trans (hr t ht)⟩

end Numbers

section Whitespace

variable {cs rest : List Char} {c : Char}

theorem skipWs_used (h : skipWs cs = c :: rest) :
    ∃ ws, cs = ws ++ c :: rest ∧ (∀ c ∈ ws, isWs c) ∧ ∀ t, skipWs (ws ++ c :: t) = c :: t := by
  have hnot := List.head?_dropWhile_not isWs cs
  rw [show cs.dropWhile isWs = c :: rest from h] at hnot
  have hws : ∀ c ∈ cs.takeWhile isWs, isWs c := fun c => List.mem_takeWhile_imp
  refine ⟨cs.takeWhile isWs, ?_, hws, fun t => ?_⟩
  · rw [← h]
    exact (List.takeWhile_append_dropWhile).symm
  · rw [skipWs, List.dropWhile_append_of_pos hws, List.dropWhile_cons_of_neg (by simpa using hnot)]

theorem skipWs_part {used : List Char} (h : skipWs cs = used ++ rest) : skipWs used = used := by
  cases used with
  | nil    => rfl
  | cons c _ =>
    have hnot := List.head?_dropWhile_not isWs cs
    rw [show cs.dropWhile isWs = _ from h] at hnot
    exact List.dropWhile_cons_of_neg (by simpa using hnot)

theorem stops_ws {ws : List Char} (hws : ∀ c ∈ ws, isWs c) (h : Stops (c :: rest)) : Stops (ws ++ c :: rest) := by
  cases ws with
  | nil      => exact h
  | cons w _ =>
    have hw := hws w List.mem_cons_self
    rw [List.cons_append, stops_cons]
    simp only [isWs, Bool.or_eq_true, decide_eq_true_eq] at hw
    obtain ((rfl | rfl) | rfl) | rfl := hw <;> decide

end Whitespace

section Containers

variable {α : Type} {n k : Nat} {cs rest : List Char}

-- A value is read off a part of the text, and off that part wherever it stands. The fuel need only be its length.
def Local (read : Nat → Reader α) (n : Nat) : Prop :=
  ∀ cs a rest, read n cs = some (a, rest) →
    ∃ used, used ≠ [] ∧ cs = used ++ rest ∧
      ∀ m t, used.length ≤ m → (Stops t ∨ t = rest) → read m (used ++ t) = some (a, t)

variable {value : Nat → Reader Value}

theorem separated_used {item : Nat → Reader α} {close : Char} {as : List α} (hc : Stops [close]) (hl : Local item n)
    (h : separated (item n) close k cs = some (as, rest)) :
    ∃ used, used ≠ [] ∧ cs = used ++ rest ∧
      ∀ m k t, used.length ≤ m → used.length ≤ k → separated (item m) close k (used ++ t) = some (as, t) := by
  induction k generalizing cs as rest with
  | zero      => cases h
  | succ k hi =>
    simp only [separated, Option.bind_eq_bind, Option.bind_eq_some_iff] at h
    obtain ⟨⟨a, cs₁⟩, h₁, h⟩ := h
    obtain ⟨used₁, hne, rfl, hr₁⟩ := hl _ _ _ h₁
    dsimp only at h
    split at h
    case h_1           => cases h
    case h_2 c cs₂ hs =>
      obtain ⟨ws, rfl, hws, hskip⟩ := skipWs_used hs
      split at h
      case isTrue hclose =>
        cases h
        subst hclose
        refine ⟨used₁ ++ ws ++ [c], by simp, by simp, fun m k t hm hk => ?_⟩
        simp only [List.length_append, List.length_singleton] at hm hk
        obtain ⟨k, rfl⟩ : ∃ k', k = k' + 1 := ⟨k - 1, by omega⟩
        have hstops : Stops (c :: t) := stops_cons.mpr (stops_cons.mp hc)
        have hread := hr₁ m (ws ++ c :: t) (by omega) (.inl (stops_ws hws hstops))
        simp [separated, hread, hskip]
      case isFalse hclose =>
        split at h
        case isTrue hcomma =>
          subst hcomma
          rw [Option.bind_eq_some_iff] at h
          obtain ⟨⟨vs', rest'⟩, h₂, e⟩ := h
          cases e
          obtain ⟨used₂, hne₂, hcs₂, hr₂⟩ := hi h₂
          obtain ⟨c, used₂, rfl⟩ := List.exists_cons_of_ne_nil hne₂
          obtain ⟨ws₂, rfl, -, hskip₂⟩ := skipWs_used hcs₂
          refine ⟨used₁ ++ ws ++ ',' :: ws₂ ++ c :: used₂, by simp, by simp, fun m k t hm hk => ?_⟩
          simp only [List.length_append, List.length_cons] at hm hk hr₂
          obtain ⟨k, rfl⟩ : ∃ k', k = k' + 1 := ⟨k - 1, by omega⟩
          have hread := hr₁ m (ws ++ ',' :: (ws₂ ++ c :: (used₂ ++ t))) (by omega)
            (.inl (stops_ws hws (stops_cons.mpr (by decide))))
          have hread₂ := hr₂ m k t (by omega) (by omega)
          rw [List.cons_append] at hread₂
          simp [separated, hread, hskip, hskip₂, hread₂, hclose]
        case isFalse => cases h

theorem member_local (hl : Local value n) : Local (fun n => member (value n)) n := by
  intro cs m rest h
  change member (value n) cs = some (m, rest) at h
  unfold member at h
  split at h
  case h_1 cs =>
    simp only [Option.bind_eq_bind, Option.bind_eq_some_iff] at h
    obtain ⟨⟨name, cs₁⟩, h₁, h⟩ := h
    obtain ⟨used₁, rfl, hr₁⟩ := scanString_used h₁
    dsimp only at h
    split at h
    case h_1 cs₂ hcolon =>
      obtain ⟨ws, rfl, -, hskip⟩ := skipWs_used hcolon
      rw [Option.bind_eq_some_iff] at h
      obtain ⟨⟨v, cs₃⟩, h₃, e⟩ := h
      cases e
      obtain ⟨used₃, hne₃, hcs₃, hr₃⟩ := hl _ _ _ h₃
      obtain ⟨c, used₃, rfl⟩ := List.exists_cons_of_ne_nil hne₃
      obtain ⟨ws₂, rfl, -, hskip₂⟩ := skipWs_used hcs₃
      refine ⟨'"' :: used₁ ++ ws ++ ':' :: ws₂ ++ c :: used₃, by simp, by simp, fun m t hm ht => ?_⟩
      simp only [List.length_append, List.length_cons] at hm hr₃
      have hread := hr₃ m t (by omega) ht
      rw [List.cons_append] at hread
      simp [member, hr₁, hskip, hskip₂, hread]
    case h_2 => cases h
  case h_2 => cases h

theorem bracketed_used {item : Nat → Reader α} {close : Char} {as : List α} (hc : Stops [close]) (hl : Local item n)
    (h : bracketed (item n) close cs = some (as, rest)) :
    ∃ used, used ≠ [] ∧ cs = used ++ rest ∧
      ∀ m t, used.length ≤ m → bracketed (item m) close (used ++ t) = some (as, t) := by
  unfold bracketed at h
  split at h
  case h_1          => cases h
  case h_2 c cs' hs =>
    obtain ⟨ws, rfl, -, hskip⟩ := skipWs_used hs
    split at h
    case isTrue hclose =>
      cases h
      refine ⟨ws ++ [c], by simp, by simp, fun m t _ => ?_⟩
      simp only [bracketed, List.append_assoc, List.singleton_append, hskip, if_pos hclose]
    case isFalse hclose =>
      obtain ⟨used, hne, hcs, hr⟩ := separated_used hc hl h
      obtain ⟨c', used, rfl⟩ := List.exists_cons_of_ne_nil hne
      cases hcs
      refine ⟨ws ++ c :: used, by simp, by simp, fun m t hm => ?_⟩
      simp only [List.length_append] at hm
      have hread := hr m ((used ++ t).length + 1) t (by omega) (by simp)
      rw [List.cons_append] at hread
      simp only [bracketed, List.append_assoc, List.cons_append, hskip, if_neg hclose, hread]

end Containers

section Values

variable {n k : Nat} {cs rest : List Char} {v : Value}

theorem scanConstant_used (h : scanConstant cs = some (v, rest)) :
    ∃ c used, c ≠ '"' ∧ c ≠ '{' ∧ c ≠ '[' ∧ cs = c :: used ++ rest ∧
      ∀ t, scanConstant (c :: used ++ t) = some (v, t) := by
  obtain ⟨p, hp, e⟩ := Option.map_eq_some_iff.mp h
  cases e
  have hmem := List.mem_of_find?_eq_some hp
  have hstarts : p.1.toList.isPrefixOf cs := List.find?_some (p := fun q : String × Value => q.1.toList.isPrefixOf cs) hp
  obtain ⟨t, rfl⟩ := List.isPrefixOf_iff_prefix.mp hstarts
  have hrest : (p.1.toList ++ t).drop p.1.length = t := by simp [← String.length_toList]
  rw [hrest]
  simp only [constants, List.mem_cons, List.not_mem_nil, or_false] at hmem
  obtain rfl | rfl | rfl | rfl | rfl | rfl := hmem
  all_goals exact ⟨_, _, by decide, by decide, by decide, rfl, fun t => rfl⟩

theorem scanConstant_number {sign used : List Char} {c : Char} (hs : sign = [] ∨ sign = ['-']) (hc : c.isDigit) :
    scanConstant (sign ++ c :: used) = none := by
  have hne (d : Char) (hd : d.isDigit = false) : ¬d = c := by
    rintro rfl
    simp [hd] at hc
  obtain rfl | rfl := hs
  all_goals simp [scanConstant, constants, hne]

theorem scanOnce_plain {c : Char} (hq : c ≠ '"') (ho : c ≠ '{') (ha : c ≠ '[') :
    scanOnce (n + 1) (c :: cs) = (scanConstant (c :: cs)).or (scanNumber (c :: cs)) := by
  unfold scanOnce
  split
  case h_1 => contradiction
  case h_2 e => cases e; contradiction
  case h_3 e => cases e; contradiction
  case h_4 e => cases e; contradiction
  case h_5 m e _ _ _ => cases e; rfl

theorem scanOnce_number {sign used : List Char} {c : Char} (hs : sign = [] ∨ sign = ['-']) (hc : c.isDigit) :
    scanOnce (n + 1) (sign ++ c :: used) = scanNumber (sign ++ c :: used) := by
  have hplain : scanOnce (n + 1) (sign ++ c :: used) =
      (scanConstant (sign ++ c :: used)).or (scanNumber (sign ++ c :: used)) := by
    obtain rfl | rfl := hs
    · exact scanOnce_plain (by rintro rfl; cases hc) (by rintro rfl; cases hc) (by rintro rfl; cases hc)
    · exact scanOnce_plain (by decide) (by decide) (by decide)
  rw [hplain, scanConstant_number hs hc]
  rfl

theorem scanOnce_local (n : Nat) : Local scanOnce n := by
  induction n with
  | zero      => exact fun _ _ _ h => nomatch h
  | succ n hi =>
    intro cs v rest h
    unfold scanOnce at h
    split at h
    case h_1 => contradiction
    case h_2 n' cs hn =>
      cases hn
      obtain ⟨⟨s, rest'⟩, hs, e⟩ := Option.map_eq_some_iff.mp h
      cases e
      obtain ⟨used, rfl, hr⟩ := scanString_used hs
      refine ⟨'"' :: used, by simp, by simp, fun m t hm _ => ?_⟩
      obtain ⟨m, rfl⟩ : ∃ m', m = m' + 1 := ⟨m - 1, by simp at hm; omega⟩
      simp [scanOnce, hr]
    case h_3 n' cs hn =>
      cases hn
      obtain ⟨⟨ms, rest'⟩, hs, e⟩ := Option.map_eq_some_iff.mp h
      cases e
      obtain ⟨used, hne, rfl, hr⟩ := bracketed_used stops_brace (member_local hi) hs
      refine ⟨'{' :: used, by simp, by simp, fun m t hm _ => ?_⟩
      obtain ⟨m, rfl⟩ : ∃ m', m = m' + 1 := ⟨m - 1, by simp at hm; omega⟩
      simp [scanOnce, object, hr m t (by simpa using hm)]
    case h_4 n' cs hn =>
      cases hn
      obtain ⟨⟨vs, rest'⟩, hs, e⟩ := Option.map_eq_some_iff.mp h
      cases e
      obtain ⟨used, hne, rfl, hr⟩ := bracketed_used stops_bracket hi hs
      refine ⟨'[' :: used, by simp, by simp, fun m t hm _ => ?_⟩
      obtain ⟨m, rfl⟩ : ∃ m', m = m' + 1 := ⟨m - 1, by simp at hm; omega⟩
      simp [scanOnce, array, hr m t (by simpa using hm)]
    case h_5 n' hn _ _ _ =>
      cases hn
      rw [Option.or_eq_some_iff] at h
      obtain hconst | ⟨-, hnum⟩ := h
      · obtain ⟨c, used, hc, hc', hc'', rfl, hr⟩ := scanConstant_used hconst
        refine ⟨c :: used, by simp, rfl, fun m t hm _ => ?_⟩
        obtain ⟨m, rfl⟩ : ∃ m', m = m' + 1 := ⟨m - 1, by simp at hm; omega⟩
        rw [List.cons_append, scanOnce_plain hc hc' hc'', ← List.cons_append, hr]
        rfl
      · obtain ⟨sign, c, used, hs, hc, rfl, hr⟩ := scanNumber_used hnum
        refine ⟨sign ++ c :: used, by simp, rfl, fun m t hm ht => ?_⟩
        obtain ⟨m, rfl⟩ : ∃ m', m = m' + 1 := ⟨m - 1, by simp at hm; omega⟩
        have hread : scanNumber (sign ++ c :: used ++ t) = some (v, t) := by
          obtain ht | rfl := ht
          · exact hr t ht
          · exact hnum
        rw [List.append_assoc] at hread ⊢
        rw [List.cons_append] at hread ⊢
        rw [scanOnce_number hs hc, hread]

-- More fuel than the text is long changes nothing.
theorem scanOnce_eq_rawDecode (h : cs.length ≤ n) : scanOnce n cs = rawDecode cs := by
  have henough {m k : Nat} {v rest} (hk : cs.length ≤ k) (hread : scanOnce m cs = some (v, rest)) :
      scanOnce k cs = some (v, rest) := by
    obtain ⟨used, -, rfl, hr⟩ := scanOnce_local m _ _ _ hread
    exact hr k rest (by simp at hk; omega) (.inr rfl)
  cases hn : scanOnce n cs with
  | some r =>
    obtain ⟨v, rest⟩ := r
    exact (henough (le_refl _) hn).symm
  | none   =>
    cases hd : rawDecode cs with
    | none   => rfl
    | some r =>
      obtain ⟨v, rest⟩ := r
      rw [henough h hd] at hn
      cases hn

theorem rawDecode_number {sign used : List Char} {c : Char} (hs : sign = [] ∨ sign = ['-']) (hc : c.isDigit) :
    rawDecode (sign ++ c :: used) = scanNumber (sign ++ c :: used) := by
  rw [← scanOnce_eq_rawDecode (Nat.le_succ _), scanOnce_number hs hc]

theorem rawDecode_used (h : rawDecode cs = some (v, rest)) :
    ∃ used, used ≠ [] ∧ cs = used ++ rest ∧ ∀ t, Stops t → rawDecode (used ++ t) = some (v, t) := by
  obtain ⟨used, hne, rfl, hr⟩ := scanOnce_local _ _ _ _ h
  exact ⟨used, hne, rfl, fun t ht => hr _ t (by simp) (.inl ht)⟩

-- The text of a value, read alone.
theorem loads_used {used : List Char} (h : rawDecode (used ++ rest) = some (v, rest))
    (hu : ∀ t, Stops t → rawDecode (used ++ t) = some (v, t)) (hws : skipWs used = used) : loads used = some v := by
  have hread : rawDecode used = some (v, []) := by simpa using hu [] stops_nil
  have hbom : used.head? ≠ some '\uFEFF' := by
    intro e
    obtain ⟨cs, rfl⟩ : ∃ cs, used = '\uFEFF' :: cs := by
      cases used with
      | nil      => cases e
      | cons c _ => exact ⟨_, by cases e; rfl⟩
    have hnone : rawDecode ('\uFEFF' :: cs) = none := by
      change scanOnce (cs.length + 1) _ = _
      rw [scanOnce_plain (by decide) (by decide) (by decide)]
      have hint : scanInt ('\uFEFF' :: cs) = none := by
        simp [scanInt, List.span_eq_takeWhile_dropWhile, show Char.isDigit '\uFEFF' = false from rfl]
      simp [scanConstant, constants, scanNumber, scanUnsigned, hint]
    rw [hnone] at hread
    cases hread
  rw [loads, if_neg hbom, hws, hread]
  rfl

end Values

section Objects

variable {α : Type} {n k : Nat} {cs rest : List Char} {v : Value} {items : List (Str × Value)}

theorem skipWs_suffix : skipWs cs <:+ cs :=
  List.dropWhile_suffix _

theorem scanString_suffix {s : Str} (h : scanString cs = some (s, rest)) : rest <:+ cs := by
  obtain ⟨used, rfl, -⟩ := scanString_used h
  exact List.suffix_append _ _

-- Two readers that agree on the ends of a text read the same items off it.
theorem separated_congr {item item' : Reader α} {close : Char} (h : ∀ t, t <:+ cs → item t = item' t)
    (hs : ∀ t a t', item' t = some (a, t') → t' <:+ t) : separated item close k cs = separated item' close k cs := by
  induction k generalizing cs with
  | zero      => rfl
  | succ k hi =>
    simp only [separated, h cs (List.suffix_refl _), Option.bind_eq_bind]
    refine Option.bind_congr fun ⟨a, cs₁⟩ h₁ => ?_
    have hcs₁ := hs _ _ _ h₁
    dsimp only
    split
    case h_1          => rfl
    case h_2 c cs₂ hc =>
      have hcs₂ : skipWs cs₂ <:+ cs :=
        (skipWs_suffix.trans (List.suffix_cons c cs₂)).trans ((hc ▸ skipWs_suffix).trans hcs₁)
      rw [hi fun t ht => h t (ht.trans hcs₂)]

theorem bracketed_congr {item item' : Reader α} {close : Char} (h : ∀ t, t <:+ cs → item t = item' t)
    (hs : ∀ t a t', item' t = some (a, t') → t' <:+ t) : bracketed item close cs = bracketed item' close cs := by
  unfold bracketed
  split
  case h_1          => rfl
  case h_2 c cs' hc =>
    have hcs : c :: cs' <:+ cs := hc ▸ skipWs_suffix
    rw [separated_congr (fun t ht => h t (ht.trans hcs)) hs]

theorem member_congr {value value' : Reader Value} (h : ∀ t, t <:+ cs → value t = value' t) :
    member value cs = member value' cs := by
  unfold member
  split
  case h_1 cs =>
    simp only [Option.bind_eq_bind]
    refine Option.bind_congr fun ⟨name, cs₁⟩ h₁ => ?_
    have hcs₁ := (scanString_suffix h₁).trans (List.suffix_cons '"' cs)
    dsimp only
    split
    case h_1 cs₂ hc =>
      have hcs₂ : ':' :: cs₂ <:+ '"' :: cs := (hc ▸ skipWs_suffix).trans hcs₁
      rw [h _ ((skipWs_suffix.trans (List.suffix_cons ':' cs₂)).trans hcs₂)]
    case h_2        => rfl
  case h_2 => rfl

theorem rawDecode_suffix (h : rawDecode cs = some (v, rest)) : rest <:+ cs := by
  obtain ⟨used, -, rfl, -⟩ := rawDecode_used h
  exact List.suffix_append _ _

theorem member_suffix {m : Str × Value} (h : member rawDecode cs = some (m, rest)) : rest <:+ cs := by
  have hl : Local (fun _ => rawDecode) 0 := by
    intro cs v rest h
    obtain ⟨used, hne, rfl, hr⟩ := rawDecode_used h
    exact ⟨used, hne, rfl, fun _ t _ ht => ht.elim (hr t) (· ▸ h)⟩
  obtain ⟨used, -, rfl, -⟩ := member_local hl _ _ _ h
  exact List.suffix_append _ _

theorem rawDecode_brace : rawDecode ('{' :: cs) = object rawDecode cs := by
  change object (scanOnce cs.length) cs = _
  unfold object
  rw [bracketed_congr (fun t ht => member_congr fun t' ht' => ?_) fun t m t' => member_suffix]
  exact scanOnce_eq_rawDecode (ht'.trans ht).length_le

-- An object begins with its brace.
theorem brace_of_rawDecode (h : rawDecode cs = some (.object items, rest)) : ∃ cs', cs = '{' :: cs' := by
  unfold rawDecode scanOnce at h
  split at h
  case h_1 => cases h
  case h_2 =>
    obtain ⟨_, -, e⟩ := Option.map_eq_some_iff.mp h
    cases e
  case h_3 cs _ => exact ⟨cs, rfl⟩
  case h_4 =>
    obtain ⟨_, -, e⟩ := Option.map_eq_some_iff.mp h
    cases e
  case h_5 =>
    obtain hconst | ⟨-, hnum⟩ := Option.or_eq_some_iff.mp h
    · obtain ⟨p, hp, e⟩ := Option.map_eq_some_iff.mp hconst
      have hmem := List.mem_of_find?_eq_some hp
      simp only [constants, List.mem_cons, List.not_mem_nil, or_false] at hmem
      obtain rfl | rfl | rfl | rfl | rfl | rfl := hmem
      all_goals cases e
    · have hno {negative : Bool} {cs} : scanUnsigned negative cs ≠ some (.object items, rest) := by
        unfold scanUnsigned
        intro e
        split at e
        case h_1 => cases e
        case h_2 =>
          dsimp only at e
          split at e
          case isTrue  => split at e <;> cases e
          case isFalse => cases e
      unfold scanNumber at hnum
      split at hnum
      all_goals exact absurd hnum hno

end Objects
end Json
