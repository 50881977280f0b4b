import NmosReference.Query.PagingLinks

-- Which paging parameters are taken, by what their texts are.
namespace Query

open Registry

def asciiDigits (cs : List Char) : Bool :=
  !cs.isEmpty && cs.all Char.isDigit

-- The number that ASCII digits stand for.
def asciiValue (cs : List Char) : Nat :=
  Nat.ofDigitChars 10 cs 0

-- ASCII digits, a colon and ASCII digits.
def asciiCursor (raw : String) : Option TaiCursor :=
  match raw.toList.span (· ≠ ':') with
  | (head, _ :: tail) =>
    if asciiDigits head && asciiDigits tail then some ⟨asciiValue head, asciiValue tail⟩ else none
  | (_, [])           => none

-- An integer in ASCII, which is not negative.
def asciiLimit (raw : String) : Bool :=
  let digits := raw.toList.dropWhile (· = '-')
  asciiDigits digits && (raw.toList = digits || raw.toList = '-' :: digits && asciiValue digits = 0)

structure WellFormed (params : Dict String String) : Prop where
  since   : ∀ raw ∈ params.get? PARAM_SINCE, (asciiCursor raw).isSome
  upTo    : ∀ raw ∈ params.get? PARAM_UNTIL, (asciiCursor raw).isSome
  limit   : ∀ raw ∈ params.get? PARAM_LIMIT, asciiLimit raw
  order   : ∀ raw ∈ params.get? PARAM_ORDER, raw = orderName .create ∨ raw = orderName .update
  ordered : ∀ lower ∈ (params.get? PARAM_SINCE).bind asciiCursor, ∀ upper ∈ (params.get? PARAM_UNTIL).bind asciiCursor,
    lower ≤ upper

-- What a check says of its parameter: that there is nothing wrong with it, that it is in digits of another script, that it
-- is refused, or that it goes on to an `int` that raises.
inductive Verdict
  | sound | foreign | refused | raises
  deriving DecidableEq, Repr

-- What `int` reads.
def readable (maxStrDigits : Nat) (cs : List Char) : Bool :=
  (Text.decimal cs).isSome && (maxStrDigits = 0 || cs.length ≤ maxStrDigits)

def cursorVerdict (maxStrDigits : Nat) (raw : String) : Verdict :=
  match raw.toList.span (· ≠ ':') with
  | (head, _ :: tail) =>
    if !(Text.isDigits head && Text.isDigits tail) then .refused
    else if !(readable maxStrDigits head && readable maxStrDigits tail) then .raises
    else if asciiDigits head && asciiDigits tail then .sound
    else .foreign
  | (_, [])           => .refused

def limitVerdict (maxStrDigits : Nat) (raw : String) : Verdict :=
  let digits := raw.toList.dropWhile (· = '-')
  if !Text.isDigits digits then .refused
  else if !(raw.toList = digits || raw.toList = '-' :: digits) || !readable maxStrDigits digits then .raises
  else if raw.toList = '-' :: digits && (Text.decimal digits).any (0 < ·) then .refused
  else if asciiDigits digits then .sound
  else .foreign

def orderVerdict (raw : String) : Verdict :=
  if raw = orderName .create ∨ raw = orderName .update then .sound else .refused

-- `since > until`
def windowVerdict (since upTo : Option String) : Verdict :=
  match since.bind TaiCursor.parse, upTo.bind TaiCursor.parse with
  | some lower, some upper => if upper < lower then .refused else .sound
  | _,          _          => .sound

-- The verdicts on a request, in the order of the checks.
def verdicts (params : Dict String String) (maxStrDigits : Nat) : List Verdict :=
  [(params.get? PARAM_SINCE).elim .sound (cursorVerdict maxStrDigits),
    (params.get? PARAM_UNTIL).elim .sound (cursorVerdict maxStrDigits),
    (params.get? PARAM_LIMIT).elim .sound (limitVerdict maxStrDigits),
    (params.get? PARAM_ORDER).elim .sound orderVerdict,
    windowVerdict (params.get? PARAM_SINCE) (params.get? PARAM_UNTIL)]

-- A parameter is refused before any raises, or all are sound.
def Judged (vs : List Verdict) : Prop :=
  vs.find? (· ∈ [.refused, .raises]) = some .refused ∨ ∀ v ∈ vs, v = .sound

instance {vs : List Verdict} : Decidable (Judged vs) :=
  inferInstanceAs <| Decidable (_ ∨ _)

-- A result is had where the request is well formed, and a `PagingError` everywhere else.
def Exactly {α : Type} (m : Except PagingFailure α) (wellFormed : Prop) : Prop :=
  ((∃ a, m = .ok a) ↔ wellFormed) ∧ ∀ e, m = .error e → ∃ message, e = .pagingError message

-- What a check does, by its verdict.
inductive Stage {α : Type} : Verdict → Except PagingFailure α → Prop → Prop
  | sound {W : Prop} (a : α) : W → Stage .sound (.ok a) W
  | foreign {W : Prop} (a : α) : ¬W → Stage .foreign (.ok a) W
  | refused {W : Prop} (message : String) : ¬W → Stage .refused (.error (.pagingError message)) W
  | raises {W : Prop} : Stage .raises (.error .valueError) W

-- `Judged`, of the verdicts that are left.
def JudgedAfter (allSound : Prop) (vs : List Verdict) : Prop :=
  vs.find? (· ∈ [.refused, .raises]) = some .refused ∨ allSound ∧ ∀ v ∈ vs, v = .sound

section Stage

variable {α β : Type} {v : Verdict} {vs : List Verdict} {m : Except PagingFailure α} {f : α → Except PagingFailure β}
variable {V W W' : Prop}

theorem exactly_ok {a : α} : Exactly (.ok a) V ↔ V :=
  ⟨fun h => h.1.mp ⟨a, rfl⟩, fun h => ⟨⟨fun _ => h, fun _ => ⟨a, rfl⟩⟩, nofun⟩⟩

theorem exactly_pagingError {message : String} (h : ¬V) :
    Exactly (.error (.pagingError message) : Except PagingFailure α) V :=
  ⟨⟨nofun, fun hv => absurd hv h⟩, fun _ he => ⟨message, by cases he; rfl⟩⟩

theorem not_exactly_valueError : ¬Exactly (.error .valueError : Except PagingFailure α) V :=
  fun h => nomatch h.2 .valueError rfl

-- The checks one after the other.
theorem Stage.bind (h : Stage v m W) (hf : ∀ a, m = .ok a → (Exactly (f a) ((V ∧ W) ∧ W') ↔ JudgedAfter (V ∧ W) vs)) :
    Exactly (m >>= f) (V ∧ W ∧ W') ↔ JudgedAfter V (v :: vs) := by
  rw [← and_assoc]
  cases h
  case sound a hw       => exact (hf a rfl).trans (by simp [JudgedAfter, hw])
  case foreign a hw     => exact (hf a rfl).trans (by simp [JudgedAfter, hw])
  case refused text hw  => exact iff_of_true (exactly_pagingError fun hv => hw hv.1.2) (.inl rfl)
  case raises           => exact iff_of_false not_exactly_valueError (by simp [JudgedAfter])

theorem Stage.last (h : Stage v m W) : Exactly m (V ∧ W) ↔ JudgedAfter V [v] := by
  cases h
  case sound a hw       => exact exactly_ok.trans (by simp [JudgedAfter, hw])
  case foreign a hw     => exact exactly_ok.trans (by simp [JudgedAfter, hw])
  case refused text hw  => exact iff_of_true (exactly_pagingError fun hv => hw hv.2) (.inl rfl)
  case raises           => exact iff_of_false not_exactly_valueError (by simp [JudgedAfter])

end Stage

section Digits

variable {cs : List Char} {maxStrDigits : Nat} {raw : String}

theorem asciiDigits_iff : asciiDigits cs ↔ cs ≠ [] ∧ ∀ c ∈ cs, c.isDigit := by
  simp [asciiDigits]

theorem decimal_ascii (h : asciiDigits cs) : Text.decimal cs = some (asciiValue cs) :=
  have h := asciiDigits_iff.mp h
  Text.decimal_eq_ofDigitChars h.1 h.2

theorem isDigits_ascii (h : asciiDigits cs) : Text.isDigits cs :=
  have h := asciiDigits_iff.mp h
  Text.isDigits_of_isDigit h.1 h.2

theorem intDigits_readable (h : readable maxStrDigits cs) :
    ∃ n, Text.decimal cs = some n ∧ intDigits cs maxStrDigits = .ok n := by
  simp only [readable, Bool.and_eq_true, Bool.or_eq_true, decide_eq_true_eq] at h
  obtain ⟨n, hn⟩ := Option.isSome_iff_exists.mp h.1
  refine ⟨n, hn, ?_⟩
  rw [intDigits, if_neg (by omega), hn]

theorem intDigits_unreadable (h : readable maxStrDigits cs = false) : intDigits cs maxStrDigits = .error .valueError := by
  simp only [readable, Bool.and_eq_false_iff, Bool.or_eq_false_iff, decide_eq_false_iff_not] at h
  rw [intDigits]
  split
  case isTrue    => rfl
  case isFalse hk =>
    have hn : Text.decimal cs = none := by
      refine Option.isSome_eq_false_iff.mp (h.resolve_right fun hl => hk ⟨hl.1, by omega⟩) |> Option.isNone_iff_eq_none.mp
    rw [hn]

end Digits

section Checks

variable [Python] {params : Dict String String} {maxStrDigits : Nat} {raw name : String}

omit [Python] in
-- `TaiCursor.parse`, by what it says of a text.
theorem parseCursor_verdict (maxStrDigits : Nat) (raw : String) : match cursorVerdict maxStrDigits raw with
    | .sound   => ∃ c, asciiCursor raw = some c ∧ TaiCursor.parse raw = some c ∧
      parseCursor raw maxStrDigits = .ok (some c)
    | .foreign => asciiCursor raw = none ∧ ∃ c, TaiCursor.parse raw = some c ∧ parseCursor raw maxStrDigits = .ok (some c)
    | .refused => asciiCursor raw = none ∧ parseCursor raw maxStrDigits = .ok none
    | .raises  => parseCursor raw maxStrDigits = .error .valueError := by
  unfold cursorVerdict asciiCursor TaiCursor.parse parseCursor
  rcases raw.toList.span (· ≠ ':') with ⟨head, _ | ⟨_, tail⟩⟩
  case nil  => exact ⟨rfl, rfl⟩
  case cons =>
    dsimp only
    by_cases hd : (Text.isDigits head && Text.isDigits tail) = true
    case neg =>
      have ha : (asciiDigits head && asciiDigits tail) = false := by
        refine Bool.eq_false_iff.mpr fun ha => hd ?_
        rw [Bool.and_eq_true] at ha ⊢
        exact ⟨isDigits_ascii ha.1, isDigits_ascii ha.2⟩
      simp [hd, ha]
    case pos =>
      by_cases hr : (readable maxStrDigits head && readable maxStrDigits tail) = true
      case neg =>
        simp only [hd, hr, Bool.not_true, Bool.false_eq_true, if_false, Bool.not_false, if_true]
        by_cases hh : readable maxStrDigits head = true
        case neg => rw [intDigits_unreadable (Bool.eq_false_iff.mpr hh)]; rfl
        case pos =>
          obtain ⟨n, -, hn⟩ := intDigits_readable hh
          have ht : readable maxStrDigits tail = false := by simpa [hh] using hr
          rw [hn, intDigits_unreadable ht]
          rfl
      case pos =>
        have ⟨hh, ht⟩ := Bool.and_eq_true_iff.mp hr
        obtain ⟨n, hn, hn'⟩ := intDigits_readable hh
        obtain ⟨k, hk, hk'⟩ := intDigits_readable ht
        simp only [hd, hr, Bool.not_true, Bool.false_eq_true, if_false, if_true, hn, hk, hn', hk']
        by_cases ha : (asciiDigits head && asciiDigits tail) = true
        case neg => simp only [ha]; exact ⟨rfl, _, rfl, rfl⟩
        case pos =>
          have ⟨hah, hat⟩ := Bool.and_eq_true_iff.mp ha
          obtain rfl := Option.some.inj ((decimal_ascii hah).symm.trans hn)
          obtain rfl := Option.some.inj ((decimal_ascii hat).symm.trans hk)
          simp only [ha, if_true]
          exact ⟨_, rfl, rfl, rfl⟩

theorem cursorParam_stage : Stage ((params.get? name).elim .sound (cursorVerdict maxStrDigits))
    (cursorParam params name maxStrDigits) (∀ raw ∈ params.get? name, (asciiCursor raw).isSome) := by
  unfold cursorParam
  cases hg : params.get? name with
  | none     => exact .sound none (by simp)
  | some raw =>
    have hv := parseCursor_verdict maxStrDigits raw
    simp only [Option.elim_some, Option.mem_def, Option.some.injEq, forall_eq']
    split at hv
    case h_1 hs =>
      obtain ⟨c, ha, -, hp⟩ := hv
      rw [hs, hp]
      exact .sound (some c) (by simp [ha])
    case h_2 hs =>
      obtain ⟨ha, c, -, hp⟩ := hv
      rw [hs, hp]
      exact .foreign (some c) (by simp [ha])
    case h_3 hs =>
      rw [hs, hv.2]
      exact .refused _ (by simp [hv.1])
    case h_4 hs =>
      rw [hs, hv]
      exact .raises

theorem limitParam_stage {defaultLimit maxLimit : Nat} :
    Stage ((params.get? PARAM_LIMIT).elim .sound (limitVerdict maxStrDigits))
      (limitParam params defaultLimit maxLimit maxStrDigits) (∀ raw ∈ params.get? PARAM_LIMIT, asciiLimit raw) := by
  unfold limitParam
  cases hg : params.get? PARAM_LIMIT with
  | none     => exact .sound defaultLimit (by simp)
  | some raw =>
    simp only [Option.elim_some, Option.mem_def, Option.some.injEq, forall_eq', limitVerdict, asciiLimit]
    generalize raw.toList.dropWhile (· = '-') = digits
    have hne : digits ≠ '-' :: digits := fun h => by simpa using congrArg List.length h
    by_cases hd : Text.isDigits digits = true
    case neg =>
      have ha : asciiDigits digits = false := Bool.eq_false_iff.mpr fun ha => hd (isDigits_ascii ha)
      simp only [hd, ha, Bool.not_false, if_true, Bool.false_and, Bool.false_eq_true]
      exact .refused _ id
    case pos =>
      simp only [hd, Bool.not_true, Bool.false_eq_true, if_false]
      by_cases he : raw.toList = digits
      case pos =>
        simp only [he, hne, decide_true, decide_false, Bool.true_or, Bool.not_true, Bool.false_or, Bool.false_and,
          Bool.and_true, Bool.false_eq_true, if_false, if_true]
        cases hr : readable maxStrDigits digits
        case false => rw [intDigits_unreadable hr]; exact .raises
        case true  =>
          obtain ⟨n, -, hn⟩ := intDigits_readable hr
          rw [hn]
          cases ha : asciiDigits digits
          case false => exact .foreign (min n maxLimit) Bool.false_ne_true
          case true  => exact .sound (min n maxLimit) rfl
      case neg =>
        by_cases hm : raw.toList = '-' :: digits
        case neg =>
          simp only [he, hm, decide_false, Bool.or_self, Bool.not_false, Bool.true_or, if_true, if_false]
          exact .raises
        case pos =>
          simp only [hm, hne.symm, decide_true, decide_false, Bool.or_true, Bool.not_true, Bool.false_or, Bool.true_and,
            if_true, if_false]
          cases hr : readable maxStrDigits digits
          case false => rw [intDigits_unreadable hr]; exact .raises
          case true  =>
            obtain ⟨n, hn, hn'⟩ := intDigits_readable hr
            have ha (ha : asciiDigits digits = true) : asciiValue digits = n :=
              Option.some.inj ((decimal_ascii ha).symm.trans hn)
            simp only [hn', hn, Option.any_some, Bool.not_true, Bool.false_eq_true, if_false, decide_eq_true_eq,
              Bool.and_eq_true]
            by_cases hpos : 0 < n
            case pos =>
              rw [if_pos hpos]
              refine (?_ : Stage .refused (if 0 < n then _ else _) _)
              rw [if_pos hpos]
              exact .refused _ fun hw => by have := ha hw.1; omega
            case neg =>
              rw [if_neg hpos]
              refine (?_ : Stage _ (if 0 < n then _ else _) _)
              rw [if_neg hpos]
              by_cases hd : asciiDigits digits = true
              case pos => rw [if_pos hd]; exact .sound (min 0 maxLimit) ⟨hd, by have := ha hd; omega⟩
              case neg => rw [if_neg hd]; exact .foreign (min 0 maxLimit) fun hw => hd hw.1

theorem orderParam_stage : Stage ((params.get? PARAM_ORDER).elim .sound orderVerdict) (orderParam params)
    (∀ raw ∈ params.get? PARAM_ORDER, raw = orderName .create ∨ raw = orderName .update) := by
  unfold orderParam
  cases hg : params.get? PARAM_ORDER with
  | none     => exact .sound Order.update (by simp)
  | some raw =>
    simp only [Option.elim_some, Option.mem_def, Option.some.injEq, forall_eq', orderVerdict]
    by_cases hc : raw = orderName .create
    case pos => simp only [hc, true_or, if_true]; exact .sound Order.create trivial
    case neg =>
      by_cases hu : raw = orderName .update
      case pos => simp only [hu, or_true, if_true]; exact .sound Order.update trivial
      case neg => simp only [hc, hu, or_self, if_false]; exact .refused _ id

theorem cursorParam_ok {cursor : Option TaiCursor} (h : cursorParam params name maxStrDigits = .ok cursor) :
    cursor = (params.get? name).bind TaiCursor.parse := by
  unfold cursorParam at h
  cases hg : params.get? name with
  | none     =>
    rw [hg] at h
    cases h
    rfl
  | some raw =>
    have hv := parseCursor_verdict maxStrDigits raw
    rw [hg] at h
    dsimp only at h
    split at hv
    case h_1 =>
      obtain ⟨c, -, hp, hp'⟩ := hv
      rw [hp'] at h
      cases h
      exact hp.symm
    case h_2 =>
      obtain ⟨-, c, hp, hp'⟩ := hv
      rw [hp'] at h
      cases h
      exact hp.symm
    case h_3 =>
      rw [hv.2] at h
      cases h
    case h_4 =>
      rw [hv] at h
      cases h

omit [Python] in
theorem asciiCursor_parse {c : TaiCursor} (h : asciiCursor raw = some c) : TaiCursor.parse raw = some c := by
  unfold asciiCursor at h
  unfold TaiCursor.parse
  generalize raw.toList.span (· ≠ ':') = halves at h
  obtain ⟨head, _ | ⟨_, tail⟩⟩ := halves
  case nil  => cases h
  case cons =>
    dsimp only at h ⊢
    split at h
    case isFalse   => cases h
    case isTrue ha =>
      have ⟨hh, ht⟩ := Bool.and_eq_true_iff.mp ha
      rw [decimal_ascii hh, decimal_ascii ht]
      exact h

omit [Python] in
-- The order of two cursors is that of what `TaiCursor.parse` makes of them.
theorem wellFormed_iff : WellFormed params ↔ (True ∧ (∀ raw ∈ params.get? PARAM_SINCE, (asciiCursor raw).isSome)) ∧
    (∀ raw ∈ params.get? PARAM_UNTIL, (asciiCursor raw).isSome) ∧ (∀ raw ∈ params.get? PARAM_LIMIT, asciiLimit raw) ∧
    (∀ raw ∈ params.get? PARAM_ORDER, raw = orderName .create ∨ raw = orderName .update) ∧
    ∀ lower ∈ (params.get? PARAM_SINCE).bind TaiCursor.parse, ∀ upper ∈ (params.get? PARAM_UNTIL).bind TaiCursor.parse,
      lower ≤ upper := by
  have hbind (name : String) (h : ∀ raw ∈ params.get? name, (asciiCursor raw).isSome) :
      (params.get? name).bind asciiCursor = (params.get? name).bind TaiCursor.parse := by
    cases hg : params.get? name with
    | none     => rfl
    | some raw =>
      obtain ⟨c, hc⟩ := Option.isSome_iff_exists.mp (h raw hg)
      exact hc.trans (asciiCursor_parse hc).symm
  constructor
  · rintro ⟨hs, hu, hl, ho, hc⟩
    rw [hbind _ hs, hbind _ hu] at hc
    exact ⟨⟨trivial, hs⟩, hu, hl, ho, hc⟩
  · rintro ⟨⟨-, hs⟩, hu, hl, ho, hc⟩
    rw [← hbind _ hs, ← hbind _ hu] at hc
    exact ⟨hs, hu, hl, ho, hc⟩

omit [Python] in
theorem asciiCursor_text {c : TaiCursor} (h : c.Unsigned) : asciiCursor c.text = some c := by
  obtain ⟨s, ns, e, hspan⟩ := TaiCursor.span_text h
  have ha (n : Nat) : asciiDigits (Nat.toDigits 10 n) :=
    asciiDigits_iff.mpr ⟨Nat.toDigits_ne_nil, fun _ => Text.isDigit_of_mem_toDigits⟩
  simp only [asciiCursor, hspan, ha, Bool.and_self, if_true, asciiValue, Nat.ofDigitChars_ten_toDigits]
  rw [e]

omit [Python] in
-- A cursor that was printed is read back, unless it is longer than `int` reads.
theorem parseCursor_printed {c : TaiCursor} (h : c.Unsigned) :
    parseCursor c.text maxStrDigits = .ok (some c) ↔ cursorVerdict maxStrDigits c.text = .sound := by
  have hv := parseCursor_verdict maxStrDigits c.text
  rw [asciiCursor_text h, TaiCursor.parse_text h] at hv
  split at hv
  case h_1 hs =>
    obtain ⟨_, hc, -, hp⟩ := hv
    cases hc
    exact iff_of_true hp hs
  case h_2    => cases hv.1
  case h_3    => cases hv.1
  case h_4 hs =>
    rw [hv, hs]
    exact iff_of_false nofun nofun

theorem parsePaging_judged {defaultLimit maxLimit : Nat} :
    Exactly (parsePaging params defaultLimit maxLimit maxStrDigits) (WellFormed params) ↔
      Judged (verdicts params maxStrDigits) := by
  have hjudged : JudgedAfter True (verdicts params maxStrDigits) ↔ Judged (verdicts params maxStrDigits) := by
    simp [JudgedAfter, Judged]
  rw [wellFormed_iff, and_assoc, ← hjudged]
  refine cursorParam_stage.bind fun since hs => ?_
  refine cursorParam_stage.bind fun upTo hu => ?_
  refine limitParam_stage.bind fun limit _ => ?_
  refine orderParam_stage.bind fun order _ => Stage.last ?_
  rw [windowVerdict, ← cursorParam_ok hs, ← cursorParam_ok hu]
  cases since with
  | none       => exact .sound (PagingRequest.mk none upTo limit order) (by simp)
  | some lower =>
    cases upTo with
    | none       => exact .sound (PagingRequest.mk lower none limit order) (by simp)
    | some upper =>
      dsimp only
      by_cases h : upper < lower
      case pos => rw [if_pos h, if_pos h]; exact .refused _ (by simpa using h)
      case neg => rw [if_neg h, if_neg h]; exact .sound (PagingRequest.mk lower upper limit order) (by simpa using h)

-- A request is taken exactly where it is well formed, and refused everywhere else, if and only if `Judged` holds of it. A
-- cursor that was printed is read back as it was.
theorem parsePaging_exact (params : Dict String String) (defaultLimit maxLimit maxStrDigits : Nat) :
    (Exactly (parsePaging params defaultLimit maxLimit maxStrDigits) (WellFormed params) ↔
      Judged (verdicts params maxStrDigits)) ∧
    ∀ c : TaiCursor, c.Unsigned →
      (parseCursor c.text maxStrDigits = .ok (some c) ↔ cursorVerdict maxStrDigits c.text = .sound) :=
  ⟨parsePaging_judged, fun _ => parseCursor_printed⟩

end Checks

-- Digits that pass `isdigit`, but that `int` does not read, and some of another script, which it does.
namespace Superscript

local instance python : Python := .ofTable []

def params (since : String) : Dict String String :=
  (∅ : Dict String String).set PARAM_SINCE since

theorem superscript_raises : parsePaging (params "1²:0") 10 100 4300 = .error .valueError ∧
    ¬Exactly (parsePaging (params "1²:0") 10 100 4300) (WellFormed (params "1²:0")) :=
  ⟨by decide +kernel, fun h => nomatch h.2 .valueError (by decide +kernel)⟩

example : (parsePaging (params "٣:٠") 10 100 4300).toOption.bind (·.since) = some ⟨3, 0⟩ := by decide +kernel

theorem parsePaging_exact_cursor : Exactly (parsePaging (params "3:0") 10 100 4300) (WellFormed (params "3:0")) ∧
    parseCursor (TaiCursor.text ⟨3, 0⟩) 4300 = .ok (some ⟨3, 0⟩) :=
  have ⟨h₁, h₂⟩ := parsePaging_exact (params "3:0") 10 100 4300
  ⟨h₁.mpr (by decide +kernel), (h₂ ⟨3, 0⟩ (by decide)).mpr (by decide +kernel)⟩

end Superscript
end Query
