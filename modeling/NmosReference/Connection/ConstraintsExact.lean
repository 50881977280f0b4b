import NmosReference.Connection.Constraints
import NmosReference.Library.Text

namespace Constraints

-- The values of the numbers, which the truth values are not.
def Scalar.rational? : Scalar → Option Rat
  | .int i   => some i
  | .float x => some x.value
  | _        => none

-- Of one type and one value, which the sign of a zero is no part of.
def Scalar.Same (v a : Scalar) : Prop :=
  v = a ∨ ∃ x y, v = .float x ∧ a = .float y ∧ x.value = y.value

variable [Texts]

-- What a constraint is there to admit.
structure Meets (cv : Constraint) (v : Scalar) : Prop where
  enum    : ∀ enum, cv.enum = some enum → ∃ a ∈ enum, v.Same a
  minimum : ∀ m, cv.minimum = some m → ∃ q, v.rational? = some q ∧ m.le (.finite q)
  maximum : ∀ m, cv.maximum = some m → ∃ q, v.rational? = some q ∧ (Number.finite q).le m
  pattern : ∀ p, cv.pattern = some p → ∃ s, v = .str s ∧ Texts.reFullmatch p s = .ok true

def Admissible (cv : Constraint) (v : Scalar) : Prop :=
  v = .str "auto" ∨ Meets cv v

def Accepts (cv : Constraint) (v : Scalar) : Prop :=
  checkConstraintValue cv v = .ok none

def Refuses (cv : Constraint) (v : Scalar) : Prop :=
  ∃ violation, checkConstraintValue cv v = .ok (some violation)

def Raises (cv : Constraint) (v : Scalar) : Prop :=
  ∃ error, checkConstraint (some cv) v = .error error

-- A value is accepted or refused as it is admissible or not, and the other checker raises on what is refused.
structure Exact (cv : Constraint) (v : Scalar) : Prop where
  accepts : Accepts cv v ↔ Admissible cv v
  refuses : Refuses cv v ↔ ¬Admissible cv v
  raises  : Raises cv v ↔ Refuses cv v

-- Not told apart by `_check_constraint`.
def Alike (v a : Scalar) : Prop :=
  (∃ t, v.text = .ok t ∧ a.text = .ok t) ∧ (v = .null ↔ a = .null)

-- There is such an element, and all before it can be written.
def Seen (v : Scalar) : List Scalar → Prop
  | []        => False
  | a :: enum => Alike v a ∨ (v = .null ∨ a.Writable) ∧ Seen v enum

def Unrestricted (cv : Constraint) : Prop :=
  cv.minimum = none ∧ cv.maximum = none ∧ cv.enum = none ∧ cv.pattern = none

-- Outside of the bounds, which are rounded towards zero for an integer, if they can be.
def Beyond (cv : Constraint) : Scalar → Prop
  | .int i   =>
    (∃ m, cv.minimum = some m ∧ ∀ n, truncated m = .ok n → i < n) ∨
      ∃ m, cv.maximum = some m ∧ ∀ n, truncated m = .ok n → n < i
  | .float x =>
    (∃ m, cv.minimum = some m ∧ (Number.finite x.value).lt m) ∨
      ∃ m, cv.maximum = some m ∧ m.lt (.finite x.value)
  | _        => False

-- The value is listed, with the same text, and nothing else is asked of it.
def Listed (cv : Constraint) (v : Scalar) : Prop :=
  ∃ enum, cv.enum = some enum ∧ (∃ a ∈ enum, v.Same a) ∧ Seen v enum ∧
    cv.minimum = none ∧ cv.maximum = none ∧ cv.pattern = none

-- Everything can be written, and nothing that is listed is like the value.
def Apart (v : Scalar) (enum : List Scalar) : Prop :=
  enum ≠ [] ∧ v.Writable ∧ ∀ a ∈ enum, ¬Alike v a ∧ (v = .null ∨ a.Writable)

def Unlike (cv : Constraint) (v : Scalar) : Prop :=
  ∃ enum, cv.enum = some enum ∧ Apart v enum ∧ ((∀ a ∈ enum, ¬v.pyEq a) ∨ Beyond cv v)

variable {cv : Constraint} {v : Scalar}

omit [Texts] in
theorem toString_ne_auto (i : Int) : toString i ≠ "auto" := by
  intro h
  have hu : 'u' ∈ (toString i).toList := by
    rw [h]
    decide
  have hd (n : Nat) : 'u' ∉ Nat.toDigits 10 n := fun hm => Text.toDigits_ne (by decide) hm rfl
  rw [Int.toString_eq_repr, Int.repr_eq_if] at hu
  split at hu
  case isTrue  => exact hd _ (by simpa [Nat.toList_repr] using hu)
  case isFalse => exact hd _ (by simpa [Nat.toList_repr] using hu)

theorem text_eq_auto : v.text = .ok "auto" ↔ v = .str "auto" := by
  refine ⟨fun h => ?_, fun h => h ▸ rfl⟩
  cases v with
  | null    => simp [Scalar.text] at h
  | bool b  => cases b <;> simp [Scalar.text] at h
  | int i   =>
    simp only [Scalar.text] at h
    split at h
    case isTrue  => exact absurd (Except.ok.inj h) (toString_ne_auto i)
    case isFalse => cases h
  | float q =>
    have hu : 'u' ∈ (Texts.floatStr q).toList := by
      rw [show Texts.floatStr q = "auto" from Except.ok.inj h]
      decide
    exact absurd (List.all_eq_true.mp (Texts.floatStr_chars q) 'u' hu) (by decide)
  | str s   => rw [show s = "auto" from Except.ok.inj h]

theorem text_of_writable (h : v.Writable) : ∃ t, v.text = .ok t := by
  cases v with
  | null    => exact ⟨_, rfl⟩
  | bool b  => cases b <;> exact ⟨_, rfl⟩
  | int i   => exact ⟨_, if_pos h⟩
  | float q => exact ⟨_, rfl⟩
  | str s   => exact ⟨_, rfl⟩

theorem text_of_not_writable (h : ¬v.Writable) : v.text = .error .valueError := by
  cases v with
  | int i => exact if_neg h
  | _     => exact absurd trivial h

theorem writable_of_text {t : String} (h : v.text = .ok t) : v.Writable := by
  by_contra hn
  rw [text_of_not_writable hn] at h
  cases h

theorem Alike.refl (h : v.Writable) : Alike v v := by
  obtain ⟨t, ht⟩ := text_of_writable h
  exact ⟨⟨t, ht, ht⟩, Iff.rfl⟩

theorem checkBounds_ne {violation : Violation} : checkBounds cv v ≠ .ok (some violation) := by
  rw [checkBounds]
  split
  case isTrue  => simp
  case isFalse =>
    split
    case h_1 => simp
    case h_2 =>
      cases cv.minimum <;> cases cv.maximum <;>
        simp [underscoreValue, bind, Except.bind, pure, Except.pure]

variable {t : String}

theorem checkPattern_ne {violation : Violation} : checkPattern cv t ≠ .ok (some violation) := by
  rw [checkPattern]
  split <;> simp [underscoreValue, bind, Except.bind]

theorem checkPattern_eq_none : checkPattern cv t = .ok none ↔ cv.pattern = none := by
  rw [checkPattern]
  cases cv.pattern <;> simp [underscoreValue, bind, Except.bind]

-- A number is not compared with a bound: reading the bound fails.
theorem checkBounds_eq_none : checkBounds cv v = .ok none ↔
    cv.minimum = none ∧ cv.maximum = none ∨ toNumber v = none := by
  rw [checkBounds]
  cases cv.minimum <;> cases cv.maximum <;> cases toNumber v <;> simp [underscoreValue, bind, Except.bind]

-- Behind the enumeration, nothing is refused: either all passes or reading a bound or a pattern fails.
theorem checkRest_ne {violation : Violation} : checkRest cv v t ≠ .ok (some violation) := by
  rw [checkRest]
  cases hb : checkBounds cv v with
  | error e  => simp [bind, Except.bind]
  | ok found =>
    cases found with
    | none           => exact checkPattern_ne
    | some violation => exact absurd hb checkBounds_ne

theorem checkRest_eq_none : checkRest cv v t = .ok none ↔
    (cv.minimum = none ∧ cv.maximum = none ∨ toNumber v = none) ∧ cv.pattern = none := by
  rw [← checkBounds_eq_none, ← checkPattern_eq_none (t := t), checkRest]
  cases hb : checkBounds cv v with
  | error e  => simp [bind, Except.bind]
  | ok found =>
    cases found with
    | none           => simp [bind, Except.bind]
    | some violation => exact absurd hb checkBounds_ne

section Found

variable {enum : List Scalar}

-- How one element is compared.
theorem found_cons (a : Scalar) (enum : List Scalar) (hv : v ≠ .null) (ht : v.text = .ok t) :
    Alike v a ∧ found v t (a :: enum) = .ok true ∨
    ¬Alike v a ∧ a.Writable ∧ found v t (a :: enum) = found v t enum ∨
    ¬Alike v a ∧ ¬a.Writable ∧ found v t (a :: enum) = .error .valueError := by
  rw [found]
  split
  case isTrue ha =>
    refine .inr (.inl ⟨fun h => hv (h.2.mpr ha), ?_, rfl⟩)
    rw [ha]
    trivial
  case isFalse ha =>
    by_cases hw : a.Writable
    case neg =>
      refine .inr (.inr ⟨fun h => ?_, hw, by simp [text_of_not_writable hw, bind, Except.bind]⟩)
      obtain ⟨t', -, h'⟩ := h.1
      exact hw (writable_of_text h')
    case pos =>
      obtain ⟨t', ht'⟩ := text_of_writable hw
      have halike : Alike v a ↔ t = t' := by
        simp [Alike, hv, ha, ht, ht', eq_comm]
      have hsame (h : a = v) : t = t' := by
        subst h
        exact Except.ok.inj (ht.symm.trans ht')
      simp only [halike, ht', bind, Except.bind]
      by_cases he : t = t'
      case pos => exact .inl ⟨he, by simp [he, pure, Except.pure]⟩
      case neg =>
        refine .inr (.inl ⟨he, hw, if_neg ?_⟩)
        rintro (h | h)
        · exact he h
        · exact he (hsame h.1)

theorem found_eq_true (hv : v ≠ .null) (ht : v.text = .ok t) : found v t enum = .ok true ↔ Seen v enum := by
  induction enum with
  | nil            => simp [found, Seen]
  | cons a enum hi =>
    rw [Seen]
    obtain ⟨hl, hf⟩ | ⟨hl, hw, hf⟩ | ⟨hl, hw, hf⟩ := found_cons a enum hv ht
    · simp [hf, hl]
    · simp [hf, hl, hw, hi]
    · simp [hf, hl, hw, hv]

theorem found_eq_false (hv : v ≠ .null) (ht : v.text = .ok t) :
    found v t enum = .ok false ↔ ∀ a ∈ enum, ¬Alike v a ∧ a.Writable := by
  induction enum with
  | nil            => simp [found]
  | cons a enum hi =>
    rw [List.forall_mem_cons]
    obtain ⟨hl, hf⟩ | ⟨hl, hw, hf⟩ | ⟨hl, hw, hf⟩ := found_cons a enum hv ht
    · simp [hf, hl]
    · simp [hf, hl, hw, hi]
    · simp [hf, hw]

theorem mapM_text (h : ∀ a ∈ enum, a.Writable) : ∃ ts, enum.mapM Scalar.text = .ok ts := by
  induction enum with
  | nil            => exact ⟨[], rfl⟩
  | cons a enum hi =>
    rw [List.forall_mem_cons] at h
    obtain ⟨ts, hts⟩ := hi h.2
    obtain ⟨t, ht⟩ := text_of_writable h.1
    exact ⟨t :: ts, by simp [List.mapM_cons, hts, ht, bind, Except.bind, pure, Except.pure]⟩

theorem seen_null : Seen .null enum ↔ .null ∈ enum := by
  induction enum with
  | nil            => simp [Seen]
  | cons a enum hi =>
    have ha : Alike .null a ↔ .null = a := by
      refine ⟨fun h => (h.2.mp rfl).symm, fun h => ?_⟩
      subst h
      exact .refl trivial
    simp [Seen, hi, ha]

end Found

theorem checkConstraintValue_null : checkConstraintValue cv .null =
    .ok (if cv.enum.getD [] ≠ [] ∧ .null ∉ cv.enum.getD [] then some .nullNotAllowed else none) := by
  simp only [checkConstraintValue, if_true]
  split
  case isTrue h => simp [h.2.2.1]
  case isFalse  => rfl

theorem checkConstraintValue_not_writable (hu : ¬Unrestricted cv) (he : cv.enum ≠ some []) (hw : ¬v.Writable) :
    checkConstraintValue cv v = .error .valueError := by
  have hv : v ≠ .null := by
    rintro rfl
    exact hw trivial
  have hn : ¬(cv.minimum = none ∧ cv.maximum = none ∧ cv.enum.getD [] = [] ∧ cv.pattern = none) := by
    rintro ⟨hl, hh, hl', hp⟩
    refine hu ⟨hl, hh, ?_, hp⟩
    cases h : cv.enum with
    | none      => rfl
    | some enum => simp_all
  simp [checkConstraintValue, hn, hv, text_of_not_writable hw, bind, Except.bind]

theorem checkConstraintValue_other (hv : v ≠ .null) (ha : v ≠ .str "auto") (ht : v.text = .ok t) :
    checkConstraintValue cv v = (do
      if cv.enum.getD [] ≠ [] ∧ !(← found v t (cv.enum.getD [])) then
        return some (.notInEnum t (← (cv.enum.getD []).mapM Scalar.text))
      checkRest cv v t) := by
  have hne : t ≠ "auto" := by
    rintro rfl
    exact ha (text_eq_auto.mp ht)
  simp only [checkConstraintValue, hv, ht, if_false, bind, Except.bind, hne]
  split
  case isTrue h =>
    have hr : checkRest cv v t = .ok none := checkRest_eq_none.mpr ⟨.inl ⟨h.1, h.2.1⟩, h.2.2.2⟩
    simp [h.2.2.1, found, hr]
  case isFalse => rfl

theorem apart_iff_refuses_null : Refuses cv .null ↔ ∃ enum, cv.enum = some enum ∧ Apart .null enum := by
  have ha (a : Scalar) : ¬Alike .null a ↔ .null ≠ a := by
    refine not_congr ⟨fun h => (h.2.mp rfl).symm, fun h => ?_⟩
    subst h
    exact .refl trivial
  have hw : Scalar.null.Writable := trivial
  have hn (enum : List Scalar) : Apart .null enum ↔ enum ≠ [] ∧ .null ∉ enum := by
    unfold Apart
    rw [and_iff_right hw]
    refine and_congr_right fun _ => ⟨fun h hm => (ha _).mp (h _ hm).1 rfl, fun h a hm => ⟨(ha a).mpr ?_, .inl rfl⟩⟩
    rintro rfl
    exact h hm
  rw [Refuses, checkConstraintValue_null]
  simp only [hn, Except.ok.injEq]
  cases cv.enum with
  | none      => simp
  | some enum => by_cases h : enum ≠ [] ∧ .null ∉ enum <;> simp [h]

theorem refuses_iff (ha : v ≠ .str "auto") : Refuses cv v ↔ ∃ enum, cv.enum = some enum ∧ Apart v enum := by
  by_cases hv : v = .null
  case pos => exact hv ▸ apart_iff_refuses_null
  case neg =>
    by_cases hw : v.Writable
    case neg =>
      refine iff_of_false ?_ (by rintro ⟨enum, -, -, h, -⟩; exact hw h)
      rintro ⟨violation, h⟩
      by_cases hu : cv.minimum = none ∧ cv.maximum = none ∧ cv.enum.getD [] = [] ∧ cv.pattern = none
      case pos => simp [checkConstraintValue, hu] at h
      case neg => simp [checkConstraintValue, hu, hv, text_of_not_writable hw, bind, Except.bind] at h
    case pos =>
      obtain ⟨t, ht⟩ := text_of_writable hw
      have he : (∃ enum, cv.enum = some enum ∧ Apart v enum) ↔
          cv.enum.getD [] ≠ [] ∧ found v t (cv.enum.getD []) = .ok false := by
        rw [found_eq_false hv ht]
        cases cv.enum <;> simp [Apart, hw, hv]
      rw [he, Refuses, checkConstraintValue_other hv ha ht]
      cases hf : found v t (cv.enum.getD []) with
      | error error => simp [bind, Except.bind]
      | ok b =>
        cases b with
        | true  => simpa [bind, Except.bind] using fun violation => checkRest_ne
        | false =>
          by_cases hne : cv.enum.getD [] = []
          case pos => simpa [bind, Except.bind, hne] using fun violation => checkRest_ne
          case neg =>
            obtain ⟨ts, hts⟩ := mapM_text fun a hm => ((found_eq_false hv ht).mp hf a hm).2
            simp [bind, Except.bind, hne, hts, pure, Except.pure]

section Enumerated

variable {enum : List Scalar}

omit [Texts] in
theorem checkEnum_raises (he : cv.enum = some enum) {error : InvalidData} :
    (∃ e, checkEnum cv v error = .error e) ↔ ∀ a ∈ enum, ¬v.pyEq a := by
  simp only [checkEnum, he]
  split
  case isTrue h  => simpa using h
  case isFalse h => simpa [reject] using h

omit [Texts] in
theorem checkBound_raises {beyond : Number → Except PyError Bool} {error : Number → InvalidData}
    {bound : Option Number} :
    (∃ e, checkBound v beyond error bound = .error e) ↔ ∃ m, bound = some m ∧ beyond m ≠ .ok false := by
  cases bound with
  | none   => simp [checkBound]
  | some m =>
    simp only [checkBound, Option.some.injEq, exists_eq_left']
    cases beyond m with
    | error e => simp
    | ok b    => cases b <;> simp [reject]

omit [Texts] in
theorem bind_raises {ε : Type} {x : Except ε Unit} {y : Except ε Unit} :
    (∃ e, (do x; y) = .error e) ↔ (∃ e, x = .error e) ∨ ∃ e, y = .error e := by
  cases x with
  | error e => simp [bind, Except.bind]
  | ok u    => simp [bind, Except.bind]

omit [Texts] in
theorem checkNumber_raises (he : cv.enum = some enum) {below above : Number → Except PyError Bool} :
    (∃ e, checkNumber cv v below above = .error e) ↔ (∀ a ∈ enum, ¬v.pyEq a) ∨
      (∃ m, cv.minimum = some m ∧ below m ≠ .ok false) ∨ ∃ m, cv.maximum = some m ∧ above m ≠ .ok false := by
  rw [checkNumber, bind_raises, bind_raises, checkEnum_raises he, checkBound_raises, checkBound_raises]
  exact ⟨fun h => (or_assoc.mpr h).symm, fun h => or_assoc.mp h.symm⟩

omit [Texts] in
theorem pyEq_str {s : String} {a : Scalar} (h : (Scalar.str s).pyEq a) : a = .str s := by
  simpa [Scalar.pyEq, Scalar.number?, eq_comm] using h

omit [Texts] in
theorem truncated_ne {m : Number} {beyond : Int → Bool} :
    (truncated m).map beyond ≠ .ok false ↔ ∀ n, truncated m = .ok n → beyond n := by
  cases truncated m <;> simp [Except.map]

-- What the other checker does with a value unlike those that are listed.
theorem raises_apart (ha : v ≠ .str "auto") (he : cv.enum = some enum) (hu : Apart v enum) :
    Raises cv v ↔ (∀ a ∈ enum, ¬v.pyEq a) ∨ Beyond cv v := by
  simp only [Raises, checkConstraint, he, ha, reduceCtorEq, and_false, false_and, if_false]
  cases v with
  | null    => simp only [checkEnum_raises he, Beyond, or_false]
  | bool b  => simp only [checkEnum_raises he, Beyond, or_false]
  | int i   => simp only [checkNumber_raises he, Beyond, truncated_ne, decide_eq_true_eq]
  | float x => simp only [checkNumber_raises he, Beyond, ne_eq, Except.ok.injEq, Bool.not_eq_false]
  | str s   =>
    have hn : ∀ a ∈ enum, ¬(Scalar.str s).pyEq a := by
      intro a hm hp
      rw [pyEq_str hp] at hm
      exact (hu.2.2 _ hm).1 (.refl trivial)
    refine iff_of_true ?_ (.inl hn)
    exact bind_raises.mpr (.inr ((checkEnum_raises he).mpr hn))

end Enumerated

theorem exact_auto : Exact cv (.str "auto") := by
  have ha : Accepts cv (.str "auto") := by
    have ht : (Scalar.str "auto").text = .ok "auto" := rfl
    simp [Accepts, checkConstraintValue, ht, bind, Except.bind, pure, Except.pure]
  have hr : ¬Refuses cv (.str "auto") := by
    rintro ⟨violation, h⟩
    rw [Accepts] at ha
    simp [ha] at h
  have hn : ¬Raises cv (.str "auto") := by
    simp [Raises, checkConstraint]
  exact ⟨iff_of_true ha (.inl rfl), iff_of_false hr (not_not.mpr (.inl rfl)), iff_of_false hn hr⟩

theorem exact_unrestricted (hu : Unrestricted cv) : Exact cv v := by
  obtain ⟨hl, hh, he, hp⟩ := hu
  have ha : Accepts cv v := by simp [Accepts, checkConstraintValue, hl, hh, he, hp]
  have hm : Admissible cv v := .inr ⟨by simp [he], by simp [hl], by simp [hh], by simp [hp]⟩
  have hr : ¬Refuses cv v := by
    rintro ⟨violation, h⟩
    rw [Accepts] at ha
    simp [ha] at h
  have hn : ¬Raises cv v := by simp [Raises, checkConstraint, hl, hh, he, hp]
  exact ⟨iff_of_true ha hm, iff_of_false hr (not_not.mpr hm), iff_of_false hn hr⟩

omit [Texts] in
theorem Scalar.Same.pyEq {a : Scalar} (h : v.Same a) : v.pyEq a := by
  obtain rfl | ⟨x, y, rfl, rfl, h⟩ := h
  · cases v <;> simp [Scalar.pyEq, Scalar.number?]
  · simp [Scalar.pyEq, Scalar.number?, h]

omit [Texts] in
theorem Number.not_beyond {m : Number} {q : Rat} :
    (m.le (finite q) → ¬(finite q).lt m) ∧ ((finite q).le m → ¬m.lt (finite q)) := by
  cases m <;> simp [Number.le, Number.lt]

-- Nothing like it is listed, so at most a zero of the other sign is, and then it is within the bounds.
theorem Meets.not_beyond {enum : List Scalar} (hm : Meets cv v) (he : cv.enum = some enum) (hu : Apart v enum) :
    ¬Beyond cv v := by
  obtain ⟨a, ha, hsame⟩ := hm.enum enum he
  obtain rfl | ⟨x, y, rfl, rfl, -⟩ := hsame
  case inl => exact absurd (Alike.refl hu.2.1) (hu.2.2 v ha).1
  case inr =>
    rintro (⟨m, h, hlt⟩ | ⟨m, h, hlt⟩)
    · obtain ⟨q, hq, hle⟩ := hm.minimum m h
      cases hq
      exact Number.not_beyond.1 hle hlt
    · obtain ⟨q, hq, hle⟩ := hm.maximum m h
      cases hq
      exact Number.not_beyond.2 hle hlt

-- What is refused and looks like nothing that is listed is not admissible if the other checker raises on it.
theorem exact_of_refuses (ha : v ≠ .str "auto") (hr : Refuses cv v) : Exact cv v ↔ Unlike cv v := by
  have hna : ¬Accepts cv v := by
    obtain ⟨violation, h⟩ := hr
    simp [Accepts, h]
  obtain ⟨enum, he, hu⟩ := (refuses_iff ha).mp hr
  have hraises := raises_apart ha he hu
  constructor
  case mp => exact fun h => ⟨enum, he, hu, hraises.mp (h.raises.mpr hr)⟩
  case mpr =>
    rintro ⟨enum', he', -, h⟩
    rw [he, Option.some.injEq] at he'
    subst he'
    have hm : ¬Admissible cv v := by
      rintro (hauto | hm)
      case inl => exact ha hauto
      case inr =>
        obtain hn | hb := h
        case inl =>
          obtain ⟨a, hl, hsame⟩ := hm.enum enum he
          exact hn a hl hsame.pyEq
        case inr => exact hm.not_beyond he hu hb
    exact ⟨iff_of_false hna hm, iff_of_true hr hm, iff_of_true (hraises.mpr h) hr⟩

-- Only what is no number can be without one, and it is within no bound.
theorem Meets.unbounded (hm : Meets cv v) (hn : toNumber v = none) : cv.minimum = none ∧ cv.maximum = none := by
  have hq : v.rational? = none := by
    cases v <;> simp_all [toNumber, Scalar.rational?, Scalar.number?]
  refine ⟨Option.eq_none_iff_forall_ne_some.mpr fun m h => ?_, Option.eq_none_iff_forall_ne_some.mpr fun m h => ?_⟩
  · obtain ⟨q, hv, -⟩ := hm.minimum m h
    simp [hq] at hv
  · obtain ⟨q, hv, -⟩ := hm.maximum m h
    simp [hq] at hv

theorem Meets.listed (hm : Meets cv v) (hu : ¬Unrestricted cv) (hs : ∀ enum, cv.enum = some enum → Seen v enum)
    (hl : cv.minimum = none) (hh : cv.maximum = none) (hp : cv.pattern = none) : Listed cv v := by
  cases he : cv.enum with
  | none      => exact absurd ⟨hl, hh, he, hp⟩ hu
  | some enum => exact ⟨enum, he, hm.enum enum he, hs enum he, hl, hh, hp⟩

-- What meets the constraint is accepted only if nothing has to be read beside the enumeration.
theorem Meets.listed_of_accepts (hm : Meets cv v) (ha : v ≠ .str "auto") (hu : ¬Unrestricted cv) (h : Accepts cv v) :
    Listed cv v := by
  by_cases hv : v = .null
  case pos =>
    subst hv
    have hb := hm.unbounded rfl
    have hp : cv.pattern = none := by
      refine Option.eq_none_iff_forall_ne_some.mpr fun p hp => ?_
      obtain ⟨s, hs, -⟩ := hm.pattern p hp
      cases hs
    refine hm.listed hu (fun enum he => seen_null.mpr ?_) hb.1 hb.2 hp
    obtain ⟨a, hl, rfl | ⟨x, y, hx, -⟩⟩ := hm.enum enum he
    · exact hl
    · cases hx
  case neg =>
    by_cases hw : v.Writable
    case neg =>
      have he : cv.enum ≠ some [] := by
        intro he
        obtain ⟨a, hl, -⟩ := hm.enum [] he
        cases hl
      rw [Accepts, checkConstraintValue_not_writable hu he hw] at h
      cases h
    case pos =>
      obtain ⟨t, ht⟩ := text_of_writable hw
      rw [Accepts, checkConstraintValue_other hv ha ht] at h
      cases hf : found v t (cv.enum.getD []) with
      | error error =>
        simp [hf, bind, Except.bind] at h
      | ok b =>
        have hs (enum : List Scalar) (he : cv.enum = some enum) : b = true ∧ Seen v enum := by
          rw [he, Option.getD_some] at hf h
          obtain ⟨a, hl, -⟩ := hm.enum enum he
          cases b with
          | true  => exact ⟨rfl, (found_eq_true hv ht).mp hf⟩
          | false =>
            obtain ⟨ts, hts⟩ := mapM_text fun a hm => ((found_eq_false hv ht).mp hf a hm).2
            simp [hf, hts, List.ne_nil_of_mem hl, bind, Except.bind, pure, Except.pure] at h
        have hr : checkRest cv v t = .ok none := by
          cases he : cv.enum with
          | none      => simpa [he, found, bind, Except.bind] using h
          | some enum => simpa [hf, (hs enum he).1, bind, Except.bind] using h
        obtain ⟨hb, hp⟩ := checkRest_eq_none.mp hr
        have hb : cv.minimum = none ∧ cv.maximum = none := hb.elim id hm.unbounded
        exact hm.listed hu (fun enum he => (hs enum he).2) hb.1 hb.2 hp

theorem Seen.writable {enum : List Scalar} (h : Seen v enum) : v.Writable := by
  induction enum with
  | nil            => exact h.elim
  | cons a enum hi =>
    obtain ⟨⟨t, ht, -⟩, -⟩ | ⟨-, h⟩ := h
    · exact writable_of_text ht
    · exact hi h

theorem Listed.accepts (h : Listed cv v) (ha : v ≠ .str "auto") : Accepts cv v := by
  obtain ⟨enum, he, -, hs, hl, hh, hp⟩ := h
  by_cases hv : v = .null
  case pos =>
    subst hv
    rw [Accepts, checkConstraintValue_null, if_neg]
    simp [he, seen_null.mp hs]
  case neg =>
    obtain ⟨t, ht⟩ := text_of_writable hs.writable
    have hf : found v t enum = .ok true := (found_eq_true hv ht).mpr hs
    have hr : checkRest cv v t = .ok none := checkRest_eq_none.mpr ⟨.inl ⟨hl, hh⟩, hp⟩
    rw [Accepts, checkConstraintValue_other hv ha ht]
    simp [he, hf, hr, bind, Except.bind]

theorem Listed.not_raises (h : Listed cv v) (ha : v ≠ .str "auto") : ¬Raises cv v := by
  obtain ⟨enum, he, ⟨a, hm, hsame⟩, -, hl, hh, hp⟩ := h
  have hc (error : InvalidData) : ¬∃ e, checkEnum cv v error = .error e := by
    rw [checkEnum_raises he]
    exact fun h => h a hm hsame.pyEq
  have hn (below above : Number → Except PyError Bool) : ¬∃ e, checkNumber cv v below above = .error e := by
    rw [checkNumber_raises he]
    rintro (h | ⟨m, h, -⟩ | ⟨m, h, -⟩)
    · exact h a hm hsame.pyEq
    · simp [hl] at h
    · simp [hh] at h
  simp only [Raises, checkConstraint, he, ha, reduceCtorEq, and_false, false_and, if_false]
  cases v with
  | null    => exact hc _
  | bool b  => exact hc _
  | int i   => exact hn _ _
  | float x => exact hn _ _
  | str s   =>
    rw [bind_raises]
    rintro (h | h)
    · simp [checkMatch, hp] at h
    · exact hc _ h

theorem exact_of_not_refuses (ha : v ≠ .str "auto") (hu : ¬Unrestricted cv) (hr : ¬Refuses cv v) :
    Exact cv v ↔ Listed cv v := by
  constructor
  case mp =>
    intro h
    have hm : Admissible cv v := not_not.mp fun hn => hr (h.refuses.mpr hn)
    exact (hm.resolve_left ha).listed_of_accepts ha hu (h.accepts.mpr hm)
  case mpr =>
    intro h
    have hm : Meets cv v := by
      obtain ⟨enum, he, hv, -, hl, hh, hp⟩ := h
      exact ⟨fun e h => by cases he.symm.trans h; exact hv, by simp [hl], by simp [hh], by simp [hp]⟩
    exact ⟨iff_of_true (h.accepts ha) (.inr hm), iff_of_false hr (not_not.mpr (.inr hm)),
      iff_of_false (h.not_raises ha) hr⟩

theorem Seen.not_apart {enum : List Scalar} (h : Seen v enum) : ¬Apart v enum := by
  rintro ⟨-, -, hn⟩
  induction enum with
  | nil            => exact h
  | cons a enum hi =>
    rw [List.forall_mem_cons] at hn
    obtain h | ⟨-, h⟩ := h
    · exact hn.1.1 h
    · exact hi h hn.2

-- Both checkers are exact on a value exactly if nothing is asked of it, it is `"auto"`, it is listed and nothing else is
-- asked, or it looks like nothing that is listed.
theorem checkConstraint_exact (cv : Constraint) (v : Scalar) :
    Exact cv v ↔ Unrestricted cv ∨ v = .str "auto" ∨ Listed cv v ∨ Unlike cv v := by
  by_cases hu : Unrestricted cv
  case pos => exact iff_of_true (exact_unrestricted hu) (.inl hu)
  case neg =>
    by_cases ha : v = .str "auto"
    case pos => exact iff_of_true (ha ▸ exact_auto) (.inr (.inl ha))
    case neg =>
      by_cases hr : Refuses cv v
      case pos =>
        have hl : ¬Listed cv v := by
          rintro ⟨enum, he, -, hs, -⟩
          obtain ⟨enum', he', hn⟩ := (refuses_iff ha).mp hr
          cases he.symm.trans he'
          exact hs.not_apart hn
        simp only [hu, ha, hl, exact_of_refuses ha hr, false_or]
      case neg =>
        have hn : ¬Unlike cv v := by
          rintro ⟨enum, he, hn, -⟩
          exact hr ((refuses_iff ha).mpr ⟨enum, he, hn⟩)
        simp only [hu, ha, hn, exact_of_not_refuses ha hu hr, false_or, or_false]

-- A runtime that knows the text of one float.
@[reducible] def Texts.few : Texts where
  floatStr x         := if x = .positive 1 then "1.0" else if x = .negativeZero then "-0.0" else "0.0"
  readFloat _        := none
  reMatch p s        := .ok (p == s)
  reFullmatch p s    := .ok (p == s)
  floatStr_chars x   := by
    split
    · decide
    · split <;> decide

def enumerated (enum : List Scalar) : Constraint where
  minimum := none
  maximum := none
  enum    := some enum
  pattern := none

def atLeast (minimum : Rat) : Constraint where
  minimum := some (.finite minimum)
  maximum := none
  enum    := none
  pattern := none

omit [Texts] in
-- The integer `1` is taken for the text that is listed, and the integer `5` is not compared with its lower bound.
theorem checkConstraint_one_five :
    let _ := Texts.few
    (Accepts (enumerated [.str "1"]) (.int 1) ∧ ¬Admissible (enumerated [.str "1"]) (.int 1)) ∧
      ¬Accepts (atLeast 1) (.int 5) ∧ Admissible (atLeast 1) (.int 5) := by
  intro texts
  have hp (i : Int) (h : i.natAbs < 10 ^ Json.MAX_STR_DIGITS) : (Scalar.int i).text = .ok (toString i) :=
    if_pos (Json.printable_iff.mpr h)
  have h1 : (Scalar.int 1).text = .ok "1" := hp 1 (Nat.one_lt_pow (by decide) (by decide))
  have h5 : (Scalar.int 5).text = .ok "5" :=
    hp 5 (show 5 < 10 ^ _ from (by decide : 5 < 10 ^ 1).trans_le (Nat.pow_le_pow_right (by decide) (by decide)))
  refine ⟨⟨?_, ?_⟩, ?_, ?_⟩
  · have hf : found (.int 1) "1" [.str "1"] = .ok true :=
      (found_eq_true (by simp) h1).mpr (.inl ⟨⟨_, h1, rfl⟩, by simp⟩)
    have hr : checkRest (enumerated [.str "1"]) (.int 1) "1" = .ok none := checkRest_eq_none.mpr ⟨.inl ⟨rfl, rfl⟩, rfl⟩
    rw [Accepts, checkConstraintValue_other (by simp) (by simp) h1]
    simp [enumerated, hf, bind, Except.bind] at hr ⊢
    exact hr
  · rintro (h | h)
    · cases h
    · obtain ⟨a, hm, rfl | ⟨x, y, hx, -⟩⟩ := h.enum [.str "1"] rfl
      · simp at hm
      · cases hx
  · intro h
    have hr : checkRest (atLeast 1) (.int 5) "5" ≠ .ok none := by
      rw [ne_eq, checkRest_eq_none]
      simp [atLeast, toNumber, Scalar.number?]
    rw [Accepts, checkConstraintValue_other (by simp) (by simp) h5] at h
    simp [atLeast, found, bind, Except.bind] at h hr
    exact hr h
  · refine .inr ⟨by simp [atLeast], fun m hm => ⟨5, rfl, ?_⟩, by simp [atLeast], by simp [atLeast]⟩
    rw [← Option.some.inj hm]
    decide

end Constraints
