import NmosReference.Ccf.RangeInclusion

-- What is left of two ranges.
namespace Ccf
namespace RangeValue

variable {F : Type} [Interpreter F] {t : RangeType} {x y r : RangeValue F} {v : Val F}

section Joining

variable {lt le : Val F → Val F → Bool} {m₁ m₂ : Option (Val F)}

-- Of two bounds, the second if it is stricter.
def joined (lt : Val F → Val F → Bool) (m₁ m₂ : Option (Val F)) : Option (Val F) :=
  match m₁, m₂ with
  | some m₁, some m₂ => if lt m₁ m₂ then some m₂ else some m₁
  | some m₁, none    => some m₁
  | none,    m₂      => m₂

-- A bound that is to be joined with a NaN is lost.
def besideBound (m₁ m₂ : Option (Val F)) : Option (Val F) :=
  if m₁.any Val.isNan then none else m₂

-- The bound that decides, which is the first if there is one, compares with the value.
def ToldBound (m₁ m₂ : Option (Val F)) (v : Val F) : Prop :=
  ∀ m ∈ m₁.or m₂, m.isNan = false ∧ v.isNan = false

theorem joinMin_eq : joinMin m₁ m₂ = joined Val.lt m₁ m₂ := by
  cases m₁ <;> cases m₂ <;> rfl

theorem joinMax_eq : joinMax m₁ m₂ = joined (fun v w => w.lt v) m₁ m₂ := by
  cases m₁ <;> cases m₂ <;> rfl

omit [Interpreter F] in
theorem joined_cases : joined lt m₁ m₂ = m₁ ∨ joined lt m₁ m₂ = m₂ := by
  cases m₁ with
  | none   => exact .inr rfl
  | some a =>
    cases m₂ with
    | none   => exact .inl rfl
    | some b =>
      simp only [joined]
      split
      · exact .inr rfl
      · exact .inl rfl

omit [Interpreter F] in
theorem passes_beside (h : Passes lt m₂ v) : Passes lt (besideBound m₁ m₂) v := by
  unfold besideBound
  split
  case isTrue  => exact fun _ hm => by cases hm
  case isFalse => exact h

omit [Interpreter F] in
theorem isSome_joined : (joined lt m₁ m₂).isSome = (m₁.or m₂).isSome := by
  cases m₁ with
  | none   => rfl
  | some a =>
    cases m₂ with
    | none   => rfl
    | some b =>
      simp only [joined]
      split <;> rfl

theorem joinMin_cases (m₁ m₂ : Option (Val F)) : joinMin m₁ m₂ = m₁ ∨ joinMin m₁ m₂ = m₂ := by
  rw [joinMin_eq]
  exact joined_cases

theorem joinMax_cases (m₁ m₂ : Option (Val F)) : joinMax m₁ m₂ = m₁ ∨ joinMax m₁ m₂ = m₂ := by
  rw [joinMax_eq]
  exact joined_cases

theorem isSome_joinMin : (joinMin m₁ m₂).isSome = (m₁.or m₂).isSome := by
  rw [joinMin_eq, isSome_joined]

theorem isSome_joinMax : (joinMax m₁ m₂).isSome = (m₁.or m₂).isSome := by
  rw [joinMax_eq, isSome_joined]

section Compared

-- A bound lets pass what a smaller one lets pass, unless it is a NaN.
omit [Interpreter F] in
theorem passes_of_not_lt {a b : Val F} (hc : Val.Compares t lt le) (hv : v.type = t) (ha : a.type = t) (hb : b.type = t) (hn : a.isNan = false) (hab : lt a b = false)
    (h : lt v a = false) : lt v b = false := by
  by_cases hnan : b.isNan ∨ v.isNan
  case pos => exact hc.nan hnan.symm
  case neg =>
    simp only [not_or, Bool.not_eq_true] at hnan
    exact hc.not_lt hb hv <| hc.trans hb ha hv (hc.of_not_lt ha hb hn hnan.1 hab) (hc.of_not_lt hv ha hnan.2 hn h)

variable (hc : Val.Compares t lt le) (h₁ : ∀ m ∈ m₁, m.type = t) (h₂ : ∀ m ∈ m₂, m.type = t) (hv : v.type = t)

include hc h₁ h₂ hv

omit [Interpreter F]

theorem passes_joined : Passes lt (joined lt m₁ m₂) v ↔ Passes lt m₁ v ∧ Passes lt (besideBound m₁ m₂) v := by
  cases m₁ with
  | none   => simp [joined, besideBound, Passes]
  | some a =>
    have ha := h₁ a rfl
    by_cases hn : a.isNan
    case pos =>
      have hno (w : Val F) : lt a w = false := hc.nan (.inl hn)
      have hj : joined lt (some a) m₂ = some a := by cases m₂ <;> simp [joined, hno]
      simp [hj, besideBound, hn, Passes]
    case neg =>
      rw [Bool.not_eq_true] at hn
      cases m₂ with
      | none   => simp [joined, besideBound, hn, Passes]
      | some b =>
        have hb := h₂ b rfl
        by_cases hab : lt a b
        case pos =>
          have hj : joined lt (some a) (some b) = some b := if_pos hab
          have himp (h : lt v b = false) : lt v a = false := by
            have hle := hc.of_lt ha hb hab
            by_cases hvn : v.isNan
            case pos => exact hc.nan (.inl hvn)
            case neg =>
              rw [Bool.not_eq_true] at hvn
              exact hc.not_lt ha hv <| hc.trans ha hb hv hle (hc.of_not_lt hv hb hvn (hc.number hle).2 h)
          simpa [hj, besideBound, hn, Passes] using himp
        case neg =>
          rw [Bool.not_eq_true] at hab
          have hj : joined lt (some a) (some b) = some a := if_neg (by simp [hab])
          have himp (h : lt v a = false) : lt v b = false := passes_of_not_lt hc hv ha hb hn hab h
          simpa [hj, besideBound, hn, Passes] using himp

theorem allows_joined : Allows le (joined lt m₁ m₂) v ↔ ToldBound m₁ m₂ v ∧ Passes lt m₁ v ∧ Passes lt m₂ v := by
  have hle {a : Val F} (ha : a.type = t) : le a v ↔ (a.isNan = false ∧ v.isNan = false) ∧ lt v a = false := by
    constructor
    · exact fun h => ⟨hc.number h, hc.not_lt ha hv h⟩
    · exact fun h => hc.of_not_lt hv ha h.1.2 h.1.1 h.2
  cases m₁ with
  | none   =>
    cases m₂ with
    | none   => simp [joined, ToldBound, Allows, Passes]
    | some b => simp [joined, ToldBound, Allows, Passes, hle (h₂ b rfl)]
  | some a =>
    have ha := h₁ a rfl
    cases m₂ with
    | none   => simp [joined, ToldBound, Allows, Passes, hle ha]
    | some b =>
      have hb := h₂ b rfl
      have hpass := passes_joined hc h₁ h₂ hv
      by_cases hn : a.isNan
      case pos =>
        have hno (w : Val F) : lt a w = false := hc.nan (.inl hn)
        simp [joined, hno, ToldBound, Allows, hle ha, hn]
      case neg =>
        rw [Bool.not_eq_true] at hn
        have hj : Allows le (joined lt (some a) (some b)) v ↔
            v.isNan = false ∧ Passes lt (joined lt (some a) (some b)) v := by
          simp only [joined]
          split
          case isTrue hab => simp [Allows, Passes, hle hb, (hc.number (hc.of_lt ha hb hab)).2]
          case isFalse    => simp [Allows, Passes, hle ha, hn]
        rw [hj, hpass]
        simp [ToldBound, besideBound, hn, Passes]

end Compared

end Joining

section Exactness

-- What is in both and nothing else is in the result, which is empty if there is no such value.
structure Common (t : RangeType) (x y r : RangeValue F) : Prop where
  members : ∀ v : Val F, v.type = t →
    (r.includesValue v = .ok true ↔ x.includesValue v = .ok true ∧ y.includesValue v = .ok true)
  empty   : r.empty ↔ ¬∃ v : Val F, v.type = t ∧ x.includesValue v = .ok true ∧ y.includesValue v = .ok true

-- It is common to both, and included in each as `includes_range` judges.
structure Meet (t : RangeType) (x y r : RangeValue F) : Prop extends Common t x y r where
  left  : x.includesRange r = .ok true
  right : y.includesRange r = .ok true

-- A range that does not include itself.
structure Unfit (r : RangeValue F) : Prop where
  listed  : r.values ≠ none
  bounded : r.min.isSome ∨ r.max.isSome
  other   : ¬(r.type = .int ∧ r.min.isSome ∧ r.max.isSome ∧ (integersBetween r.min r.max).all r.enumerates)

-- One is infinite, and the other is returned as it is.
def Retained (x y : RangeValue F) : Prop :=
  x.infinite ∧ Unfit y ∨ y.infinite ∧ Unfit x

-- The second range without the bounds that are lost beside a NaN of the first.
def beside (x y : RangeValue F) : RangeValue F :=
  { y with min := besideBound x.min y.min, max := besideBound x.max y.max }

def Told (x y : RangeValue F) (v : Val F) : Prop :=
  ToldBound x.min y.min v ∧ ToldBound x.max y.max v

-- NaN, which no bound keeps out and no enumeration between bounds has, keep the result from being exact.
inductive Unordered (t : RangeType) (x y : RangeValue F) : Prop
  -- A NaN that bounds the first range takes the place of a bound of the second.
  | unbounded {v : Val F} (hfinite : x.infinite = false ∧ y.infinite = false) (hvalues : x.values = none ∧ y.values = none)
    (hv : v.type = t) (hx : x.includesValue v = .ok true) (hb : (beside x y).includesValue v = .ok true)
    (hy : y.includesValue v ≠ .ok true)
  -- Nothing but NaN is within the bounds of both.
  | crossed {v : Val F} (hfinite : x.infinite = false ∧ y.infinite = false) (hvalues : x.values = none ∧ y.values = none)
    (hv : v.type = t) (hn : v.isNan) (hx : x.includesValue v = .ok true) (hy : y.includesValue v = .ok true)
    (hno : ∀ w : Val F, w.type = t → w.isNan = false → x.includesValue w = .ok true → (beside x y).includesValue w ≠ .ok true)
  -- A value that is enumerated has to compare with the bound that decides.
  | untold {v : Val F} (hfinite : x.infinite = false ∧ y.infinite = false) (hvalues : x.values ≠ none ∨ y.values ≠ none)
    (hv : v.type = t) (hx : x.includesValue v = .ok true) (hy : y.includesValue v = .ok true) (hu : ¬Told x y v)
  -- What was made of text is made again.
  | remade (h : x.infinite ∧ .nan none ∈ y.enumerated ∨ y.infinite ∧ .nan none ∈ x.enumerated)

end Exactness

section Finite

variable (hx : Shaped t x) (hy : Shaped t y)

-- What is left of both: an empty range, bounds, or an enumeration.
def Kept (x y : RangeValue F) (v : Val F) : Prop :=
  if x.values = none ∧ y.values = none then
    crossed (joinMin x.min y.min) (joinMax x.max y.max) = false ∧ Includes x v ∧ Includes (beside x y) v
  else Includes x v ∧ Includes y v ∧ Told x y v

-- What `intersection` makes of two ranges.
structure Left (t : RangeType) (x y r : RangeValue F) : Prop where
  made   : r = cleared false true t ∨ Shaped t r ∧ r.hasEnumException = false ∧ .nan none ∉ r.enumerated
  plain  : r.min = none ∧ r.max = none ∨ r.values = none ∧ x.values = none ∧ y.values = none
  values : ∀ v, v.type = t → (r.includesValue v = .ok true ↔ Kept x y v)

include hx hy

theorem Shaped.type_joinMin {m : Val F} (hm : m ∈ joinMin x.min y.min) : m.type = t := by
  obtain he | he := joinMin_cases x.min y.min
  · exact hx.min m (he ▸ hm)
  · exact hy.min m (he ▸ hm)

theorem Shaped.type_joinMax {m : Val F} (hm : m ∈ joinMax x.max y.max) : m.type = t := by
  obtain he | he := joinMax_cases x.max y.max
  · exact hx.max m (he ▸ hm)
  · exact hy.max m (he ▸ hm)

theorem Shaped.unbounded_joined (hv : v.type = t) (hu : v.isBool || v.isStr) :
    joinMin x.min y.min = none ∧ joinMax x.max y.max = none := by
  obtain ⟨hmin, hmax⟩ := hx.unbounded hv hu
  obtain ⟨hmin', hmax'⟩ := hy.unbounded hv hu
  rw [hmin, hmax, hmin', hmax']
  exact ⟨rfl, rfl⟩

theorem Shaped.passes_joinMin (hv : v.type = t) :
    Passes Val.lt (joinMin x.min y.min) v ↔ Passes Val.lt x.min v ∧ Passes Val.lt (beside x y).min v := by
  rw [joinMin_eq]
  exact passes_joined (Val.compares hx.typed) hx.min hy.min hv

theorem Shaped.passes_joinMax (hv : v.type = t) : Passes (fun v w => w.lt v) (joinMax x.max y.max) v ↔
    Passes (fun v w => w.lt v) x.max v ∧ Passes (fun v w => w.lt v) (beside x y).max v := by
  rw [joinMax_eq]
  exact passes_joined (Val.compares hx.typed).flip hx.max hy.max hv

-- What of an enumeration is between the bounds of both.
theorem Shaped.within_joined (hv : v.type = t) : within (joinMin x.min y.min) (joinMax x.max y.max) v ↔
    Told x y v ∧ (Passes Val.lt x.min v ∧ Passes (fun v w => w.lt v) x.max v) ∧
      Passes Val.lt y.min v ∧ Passes (fun v w => w.lt v) y.max v := by
  have hc := Val.compares (F := F) hx.typed
  rw [within_allows (hx.unbounded_joined hy hv), joinMin_eq, joinMax_eq, allows_joined hc hx.min hy.min hv,
    allows_joined hc.flip hx.max hy.max hv]
  exact ⟨fun h => ⟨⟨h.1.1, h.2.1⟩, ⟨h.1.2.1, h.2.2.1⟩, h.1.2.2, h.2.2.2⟩,
    fun h => ⟨⟨h.1.1, h.2.1.1, h.2.2.1⟩, h.1.2, h.2.1.2, h.2.2.2⟩⟩

-- No number is between bounds that cross.
theorem Shaped.uncrossed_joined (hv : v.type = t) (hn : v.isNan = false)
    (hmin : Passes Val.lt (joinMin x.min y.min) v) (hmax : Passes (fun v w => w.lt v) (joinMax x.max y.max) v) :
    crossed (joinMin x.min y.min) (joinMax x.max y.max) = false := by
  have hc := Val.compares (F := F) hx.typed
  unfold crossed
  split
  case h_2 => rfl
  case h_1 a b ha hb =>
    have hta : a.type = t := hx.type_joinMin hy ha
    have htb : b.type = t := hx.type_joinMax hy hb
    by_cases hnan : b.isNan ∨ a.isNan
    case pos => exact hc.nan hnan
    case neg =>
      simp only [not_or, Bool.not_eq_true] at hnan
      have hav : a.le v := hc.of_not_lt hv hta hn hnan.2 (hmin a ha)
      have hvb : v.le b := hc.of_not_lt htb hv hnan.1 hn (hmax b hb)
      exact hc.not_lt hta htb <| hc.trans hta hv htb hav hvb

-- What is told from a bound is a number.
omit [Interpreter F] hx hy in
theorem Told.number (h : Told x y v) (hb : (x.min.or y.min).isSome ∨ (x.max.or y.max).isSome) : v.isNan = false := by
  obtain hb | hb := hb
  · obtain ⟨m, hm⟩ := Option.isSome_iff_exists.mp hb
    exact (h.1 m hm).2
  · obtain ⟨m, hm⟩ := Option.isSome_iff_exists.mp hb
    exact (h.2 m hm).2

-- What is left of an enumeration.
theorem Shaped.discrete {gs : List (Val F)} (hl : ¬(x.values = none ∧ y.values = none)) (hg : ∀ v ∈ gs, v.type = t)
    (ha : Val.Apart gs) (hgs : ∀ v, v.type = t → (v ∈ gs ∧ within (joinMin x.min y.min) (joinMax x.max y.max) v ↔
      Includes x v ∧ Includes y v ∧ Told x y v)) :
    ∃ r, RangeValue.discrete t (joinMin x.min y.min) (joinMax x.max y.max) gs = .ok r ∧ Left t x y r := by
  have hkept (v : Val F) (hv : v.type = t) : Kept x y v ↔
      v ∈ gs.filter (within (joinMin x.min y.min) (joinMax x.max y.max)) := by
    rw [Kept, if_neg hl, ← hgs v hv, List.mem_filter]
  have hfresh : .nan none ∉ gs.filter (within (joinMin x.min y.min) (joinMax x.max y.max)) := by
    intro hm
    obtain ⟨hin, hw⟩ := List.mem_filter.mp hm
    have hinc := (hgs _ (hg _ hin)).mp ⟨hin, hw⟩
    obtain hv | hv := not_and_or.mp hl
    · exact ((hx.enumerates (hg _ hin)).mp (hinc.1.listed.resolve_left hv)).2 rfl
    · exact ((hy.enumerates (hg _ hin)).mp (hinc.2.1.listed.resolve_left hv)).2 rfl
  have htype : ∀ v ∈ gs.filter (within (joinMin x.min y.min) (joinMax x.max y.max)), v.type = t :=
    fun v hv => hg v (List.mem_filter.mp hv).1
  have hapart : Val.Apart (gs.filter (within (joinMin x.min y.min) (joinMax x.max y.max))) := ha.filter _
  unfold RangeValue.discrete
  dsimp only
  generalize gs.filter (within (joinMin x.min y.min) (joinMax x.max y.max)) = hs at *
  by_cases hnil : hs = []
  case pos =>
    refine ⟨cleared false true t, ?_, .inl rfl, .inl ⟨rfl, rfl⟩, fun v hv => ?_⟩
    · rw [if_pos hnil]
      exact make_empty
    · exact iff_of_false includesValue_empty fun h => List.not_mem_nil (hnil ▸ (hkept v hv).mp h)
  case neg =>
    have hr := shaped_values hx.typed htype hapart
    refine ⟨_, ?_, .inr ⟨hr, by simpa [hasEnumException] using hnil, hfresh⟩, .inl ⟨rfl, rfl⟩, fun v hv => ?_⟩
    · rw [if_neg hnil]
      exact hr.make_args
    · rw [hr.includesValue hv, hkept v hv]
      constructor
      case mp  => exact fun h => ((hr.enumerates hv).mp (h.listed.resolve_left (by simp))).1
      case mpr => exact fun hm => hr.includes_enumerated hm fun he => hfresh (he ▸ hm)

-- What is left of bounds.
theorem Shaped.between (hl : x.values = none ∧ y.values = none)
    (hu : crossed (joinMin x.min y.min) (joinMax x.max y.max) = false) :
    ∃ r, make { type := t, min := joinMin x.min y.min, max := joinMax x.max y.max } = .ok r ∧ Left t x y r := by
  have hgiven : (joinMin x.min y.min).isSome ∨ (joinMax x.max y.max).isSome := by
    have hgiven := hx.given
    rw [isSome_joinMin, isSome_joinMax, Option.isSome_or, Option.isSome_or]
    simp only [hl.1, Option.isSome_none, Bool.false_eq_true, or_false] at hgiven
    exact hgiven.imp (by simp +contextual) (by simp +contextual)
  have hcmin : checkBound t (joinMin x.min y.min) = .ok ⟨⟩ := by
    obtain he | he := joinMin_cases x.min y.min
    · rw [he]; exact hx.checkMin
    · rw [he]; exact hy.checkMin
  have hcmax : checkBound t (joinMax x.max y.max) = .ok ⟨⟩ := by
    obtain he | he := joinMax_cases x.max y.max
    · rw [he]; exact hx.checkMax
    · rw [he]; exact hy.checkMax
  have hr := shaped_bounds hx.typed (fun m hm => hx.type_joinMin hy hm) (fun m hm => hx.type_joinMax hy hm) hu hgiven hcmin hcmax
  refine ⟨_, hr.make_args, .inr ⟨hr, rfl, List.not_mem_nil⟩, .inr ⟨rfl, hl⟩, fun v hv => ?_⟩
  rw [hr.includesValue hv, Kept, if_pos hl]
  constructor
  case mp  =>
    intro h
    obtain ⟨hxmin, hymin⟩ := (hx.passes_joinMin hy hv).mp h.min
    obtain ⟨hxmax, hymax⟩ := (hx.passes_joinMax hy hv).mp h.max
    exact ⟨hu, ⟨hxmin, hxmax, .inl hl.1⟩, hymin, hymax, .inl hl.2⟩
  case mpr =>
    rintro ⟨-, hix, hiy⟩
    exact ⟨(hx.passes_joinMin hy hv).mpr ⟨hix.min, hiy.min⟩, (hx.passes_joinMax hy hv).mpr ⟨hix.max, hiy.max⟩, .inl rfl⟩

-- Bounds that cross leave nothing of an enumeration either.
theorem Shaped.not_kept (hu : crossed (joinMin x.min y.min) (joinMax x.max y.max) ≠ false) (hv : v.type = t) : ¬Kept x y v := by
  unfold Kept
  split
  case isTrue  => exact fun h => hu h.1
  case isFalse =>
    rintro ⟨hix, hiy, ht⟩
    refine hu <| hx.uncrossed_joined hy hv (ht.number ?_) ?_ ?_
    · unfold crossed at hu
      split at hu
      case h_1 a b ha hb => exact .inl (by rw [← isSome_joinMin, ha]; rfl)
      case h_2           => exact absurd rfl hu
    · exact (hx.passes_joinMin hy hv).mpr ⟨hix.min, passes_beside hiy.min⟩
    · exact (hx.passes_joinMax hy hv).mpr ⟨hix.max, passes_beside hiy.max⟩

-- A range without an enumeration has a bound.
theorem Shaped.told_number (h : x.values = none ∨ y.values = none) (ht : Told x y v) : v.isNan = false := by
  refine ht.number ?_
  rw [Option.isSome_or, Option.isSome_or]
  obtain hv | hv := h
  · have hgiven := hx.given
    simp only [hv, Option.isSome_none, Bool.false_eq_true, or_false] at hgiven
    exact hgiven.imp (by simp +contextual) (by simp +contextual)
  · have hgiven := hy.given
    simp only [hv, Option.isSome_none, Bool.false_eq_true, or_false] at hgiven
    exact hgiven.imp (by simp +contextual) (by simp +contextual)

theorem Shaped.intersection : ∃ r, x.intersection y = .ok r ∧ Left t x y r := by
  have hverify : verifySameType x y = .ok ⟨⟩ := by simp [verifySameType, hx.type, hy.type]
  have htype : newType x y = t := by
    rw [newType, if_pos (hx.type ▸ hx.typed), hx.type]
  simp only [RangeValue.intersection, hverify, bind, Except.bind, htype, hx.empty, hy.empty, hx.infinite, hy.infinite,
    Bool.false_eq_true, or_self, and_self, if_false]
  by_cases hu : crossed (joinMin x.min y.min) (joinMax x.max y.max) = false
  case neg =>
    rw [if_pos (by simpa using hu)]
    exact ⟨_, make_empty, .inl rfl, .inl ⟨rfl, rfl⟩, fun v hv => iff_of_false includesValue_empty (hx.not_kept hy hu hv)⟩
  case pos =>
    rw [if_neg (by simp [hu])]
    have hin (z : RangeValue F) (v : Val F) : Includes z v ↔
        (Passes Val.lt z.min v ∧ Passes (fun v w => w.lt v) z.max v) ∧ (z.values = none ∨ z.enumerates v) :=
      ⟨fun h => ⟨⟨h.min, h.max⟩, h.listed⟩, fun h => ⟨h.1.1, h.1.2, h.2⟩⟩
    have hnan {v : Val F} (hn : v.isNan = false) : v ≠ .nan none := fun h => by simp [h, Val.isNan] at hn
    cases hvx : x.values with
    | none   =>
      cases hvy : y.values with
      | none   => exact hx.between hy ⟨hvx, hvy⟩ hu
      | some _ =>
        refine hx.discrete hy (by simp [hvy]) hy.enumerated hy.apart fun v hv => ?_
        rw [hx.within_joined hy hv, hin, hin, hy.enumerates hv, hvx, hvy]
        simp only [true_or, and_true, reduceCtorEq, false_or]
        constructor
        case mp =>
          rintro ⟨hm, ht, hpx, hpy⟩
          exact ⟨hpx, ⟨hpy, hm, hnan (hx.told_number hy (.inl hvx) ht)⟩, ht⟩
        case mpr =>
          rintro ⟨hpx, ⟨hpy, hm, _⟩, ht⟩
          exact ⟨hm, ht, hpx, hpy⟩
    | some _ =>
      cases hvy : y.values with
      | none   =>
        refine hx.discrete hy (by simp [hvx]) hx.enumerated hx.apart fun v hv => ?_
        rw [hx.within_joined hy hv, hin, hin, hx.enumerates hv, hvx, hvy]
        simp only [true_or, and_true, reduceCtorEq, false_or]
        constructor
        case mp =>
          rintro ⟨hm, ht, hpx, hpy⟩
          exact ⟨⟨hpx, hm, hnan (hx.told_number hy (.inr hvy) ht)⟩, hpy, ht⟩
        case mpr =>
          rintro ⟨⟨hpx, hm, _⟩, hpy, ht⟩
          exact ⟨hm, ht, hpx, hpy⟩
      | some _ =>
        refine hx.discrete hy (by simp [hvx]) (fun v hv => hx.enumerated v (List.mem_filter.mp hv).1) (hx.apart.filter _)
          fun v hv => ?_
        rw [hx.within_joined hy hv, hin, hin, List.mem_filter, hx.enumerates hv, hy.enumerates hv, hvx, hvy]
        simp only [reduceCtorEq, false_or]
        tauto

end Finite

section Judging

-- Between bounds of floating point numbers that do not cross there is a number.
theorem Shaped.exists_number (hx : Shaped t x) (hy : Shaped t y) (ht : t = .float)
    (hu : crossed (joinMin x.min y.min) (joinMax x.max y.max) = false) : ∃ w : Val F, w.type = t ∧ w.isNan = false ∧
      Passes Val.lt (joinMin x.min y.min) w ∧ Passes (fun v w => w.lt v) (joinMax x.max y.max) w := by
  have hc := Val.compares (F := F) hx.typed
  by_cases hmin : ∃ a ∈ joinMin x.min y.min, a.isNan = false
  case pos =>
    obtain ⟨a, ha, hn⟩ := hmin
    refine ⟨a, hx.type_joinMin hy ha, hn, fun m hm => ?_, fun m hm => uncrossed_lt hu ha hm⟩
    exact Option.mem_unique hm ha ▸ hc.irrefl
  by_cases hmax : ∃ b ∈ joinMax x.max y.max, b.isNan = false
  case pos =>
    obtain ⟨b, hb, hn⟩ := hmax
    refine ⟨b, hx.type_joinMax hy hb, hn, fun m hm => uncrossed_lt hu hm hb, fun m hm => ?_⟩
    exact Option.mem_unique hm hb ▸ hc.irrefl
  obtain ⟨f⟩ := Interpreter.nonempty (F := F)
  simp only [not_exists, not_and, Bool.not_eq_false] at hmin hmax
  exact ⟨.float f, ht.symm, rfl, fun m hm => hc.nan (.inr (hmin m hm)), fun m hm => hc.nan (.inl (hmax m hm))⟩

-- What has no bounds, or bounds like the range that it is compared with, is judged by its values.
theorem Shaped.includesRange_of (hx : Shaped t x) (hr : Shaped t r)
    (hp : r.min = none ∧ r.max = none ∨ r.values = none ∧ x.values = none) (hn : .nan none ∉ r.enumerated)
    (h : ∀ v, v.type = t → Includes r v → Includes x v) : x.includesRange r = .ok true := by
  have hverify : verifySameType x r = .ok ⟨⟩ := by simp [verifySameType, hx.type, hr.type]
  have hvalues : valuesWithin x r := by
    rw [valuesWithin, Bool.or_eq_true, List.all_eq_true]
    refine .inr fun v hv => ?_
    have ht := hr.enumerated v hv
    have hi := h v ht <| hr.includes_enumerated hv fun he => hn (he ▸ hv)
    have hlisted : (x.enumerates v || x.values.isNone) = true := by
      rw [Bool.or_eq_true, Option.isNone_iff_eq_none]
      exact hi.listed.symm
    rw [(bounded_passes (hx.unbounded ht)).mpr ⟨hi.min, hi.max⟩, hlisted]
    rfl
  have hbounds : boundsWithin x r := by
    obtain ⟨hmin, hmax⟩ | ⟨hv, hv'⟩ := hp
    · simp [boundsWithin, integersBetween, hmin, hmax]
    · have hin (m : Val F) (ht : m.type = t) (hm : m ∈ r.min ∨ m ∈ r.max) : x.includesBound m := by
        have hi := h m ht <| hr.includes_bound hv hm
        have hall : x.includesBound m ↔ Passes Val.lt x.min m ∧ Passes (fun v w => w.lt v) x.max m := by
          simp [includesBound, Passes, Option.all_eq_true]
        exact hall.mpr ⟨hi.min, hi.max⟩
      exact (boundsWithin_unlisted hv').mpr ⟨fun m hm => hin m (hr.min m hm) (.inl hm), fun m hm => hin m (hr.max m hm) (.inr hm)⟩
  rw [includesRange, hverify]
  simp [bind, Except.bind, hr.empty, hx.empty, hx.infinite, hr.infinite, includesFinite_eq, hvalues, hbounds]

theorem Left.meet_iff (hx : Shaped t x) (hy : Shaped t y) (h : Left t x y r) :
    Meet t x y r ↔ ∀ v, v.type = t → (Kept x y v ↔ Includes x v ∧ Includes y v) := by
  constructor
  case mp =>
    intro hm v hv
    rw [← h.values v hv, ← hx.includesValue hv, ← hy.includesValue hv]
    exact hm.members v hv
  case mpr =>
    intro hk
    have hmem (v : Val F) (hv : v.type = t) :
        r.includesValue v = .ok true ↔ x.includesValue v = .ok true ∧ y.includesValue v = .ok true := by
      rw [h.values v hv, hk v hv, hx.includesValue hv, hy.includesValue hv]
    obtain rfl | ⟨hr, he, hn⟩ := h.made
    · refine ⟨⟨hmem, iff_of_true rfl ?_⟩, ?_, ?_⟩
      · rintro ⟨v, hv, hb⟩
        exact includesValue_empty ((hmem v hv).mpr hb)
      · simp [includesRange, verifySameType, hx.type, bind, Except.bind, cleared]
      · simp [includesRange, verifySameType, hy.type, bind, Except.bind, cleared]
    · have hsub (v : Val F) (hv : v.type = t) (hi : Includes r v) : Includes x v ∧ Includes y v :=
        (hk v hv).mp <| (h.values v hv).mp <| (hr.includesValue hv).mpr hi
      refine ⟨⟨hmem, iff_of_false (by simp [hr.empty]) (not_not.mpr ?_)⟩, ?_, ?_⟩
      · obtain ⟨v, hv, hi⟩ := hr.exists_value he hn
        exact ⟨v, hv, (hmem v hv).mp ((hr.includesValue hv).mpr hi)⟩
      · exact hx.includesRange_of hr (h.plain.imp_right fun h => ⟨h.1, h.2.1⟩) hn fun v hv hi => (hsub v hv hi).1
      · exact hy.includesRange_of hr (h.plain.imp_right fun h => ⟨h.1, h.2.2⟩) hn fun v hv hi => (hsub v hv hi).2

theorem Shaped.includesValue_beside (hy : Shaped t y) (hv : v.type = t) :
    (beside x y).includesValue v = .ok true ↔ Includes (beside x y) v := by
  refine includesValue_iff (hy.type.trans hv.symm) hy.infinite hy.empty fun hu => ?_
  obtain ⟨hmin, hmax⟩ := hy.unbounded hv hu
  simp [beside, besideBound, hmin, hmax]

theorem Includes.beside (h : Includes y v) : Includes (beside x y) v :=
  ⟨passes_beside h.min, passes_beside h.max, h.listed⟩

-- Bounds let every NaN pass.
theorem Shaped.includes_nan (hx : Shaped t x) (hl : x.values = none) (hn : v.isNan) : Includes x v := by
  have hc := Val.compares (F := F) hx.typed
  exact ⟨fun m _ => hc.nan (.inl hn), fun m _ => hc.nan (.inr hn), .inl hl⟩

theorem Shaped.uncrossed_number (hx : Shaped t x) (hy : Shaped t y) (hv : v.type = t) (hn : v.isNan = false)
    (hix : Includes x v) (hiy : Includes (RangeValue.beside x y) v) :
    crossed (joinMin x.min y.min) (joinMax x.max y.max) = false :=
  hx.uncrossed_joined hy hv hn ((hx.passes_joinMin hy hv).mpr ⟨hix.min, hiy.min⟩)
    ((hx.passes_joinMax hy hv).mpr ⟨hix.max, hiy.max⟩)

theorem kept_exact_unlisted (hx : Shaped t x) (hy : Shaped t y) (hl : x.values = none ∧ y.values = none) :
    (∀ v, v.type = t → (Kept x y v ↔ Includes x v ∧ Includes y v)) ↔ ¬Unordered t x y := by
  have hkept (v : Val F) : Kept x y v ↔
      crossed (joinMin x.min y.min) (joinMax x.max y.max) = false ∧ Includes x v ∧ Includes (RangeValue.beside x y) v := by
    rw [Kept, if_pos hl]
  simp only [hkept]
  constructor
  case mp =>
    rintro hk (⟨-, -, hv, hix, hib, hiy⟩ | ⟨-, -, hv, hn, hix, hiy, hno⟩ | ⟨-, hvalues, -, -, -, -⟩ | h)
    case unbounded v =>
      rw [hx.includesValue hv] at hix
      rw [hy.includesValue_beside hv] at hib
      rw [ne_eq, hy.includesValue hv] at hiy
      by_cases hn : v.isNan
      case pos => exact hiy (hy.includes_nan hl.2 hn)
      case neg => exact hiy ((hk v hv).mp ⟨hx.uncrossed_number hy hv (Bool.not_eq_true _ ▸ hn) hix hib, hix, hib⟩).2
    case crossed v =>
      have hu := ((hk v hv).mpr ⟨(hx.includesValue hv).mp hix, (hy.includesValue hv).mp hiy⟩).1
      obtain ⟨w, hw, hn', hmin, hmax⟩ := hx.exists_number hy (hv.symm.trans (type_of_isNan hn)) hu
      obtain ⟨hxmin, hymin⟩ := (hx.passes_joinMin hy hw).mp hmin
      obtain ⟨hxmax, hymax⟩ := (hx.passes_joinMax hy hw).mp hmax
      exact hno w hw hn' ((hx.includesValue hw).mpr ⟨hxmin, hxmax, .inl hl.1⟩)
        ((hy.includesValue_beside hw).mpr ⟨hymin, hymax, .inl hl.2⟩)
    case untold => exact hvalues.elim (absurd hl.1) (absurd hl.2)
    case remade => simp [hx.infinite, hy.infinite] at h
  case mpr =>
    intro hu v hv
    constructor
    case mp =>
      rintro ⟨-, hix, hib⟩
      refine ⟨hix, by_contra fun hiy => hu ?_⟩
      exact .unbounded ⟨hx.infinite, hy.infinite⟩ hl hv ((hx.includesValue hv).mpr hix) ((hy.includesValue_beside hv).mpr hib)
        (by rwa [ne_eq, hy.includesValue hv])
    case mpr =>
      rintro ⟨hix, hiy⟩
      refine ⟨by_contra fun hc => ?_, hix, hiy.beside⟩
      by_cases hn : v.isNan
      case neg => exact hc (hx.uncrossed_number hy hv (Bool.not_eq_true _ ▸ hn) hix hiy.beside)
      case pos =>
        refine hu <| .crossed ⟨hx.infinite, hy.infinite⟩ hl hv hn ((hx.includesValue hv).mpr hix)
          ((hy.includesValue hv).mpr hiy) fun w hw hn' hiw hib => hc ?_
        exact hx.uncrossed_number hy hw hn' ((hx.includesValue hw).mp hiw) ((hy.includesValue_beside hw).mp hib)

theorem kept_exact_listed (hx : Shaped t x) (hy : Shaped t y) (hl : ¬(x.values = none ∧ y.values = none)) :
    (∀ v, v.type = t → (Kept x y v ↔ Includes x v ∧ Includes y v)) ↔ ¬Unordered t x y := by
  have hkept (v : Val F) : Kept x y v ↔ Includes x v ∧ Includes y v ∧ Told x y v := by
    rw [Kept, if_neg hl]
  simp only [hkept]
  constructor
  case mp =>
    rintro hk (⟨-, hvalues, -, -, -, -⟩ | ⟨-, hvalues, -, -, -, -, -⟩ | ⟨-, -, hv, hix, hiy, hu⟩ | h)
    case unbounded => exact hl hvalues
    case crossed   => exact hl hvalues
    case untold v  => exact hu ((hk v hv).mpr ⟨(hx.includesValue hv).mp hix, (hy.includesValue hv).mp hiy⟩).2.2
    case remade    => simp [hx.infinite, hy.infinite] at h
  case mpr =>
    intro hu v hv
    constructor
    case mp  => exact fun h => ⟨h.1, h.2.1⟩
    case mpr =>
      rintro ⟨hix, hiy⟩
      refine ⟨hix, hiy, by_contra fun ht => hu ?_⟩
      exact .untold ⟨hx.infinite, hy.infinite⟩ (not_and_or.mp hl) hv ((hx.includesValue hv).mpr hix)
        ((hy.includesValue hv).mpr hiy) ht

theorem Shaped.meet (hx : Shaped t x) (hy : Shaped t y) :
    (∃ r, x.intersection y = .ok r ∧ Meet t x y r) ↔ ¬Unordered t x y := by
  obtain ⟨r, hr, hleft⟩ := hx.intersection hy
  have hmeet : (∃ r, x.intersection y = .ok r ∧ Meet t x y r) ↔ Meet t x y r := by
    constructor
    case mp  =>
      rintro ⟨r', hr', hm⟩
      cases hr.symm.trans hr'
      exact hm
    case mpr => exact fun hm => ⟨r, hr, hm⟩
  rw [hmeet, hleft.meet_iff hx hy]
  by_cases hl : x.values = none ∧ y.values = none
  case pos => exact kept_exact_unlisted hx hy hl
  case neg => exact kept_exact_listed hx hy hl

-- A range has itself within its bounds and its values, and is judged to unless it is unfit.
theorem Shaped.includesFinite_self (h : Shaped t r) : includesFinite r r ↔ ¬Unfit r ∧ .nan none ∉ r.enumerated := by
  have hin (m : Val F) (hm : m ∈ r.min ∨ m ∈ r.max) : r.includesBound m := by
    have hall : r.includesBound m ↔ Passes Val.lt r.min m ∧ Passes (fun v w => w.lt v) r.max m := by
      simp [includesBound, Passes, Option.all_eq_true]
    exact hall.mpr (h.passes_bound hm)
  have hmin (m : Val F) (hm : r.min = some m) : r.includesBound m := hin m (.inl hm)
  have hmax (m : Val F) (hm : r.max = some m) : r.includesBound m := hin m (.inr hm)
  have hvalues : valuesWithin r r ↔ .nan none ∉ r.enumerated := by
    rw [valuesWithin, Bool.or_eq_true, List.all_eq_true, Option.isNone_iff_eq_none]
    constructor
    case mp =>
      rintro (hv | hall) hm
      · rw [h.unlisted hv] at hm
        exact List.not_mem_nil hm
      · have hv := hall _ hm
        rw [Bool.and_eq_true, Bool.or_eq_true, Option.isNone_iff_eq_none] at hv
        obtain he | he := hv.2
        · exact ((h.enumerates (h.enumerated _ hm)).mp he).2 rfl
        · rw [h.unlisted he] at hm
          exact List.not_mem_nil hm
    case mpr =>
      refine fun hn => .inr fun v hv => ?_
      have ht := h.enumerated v hv
      have hi := h.includes_enumerated hv fun he => hn (he ▸ hv)
      rw [Bool.and_eq_true, Bool.or_eq_true, Option.isNone_iff_eq_none]
      exact ⟨(bounded_passes (h.unbounded ht)).mpr ⟨hi.min, hi.max⟩, hi.listed.symm⟩
  rw [includesFinite_eq, Bool.and_eq_true, hvalues]
  refine and_congr_left fun _ => ?_
  by_cases hv : r.values = none
  · refine iff_of_true ((boundsWithin_unlisted hv).mpr ⟨hmin, hmax⟩) fun hu => hu.listed hv
  · have hsome : r.values.isSome := Option.isSome_iff_ne_none.mpr hv
    have hunfit : Unfit r ↔ (r.min.isSome ∨ r.max.isSome) ∧
        ¬(r.type = .int ∧ r.min.isSome ∧ r.max.isSome ∧ (integersBetween r.min r.max).all r.enumerates) :=
      ⟨fun h => ⟨h.bounded, h.other⟩, fun h => ⟨hv, h.1, h.2⟩⟩
    rw [hunfit]
    simp only [boundsWithin, enumerationMay, hsome]
    by_cases ht : r.type = .int
    · cases hm : r.min <;> cases hn : r.max <;> simp_all [integersBetween]
    · cases hm : r.min <;> cases hn : r.max <;> simp_all

end Judging

section Cases

-- The types of two ranges that may be compared.
def Compatible (t t' : RangeType) : Prop :=
  t = .untyped ∨ t' = .untyped ∨ t = t'

omit [Interpreter F] in
theorem verifySameType_ok (h : Compatible x.type y.type) : verifySameType x y = .ok ⟨⟩ := by
  unfold verifySameType
  obtain h | h | h := h
  · rw [if_pos (.inl h)]
  · rw [if_pos (.inr h)]
  · split
    · rfl
    · rw [if_neg (by simpa using h)]

-- The values of the type may be compared with the range.
def Fits (t : RangeType) (x : RangeValue F) : Prop :=
  x.type = .untyped ∨ x.type = t

section

omit [Interpreter F]

theorem Fits.compatible (hx : Fits t x) (hy : Fits t y) : Compatible x.type y.type := by
  obtain hx | hx := hx
  · exact .inl hx
  · obtain hy | hy := hy
    · exact .inr <| .inl hy
    · exact .inr <| .inr <| hx.trans hy.symm

theorem Fits.common (hx : Fits t x) (hy : Fits t y) : newType x y = .untyped ∨ newType x y = t := by
  unfold newType
  split
  · exact hx
  · exact hy

theorem Fits.admits {t' : RangeType} (h : t' = .untyped ∨ t' = t) (hv : v.type = t) : RangeValue.admits t' v := by
  obtain rfl | rfl := h
  · rfl
  · exact admits_type hv

theorem Fits.compatible_left (hx : Fits t x) (hy : Fits t y) : Compatible x.type (newType x y) := by
  obtain h | h := hx.common hy
  · exact .inr <| .inl h
  · exact hx.elim .inl fun hx => .inr <| .inr <| hx.trans h.symm

theorem Fits.compatible_right (hx : Fits t x) (hy : Fits t y) : Compatible y.type (newType x y) := by
  obtain h | h := hx.common hy
  · exact .inr <| .inl h
  · exact hy.elim .inl fun hy => .inr <| .inr <| hy.trans h.symm

end

theorem includesRange_empty {t : RangeType} (h : Compatible x.type t) :
    x.includesRange (cleared false true t) = .ok true := by
  rw [includesRange, verifySameType_ok h]
  simp [bind, Except.bind, cleared]

-- Nothing is left of an empty range.
theorem intersection_empty (hx : Fits t x) (hy : Fits t y) (he : x.empty ∨ y.empty)
    (h : ∀ v, ¬(x.includesValue v = .ok true ∧ y.includesValue v = .ok true)) :
    ∃ r, x.intersection y = .ok r ∧ Meet t x y r := by
  refine ⟨cleared false true (newType x y), ?_, ⟨fun v _ => iff_of_false includesValue_empty (h v), iff_of_true rfl ?_⟩,
    includesRange_empty (hx.compatible_left hy), includesRange_empty (hx.compatible_right hy)⟩
  · simp only [intersection, verifySameType_ok (hx.compatible hy), bind, Except.bind]
    rw [if_pos (by simpa using he)]
    exact make_empty
  · rintro ⟨v, -, hv⟩
    exact h v hv

theorem exists_number (F : Type) [Interpreter F] (t : RangeType) : ∃ v : Val F, v.type = t ∧ v.isNan = false := by
  cases t with
  | untyped  => exact ⟨.none, rfl, rfl⟩
  | bool     => exact ⟨.bool true, rfl, rfl⟩
  | string   => exact ⟨.str "", rfl, rfl⟩
  | int      => exact ⟨.int 0, rfl, rfl⟩
  | float    => exact (Interpreter.nonempty : Nonempty F).elim fun f => ⟨.float f, rfl, rfl⟩
  | rational => exact ⟨.rational 0, rfl, rfl⟩

theorem intersection_infinite {t₁ t₂ : RangeType} (hx : Fits t (cleared true false t₁ : RangeValue F))
    (hy : Fits t (cleared true false t₂ : RangeValue F)) :
    ∃ r, (cleared true false t₁ : RangeValue F).intersection (cleared true false t₂) = .ok r ∧
      Meet t (cleared true false t₁) (cleared true false t₂) r := by
  have hall {t' : RangeType} (ht : t' = .untyped ∨ t' = t) {v : Val F} (hv : v.type = t) :
      (cleared true false t' : RangeValue F).includesValue v = .ok true := includesValue_infinite (Fits.admits ht hv)
  have hincludes {t t' : RangeType} (h : Compatible t t') :
      (cleared true false t : RangeValue F).includesRange (cleared true false t') = .ok true := by
    rw [includesRange, verifySameType_ok h]
    rfl
  refine ⟨cleared true false (newType (cleared true false t₁ : RangeValue F) (cleared true false t₂)), ?_, ?_⟩
  · simp only [intersection, verifySameType_ok (hx.compatible hy), bind, Except.bind]
    exact make_infinite
  · refine ⟨⟨fun v hv => iff_of_true (hall (hx.common hy) hv) ⟨hall hx hv, hall hy hv⟩, ?_⟩, ?_, ?_⟩
    · obtain ⟨v, hv, -⟩ := exists_number F t
      exact iff_of_false Bool.false_ne_true (not_not.mpr ⟨v, hv, hall hx hv, hall hy hv⟩)
    · exact hincludes (hx.compatible_left hy)
    · exact hincludes (hx.compatible_right hy)

-- An infinite range takes nothing away. What is left is the other range, whether it includes itself or not.

theorem infinite_intersection {t' : RangeType} (hx : Fits t (cleared true false t' : RangeValue F)) (hy : Shaped t y) :
    (cleared true false t' : RangeValue F).intersection y = .ok y := by
  have hcommon : newType (cleared true false t' : RangeValue F) y = t := by
    unfold newType
    split
    case isTrue h  => exact hx.resolve_left h
    case isFalse   => exact hy.type
  simp only [intersection, verifySameType_ok (hx.compatible <| .inr hy.type), bind, Except.bind]
  rw [if_neg (by simp [cleared, hy.empty]), if_neg (by simp [hy.infinite]),
    if_pos (show (cleared true false t' : RangeValue F).infinite from rfl)]
  rw [hcommon]
  exact hy.make_args

theorem intersection_infinite_right {t' : RangeType} (hx : Shaped t x) (hy : Fits t (cleared true false t' : RangeValue F)) :
    x.intersection (cleared true false t') = .ok x := by
  have hcommon : newType x (cleared true false t' : RangeValue F) = t := by
    rw [newType, if_pos (hx.type ▸ hx.typed), hx.type]
  simp only [intersection, verifySameType_ok (Fits.compatible (.inr hx.type) hy), bind, Except.bind]
  rw [if_neg (by simp [cleared, hx.empty]), if_neg (by simp [hx.infinite]), if_neg (by simp [hx.infinite]),
    if_pos (show (cleared true false t' : RangeValue F).infinite from rfl)]
  rw [hcommon]
  exact hx.make_args

theorem Shaped.includesRange_self (h : Shaped t r) : r.includesRange r = .ok true ↔ ¬Unfit r ∧ .nan none ∉ r.enumerated := by
  have hverify : verifySameType r r = .ok ⟨⟩ := verifySameType_ok <| .inr <| .inr rfl
  rw [← h.includesFinite_self, includesRange, hverify]
  simp [bind, Except.bind, h.empty, h.infinite]

theorem includesRange_infinite {t' : RangeType} (hx : Fits t (cleared true false t' : RangeValue F)) (hy : Shaped t y) :
    (cleared true false t' : RangeValue F).includesRange y = .ok true := by
  rw [includesRange, verifySameType_ok (hx.compatible <| .inr hy.type)]
  simp [bind, Except.bind, cleared, hy.empty]

theorem intersection_left {t' : RangeType} (hx : Fits t (cleared true false t' : RangeValue F)) (hy : Shaped t y)
    (he : y.hasEnumException = false) :
    (∃ r, (cleared true false t' : RangeValue F).intersection y = .ok r ∧ Meet t (cleared true false t') y r) ↔
      ¬Unfit y ∧ .nan none ∉ y.enumerated := by
  have hinter := infinite_intersection hx hy
  have hall {v : Val F} (hv : v.type = t) : (cleared true false t' : RangeValue F).includesValue v = .ok true :=
    includesValue_infinite (Fits.admits hx hv)
  rw [← hy.includesRange_self]
  constructor
  · rintro ⟨r, hr, hm⟩
    rw [hinter] at hr
    cases hr
    exact hm.right
  · intro h
    obtain ⟨v, hv, hi⟩ := hy.exists_value he (hy.includesRange_self.mp h).2
    refine ⟨y, hinter, ⟨fun v hv => by simp [hall hv], iff_of_false (by simp [hy.empty]) (not_not.mpr ?_)⟩,
      includesRange_infinite hx hy, h⟩
    exact ⟨v, hv, hall hv, (hy.includesValue hv).mpr hi⟩

theorem intersection_right {t' : RangeType} (hx : Shaped t x) (hy : Fits t (cleared true false t' : RangeValue F))
    (he : x.hasEnumException = false) :
    (∃ r, x.intersection (cleared true false t') = .ok r ∧ Meet t x (cleared true false t') r) ↔
      ¬Unfit x ∧ .nan none ∉ x.enumerated := by
  have hinter := intersection_infinite_right hx hy
  have hall {v : Val F} (hv : v.type = t) : (cleared true false t' : RangeValue F).includesValue v = .ok true :=
    includesValue_infinite (Fits.admits hy hv)
  rw [← hx.includesRange_self]
  constructor
  · rintro ⟨r, hr, hm⟩
    rw [hinter] at hr
    cases hr
    exact hm.left
  · intro h
    obtain ⟨v, hv, hi⟩ := hx.exists_value he (hx.includesRange_self.mp h).2
    refine ⟨x, hinter, ⟨fun v hv => by simp [hall hv], iff_of_false (by simp [hx.empty]) (not_not.mpr ?_)⟩, h,
      includesRange_infinite hy hx⟩
    exact ⟨v, hv, (hx.includesValue hv).mpr hi, hall hv⟩

theorem Built.fits (h : Built x) (ht : t ≠ .untyped) (hf : Fits t x) (he : x.hasEnumException = false) :
    (∃ t', x = cleared true false t') ∨ (∃ t', x = cleared false true t') ∨ Shaped t x := by
  obtain hu | ht' := hf
  · exact (h.untyped hu he).imp (⟨_, ·⟩) fun h => .inl ⟨_, h⟩
  · exact (h.shaped ht' ht).imp (⟨_, ·⟩) (.imp_left (⟨_, ·⟩))

theorem not_unfit_cleared {infinite empty : Bool} : ¬Unfit (cleared infinite empty t : RangeValue F) :=
  fun h => h.listed rfl

-- NaN make a difference only between what they are in.
theorem Unordered.remade_of_not_finite (h : Unordered t x y) (hn : x.infinite ∨ y.infinite) :
    x.infinite ∧ .nan none ∈ y.enumerated ∨ y.infinite ∧ .nan none ∈ x.enumerated := by
  obtain ⟨hf, -, -, -, -, -⟩ | ⟨hf, -, -, -, -, -, -⟩ | ⟨hf, -, -, -, -, -⟩ | h := h
  case remade => exact h
  all_goals simp [hf.1, hf.2] at hn

theorem not_unordered_of_empty (hno : ∀ v, ¬(x.includesValue v = .ok true ∧ y.includesValue v = .ok true))
    (hb : ∀ v, ¬(x.includesValue v = .ok true ∧ (beside x y).includesValue v = .ok true))
    (hr : ¬(x.infinite ∧ .nan none ∈ y.enumerated ∨ y.infinite ∧ .nan none ∈ x.enumerated)) : ¬Unordered t x y := by
  rintro (⟨-, -, -, hix, hib, -⟩ | ⟨-, -, -, -, hix, hiy, -⟩ | ⟨-, -, -, hix, hiy, -⟩ | h)
  · exact hb _ ⟨hix, hib⟩
  · exact hno _ ⟨hix, hiy⟩
  · exact hno _ ⟨hix, hiy⟩
  · exact hr h

theorem not_retained_of_finite (hx : x.infinite = false) (hy : y.infinite = false) : ¬Retained x y := by
  simp [Retained, hx, hy]

-- `x & y`, for the values of any type that both ranges may be compared with.
theorem intersection_exact (ht : t ≠ .untyped) (hbx : Built x) (hby : Built y) (hx : x.type = .untyped ∨ x.type = t)
    (hy : y.type = .untyped ∨ y.type = t) (hex : x.hasEnumException = false) (hey : y.hasEnumException = false) :
    (∃ r, x.intersection y = .ok r ∧ Meet t x y r) ↔ ¬(Retained x y ∨ Unordered t x y) := by
  obtain ⟨t₁, rfl⟩ | ⟨t₁, rfl⟩ | hsx := hbx.fits ht hx hex
  · obtain ⟨t₂, rfl⟩ | ⟨t₂, rfl⟩ | hsy := hby.fits ht hy hey
    · refine iff_of_true (intersection_infinite hx hy) ?_
      rintro ((⟨-, h⟩ | ⟨-, h⟩) | h)
      · exact not_unfit_cleared h
      · exact not_unfit_cleared h
      · simpa [cleared] using h.remade_of_not_finite (.inl rfl)
    · refine iff_of_true (intersection_empty hx hy (.inr rfl) fun v hv => includesValue_empty hv.2) ?_
      rintro ((⟨-, h⟩ | ⟨-, h⟩) | h)
      · exact not_unfit_cleared h
      · exact not_unfit_cleared h
      · simpa [cleared] using h.remade_of_not_finite (.inl rfl)
    · rw [intersection_left hx hsy hey, ← not_or, not_iff_not]
      constructor
      case mp  =>
        rintro (h | h)
        · exact .inl <| .inl ⟨rfl, h⟩
        · exact .inr <| .remade <| .inl ⟨rfl, h⟩
      case mpr =>
        rintro ((⟨-, h⟩ | ⟨hi, -⟩) | h)
        · exact .inl h
        · simp [hsy.infinite] at hi
        · obtain ⟨-, h⟩ | ⟨hi, -⟩ := h.remade_of_not_finite (.inl rfl)
          · exact .inr h
          · simp [hsy.infinite] at hi
  · refine iff_of_true (intersection_empty hx hy (.inl rfl) fun v hv => includesValue_empty hv.1) ?_
    rintro ((⟨hi, -⟩ | ⟨-, h⟩) | h)
    · cases hi
    · exact not_unfit_cleared h
    · refine not_unordered_of_empty (fun v hv => includesValue_empty hv.1) (fun v hv => includesValue_empty hv.1) ?_ h
      simp [cleared]
  · obtain ⟨t₂, rfl⟩ | ⟨t₂, rfl⟩ | hsy := hby.fits ht hy hey
    · rw [intersection_right hsx hy hex, ← not_or, not_iff_not]
      constructor
      case mp  =>
        rintro (h | h)
        · exact .inl <| .inr ⟨rfl, h⟩
        · exact .inr <| .remade <| .inr ⟨rfl, h⟩
      case mpr =>
        rintro ((⟨hi, -⟩ | ⟨-, h⟩) | h)
        · simp [hsx.infinite] at hi
        · exact .inl h
        · obtain ⟨hi, -⟩ | ⟨-, h⟩ := h.remade_of_not_finite (.inr rfl)
          · simp [hsx.infinite] at hi
          · exact .inr h
    · refine iff_of_true (intersection_empty hx hy (.inr rfl) fun v hv => includesValue_empty hv.2) ?_
      rintro ((⟨-, h⟩ | ⟨hi, -⟩) | h)
      · exact not_unfit_cleared h
      · cases hi
      · refine not_unordered_of_empty (fun v hv => includesValue_empty hv.2) (fun v hv => ?_) ?_ h
        · exact includesValue_empty hv.2
        · simp [cleared]
    · rw [hsx.meet hsy, or_iff_right (not_retained_of_finite hsx.infinite hsy.infinite)]

-- There is a NaN only among floating point numbers.
theorem not_unordered (hf : t ≠ .float) (ht : t ≠ .untyped) (hbx : Built x) (hby : Built y) (hx : Fits t x) (hy : Fits t y)
    (hex : x.hasEnumException = false) (hey : y.hasEnumException = false) : ¬Unordered t x y := by
  have hnan {m : Val F} (hm : m.type = t) : m.isNan = false :=
    Bool.eq_false_iff.mpr fun hn => hf <| hm.symm.trans (type_of_isNan hn)
  have hshaped {z : RangeValue F} {v : Val F} (hb : Built z) (hz : Fits t z) (he : z.hasEnumException = false)
      (hi : z.infinite = false) (hv : z.includesValue v = .ok true) : Shaped t z := by
    obtain ⟨t', rfl⟩ | ⟨t', rfl⟩ | hs := hb.fits ht hz he
    · cases hi
    · exact absurd hv includesValue_empty
    · exact hs
  rintro (⟨hi, -, -, hix, hib, hiy⟩ | ⟨-, -, hv, hn, -, -, -⟩ | ⟨hi, -, hv, hix, hiy, hu⟩ | h)
  case unbounded =>
    have hs := hshaped hbx hx hex hi.1 hix
    have hbeside : beside x y = y := by
      have hno {m : Option (Val F)} (h : ∀ a ∈ m, a.type = t) : m.any Val.isNan = false := by
        cases m with
        | none   => rfl
        | some a => exact hnan (h a rfl)
      simp [beside, besideBound, hno hs.min, hno hs.max]
    exact hiy (hbeside ▸ hib)
  case crossed => simp [hnan hv] at hn
  case untold  =>
    have hsx := hshaped hbx hx hex hi.1 hix
    have hsy := hshaped hby hy hey hi.2 hiy
    refine hu ⟨fun m hm => ⟨?_, hnan hv⟩, fun m hm => ⟨?_, hnan hv⟩⟩
    · obtain hm | ⟨-, hm⟩ := Option.or_eq_some_iff.mp hm
      · exact hnan (hsx.min m hm)
      · exact hnan (hsy.min m hm)
    · obtain hm | ⟨-, hm⟩ := Option.or_eq_some_iff.mp hm
      · exact hnan (hsx.max m hm)
      · exact hnan (hsy.max m hm)
  case remade  =>
    have hno {z : RangeValue F} (hb : Built z) (hz : Fits t z) (he : z.hasEnumException = false) : .nan none ∉ z.enumerated := by
      obtain ⟨t', rfl⟩ | ⟨t', rfl⟩ | hs := hb.fits ht hz he
      · exact List.not_mem_nil
      · exact List.not_mem_nil
      · exact fun hm => hf (hs.enumerated _ hm).symm
    exact h.elim (fun h => hno hby hy hey h.2) fun h => hno hbx hx hex h.2

end Cases

namespace Numbers

local instance interpreter : Interpreter Rat := .exact

def twoOrThree : RangeValue Rat where
  infinite   := false
  empty      := false
  type       := .int
  min        := some (.int 1)
  max        := some (.int 10)
  values     := some [.int 2, .int 3]
  enumerated := [.int 2, .int 3]

def anything : RangeValue Rat :=
  cleared true false .int

def fromThree : RangeValue Rat :=
  { cleared false false .int with min := some (.int 3) }

theorem built : Built twoOrThree ∧ Built anything ∧ Built fromThree :=
  ⟨⟨{ min := some (.int 1), max := some (.int 10), values := some [.int 2, .int 3] }, by decide⟩, ⟨{ type := .int }, by decide⟩,
    ⟨{ min := some (.int 3) }, by decide⟩⟩

theorem intersection_exact_fromThree : ∃ r, twoOrThree.intersection fromThree = .ok r ∧ Meet .int twoOrThree fromThree r := by
  refine (intersection_exact (by decide) built.1 built.2.2 (.inr rfl) (.inr rfl) rfl rfl).mpr (not_or.mpr ⟨?_, ?_⟩)
  · exact not_retained_of_finite rfl rfl
  · exact not_unordered (by decide) (by decide) built.1 built.2.2 (.inr rfl) (.inr rfl) rfl rfl

-- What is left of a range and everything is the range, which is said not to include itself.
theorem intersection_twoOrThree : ¬∃ r, twoOrThree.intersection anything = .ok r ∧ Meet .int twoOrThree anything r := by
  rintro ⟨r, hr, hm⟩
  have hself : twoOrThree.intersection anything = .ok twoOrThree := by decide
  rw [hself] at hr
  cases hr
  have hleft := hm.left
  revert hleft
  decide

end Numbers

end RangeValue
end Ccf
