import NmosReference.Ccf.RangeKinds
import Mathlib

-- What is judged to be included, and what is.
namespace Ccf
namespace RangeValue

variable {F : Type} [Interpreter F]

section

variable (self other : RangeValue F)

-- The part of the test that is about the bounds of `other`.
def boundsWithin : Bool :=
  (other.min.all fun m => self.includesBound m && enumerationMay self other other.max) &&
    (other.max.all fun m => self.includesBound m && enumerationMay self other other.min) &&
    (!(other.type = .int && self.values.isSome) || (integersBetween other.min other.max).all self.enumerates)

-- The part that is about its enumeration.
def valuesWithin : Bool :=
  other.values.isNone || other.enumerated.all fun v =>
    bounded self.min self.max v && (self.enumerates v || self.values.isNone)

theorem includesFinite_eq : includesFinite self other = (boundsWithin self other && valuesWithin self other) :=
  rfl

theorem boundsWithin_unlisted {self other : RangeValue F} (hv : self.values = none) : boundsWithin self other ↔
    (∀ m ∈ other.min, self.includesBound m) ∧ ∀ m ∈ other.max, self.includesBound m := by
  have hmay (o : Option (Val F)) : enumerationMay self other o := by simp [enumerationMay, hv]
  simp only [boundsWithin, hmay, hv]
  cases other.min <;> cases other.max <;> simp

-- Where the test and inclusion differ.
inductive Misjudged : Prop
  -- Only the bounds that `other` has are compared. One that it lacks may be one that `self` has.
  | unbounded
    (hfinite : other.infinite = false ∧ other.empty = false)
    (hvalues : other.values = none ∧ self.values = none)
    (hlacks  : self.min.isSome ∧ other.min = none ∨ self.max.isSome ∧ other.max = none)
    (hbounds : (∀ m ∈ other.min, self.includesBound m) ∧ ∀ m ∈ other.max, self.includesBound m)
  -- What lies between equal bounds is looked up in an enumeration only if it is an integer.
  | point (v : Val F)
    (htype   : other.type ≠ .int)
    (hvalues : other.values = none ∧ self.values ≠ none)
    (hpoint  : other.min = some v ∧ other.max = some v)
    (hlisted : self.enumerates v)
  -- Bounds are compared even if an enumeration leaves nothing of what is between them but what it lists.
  | redundant
    (hvalues : other.values ≠ none)
    (hwithin : valuesWithin self other)
    (hbounds : ¬boundsWithin self other)

end

section Kinds

variable {α : Type} [LinearOrder α] {k : Kind F α} {x y : RangeValue F} {b c : Bounds α} {es fs : List α} {v : α}

-- What the values of a kind must be like for ranges of them to be compared.
structure Judged (k : Kind F α) : Prop where
  unlisted : ∀ fs : List α, ∃ v, v ∉ fs
  outside  : k.ranged → ∀ c : Bounds α, c.lower.isSome ∨ c.upper.isSome → ∃ v, ¬c.Mem v
  subset   : k.ranged → ∀ b c : Bounds α, b.Proper → ((∀ v, b.Mem v → c.Mem v) ↔ b.Covers c)
  -- What has all its values listed.
  listed   : k.ranged → ∀ (b : Bounds α) (fs : List α), b.Proper → (∀ v, b.Mem v → v ∈ fs) →
    ∃ l u, b.lower = some l ∧ b.upper = some u ∧ (k.type ≠ .int → l = u)
  between  : k.type = .int → ∀ (b : Bounds α) (w : Val F), w ∈ integersBetween (b.lower.map k.val) (b.upper.map k.val) ↔
    ∃ l ∈ b.lower, ∃ u ∈ b.upper, ∃ v, l ≤ v ∧ v ≤ u ∧ w = k.val v

theorem exists_unlisted [Infinite α] (fs : List α) : ∃ v, v ∉ fs := by
  obtain ⟨v, hv⟩ := Infinite.exists_notMem_finset fs.toFinset
  exact ⟨v, by simpa using hv⟩

theorem judged_int : Judged (Kind.int : Kind F Int) where
  unlisted            := exists_unlisted
  outside _ _         := Bounds.exists_outside
  subset _ _ _        := Bounds.subset_iff
  listed _ b fs hp h  := by
    obtain ⟨l, u, hl, hu⟩ := Bounds.bounds_of_listed h
    exact ⟨l, u, hl, hu, fun hne => absurd rfl hne⟩
  between _ b w       := by
    cases hl : b.lower with
    | none   => simp [integersBetween]
    | some l =>
      cases hu : b.upper with
      | none   => simp [integersBetween]
      | some u =>
        simp only [integersBetween, Kind.int, Option.map_some, Option.bind_some, Val.integer?, List.mem_map, List.mem_range,
          Option.mem_def, Option.some.injEq, exists_eq_left']
        constructor
        · rintro ⟨i, hi, rfl⟩
          exact ⟨l + i, by omega, by omega, rfl⟩
        · rintro ⟨v, hlv, hvu, rfl⟩
          exact ⟨(v - l).toNat, by omega, by congr 1; omega⟩

theorem judged_rational : Judged (Kind.rational : Kind F Rat) where
  unlisted            := exists_unlisted
  outside _ _         := Bounds.exists_outside
  subset _ _ _        := Bounds.subset_iff
  listed _ b fs hp h  := by
    obtain ⟨l, u, hl, hu⟩ := Bounds.bounds_of_listed h
    exact ⟨l, u, hl, hu, fun _ => Bounds.eq_of_listed hp hl hu h⟩
  between ht          := nomatch ht

theorem judged_string : Judged (Kind.string : Kind F String) where
  unlisted   := exists_unlisted
  outside hr := nomatch hr
  subset hr  := nomatch hr
  listed hr  := nomatch hr
  between ht := nomatch ht

section

variable (hx : Typed k x b es) (hy : Typed k y c fs)

-- The values of both.
def Within (x y : RangeValue F) (k : Kind F α) : Prop :=
  ∀ v, x.includesValue (k.val v) = .ok true → y.includesValue (k.val v) = .ok true

include hy in
theorem Typed.includesBound : y.includesBound (k.val v) ↔ c.Mem v := by
  have hmem : c.Mem v ↔ (∀ l ∈ c.lower, l ≤ v) ∧ ∀ u ∈ c.upper, v ≤ u := ⟨fun h => ⟨h.1, h.2⟩, fun h => ⟨h.1, h.2⟩⟩
  rw [RangeValue.includesBound, hy.min, hy.max, hmem]
  cases c.lower <;> cases c.upper <;> simp [lt_false_iff]

include hx hy

theorem Typed.valuesWithin_iff : valuesWithin y x ↔
    (x.values ≠ none → ∀ e ∈ es, c.Mem e ∧ (y.values = none ∨ e ∈ fs)) := by
  cases hv : x.values with
  | none   => simp [RangeValue.valuesWithin, hv]
  | some _ =>
    simp [RangeValue.valuesWithin, hv, hx.enumerated, hy.bounded, hy.enumerates, or_comm]

theorem Typed.within : Within x y k ↔ ∀ v, b.Mem v ∧ (x.values = none ∨ v ∈ es) → c.Mem v ∧ (y.values = none ∨ v ∈ fs) := by
  simp only [Within, hx.includesValue, hy.includesValue]

-- An enumeration holds no more than its values.
theorem Typed.within_listed (hv : x.values ≠ none) : Within x y k ↔ valuesWithin y x := by
  rw [hx.within hy, hx.valuesWithin_iff hy]
  constructor
  · exact fun h _ e he => h e ⟨hx.inside e he, .inr he⟩
  · exact fun h v hm => h hv v (hm.2.resolve_left hv)

theorem Typed.boundsWithin_iff (hv : y.values = none) : boundsWithin y x ↔ b.Ends c := by
  have hmay (o : Option (Val F)) : enumerationMay y x o := by simp [enumerationMay, hv]
  simp only [boundsWithin, Bounds.Ends, hmay, hv, hx.min, hx.max]
  cases b.lower <;> cases b.upper <;> simp [hy.includesBound]

theorem Typed.lacks_iff : (y.min.isSome ∧ x.min = none ∨ y.max.isSome ∧ x.max = none) ↔ b.Lacks c := by
  simp [Bounds.Lacks, hx.min, hx.max, hy.min, hy.max]

theorem Typed.within_unlisted (hj : Judged k) (hr : k.ranged) (hv : x.values = none) (hv' : y.values = none) :
    (boundsWithin y x ↔ Within x y k) ↔
      ¬((y.min.isSome ∧ x.min = none ∨ y.max.isSome ∧ x.max = none) ∧ boundsWithin y x) := by
  have hsub := hj.subset hr b c hx.proper
  rw [hx.boundsWithin_iff hy hv', hx.within hy, hx.lacks_iff hy]
  simp only [hv, hv', true_or, and_true]
  rw [hsub]
  exact Bounds.ends_iff_covers hx.proper

theorem Typed.within_values (hv : x.values = none) (hv' : y.values ≠ none) : Within x y k ↔ ∀ v, b.Mem v → v ∈ fs := by
  rw [hx.within hy]
  simp only [hv, hv', true_or, and_true, false_or]
  exact ⟨fun h v hm => (h v hm).2, fun h v hm => ⟨hy.inside v (h v hm), h v hm⟩⟩

-- Bounds within an enumeration, when these are of integers.
theorem Typed.within_integers (hj : Judged k) (hr : k.ranged) (hi : k.type = .int) (hv : x.values = none)
    (hv' : y.values ≠ none) : boundsWithin y x ↔ Within x y k := by
  have hsome : y.values.isSome := Option.isSome_iff_ne_none.mpr hv'
  have htype : x.type = .int := hx.shaped.type.trans hi
  have hbetween : (integersBetween x.min x.max).all y.enumerates ↔
      ∀ l ∈ b.lower, ∀ u ∈ b.upper, ∀ v, l ≤ v → v ≤ u → v ∈ fs := by
    simp only [List.all_eq_true, hx.min, hx.max, hj.between hi]
    constructor
    · exact fun h l hl u hu v hlv hvu => hy.enumerates.mp (h _ ⟨l, hl, u, hu, v, hlv, hvu, rfl⟩)
    · rintro h _ ⟨l, hl, u, hu, v, hlv, hvu, rfl⟩
      exact hy.enumerates.mpr (h l hl u hu v hlv hvu)
  rw [hx.within_values hy hv hv']
  simp only [boundsWithin, enumerationMay, htype, hsome, if_true, Bool.and_eq_true, Bool.true_and, decide_true, Bool.not_true,
    Bool.false_or, hbetween]
  constructor
  · rintro ⟨⟨hmin, hmax⟩, hall⟩ v hm
    obtain ⟨l, hl, u, hu⟩ : ∃ l, b.lower = some l ∧ ∃ u, b.upper = some u := by
      have hgiven := hx.shaped.given
      rw [hx.min, hx.max] at hgiven hmin hmax
      cases hl : b.lower <;> cases hu : b.upper <;> simp_all
    exact hall l hl u hu v (hm.lower l hl) (hm.upper u hu)
  · intro h
    obtain ⟨l, u, hl, hu, -⟩ := hj.listed hr b fs hx.proper h
    have hcl : y.includesBound (k.val l) := (hy.includesBound).mpr (hy.inside l (h l (hx.proper.mem_lower hl)))
    have hcu : y.includesBound (k.val u) := (hy.includesBound).mpr (hy.inside u (h u (hx.proper.mem_upper hu)))
    refine ⟨⟨by simp [hx.min, hx.max, hl, hu, hcl], by simp [hx.min, hx.max, hl, hu, hcu]⟩, fun l' hl' u' hu' v hlv hvu => ?_⟩
    refine h v ⟨fun l₀ hl₀ => ?_, fun u₀ hu₀ => ?_⟩
    · exact Option.mem_unique hl' hl₀ ▸ hlv
    · exact Option.mem_unique hu' hu₀ ▸ hvu

-- And when not.
theorem Typed.within_numbers (hj : Judged k) (hr : k.ranged) (hi : k.type ≠ .int) (hv : x.values = none)
    (hv' : y.values ≠ none) : ¬boundsWithin y x ∧
      (Within x y k ↔ ∃ m, x.min = some m ∧ x.max = some m ∧ y.enumerates m) := by
  have htype : x.type ≠ .int := hx.shaped.type ▸ hi
  constructor
  · have hgiven := hx.shaped.given
    have hmay (o : Option (Val F)) : enumerationMay y x o = false := by
      simpa [enumerationMay, htype] using Option.isSome_iff_ne_none.mpr hv'
    simp only [boundsWithin, hmay]
    cases hmin : x.min <;> cases hmax : x.max <;> simp_all
  · rw [hx.within_values hy hv hv']
    constructor
    · intro h
      obtain ⟨l, u, hl, hu, heq⟩ := hj.listed hr b fs hx.proper h
      obtain rfl := heq hi
      exact ⟨k.val l, by simp [hx.min, hl], by simp [hx.max, hu], hy.enumerates.mpr (h l (hx.proper.mem_lower hl))⟩
    · rintro ⟨m, hmin, hmax, hm⟩ v hmem
      rw [hx.min, Option.map_eq_some_iff] at hmin
      rw [hx.max, Option.map_eq_some_iff] at hmax
      obtain ⟨l, hl, rfl⟩ := hmin
      obtain ⟨u, hu, e⟩ := hmax
      obtain rfl : u = l := (k.same_iff u l).mp (e ▸ (k.same_iff u u).mpr rfl)
      have heq : v = u := le_antisymm (hmem.upper u hu) (hmem.lower u hl)
      exact heq ▸ hy.enumerates.mp hm

theorem Typed.exact (hj : Judged k) : (includesFinite y x ↔ Within x y k) ↔ ¬Misjudged y x := by
  rw [includesFinite_eq, Bool.and_eq_true]
  by_cases hv : x.values = none
  · have hr : k.ranged := by
      by_contra hr
      obtain ⟨hl, hu⟩ := hx.unranged (by simpa using hr)
      simpa [hx.min, hx.max, hl, hu, hv] using hx.shaped.given
    have hvalues : valuesWithin y x := by simp [valuesWithin, hv]
    simp only [hvalues, and_true]
    by_cases hv' : y.values = none
    · rw [hx.within_unlisted hy hj hr hv hv', not_iff_not]
      constructor
      · rintro ⟨hlacks, hw⟩
        exact .unbounded ⟨hx.shaped.infinite, hx.shaped.empty⟩ ⟨hv, hv'⟩ hlacks ((boundsWithin_unlisted hv').mp hw)
      · rintro (⟨-, -, hlacks, hbounds⟩ | ⟨_, -, ⟨-, hno⟩, -, -⟩ | ⟨hno, -, -⟩)
        · exact ⟨hlacks, (boundsWithin_unlisted hv').mpr hbounds⟩
        · exact absurd hv' hno
        · exact absurd hv hno
    · by_cases hi : k.type = .int
      · refine iff_of_true (hx.within_integers hy hj hr hi hv hv') ?_
        rintro (⟨-, ⟨-, hno⟩, -, -⟩ | ⟨_, hno, -, -, -⟩ | ⟨hno, -, -⟩)
        · exact hv' hno
        · exact hno (hx.shaped.type.trans hi)
        · exact hno hv
      · obtain ⟨hw, hpoint⟩ := hx.within_numbers hy hj hr hi hv hv'
        rw [iff_false_left hw, hpoint, not_iff_not]
        constructor
        · rintro ⟨m, hmin, hmax, hm⟩
          exact .point m (hx.shaped.type ▸ hi) ⟨hv, hv'⟩ ⟨hmin, hmax⟩ hm
        · rintro (⟨-, ⟨-, hno⟩, -, -⟩ | ⟨m, -, -, ⟨hmin, hmax⟩, hm⟩ | ⟨hno, -, -⟩)
          · exact absurd hno hv'
          · exact ⟨m, hmin, hmax, hm⟩
          · exact absurd hv hno
  · rw [hx.within_listed hy hv, and_iff_right_iff_imp, ← not_iff_not, not_not, Classical.not_imp]
    constructor
    · rintro ⟨hw, hb⟩
      exact .redundant hv hw hb
    · rintro (⟨-, ⟨hno, -⟩, -, -⟩ | ⟨_, -, ⟨hno, -⟩, -, -⟩ | ⟨-, hw, hb⟩)
      · exact absurd hno hv
      · exact absurd hno hv
      · exact ⟨hw, hb⟩

end

-- The values of a range that is neither infinite nor empty: some, and not all.
theorem Typed.exists_value (hx : Typed k x b es) (he : x.hasEnumException = false) :
    ∃ v, x.includesValue (k.val v) = .ok true := by
  simp only [hx.includesValue]
  cases hv : x.values with
  | none    =>
    simp only [true_or, and_true]
    have hgiven := hx.shaped.given
    rw [hx.min, hx.max, hv] at hgiven
    cases hl : b.lower with
    | some l => exact ⟨l, hx.proper.mem_lower hl⟩
    | none   =>
      cases hu : b.upper with
      | some u => exact ⟨u, hx.proper.mem_upper hu⟩
      | none   => simp [hl, hu] at hgiven
  | some vs =>
    have hagain := hx.shaped.again
    rw [hv, hx.enumerated] at hagain
    cases es with
    | nil       =>
      have hvs : vs = [] := coerceSet_eq_nil hagain
      simp [hasEnumException, hv, hvs] at he
    | cons e es => exact ⟨e, hx.inside e List.mem_cons_self, .inr List.mem_cons_self⟩

theorem Typed.exists_other (hx : Typed k x b es) (hj : Judged k) : ∃ v, x.includesValue (k.val v) ≠ .ok true := by
  simp only [ne_eq, hx.includesValue]
  by_cases hv : x.values = none
  · have hgiven := hx.shaped.given
    simp only [hx.min, hx.max, hv, Option.isSome_map, Option.isSome_none, Bool.false_eq_true, or_false] at hgiven
    have hr : k.ranged := by
      by_contra hr
      obtain ⟨hl, hu⟩ := hx.unranged (by simpa using hr)
      simp [hl, hu] at hgiven
    obtain ⟨v, hout⟩ := hj.outside hr b hgiven
    exact ⟨v, fun h => hout h.1⟩
  · obtain ⟨v, hno⟩ := hj.unlisted es
    exact ⟨v, fun h => hno (h.2.resolve_left hv)⟩

theorem not_misjudged_cleared {infinite empty : Bool} {t : RangeType} : ¬Misjudged (cleared infinite empty t) x := by
  rintro (⟨-, -, hlacks, -⟩ | ⟨_, -, ⟨-, hno⟩, -, -⟩ | ⟨-, -, hbounds⟩)
  · obtain ⟨h, -⟩ | ⟨h, -⟩ := hlacks
    all_goals cases h
  · exact hno rfl
  · refine hbounds ((boundsWithin_unlisted rfl).mpr ⟨fun m _ => ?_, fun m _ => ?_⟩)
    all_goals rfl

theorem not_misjudged_of_cleared {infinite empty : Bool} {t : RangeType} (h : infinite || empty) :
    ¬Misjudged x (cleared infinite empty t) := by
  rintro (⟨⟨hi, he⟩, -, -, -⟩ | ⟨_, -, -, ⟨hmin, -⟩, -⟩ | ⟨hno, -, -⟩)
  · change infinite = false at hi
    change empty = false at he
    simp [hi, he] at h
  · cases hmin
  · exact hno rfl

-- `includes_range`, whether the ranges are infinite, empty or neither.
theorem includesRange_kind (hj : Judged k) (hx : Built x) (hy : Built y) (htx : x.type = k.type) (hty : y.type = k.type)
    (hex : x.hasEnumException = false) (hey : y.hasEnumException = false) :
    (y.includesRange x = .ok true ↔ Within x y k) ↔ ¬Misjudged y x := by
  have hverify : verifySameType y x = .ok ⟨⟩ := by simp [verifySameType, htx, hty]
  have hinf (v : α) : (cleared true false k.type).includesValue (k.val v) = .ok true :=
    includesValue_infinite (admits_type (k.type_val v))
  have hempty (v : α) : (cleared false true k.type).includesValue (k.val v) ≠ .ok true := includesValue_empty
  obtain ⟨v₀, -⟩ := hj.unlisted []
  simp only [includesRange, hverify, bind, Except.bind, Bool.false_and, Except.ok.injEq]
  obtain rfl | rfl | ⟨b, es, hx⟩ := hx.typed htx
  · refine iff_of_true ?_ (not_misjudged_of_cleared rfl)
    obtain rfl | rfl | ⟨c, fs, hy⟩ := hy.typed hty
    · exact iff_of_true rfl fun v _ => hinf v
    · exact iff_of_false (by simp [cleared]) fun h => hempty v₀ (h v₀ (hinf v₀))
    · obtain ⟨v, hv⟩ := hy.exists_other hj
      refine iff_of_false ?_ fun h => hv (h v (hinf v))
      simp [cleared, hy.shaped.infinite, hy.shaped.empty]
  · refine iff_of_true ?_ (not_misjudged_of_cleared rfl)
    exact iff_of_true rfl fun v hv => absurd hv (hempty v)
  · obtain rfl | rfl | ⟨c, fs, hy⟩ := hy.typed hty
    · refine iff_of_true ?_ not_misjudged_cleared
      refine iff_of_true ?_ fun v _ => hinf v
      simp [cleared, hx.shaped.empty]
    · refine iff_of_true ?_ not_misjudged_cleared
      obtain ⟨v, hv⟩ := hx.exists_value hex
      refine iff_of_false ?_ fun h => hempty v (h v hv)
      simp [cleared, hx.shaped.empty]
    · rw [← hx.exact hy hj]
      simp [hx.shaped.infinite, hx.shaped.empty, hy.shaped.infinite, hy.shaped.empty]

theorem within_iff : Within x y k ↔
    ∀ v : Val F, v.type = k.type → x.includesValue v = .ok true → y.includesValue v = .ok true := by
  constructor
  · intro h v hv
    obtain ⟨a, rfl⟩ := k.of_type v hv
    exact h a
  · exact fun h a => h (k.val a) (k.type_val a)

end Kinds

section

variable {t : RangeType} {x y : RangeValue F}

-- Every value of `x` is one of `y`.
def Subrange (t : RangeType) (x y : RangeValue F) : Prop :=
  ∀ v : Val F, v.type = t → x.includesValue v = .ok true → y.includesValue v = .ok true

theorem includesRange_exact (ht : t = .int ∨ t = .rational ∨ t = .string) (hx : Built x) (hy : Built y)
    (htx : x.type = t) (hty : y.type = t) (hex : x.hasEnumException = false) (hey : y.hasEnumException = false) :
    (y.includesRange x = .ok true ↔ Subrange t x y) ↔ ¬Misjudged y x := by
  obtain rfl | rfl | rfl := ht
  · rw [← includesRange_kind judged_int hx hy htx hty hex hey, within_iff]
    rfl
  · rw [← includesRange_kind judged_rational hx hy htx hty hex hey, within_iff]
    rfl
  · rw [← includesRange_kind judged_string hx hy htx hty hex hey, within_iff]
    rfl

end

namespace Halves

local instance interpreter : Interpreter Rat := .exact

def upToFive : RangeValue Rat where
  infinite := false
  empty := false
  type := .int
  min := none
  max := some (.int 5)
  values := none
  enumerated := []

def oneToTen : RangeValue Rat :=
  { upToFive with min := some (.int 1), max := some (.int 10) }

theorem built : Built upToFive ∧ Built oneToTen :=
  ⟨⟨{ max := some (.int 5) }, by decide⟩, ⟨{ min := some (.int 1), max := some (.int 10) }, by decide⟩⟩

-- Nothing below 1 is in the larger range, which is said to include the smaller one.
theorem includesRange_upToFive : ¬(oneToTen.includesRange upToFive = .ok true ↔ Subrange .int upToFive oneToTen) := by
  intro h
  have hno := h.mp (by decide) (.int (-100)) rfl (by decide)
  revert hno
  decide

theorem includesRange_exact_oneToTen : (upToFive.includesRange oneToTen = .ok true ↔ Subrange .int oneToTen upToFive) ↔
    ¬Misjudged upToFive oneToTen :=
  includesRange_exact (.inl rfl) built.2 built.1 rfl rfl rfl rfl

end Halves

end RangeValue
end Ccf
