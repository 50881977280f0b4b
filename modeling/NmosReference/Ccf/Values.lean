import NmosReference.Ccf.Range
import Mathlib

-- How values of one type compare, and what is made of them.
namespace Ccf

variable {F : Type}

namespace Val

-- What two comparisons have in common with `<` and `<=`. A NaN compares with nothing.
structure Compares (t : RangeType) (lt le : Val F → Val F → Bool) : Prop where
  of_not_lt {v w : Val F} : v.type = t → w.type = t → v.isNan = false → w.isNan = false → lt v w = false → le w v
  not_lt    {v w : Val F} : v.type = t → w.type = t → le v w → lt w v = false
  of_lt     {v w : Val F} : v.type = t → w.type = t → lt v w → le v w
  trans     {v w u : Val F} : v.type = t → w.type = t → u.type = t → le v w → le w u → le v u
  irrefl    {v : Val F} : lt v v = false
  number    {v w : Val F} : le v w → v.isNan = false ∧ w.isNan = false
  nan       {v w : Val F} : v.isNan ∨ w.isNan → lt v w = false

-- From the other end.
theorem Compares.flip {t : RangeType} {lt le : Val F → Val F → Bool} (h : Compares t lt le) :
    Compares t (fun v w => lt w v) (fun v w => le w v) where
  of_not_lt hv hw hn hn' := h.of_not_lt hw hv hn' hn
  not_lt hv hw           := h.not_lt hw hv
  of_lt hv hw            := h.of_lt hw hv
  trans hv hw hu h₁ h₂   := h.trans hu hw hv h₂ h₁
  irrefl                 := h.irrefl
  number h'              := (h.number h').symm
  nan h'                 := h.nan h'.symm

variable [Interpreter F] {t : RangeType} {v w u : Val F} {vs ws : List (Val F)}

-- The values of a type, one constructor of `Val` after the other.
theorem compares (ht : t ≠ .untyped) : Compares t (Val.lt (F := F)) Val.le where
  of_not_lt {v w} hv hw := by
    subst hv
    cases v <;> cases w
    case str.str s t => exact fun _ _ h => decide_eq_true (not_lt.mp (of_decide_eq_false h))
    all_goals simp_all [type, isNan, lt, le, integer?]
  not_lt {v w} hv hw    := by
    subst hv
    cases v <;> cases w
    case str.str s t => exact fun h => decide_eq_false (not_lt.mpr (of_decide_eq_true h))
    all_goals simp_all [type, lt, le, integer?]
  of_lt {v w} hv hw     := by
    subst hv
    cases v <;> cases w
    case str.str s t => exact fun h => decide_eq_true (le_of_lt (of_decide_eq_true h))
    all_goals simp_all [type, lt, le, integer?] <;> exact le_of_lt
  trans {v w u} hv hw hu := by
    subst hv
    cases v <;> cases w <;> simp_all [type, le, integer?] <;> cases u <;> simp_all <;> exact le_trans
  irrefl {v}            := by
    cases v
    case str s => exact decide_eq_false (lt_irrefl s)
    all_goals simp [lt, integer?]
  number {v w} h        := by
    cases v <;> cases w <;> simp_all [isNan, le, integer?]
  nan {v w} h           := by
    cases v <;> cases w <;> simp_all [isNan, lt, integer?]

-- A number of one type is one value.
theorem eq_of_number (hv : v.type = w.type) {q : Rat} (h : v.number = some q) (h' : w.number = some q) : v = w := by
  cases v <;> cases w <;> simp_all [type, number]
  case bool.bool b c =>
    have he := h.trans h'.symm
    revert he
    cases b <;> cases c <;> simp
  case int.int     => exact Int.cast_injective (h.trans h'.symm)
  case float.float => exact Interpreter.number_inj h h'

theorem same_iff (h : v.type = w.type) : v.same w ↔ v = w ∧ v ≠ .nan Option.none := by
  unfold same
  split
  case h_1 p q hp hq =>
    rw [decide_eq_true_iff]
    constructor
    case mp =>
      rintro rfl
      refine ⟨eq_of_number h hp hq, ?_⟩
      rintro rfl
      cases hp
    case mpr =>
      rintro ⟨rfl, -⟩
      exact Option.some.inj (hp.symm.trans hq)
  case h_2 => exact decide_eq_true_iff
  case h_3 hno hno' =>
    refine iff_of_false Bool.false_ne_true ?_
    rintro ⟨rfl, -⟩
    cases hn : v.number with
    | none   => exact hno' hn hn
    | some p => exact hno p p hn hn

theorem mem_distinct (h : v ∈ distinct vs) : v ∈ vs := by
  induction vs with
  | nil          => exact h
  | cons w vs hi =>
    obtain rfl | h := List.mem_cons.mp h
    · exact List.mem_cons_self
    · exact List.mem_cons_of_mem _ (hi (List.mem_filter.mp h).1)

theorem distinct_eq_nil : distinct vs = [] ↔ vs = [] := by
  cases vs <;> simp [distinct]

-- Nothing in it equals what comes later.
def Apart (vs : List (Val F)) : Prop :=
  vs.Pairwise fun v w => v.same w = false

theorem apart_distinct (vs : List (Val F)) : Apart (distinct vs) := by
  induction vs with
  | nil          => exact .nil
  | cons v vs hi => exact .cons (fun w hw => by simpa using (List.mem_filter.mp hw).2) (hi.filter _)

theorem Apart.distinct_eq (h : Apart vs) : distinct vs = vs := by
  induction h with
  | nil           => rfl
  | cons hv _ ih => rw [distinct, ih, List.filter_eq_self.mpr fun w hw => by simp [hv w hw]]

end Val

namespace RangeValue

variable [Interpreter F] {t : RangeType} {v w : Val F} {vs ws : List (Val F)} {bound bound' : Option (Val F)}

-- What is made has the type that it is made for, and what has the type is left as it is.

theorem type_coerce (ht : t ≠ .untyped) (h : coerce t v = .ok w) : w.type = t := by
  cases t with
  | untyped  => contradiction
  | bool     => cases h; rfl
  | string   => cases h; rfl
  | int      => obtain ⟨n, -, rfl⟩ := Except.map_eq_ok.mp h; rfl
  | float    => exact Interpreter.type_float h
  | rational => obtain ⟨q, -, rfl⟩ := Except.map_eq_ok.mp h; rfl

theorem coerce_self (h : v.type = t) : coerce t v = .ok v := by
  subst h
  cases v with
  | none       => rfl
  | bool b     => simp [coerce, Val.type, Interpreter.bool_bool]
  | int n      => simp [coerce, Val.type, Interpreter.int_int, Except.map]
  | float f    => exact Interpreter.float_float rfl
  | nan object => exact Interpreter.float_float rfl
  | rational q => simp [coerce, Val.type, Interpreter.fraction_rational, Except.map]
  | str s      => simp [coerce, Val.type, Interpreter.str_str]

theorem type_coerceAll (ht : t ≠ .untyped) (h : coerceAll t vs = .ok ws) : ∀ w ∈ ws, w.type = t := by
  induction vs generalizing ws with
  | nil          => cases h; simp
  | cons v vs hi =>
    obtain ⟨w, hw, h⟩ := Except.bind_eq_ok.mp h
    obtain ⟨ws', hws, h⟩ := Except.bind_eq_ok.mp h
    cases h
    exact List.forall_mem_cons.mpr ⟨type_coerce ht hw, hi hws⟩

theorem coerceAll_self (h : ∀ v ∈ vs, v.type = t) : coerceAll t vs = .ok vs := by
  induction vs with
  | nil          => rfl
  | cons v vs hi =>
    obtain ⟨hv, hvs⟩ := List.forall_mem_cons.mp h
    simp [coerceAll, coerce_self hv, hi hvs, bind, Except.bind]

theorem coerceAll_eq_nil (h : coerceAll t vs = .ok []) : vs = [] := by
  cases vs with
  | nil       => rfl
  | cons v vs =>
    obtain ⟨w, -, h⟩ := Except.bind_eq_ok.mp h
    obtain ⟨ws, -, h⟩ := Except.bind_eq_ok.mp h
    cases h

theorem type_coerceSet (ht : t ≠ .untyped) (h : coerceSet t vs = .ok ws) : (∀ w ∈ ws, w.type = t) ∧ Val.Apart ws := by
  obtain ⟨us, hu, rfl⟩ := Except.map_eq_ok.mp h
  exact ⟨fun w hw => type_coerceAll ht hu w (Val.mem_distinct hw), Val.apart_distinct us⟩

theorem coerceSet_self (h : ∀ v ∈ vs, v.type = t) (ha : Val.Apart vs) : coerceSet t vs = .ok vs := by
  rw [coerceSet, ha.distinct_eq, coerceAll_self h]
  exact congrArg Except.ok ha.distinct_eq

theorem coerceSet_eq_nil (h : coerceSet t vs = .ok []) : vs = [] := by
  obtain ⟨us, hu, hnil⟩ := Except.map_eq_ok.mp h
  rw [Val.distinct_eq_nil.mp hnil] at hu
  exact Val.distinct_eq_nil.mp (coerceAll_eq_nil hu)

theorem coerceBound_ok (h : coerceBound t bound = .ok bound') :
    bound'.isSome = bound.isSome ∧ (t ≠ .untyped → ∀ m ∈ bound', m.type = t) := by
  cases bound with
  | none   => cases h; simp
  | some v =>
    obtain ⟨w, hw, rfl⟩ := Except.map_eq_ok.mp h
    refine ⟨rfl, fun ht m hm => ?_⟩
    cases hm
    exact type_coerce ht hw

theorem coerceBound_self (h : ∀ m ∈ bound, m.type = t) : coerceBound t bound = .ok bound := by
  cases bound with
  | none   => rfl
  | some v => rw [coerceBound, coerce_self (h v rfl)]; rfl

omit [Interpreter F] in
theorem present_self (ht : t ≠ .untyped) (h : ∀ m ∈ bound, m.type = t) : present bound = bound := by
  cases bound with
  | none   => rfl
  | some v => simp [present, Option.filter, h v rfl, ht]

end RangeValue

end Ccf
