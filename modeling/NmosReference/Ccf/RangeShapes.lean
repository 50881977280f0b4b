import NmosReference.Ccf.Values
import Mathlib

-- What the constructor makes sure of.
namespace Ccf
namespace RangeValue

variable {F : Type} [Interpreter F] {t : RangeType} {r : RangeValue F} {args : RangeArgs F} {v : Val F}
  {bound bound' : Option (Val F)}

-- What was made by the constructor.
def Built (r : RangeValue F) : Prop :=
  ∃ args, make args = .ok r

-- A range that is neither infinite nor empty: bounds that do not cross, an enumeration between them, or both.
structure Shaped (t : RangeType) (r : RangeValue F) : Prop where
  typed      : t ≠ .untyped
  type       : r.type = t
  infinite   : r.infinite = false
  empty      : r.empty = false
  min        : ∀ m ∈ r.min, m.type = t
  max        : ∀ m ∈ r.max, m.type = t
  enumerated : ∀ v ∈ r.enumerated, v.type = t
  apart      : Val.Apart r.enumerated
  uncrossed  : crossed r.min r.max = false
  inside     : ∀ v ∈ r.enumerated, within r.min r.max v
  -- Strings and booleans have no bounds.
  unranged   : t = .string ∨ t = .bool → r.min = none ∧ r.max = none
  given      : r.min.isSome ∨ r.max.isSome ∨ r.values.isSome
  -- It can be made again.
  again      : coerceSet t (r.values.getD []) = .ok r.enumerated
  checkMin   : checkBound t r.min = .ok ⟨⟩
  checkMax   : checkBound t r.max = .ok ⟨⟩

section Construction

-- A bound that passed the checks passes them as it is held.
theorem checkBound_again (h : checkBound t bound = .ok ⟨⟩) (hc : coerceBound t bound = .ok bound') :
    checkBound t bound' = .ok ⟨⟩ := by
  cases bound with
  | none   => cases hc; rfl
  | some v =>
    change Except.map some (coerce t v) = _ at hc
    cases t
    case string => cases h
    case bool   => cases h
    case int    =>
      obtain ⟨integral, hi, h⟩ := Except.bind_eq_ok.mp h
      split at h
      case isTrue ht =>
        cases hn : Interpreter.int v with
        | error e => simp [coerce, hn, Except.map] at hc
        | ok n    =>
          simp only [coerce, hn, Except.map, Except.ok.injEq] at hc
          subst hc
          subst ht
          simp [checkBound, Interpreter.isInteger_int hi hn, bind, Except.bind]
      case isFalse => cases h
    all_goals
      cases bound' with
      | none   => rfl
      | some _ => rfl

theorem unranged_bound (ht : t = .string ∨ t = .bool) (h : checkBound t bound = .ok ⟨⟩) : bound = none := by
  cases bound with
  | none   => rfl
  | some v =>
    obtain rfl | rfl := ht
    all_goals cases h

theorem check_ok {r' : RangeValue F} (h : postInit.check r = .ok r') :
    r' = r ∧ ∀ v ∈ r.enumerated, within r.min r.max v := by
  unfold postInit.check at h
  dsimp only at h
  split at h
  case isTrue hnone =>
    cases h
    refine ⟨rfl, fun v hv => ?_⟩
    have hin := List.filter_eq_nil_iff.mp hnone v hv
    simpa using hin
  case isFalse => cases h

theorem postInit_ok {r' : RangeValue F} (h : postInit r = .ok r') :
    r' = cleared true false r.type ∨ r' = cleared false true r.type ∨
      r.infinite = false ∧ r.empty = false ∧ crossed r.min r.max = false ∧ postInit.check r = .ok r' := by
  unfold postInit at h
  split at h
  case isTrue  => cases h; exact .inl rfl
  case isFalse hinf =>
    split at h
    case isTrue  => cases h; exact .inr <| .inl rfl
    case isFalse hempty =>
      split at h
      case isTrue         => cases h; exact .inr <| .inl rfl
      case isFalse hcross => exact .inr <| .inr ⟨by simpa using hinf, by simpa using hempty, by simpa using hcross, h⟩

-- What the constructor checks, and what it passes on.
theorem construct_ok (h : construct args = .ok r) : ∃ min max enumerated,
    checkBound (inferType args) args.min = .ok ⟨⟩ ∧ checkBound (inferType args) args.max = .ok ⟨⟩ ∧
    coerceBound (inferType args) args.min = .ok min ∧ coerceBound (inferType args) args.max = .ok max ∧
    coerceSet (inferType args) (args.values.getD []) = .ok enumerated ∧
    (inferType args = .untyped → enumerated = []) ∧
    postInit {
      infinite := args.infinite || !args.empty && args.values.isNone && args.min.isNone && args.max.isNone
      empty := args.empty, type := inferType args, min, max, values := args.values, enumerated } = .ok r := by
  unfold construct at h
  split at h
  case isTrue  => cases h
  case isFalse =>
    obtain ⟨⟨⟩, hmin, h⟩ := Except.bind_eq_ok.mp h
    obtain ⟨⟨⟩, hmax, h⟩ := Except.bind_eq_ok.mp h
    obtain ⟨min, hcmin, h⟩ := Except.bind_eq_ok.mp h
    obtain ⟨max, hcmax, h⟩ := Except.bind_eq_ok.mp h
    obtain ⟨enumerated, hes, h⟩ := Except.bind_eq_ok.mp h
    split at h
    case isTrue       => cases h
    case isFalse huntyped =>
      exact ⟨min, max, enumerated, hmin, hmax, hcmin, hcmax, hes, fun ht => by simpa [ht] using huntyped, h⟩

theorem construct_shaped (h : construct args = .ok r) (ht : r.type ≠ .untyped) :
    r = cleared true false r.type ∨ r = cleared false true r.type ∨ Shaped r.type r := by
  obtain ⟨min, max, enumerated, hmin, hmax, hcmin, hcmax, hes, -, hpost⟩ := construct_ok h
  obtain rfl | rfl | ⟨hinf, hempty, hcross, hcheck⟩ := postInit_ok hpost
  · exact .inl rfl
  · exact .inr <| .inl rfl
  · obtain ⟨rfl, hinside⟩ := check_ok hcheck
    change inferType args ≠ .untyped at ht
    dsimp only at hinf hempty hcross
    obtain ⟨htyped, hapart⟩ := type_coerceSet ht hes
    obtain ⟨hsmin, htmin⟩ := coerceBound_ok hcmin
    obtain ⟨hsmax, htmax⟩ := coerceBound_ok hcmax
    have hmin' := checkBound_again hmin hcmin
    have hmax' := checkBound_again hmax hcmax
    refine .inr <| .inr ⟨ht, rfl, hinf, hempty, htmin ht, htmax ht, htyped, hapart, hcross, hinside,
      fun hu => ⟨unranged_bound hu hmin', unranged_bound hu hmax'⟩, ?_, hes, hmin', hmax'⟩
    rw [hsmin, hsmax]
    by_contra hnone
    simp only [not_or, Bool.not_eq_true, Option.isSome_eq_false_iff] at hnone
    simp [hempty, hnone] at hinf

theorem Built.shaped (h : Built r) (ht : r.type = t) (hn : t ≠ .untyped) :
    r = cleared true false t ∨ r = cleared false true t ∨ Shaped t r := by
  subst ht
  obtain ⟨args, h⟩ := h
  exact construct_shaped h hn

-- An enumeration that is empty, without bounds.
def listless : RangeValue F :=
  { cleared false false .untyped with values := some [] }

-- An untyped range holds nothing but an enumeration that is empty.
theorem Built.untyped_cases (h : Built r) (ht : r.type = .untyped) :
    r = cleared true false .untyped ∨ r = cleared false true .untyped ∨ r = listless := by
  obtain ⟨args, h⟩ := h
  obtain ⟨min, max, enumerated, -, -, hcmin, hcmax, hes, huntyped, hpost⟩ := construct_ok h
  obtain rfl | rfl | ⟨hinf, hempty, -, hcheck⟩ := postInit_ok hpost
  · exact .inl (by rw [← ht]; rfl)
  · exact .inr <| .inl (by rw [← ht]; rfl)
  · obtain ⟨rfl, -⟩ := check_ok hcheck
    dsimp only at hinf hempty ht huntyped
    rw [ht] at hes hcmin hcmax
    obtain rfl := huntyped ht
    have hvalues : args.values.getD [] = [] := coerceSet_eq_nil hes
    -- a bound would have given the range its type
    have hbounds : (present args.min).or (present args.max) = none := by
      unfold inferType at ht
      split at ht
      case isTrue hne => exact absurd ht hne
      case isFalse =>
        split at ht
        case h_1 probe hp =>
          have hprobe : probe.type ≠ .untyped := by
            obtain hp | ⟨-, hp⟩ := Option.or_eq_some_iff.mp hp
            · simpa using (Option.mem_filter_iff.mp hp).2
            · simpa using (Option.mem_filter_iff.mp hp).2
          exact absurd ht hprobe
        case h_2 => assumption
        case h_3 => assumption
    obtain ⟨hmin, hmax⟩ := Option.or_eq_none_iff.mp hbounds
    cases hv : args.values with
    | none    => simp [hempty, hv, hmin, hmax] at hinf
    | some vs =>
      obtain rfl : vs = [] := by simpa [hv] using hvalues
      rw [hmin] at hcmin
      rw [hmax] at hcmax
      cases hcmin
      cases hcmax
      rw [hv] at hinf ht
      have hinf : args.infinite = false := by simpa using hinf
      rw [hempty, hinf] at ht
      refine .inr <| .inr ?_
      simp only [listless, cleared, hinf, hempty, ht]
      rfl

theorem Built.untyped (h : Built r) (ht : r.type = .untyped) (he : r.hasEnumException = false) :
    r = cleared true false .untyped ∨ r = cleared false true .untyped := by
  obtain h | h | rfl := h.untyped_cases ht
  · exact .inl h
  · exact .inr h
  · cases he

end Construction

section Making

variable {values : Option (List (Val F))} {min max : Option (Val F)} {vs : List (Val F)}

theorem make_empty : make ({ empty := true, type := t } : RangeArgs F) = .ok (cleared false true t) := by
  cases t <;> rfl

theorem make_infinite : make ({ infinite := true, type := t } : RangeArgs F) = .ok (cleared true false t) := by
  cases t <;> rfl

-- A range is made of itself.
theorem Shaped.make_args (h : Shaped t r) : make (r.args t) = .ok r := by
  obtain ⟨infinite, empty, type, min, max, values, enumerated⟩ := r
  obtain ⟨ht, rfl, rfl, rfl, hmin, hmax, -, -, hcross, hinside, -, hgiven, hagain, hcmin, hcmax⟩ := h
  dsimp only at *
  have hinfer (min max : Option (Val F)) : inferType { type, values, min, max } = type := if_pos ht
  have hnone : (values.isNone && min.isNone && max.isNone) = false := by
    cases min <;> cases max <;> cases values <;> simp_all
  have hcheck : postInit.check ⟨false, false, type, min, max, values, enumerated⟩ = .ok _ := if_pos <|
    List.filter_eq_nil_iff.mpr fun v hv => by simp [hinside v hv]
  simp only [make, construct, args, present_self ht hmin, present_self ht hmax, hinfer, hcmin, hcmax, coerceBound_self hmin,
    coerceBound_self hmax, hagain, bind, Except.bind, Bool.false_or, Bool.not_false, Bool.true_and, hnone]
  rw [if_neg (by simp), if_neg (by simp [ht])]
  unfold postInit
  rw [if_neg (by simp), if_neg (by simp), if_neg (by simp [hcross]), hcheck]

theorem built_cleared (infinite : Bool) : Built (cleared infinite (!infinite) t : RangeValue F) := by
  cases infinite with
  | true  => exact ⟨_, make_infinite⟩
  | false => exact ⟨_, make_empty⟩

theorem make_cleared (infinite : Bool) :
    make ((RangeValue.cleared infinite (!infinite) t : RangeValue F).args t) = .ok (.cleared infinite (!infinite) t) := by
  cases infinite with
  | true  => exact make_infinite
  | false => exact make_empty

-- What was made once is made of itself.
theorem Built.again (h : Built r) : make (r.args r.type) = .ok r := by
  by_cases ht : r.type = .untyped
  case pos =>
    obtain rfl | rfl | rfl := h.untyped_cases ht
    · exact make_cleared true
    · exact make_cleared false
    · rfl
  case neg =>
    obtain he | he | hs := h.shaped rfl ht
    · rw [he]; exact make_cleared true
    · rw [he]; exact make_cleared false
    · exact hs.make_args

-- Bounds that do not cross, without an enumeration.
theorem shaped_bounds (ht : t ≠ .untyped) (hmin : ∀ m ∈ min, m.type = t) (hmax : ∀ m ∈ max, m.type = t)
    (hc : crossed min max = false) (hg : min.isSome ∨ max.isSome) (hcmin : checkBound t min = .ok ⟨⟩)
    (hcmax : checkBound t max = .ok ⟨⟩) : Shaped t ⟨false, false, t, min, max, none, ([] : List (Val F))⟩ where
  typed             := ht
  type              := rfl
  infinite          := rfl
  empty             := rfl
  min               := hmin
  max               := hmax
  enumerated _ h    := absurd h List.not_mem_nil
  apart             := .nil
  uncrossed         := hc
  inside _ h        := absurd h List.not_mem_nil
  unranged hu       := ⟨unranged_bound hu hcmin, unranged_bound hu hcmax⟩
  given             := hg.imp_right .inl
  again             := rfl
  checkMin          := hcmin
  checkMax          := hcmax

-- An enumeration without bounds.
theorem shaped_values (ht : t ≠ .untyped) (hv : ∀ v ∈ vs, v.type = t) (ha : Val.Apart vs) :
    Shaped t ⟨false, false, t, none, none, some vs, vs⟩ where
  typed         := ht
  type          := rfl
  infinite      := rfl
  empty         := rfl
  min _ h       := by cases h
  max _ h       := by cases h
  enumerated    := hv
  apart         := ha
  uncrossed     := rfl
  inside v _    := by simp [within]
  unranged _    := ⟨rfl, rfl⟩
  given         := .inr <| .inr rfl
  again         := coerceSet_self hv ha
  checkMin      := rfl
  checkMax      := rfl

end Making

section Values

-- The values that a bound lets pass, and those that compare with it.
def Passes (lt : Val F → Val F → Bool) (bound : Option (Val F)) (v : Val F) : Prop :=
  ∀ m ∈ bound, lt v m = false

def Allows (le : Val F → Val F → Bool) (bound : Option (Val F)) (v : Val F) : Prop :=
  ∀ m ∈ bound, le m v

omit [Interpreter F] in
theorem admits_type (h : v.type = t) : admits t v := by
  subst h
  cases v <;> simp [admits, Val.type]

variable {min max : Option (Val F)}

-- Strings and booleans pass without being compared.
theorem bounded_passes (hu : v.isBool || v.isStr → min = none ∧ max = none) :
    bounded min max v ↔ Passes Val.lt min v ∧ Passes (fun v w => w.lt v) max v := by
  have hall : bounded min max v ↔ (v.isBool || v.isStr) ∨ Passes Val.lt min v ∧ Passes (fun v w => w.lt v) max v := by
    simp [bounded, Passes, Option.all_eq_true]
  rw [hall, or_iff_right_iff_imp]
  intro h
  obtain ⟨rfl, rfl⟩ := hu h
  simp [Passes]

theorem within_allows (hu : v.isBool || v.isStr → min = none ∧ max = none) :
    within min max v ↔ Allows Val.le min v ∧ Allows (fun v w => w.le v) max v := by
  have hall : within min max v ↔ (v.isBool || v.isStr) ∨ Allows Val.le min v ∧ Allows (fun v w => w.le v) max v := by
    simp [within, Allows, Option.all_eq_true]
  rw [hall, or_iff_right_iff_imp]
  intro h
  obtain ⟨rfl, rfl⟩ := hu h
  simp [Allows]

omit [Interpreter F] in
theorem type_of_isNan (hn : v.isNan) : v.type = .float := by
  cases v <;> simp_all [Val.isNan, Val.type]

theorem uncrossed_lt {a b : Val F} (h : crossed min max = false) (ha : a ∈ min) (hb : b ∈ max) : b.lt a = false := by
  rw [ha, hb] at h
  exact h

-- What a range includes.
structure Includes (r : RangeValue F) (v : Val F) : Prop where
  min    : Passes Val.lt r.min v
  max    : Passes (fun v w => w.lt v) r.max v
  listed : r.values = none ∨ r.enumerates v

theorem includesValue_iff (ht : r.type = v.type) (hi : r.infinite = false) (he : r.empty = false)
    (hu : v.isBool || v.isStr → r.min = none ∧ r.max = none) : r.includesValue v = .ok true ↔ Includes r v := by
  have hverify : r.verifyValueType v = .ok ⟨⟩ := by
    rw [verifyValueType, ht, if_pos (admits_type rfl)]
  have hinc : Includes r v ↔ bounded r.min r.max v ∧ (r.enumerates v ∨ r.values.isNone) := by
    rw [bounded_passes hu, Option.isNone_iff_eq_none, or_comm]
    exact ⟨fun h => ⟨⟨h.min, h.max⟩, h.listed⟩, fun h => ⟨h.1.1, h.1.2, h.2⟩⟩
  rw [hinc, includesValue, hverify]
  simp [bind, Except.bind, hi, he]

variable (h : Shaped t r)

include h

theorem Shaped.unbounded (hv : v.type = t) (hu : v.isBool || v.isStr) : r.min = none ∧ r.max = none := by
  refine h.unranged ?_
  subst hv
  cases v <;> simp_all [Val.isBool, Val.isStr, Val.type]

theorem Shaped.enumerates (hv : v.type = t) : r.enumerates v ↔ v ∈ r.enumerated ∧ v ≠ .nan none := by
  rw [RangeValue.enumerates, List.any_eq_true]
  constructor
  case mp =>
    rintro ⟨w, hw, hs⟩
    obtain ⟨rfl, hn⟩ := (Val.same_iff (hv.trans (h.enumerated w hw).symm)).mp hs
    exact ⟨hw, hn⟩
  case mpr =>
    rintro ⟨hm, hn⟩
    exact ⟨v, hm, (Val.same_iff rfl).mpr ⟨rfl, hn⟩⟩

theorem Shaped.unlisted (hv : r.values = none) : r.enumerated = [] := by
  have hagain := h.again
  rw [hv] at hagain
  exact (Except.ok.inj hagain).symm

theorem Shaped.includesValue (hv : v.type = t) : r.includesValue v = .ok true ↔ Includes r v :=
  includesValue_iff (h.type.trans hv.symm) h.infinite h.empty (h.unbounded hv)

-- What is enumerated is included, unless it is a NaN that is nowhere else.
theorem Shaped.includes_enumerated (hm : v ∈ r.enumerated) (hn : v ≠ .nan none) : Includes r v := by
  have hv := h.enumerated v hm
  have hc := Val.compares (F := F) h.typed
  obtain ⟨hmin, hmax⟩ := (within_allows (h.unbounded hv)).mp (h.inside v hm)
  refine ⟨fun m hb => ?_, fun m hb => ?_, .inr <| (h.enumerates hv).mpr ⟨hm, hn⟩⟩
  · exact hc.not_lt (h.min m hb) hv (hmin m hb)
  · exact hc.not_lt hv (h.max m hb) (hmax m hb)

-- The bounds let each other pass.
theorem Shaped.passes_bound {m : Val F} (hm : m ∈ r.min ∨ m ∈ r.max) :
    Passes Val.lt r.min m ∧ Passes (fun v w => w.lt v) r.max m := by
  have hc := Val.compares (F := F) h.typed
  refine ⟨fun a ha => ?_, fun b hb => ?_⟩
  · obtain hm | hm := hm
    · exact Option.mem_unique ha hm ▸ hc.irrefl
    · exact uncrossed_lt h.uncrossed ha hm
  · obtain hm | hm := hm
    · exact uncrossed_lt h.uncrossed hm hb
    · exact Option.mem_unique hb hm ▸ hc.irrefl

theorem Shaped.includes_bound (hv : r.values = none) {m : Val F} (hm : m ∈ r.min ∨ m ∈ r.max) : Includes r m :=
  ⟨(h.passes_bound hm).1, (h.passes_bound hm).2, .inl hv⟩

-- Something is included, unless the enumeration is empty.
theorem Shaped.exists_value (he : r.hasEnumException = false) (hn : .nan none ∉ r.enumerated) :
    ∃ v, v.type = t ∧ Includes r v := by
  cases hv : r.values with
  | none    =>
    have hgiven := h.given
    rw [hv, Option.isSome_iff_exists, Option.isSome_iff_exists] at hgiven
    obtain ⟨m, hm⟩ | ⟨m, hm⟩ | hno := hgiven
    · exact ⟨m, h.min m hm, h.includes_bound hv (.inl hm)⟩
    · exact ⟨m, h.max m hm, h.includes_bound hv (.inr hm)⟩
    · cases hno
  | some vs =>
    have hagain := h.again
    cases hes : r.enumerated with
    | nil       =>
      rw [hv, hes] at hagain
      have hnil : vs = [] := coerceSet_eq_nil hagain
      simp [hasEnumException, hv, hnil] at he
    | cons e es =>
      have hm : e ∈ r.enumerated := hes ▸ List.mem_cons_self
      exact ⟨e, h.enumerated e hm, h.includes_enumerated hm fun h => hn (h ▸ hm)⟩

end Values

theorem includesValue_infinite (hv : admits t v) : (cleared true false t).includesValue v = .ok true := by
  simp [includesValue, verifyValueType, cleared, hv, bind, Except.bind]

theorem includesValue_empty : (cleared false true t).includesValue v ≠ .ok true := by
  unfold includesValue
  rw [ne_eq, Except.bind_eq_ok]
  rintro ⟨_, -, h⟩
  simp [cleared] at h

end RangeValue
end Ccf
