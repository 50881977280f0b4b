import NmosReference.Ccf.RangeIntersection
import NmosReference.Ccf.Sets

-- What the constriction of capabilities may end with.
namespace Ccf

variable {F : Type} [Interpreter F]

namespace RangeValue

variable {t : RangeType} {x y r : RangeValue F} {v : Val F}

theorem Built.discrete {type : RangeType} {min max : Option (Val F)} {enumerated : List (Val F)}
    (h : RangeValue.discrete type min max enumerated = .ok r) : Built r := by
  dsimp only [RangeValue.discrete] at h
  split at h
  all_goals exact ⟨_, h⟩

theorem Built.intersection (h : x.intersection y = .ok r) : Built r := by
  unfold RangeValue.intersection at h
  obtain ⟨⟨⟩, -, h⟩ := Except.bind_eq_ok.mp h
  dsimp only at h
  split_ifs at h
  case neg =>
    split at h
    case h_1 => exact ⟨_, h⟩
    all_goals exact Built.discrete h
  all_goals exact ⟨_, h⟩

theorem Compatible.of_ok (h : x.intersection y = .ok r) : Compatible x.type y.type := by
  by_contra hc
  simp only [Compatible, not_or] at hc
  rw [RangeValue.intersection, verifySameType, if_neg (not_or.mpr ⟨hc.1, hc.2.1⟩), if_pos hc.2.2] at h
  cases h

-- A value of the range's own type that it includes.
def Holds (r : RangeValue F) (v : Val F) : Prop :=
  r.includesValue v = .ok true ∧ (r.type = .untyped ∨ v.type = r.type)

theorem not_holds_cleared {t : RangeType} {v : Val F} : ¬(RangeValue.cleared false true t).Holds v :=
  fun h => includesValue_empty h.1

omit [Interpreter F] in
theorem Compatible.common (h : Compatible x.type y.type) : x.type = .untyped ∧ y.type = .untyped ∨
    ∃ t ≠ .untyped, (x.type = .untyped ∨ x.type = t) ∧ (y.type = .untyped ∨ y.type = t) ∧ (x.type = t ∨ y.type = t) := by
  by_cases hy : y.type = .untyped
  case pos =>
    by_cases hx : x.type = .untyped
    case pos => exact .inl ⟨hx, hy⟩
    case neg => exact .inr ⟨x.type, hx, .inr rfl, .inl hy, .inl rfl⟩
  case neg => exact .inr ⟨y.type, hy, h.imp_right fun h => h.resolve_left hy, .inr rfl, .inr rfl⟩

-- Something is left of them.
def Leaves (x y : RangeValue F) : Prop :=
  ∃ r, x.intersection y = .ok r ∧ r.empty = false

theorem leaves_of_eq (h : x.intersection y = .ok r) : Leaves x y ↔ r.empty = false := by
  constructor
  case mp  =>
    rintro ⟨r', hr, he⟩
    cases h.symm.trans hr
    exact he
  case mpr => exact fun he => ⟨r, h, he⟩

theorem intersection_fits (ht : t ≠ .untyped) (hbx : Built x) (hby : Built y) (hx : Fits t x) (hy : Fits t y)
    (hex : x.hasEnumException = false) (hey : y.hasEnumException = false) : ∃ r, x.intersection y = .ok r := by
  obtain ⟨t₁, rfl⟩ | ⟨t₁, rfl⟩ | hsx := hbx.fits ht hx hex
  · obtain ⟨t₂, rfl⟩ | ⟨t₂, rfl⟩ | hsy := hby.fits ht hy hey
    · exact (intersection_infinite hx hy).imp fun _ => And.left
    · exact (intersection_empty hx hy (.inr rfl) fun v hv => includesValue_empty hv.2).imp fun _ => And.left
    · exact ⟨y, infinite_intersection hx hsy⟩
  · exact (intersection_empty hx hy (.inl rfl) fun v hv => includesValue_empty hv.1).imp fun _ => And.left
  · obtain ⟨t₂, rfl⟩ | ⟨t₂, rfl⟩ | hsy := hby.fits ht hy hey
    · exact ⟨x, intersection_infinite_right hsx hy⟩
    · exact (intersection_empty hx hy (.inr rfl) fun v hv => includesValue_empty hv.2).imp fun _ => And.left
    · exact (hsx.intersection hsy).imp fun _ => And.left

-- Only ranges of different types have no intersection at all.
theorem intersection_ok (hbx : Built x) (hby : Built y) (hex : x.hasEnumException = false)
    (hey : y.hasEnumException = false) (h : Compatible x.type y.type) : ∃ r, x.intersection y = .ok r := by
  obtain ⟨hx, hy⟩ | ⟨t, ht, hx, hy, -⟩ := h.common
  case inl => exact intersection_fits (t := .int) (by decide) hbx hby (.inl hx) (.inl hy) hex hey
  case inr => exact intersection_fits ht hbx hby hx hy hex hey

-- A NaN is among the bounds or the values.
def hasNan (r : RangeValue F) : Bool :=
  r.min.any Val.isNan || r.max.any Val.isNan || r.enumerated.any Val.isNan

section Plain

omit [Interpreter F]

theorem min_of_hasNan (h : r.hasNan = false) : ∀ m ∈ r.min, m.isNan = false := by
  simp only [hasNan, Bool.or_eq_false_iff] at h
  intro m hm
  have hno := h.1.1
  rw [hm] at hno
  exact hno

theorem max_of_hasNan (h : r.hasNan = false) : ∀ m ∈ r.max, m.isNan = false := by
  simp only [hasNan, Bool.or_eq_false_iff] at h
  intro m hm
  have hno := h.1.2
  rw [hm] at hno
  exact hno

theorem enumerated_of_hasNan (h : r.hasNan = false) : ∀ v ∈ r.enumerated, v.isNan = false := by
  simp only [hasNan, Bool.or_eq_false_iff, List.any_eq_false, Bool.not_eq_true] at h
  exact h.2

end Plain

omit [Interpreter F] in
theorem beside_of_hasNan (h : x.hasNan = false) : beside x y = y := by
  simp only [hasNan, Bool.or_eq_false_iff] at h
  simp [beside, besideBound, h.1.1, h.1.2]

theorem Left.empty_iff (h : Left t x y r) : r.empty = false ↔ ∃ v, v.type = t ∧ Kept x y v := by
  obtain rfl | ⟨hr, he, hn⟩ := h.made
  · refine iff_of_false (by simp [cleared]) ?_
    rintro ⟨v, hv, hk⟩
    exact includesValue_empty ((h.values v hv).mpr hk)
  · refine iff_of_true hr.empty ?_
    obtain ⟨v, hv, hi⟩ := hr.exists_value he hn
    exact ⟨v, hv, (h.values v hv).mp ((hr.includesValue hv).mpr hi)⟩

-- Without NaN, something is left of what has a value in common.
theorem leaves_shaped (hx : Shaped t x) (hy : Shaped t y) (hnx : x.hasNan = false) (hny : y.hasNan = false) : Leaves x y ↔
    ∃ v : Val F, v.isNan = false ∧ v.type = t ∧ x.includesValue v = .ok true ∧ y.includesValue v = .ok true := by
  obtain ⟨r, hr, hleft⟩ := hx.intersection hy
  rw [leaves_of_eq hr, hleft.empty_iff]
  constructor
  case mp =>
    rintro ⟨v, hv, hk⟩
    suffices hs : ∃ w : Val F, w.isNan = false ∧ w.type = t ∧ Includes x w ∧ Includes y w by
      obtain ⟨w, hn, hw, hix, hiy⟩ := hs
      exact ⟨w, hn, hw, (hx.includesValue hw).mpr hix, (hy.includesValue hw).mpr hiy⟩
    unfold Kept at hk
    split at hk
    case isTrue hl =>
      rw [beside_of_hasNan hnx] at hk
      by_cases hn : v.isNan
      case neg => exact ⟨v, Bool.not_eq_true _ ▸ hn, hv, hk.2⟩
      case pos =>
        obtain ⟨w, hw, hn', hmin, hmax⟩ := hx.exists_number hy (hv.symm.trans (type_of_isNan hn)) hk.1
        have hpmin := (hx.passes_joinMin hy hw).mp hmin
        have hpmax := (hx.passes_joinMax hy hw).mp hmax
        rw [beside_of_hasNan hnx] at hpmin hpmax
        exact ⟨w, hn', hw, ⟨hpmin.1, hpmax.1, .inl hl.1⟩, hpmin.2, hpmax.2, .inl hl.2⟩
    case isFalse hl =>
      refine ⟨v, ?_, hv, hk.1, hk.2.1⟩
      obtain hl | hl := not_and_or.mp hl
      · exact enumerated_of_hasNan hnx v ((hx.enumerates hv).mp (hk.1.listed.resolve_left hl)).1
      · exact enumerated_of_hasNan hny v ((hy.enumerates hv).mp (hk.2.1.listed.resolve_left hl)).1
  case mpr =>
    rintro ⟨v, hn, hv, hix, hiy⟩
    rw [hx.includesValue hv] at hix
    rw [hy.includesValue hv] at hiy
    refine ⟨v, hv, ?_⟩
    unfold Kept
    split
    case isTrue  => exact ⟨hx.uncrossed_number hy hv hn hix hiy.beside, hix, hiy.beside⟩
    case isFalse =>
      refine ⟨hix, hiy, fun m hm => ⟨?_, hn⟩, fun m hm => ⟨?_, hn⟩⟩
      · obtain hm | ⟨-, hm⟩ := Option.or_eq_some_iff.mp hm
        · exact min_of_hasNan hnx m hm
        · exact min_of_hasNan hny m hm
      · obtain hm | ⟨-, hm⟩ := Option.or_eq_some_iff.mp hm
        · exact max_of_hasNan hnx m hm
        · exact max_of_hasNan hny m hm

theorem Shaped.exists_plain (h : Shaped t r) (he : r.hasEnumException = false) (hn : r.hasNan = false) :
    ∃ v : Val F, v.isNan = false ∧ v.type = t ∧ r.includesValue v = .ok true := by
  have hno : .nan none ∉ r.enumerated := fun hm => by cases enumerated_of_hasNan hn _ hm
  obtain ⟨v, hv, hi⟩ := h.exists_value he hno
  cases hl : r.values with
  | some _ =>
    have hm := ((h.enumerates hv).mp (hi.listed.resolve_left (by simp [hl]))).1
    exact ⟨v, enumerated_of_hasNan hn v hm, hv, (h.includesValue hv).mpr hi⟩
  | none   =>
    have hgiven := h.given
    rw [hl, Option.isSome_iff_exists, Option.isSome_iff_exists] at hgiven
    obtain ⟨m, hm⟩ | ⟨m, hm⟩ | hno := hgiven
    · exact ⟨m, min_of_hasNan hn m hm, h.min m hm, (h.includesValue (h.min m hm)).mpr (h.includes_bound hl (.inl hm))⟩
    · exact ⟨m, max_of_hasNan hn m hm, h.max m hm, (h.includesValue (h.max m hm)).mpr (h.includes_bound hl (.inr hm))⟩
    · cases hno

theorem leaves_fits (ht : t ≠ .untyped) (hbx : Built x) (hby : Built y) (hx : Fits t x) (hy : Fits t y)
    (hex : x.hasEnumException = false) (hey : y.hasEnumException = false) (hnx : x.hasNan = false) (hny : y.hasNan = false) :
    Leaves x y ↔ ∃ v : Val F, v.isNan = false ∧ v.type = t ∧ x.includesValue v = .ok true ∧ y.includesValue v = .ok true := by
  have hall {t' : RangeType} (h : t' = .untyped ∨ t' = t) {v : Val F} (hv : v.type = t) :
      (cleared true false t' : RangeValue F).includesValue v = .ok true := includesValue_infinite (Fits.admits h hv)
  have hempty (he : x.empty ∨ y.empty) (hno : ∀ v, ¬(x.includesValue v = .ok true ∧ y.includesValue v = .ok true)) :
      Leaves x y ↔ ∃ v : Val F, v.isNan = false ∧ v.type = t ∧ x.includesValue v = .ok true ∧ y.includesValue v = .ok true := by
    obtain ⟨r, hr, hm⟩ := intersection_empty hx hy he hno
    rw [leaves_of_eq hr]
    refine iff_of_false (Bool.eq_false_iff.not.mpr (not_not.mpr (hm.empty.mpr ?_))) ?_
    · rintro ⟨v, -, hv⟩
      exact hno v hv
    · rintro ⟨v, -, -, hv⟩
      exact hno v hv
  obtain ⟨t₁, rfl⟩ | ⟨t₁, rfl⟩ | hsx := hbx.fits ht hx hex
  · obtain ⟨t₂, rfl⟩ | ⟨t₂, rfl⟩ | hsy := hby.fits ht hy hey
    · obtain ⟨r, hr, hm⟩ := intersection_infinite hx hy
      obtain ⟨v, hv, hn⟩ := RangeValue.exists_number F t
      rw [leaves_of_eq hr, Bool.eq_false_iff, ne_eq, hm.empty, not_not]
      exact iff_of_true ⟨v, hv, hall hx hv, hall hy hv⟩ ⟨v, hn, hv, hall hx hv, hall hy hv⟩
    · exact hempty (.inr rfl) fun v hv => includesValue_empty hv.2
    · obtain ⟨v, hn, hv, hi⟩ := hsy.exists_plain hey hny
      exact iff_of_true ⟨y, infinite_intersection hx hsy, hsy.empty⟩ ⟨v, hn, hv, hall hx hv, hi⟩
  · exact hempty (.inl rfl) fun v hv => includesValue_empty hv.1
  · obtain ⟨t₂, rfl⟩ | ⟨t₂, rfl⟩ | hsy := hby.fits ht hy hey
    · obtain ⟨v, hn, hv, hi⟩ := hsx.exists_plain hex hnx
      exact iff_of_true ⟨x, intersection_infinite_right hsx hy, hsx.empty⟩ ⟨v, hn, hv, hi, hall hy hv⟩
    · exact hempty (.inr rfl) fun v hv => includesValue_empty hv.2
    · exact leaves_shaped hsx hsy hnx hny

theorem leaves_untyped (hbx : Built x) (hby : Built y) (hx : x.type = .untyped) (hy : y.type = .untyped)
    (hex : x.hasEnumException = false) (hey : y.hasEnumException = false) :
    Leaves x y ↔ ∃ v : Val F, v.isNan = false ∧ x.Holds v ∧ y.Holds v := by
  have hnothing (h : x.intersection y = .ok (RangeValue.cleared false true .untyped))
      (hno : ∀ v, ¬(x.Holds v ∧ y.Holds v)) : Leaves x y ↔ ∃ v : Val F, v.isNan = false ∧ x.Holds v ∧ y.Holds v := by
    refine iff_of_false ((leaves_of_eq h).not.mpr (by simp [RangeValue.cleared])) ?_
    rintro ⟨v, -, hv⟩
    exact hno v hv
  obtain rfl | rfl := hbx.untyped hx hex
  · obtain rfl | rfl := hby.untyped hy hey
    · exact iff_of_true ⟨_, make_infinite, rfl⟩ ⟨.none, rfl, ⟨rfl, .inl rfl⟩, rfl, .inl rfl⟩
    · exact hnothing make_empty fun v hv => not_holds_cleared hv.2
  · obtain rfl | rfl := hby.untyped hy hey
    all_goals exact hnothing make_empty fun v hv => not_holds_cleared hv.1

-- Where there are no NaN, something is left of two ranges if they have a value in common.
theorem leaves_iff (hbx : Built x) (hby : Built y) (hex : x.hasEnumException = false) (hey : y.hasEnumException = false)
    (hnx : x.hasNan = false) (hny : y.hasNan = false) :
    Leaves x y ↔ ∃ v : Val F, v.isNan = false ∧ x.Holds v ∧ y.Holds v := by
  by_cases hc : Compatible x.type y.type
  case neg =>
    refine iff_of_false ?_ ?_
    · rintro ⟨r, h, -⟩
      exact hc (.of_ok h)
    · rintro ⟨v, -, hv₁, hv₂⟩
      simp only [Compatible, not_or] at hc
      exact hc.2.2 <| (hv₁.2.resolve_left hc.1).symm.trans (hv₂.2.resolve_left hc.2.1)
  case pos =>
    obtain ⟨hx, hy⟩ | ⟨t, ht, hx, hy, hxy⟩ := hc.common
    case inl => exact leaves_untyped hbx hby hx hy hex hey
    case inr =>
      rw [leaves_fits ht hbx hby hx hy hex hey hnx hny]
      refine exists_congr fun v => and_congr_right fun _ => ?_
      constructor
      case mp =>
        rintro ⟨hv, hvx, hvy⟩
        exact ⟨⟨hvx, hx.imp_right fun h => hv.trans h.symm⟩, hvy, hy.imp_right fun h => hv.trans h.symm⟩
      case mpr =>
        rintro ⟨⟨hvx, htx⟩, hvy, hty⟩
        refine ⟨?_, hvx, hvy⟩
        rcases hxy with rfl | rfl
        case inl => exact htx.resolve_left ht
        case inr => exact hty.resolve_left ht

end RangeValue

-- All ranges of a set were made by the constructor.
def CapSet.Whole (x : CapSet F) : Prop :=
  ∀ cap ∈ x.caps.values, RangeValue.Built cap.value

def ConSet.Whole (y : ConSet F) : Prop :=
  ∀ con ∈ y.cons.values, RangeValue.Built con.value

section Whole

variable {x : CapSet F} {cap : Capability F} {con : Constraint F} {y : ConSet F}

theorem CapSet.Whole.set (h : x.Whole) (hc : RangeValue.Built cap.value) : (x.set cap).Whole := by
  intro c hm
  obtain rfl | hm := Dict.mem_values_set hm
  · exact hc
  · exact h c hm

theorem CapSet.Whole.get (h : x.Whole) (name : String) : RangeValue.Built (x.get name).value := by
  unfold CapSet.get
  cases hg : x.caps.get? name with
  | none     => exact RangeValue.built_cleared true
  | some cap => exact h cap <| List.mem_map_of_mem (Dict.get?_eq_some.mp hg)

end Whole

-- There is no error but those that are caught.
def Tame {α : Type} (m : Except (CapsError F) α) : Prop :=
  ∀ e, m = .error e → e.isValueError

namespace Tame

variable {α β : Type} {m : Except (CapsError F) α} {f : α → Except (CapsError F) β}

omit [Interpreter F]

theorem ok (a : α) : Tame (.ok a : Except (CapsError F) α) :=
  nofun

theorem error {e : CapsError F} (h : e.isValueError) : Tame (.error e : Except (CapsError F) α) := by
  rintro _ ⟨⟩
  exact h

theorem bind (hm : Tame m) (hf : ∀ a, m = .ok a → Tame (f a)) : Tame (m >>= f) := by
  cases m with
  | ok a    => exact hf a rfl
  | error e =>
    rintro _ ⟨⟩
    exact hm e rfl

theorem ite {p : Prop} [Decidable p] {m' : Except (CapsError F) α} (h : p → Tame m) (h' : ¬p → Tame m') :
    Tame (if p then m else m') := by
  split
  case isTrue hp  => exact h hp
  case isFalse hp => exact h' hp

end Tame

section Adjustment

variable {x y : CapSet F} {xCaps : Caps F} {xCap rCap : Capability F} {yCon : Constraint F} {yConset : ConSet F}
  {rCapset : CapSet F} {cons : List (Constraint F)}

open RangeValue

omit [Interpreter F] in
theorem fromRange_ok {α : Type} {m : Except (RangeError F) α} {a : α} (h : fromRange m = .ok a) : m = .ok a := by
  cases m with
  | ok b    => cases h; rfl
  | error e => cases h

omit [Interpreter F] in
theorem tame_verify {α : Type} {r₁ r₂ : RangeValue F} {f : Unit → Except (RangeError F) α}
    (h : Compatible r₁.type r₂.type → Tame (fromRange (f ⟨⟩))) : Tame (fromRange (verifySameType r₁ r₂ >>= f)) := by
  by_cases hc : Compatible r₁.type r₂.type
  case pos => exact verifySameType_ok hc ▸ h hc
  case neg =>
    simp only [Compatible, not_or] at hc
    rw [verifySameType, if_neg (not_or.mpr ⟨hc.1, hc.2.1⟩), if_pos hc.2.2]
    exact .error rfl

theorem tame_includesRange {r₁ r₂ : RangeValue F} {finite : Bool} : Tame (fromRange <| r₁.includesRange r₂ finite) :=
  tame_verify fun _ => .ok _

theorem tame_intersection {r₁ r₂ : RangeValue F} (h₁ : Built r₁) (h₂ : Built r₂) (he₁ : r₁.hasEnumException = false)
    (he₂ : r₂.hasEnumException = false) : Tame (fromRange <| r₁.intersection r₂) := by
  by_cases hc : Compatible r₁.type r₂.type
  case neg => exact tame_verify fun h => absurd h hc
  case pos =>
    obtain ⟨r, hr⟩ := intersection_ok h₁ h₂ he₁ he₂ hc
    exact hr ▸ Tame.ok r

theorem tame_capIncludedInCap {c d : Capability F} {finite : Bool} : Tame (capIncludedInCap c d finite) :=
  .ite (fun _ => .error rfl) fun _ => .ite (fun _ => .error rfl) fun _ => .ite (fun _ => .ok _) fun _ => tame_includesRange

theorem tame_namespaceInherit (names : List String) (caps : List (Capability F)) : Tame (namespaceInherit names caps) := by
  induction caps generalizing names with
  | nil           => exact .ok _
  | cons cap caps ih => exact .ite (fun _ => .error rfl) fun _ => ih _

theorem tame_namesIncluded {finite : Bool} (names : List String) : Tame (namesIncluded x y finite names) := by
  induction names with
  | nil             => exact .ok _
  | cons name names ih => exact tame_capIncludedInCap.bind fun _ _ => .ite (fun _ => ih) fun _ => .ok _

theorem tame_capsetIncludedInCapset {finite : Bool} : Tame (capsetIncludedInCapset x y finite) :=
  .ite (fun _ => .ok _) fun _ => Tame.bind (tame_namespaceInherit _ _) fun _ _ => tame_namesIncluded _

theorem tame_covered (capsets : List (CapSet F)) : Tame (covered x capsets) := by
  induction capsets with
  | nil            => exact .ok _
  | cons alt alts ih =>
    exact .ite (fun _ => ih) fun _ => tame_capsetIncludedInCapset.bind fun _ _ => .ite (fun _ => .ok _) fun _ => ih

theorem tame_nativesCovered (capsets natives : List (CapSet F)) : Tame (nativesCovered capsets natives) := by
  induction natives with
  | nil               => exact .ok _
  | cons native natives ih =>
    exact .ite (fun _ => ih) fun _ => (tame_covered _).bind fun _ _ => .ite (fun _ => ih) fun _ => .ok _

theorem tame_capConstrict (hx : Built xCap.value) (hy : Built yCon.value) : Tame (capConstrictAdjustByCon xCap yCon) := by
  unfold capConstrictAdjustByCon
  refine .ite (fun _ => .error rfl) fun hex => .ite (fun _ => .error rfl) fun hey => .ite (fun _ => .error rfl) fun _ => ?_
  refine Tame.bind (hx.again ▸ Tame.ok xCap.value) fun value hv => .ite (fun _ => .ok _) fun _ => ?_
  obtain rfl : xCap.value = value := by
    rw [hx.again] at hv
    exact Except.ok.inj hv
  exact (tame_intersection hx hy (Bool.not_eq_true _ ▸ hex) (Bool.not_eq_true _ ▸ hey)).bind fun _ _ =>
    .ite (fun _ => .error rfl) fun _ => .ok _

theorem built_capConstrict (h : capConstrictAdjustByCon xCap yCon = .ok rCap) : Built rCap.value := by
  unfold capConstrictAdjustByCon at h
  split_ifs at h
  case pos =>
    obtain ⟨value, hv, h⟩ := Except.bind_eq_ok.mp h
    cases h
    exact ⟨_, fromRange_ok hv⟩
  case neg =>
    obtain ⟨value, hv, h⟩ := Except.bind_eq_ok.mp h
    obtain ⟨r, hr, h⟩ := Except.bind_eq_ok.mp h
    split at h
    case isTrue  => cases h
    case isFalse => cases h; exact Built.intersection (fromRange_ok hr)

theorem constrictByAll_tame (hx : x.Whole) (hc : ∀ con ∈ cons, Built con.value) : Tame (constrictByAll x cons) := by
  induction cons generalizing x with
  | nil           => exact .ok _
  | cons con cons ih =>
    obtain ⟨hcon, hcons⟩ := List.forall_mem_cons.mp hc
    have hget := hx.get con.name
    refine Tame.bind ?_ fun x' hx' => ih ?_ hcons
    · exact .ite (fun _ => .error rfl) fun _ => (tame_capConstrict hget hcon).bind fun _ _ => .ok _
    · unfold capsetConstrictAdjustByCon at hx'
      split at hx'
      case isTrue  => cases hx'
      case isFalse =>
        obtain ⟨cap, hcap, hx'⟩ := Except.bind_eq_ok.mp hx'
        cases hx'
        exact hx.set <| built_capConstrict hcap

theorem tame_capsetConstrict (hx : x.Whole) (hy : yConset.Whole) : Tame (capsetConstrictAdjustByConset x yConset) :=
  .ite (fun _ => .ok _) fun _ => (constrictByAll_tame hx hy).bind fun _ _ => .ok _

theorem tame_adjustFirst {pyramid : Bool} {capsets : List (CapSet F)} (hx : ∀ x ∈ capsets, x.Whole) (hy : yConset.Whole) :
    Tame (adjustFirst pyramid yConset capsets) := by
  induction capsets with
  | nil                => exact .ok _
  | cons capset capsets ih =>
    obtain ⟨hc, hcs⟩ := List.forall_mem_cons.mp hx
    refine .ite (fun _ => ih hcs) fun _ => .ite (fun _ => ih hcs) fun _ => ?_
    split
    case h_1     => exact .ok _
    case h_2 e h => rw [if_pos (tame_capsetConstrict hc hy e h)]; exact ih hcs

-- What is raised is a `ValueError`.
theorem tame_capsConstrict (hx : ∀ x ∈ xCaps.capsets, x.Whole) (hy : yConset.Whole) :
    Tame (capsConstrictAdjustByConset xCaps yConset) := by
  refine Tame.bind (tame_nativesCovered _ _) fun _ _ => (tame_adjustFirst hx hy).bind fun r _ => ?_
  cases r with
  | none   => exact .error rfl
  | some r => exact .ok r

end Adjustment

end Ccf
