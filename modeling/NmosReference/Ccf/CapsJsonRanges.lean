import NmosReference.Ccf.CapsJson
import NmosReference.Ccf.Constriction
import NmosReference.Ccf.Operators

-- What is left of a range that was written and read.
namespace Ccf

variable {F : Type} [Interpreter F]

-- A set has its first value among its values.
class Interpreter.Iterates (F : Type) [Interpreter F] : Prop where
  first_mem    : ∀ (vs : List (Val F)) (v : Val F), Interpreter.first vs = some v → v ∈ vs
  first_isSome : ∀ vs : List (Val F), vs ≠ [] → (Interpreter.first vs).isSome

omit [Interpreter F] in
theorem named_ok {α : Type} {capName label : String} {m : Except (ConversionError F) α} {a : α}
    (h : named capName label m = .ok a) : m = .ok a := by
  cases m with
  | ok b    => exact congrArg Except.ok <| Except.ok.inj h
  | error e => cases h

omit [Interpreter F] in
theorem fromMake_ok {m : Except (RangeError F) (RangeValue F)} {r : RangeValue F}
    (h : m.mapError ConversionError.range = .ok r) : m = .ok r := by
  cases m with
  | ok r'   => exact congrArg Except.ok <| Except.ok.inj h
  | error e => cases h

theorem makeRange_make {args : RangeArgs F} {r : RangeValue F} (h : makeRange args = .ok r) : RangeValue.make args = .ok r :=
  fromMake_ok h

namespace RangeValue

variable {name : String} {x y r : RangeValue F}

-- The ranges that a name has: their type can be told from the name or from the values.
structure Faithful (name : String) (r : RangeValue F) : Prop where
  built    : Built r
  infinite : r.infinite → r.type = rangeType name ∨ r.type = .untyped
  listed   : r.hasEnumException → r.min = none ∧ r.max = none
  inferred : r.infinite = false → r.empty = false → r.hasEnumException = false →
    inferType (r.args (rangeType name)) = r.type

theorem inferType_of_ne {args : RangeArgs F} (h : args.type ≠ .untyped) : inferType args = args.type :=
  if_pos h

-- What is inferred depends on the first of the bounds, or on the values.
theorem inferType_bounds {args : RangeArgs F} {v : Val F} (h : args.type = .untyped) (hv : args.min.or args.max = some v) :
    inferType args = v.type := by
  simp [inferType, h, hv]

theorem inferType_values {args : RangeArgs F} (h : args.type = .untyped) (hv : args.min.or args.max = none) :
    inferType args = match Val.distinct (args.values.getD []) with
      | []     => .untyped
      | values => ((Interpreter.first values).map Val.type).getD .untyped := by
  simp only [inferType, h, hv, ne_eq, not_true_eq_false, ↓reduceIte]
  cases Val.distinct (args.values.getD []) <;> rfl

-- What is made has the values as they were given, and a bound where one was given.
structure Made (args : RangeArgs F) (r : RangeValue F) : Prop where
  type       : r.type = inferType { args with min := present args.min, max := present args.max }
  finite     : r.infinite = false → r.empty = false → r.values = args.values ∧
    (r.min = none ↔ present args.min = none) ∧ (r.max = none ↔ present args.max = none)
  infinite   : r.infinite → args.infinite ∨ args.values = none ∧ present args.min = none ∧ present args.max = none
  everything : r.infinite → r = cleared true false r.type
  nothing    : r.empty → r = cleared false true r.type
  unlisted   : r.values = some [] → r.enumerated = []

theorem coerceBound_none {type : RangeType} {bound bound' : Option (Val F)} (h : coerceBound type bound = .ok bound') :
    bound' = none ↔ bound = none := by
  rw [← Option.isSome_eq_false_iff.trans Option.isNone_iff_eq_none, (coerceBound_ok h).1]
  exact Option.isSome_eq_false_iff.trans Option.isNone_iff_eq_none

theorem make_made {args : RangeArgs F} (h : make args = .ok r) : Made args r := by
  obtain ⟨min, max, enumerated, -, -, hmin, hmax, hes, -, hpost⟩ := construct_ok h
  unfold postInit at hpost
  split_ifs at hpost with hi he hc
  · cases hpost
    refine ⟨rfl, nofun, fun _ => ?_, fun _ => rfl, nofun, nofun⟩
    simp only [Bool.or_eq_true, Bool.and_eq_true, Bool.not_eq_true', Option.isNone_iff_eq_none] at hi
    exact hi.imp_right fun h => ⟨h.1.1.2, h.1.2, h.2⟩
  · cases hpost
    exact ⟨rfl, nofun, nofun, nofun, fun _ => rfl, nofun⟩
  · cases hpost
    exact ⟨rfl, nofun, nofun, nofun, fun _ => rfl, nofun⟩
  · obtain ⟨rfl, -⟩ := check_ok hpost
    refine ⟨rfl, fun _ _ => ⟨rfl, coerceBound_none hmin, coerceBound_none hmax⟩, fun h => absurd h hi, fun h => absurd h hi,
      fun h => absurd h he, fun hv => ?_⟩
    have hv : args.values = some [] := hv
    rw [hv] at hes
    cases hes
    rfl

theorem Made.not_cleared {args : RangeArgs F} (hm : Made args r) (hx : r.hasEnumException) :
    r.infinite = false ∧ r.empty = false := by
  simp only [← Bool.not_eq_true]
  constructor
  case left  => exact fun h => by rw [hm.everything h] at hx; cases hx
  case right => exact fun h => by rw [hm.nothing h] at hx; cases hx

theorem Built.shaped_finite (h : Built r) (hi : r.infinite = false) (he : r.empty = false) (hx : r.hasEnumException = false) :
    Shaped r.type r := by
  by_cases ht : r.type = .untyped
  case pos =>
    obtain rfl | rfl := h.untyped ht hx
    · cases hi
    · cases he
  case neg =>
    obtain hr | hr | hs := h.shaped rfl ht
    · rw [hr] at hi; cases hi
    · rw [hr] at he; cases he
    · exact hs

-- A bound has the type of the range.
theorem Shaped.inferred {t : RangeType} {v : Val F} (h : Shaped t r) (hv : r.min.or r.max = some v) :
    inferType (r.args .untyped) = r.type := by
  rw [inferType_bounds rfl hv, h.type]
  obtain hv | ⟨-, hv⟩ := Option.or_eq_some_iff.mp hv
  · exact h.min v hv
  · exact h.max v hv

theorem inferred_of_make {args : RangeArgs F} (h : make args = .ok r) (hi : r.infinite = false) (he : r.empty = false)
    (hx : r.hasEnumException = false) : inferType (r.args args.type) = r.type := by
  have hm := make_made h
  by_cases ht : args.type = .untyped
  case neg => rw [hm.type, inferType_of_ne (by exact ht), inferType_of_ne (by exact ht)]; rfl
  case pos =>
    rw [ht]
    cases hv : r.min.or r.max with
    | some v =>
      exact (Built.shaped_finite ⟨args, h⟩ hi he hx).inferred hv
    | none   =>
      obtain ⟨hvalues, hmin, hmax⟩ := hm.finite hi he
      obtain ⟨hmin', hmax'⟩ := Option.or_eq_none_iff.mp hv
      have hno : (present args.min).or (present args.max) = none := by
        rw [hmin.mp hmin', hmax.mp hmax']
        rfl
      rw [hm.type, inferType_values rfl hv, inferType_values (by exact ht) (by exact hno)]
      exact hvalues ▸ rfl

theorem Faithful.empty (t : RangeType) : Faithful name (.cleared false true t : RangeValue F) where
  built    := built_cleared false
  infinite := nofun
  listed   := nofun
  inferred := nofun

theorem Faithful.everything {t : RangeType} (h : t = rangeType name ∨ t = .untyped) :
    Faithful name (.cleared true false t : RangeValue F) where
  built    := built_cleared true
  infinite := fun _ => h
  listed   := nofun
  inferred := nofun

-- What is made for the type of the name.
theorem Faithful.of_make {args : RangeArgs F} (h : make args = .ok r) (ht : args.type = rangeType name)
    (hi : args.infinite → args.values = none ∧ present args.min = none ∧ present args.max = none)
    (hl : args.values = some [] → present args.min = none ∧ present args.max = none) : Faithful name r where
  built      := ⟨args, h⟩
  inferred   := ht ▸ inferred_of_make h
  infinite h' := by
    rw [(make_made h).type, ← ht]
    by_cases hu : args.type = .untyped
    case neg => exact .inl <| inferType_of_ne hu
    case pos =>
      obtain ⟨hv, hmin, hmax⟩ := ((make_made h).infinite h').elim hi id
      refine .inr ?_
      rw [inferType_values (by exact hu) (by simp [hmin, hmax])]
      simp [hv, Val.distinct]
  listed h'   := by
    have hm := make_made h
    obtain ⟨hinf, he⟩ := hm.not_cleared h'
    obtain ⟨hvalues, hmin, hmax⟩ := hm.finite hinf he
    obtain ⟨hmin', hmax'⟩ := hl (by simpa [hasEnumException, hvalues] using h')
    exact ⟨hmin.mpr hmin', hmax.mpr hmax'⟩

-- Unless its name has no type, a range has the type of its name, or none.
theorem Faithful.type (h : Faithful name r) (hn : rangeType name ≠ .untyped) (he : r.empty = false)
    (hx : r.hasEnumException = false) : r.type = rangeType name ∨ r.type = .untyped := by
  cases hi : r.infinite with
  | true  => exact h.infinite hi
  | false => exact .inl <| (h.inferred hi he hx).symm.trans <| inferType_of_ne hn

section Intersection

variable {t : RangeType}

-- What an operator makes for a type that it knows.
theorem Faithful.of_typed [Interpreter.Iterates F] {args : RangeArgs F} (h : make args = .ok r)
    (ht : args.type ≠ .untyped) (hn : rangeType name ≠ .untyped → args.type = rangeType name)
    (hi : args.infinite = false) (hl : args.values ≠ some [])
    (hg : args.values = none → ¬(present args.min = none ∧ present args.max = none))
    (hv : ∀ vs, args.values = some vs → ∀ v ∈ vs, v.type = args.type) : Faithful name r where
  built       := ⟨args, h⟩
  infinite h' := by
    obtain hinf | ⟨hnone, hb⟩ := (make_made h).infinite h'
    · simp [hi] at hinf
    · exact absurd hb (hg hnone)
  listed h'   := by
    have hm := make_made h
    obtain ⟨hinf, he⟩ := hm.not_cleared h'
    have hx : r.values = some [] := by simpa [hasEnumException] using h'
    exact absurd ((hm.finite hinf he).1.symm.trans hx) hl
  inferred    := by
    intro hinf he hx
    have hm := make_made h
    have htype : r.type = args.type := hm.type.trans <| inferType_of_ne ht
    by_cases hu : rangeType name = .untyped
    case neg => rw [htype, hn hu]; exact inferType_of_ne hu
    case pos =>
      rw [hu]
      cases hb : r.min.or r.max with
      | some v =>
        exact (Built.shaped_finite ⟨args, h⟩ hinf he hx).inferred hb
      | none   =>
        obtain ⟨hvalues, hmin, hmax⟩ := hm.finite hinf he
        obtain ⟨hmin', hmax'⟩ := Option.or_eq_none_iff.mp hb
        rw [inferType_values rfl hb, htype, RangeValue.args, hvalues]
        cases hvs : args.values with
        | none    => exact absurd ⟨hmin.mp hmin', hmax.mp hmax'⟩ (hg hvs)
        | some vs =>
          have hne : vs ≠ [] := fun h => hl (hvs.trans <| congrArg some h)
          have hne' : Val.distinct vs ≠ [] := fun h => hne (Val.distinct_eq_nil.mp h)
          obtain ⟨v, hfirst⟩ := Option.isSome_iff_exists.mp <| Interpreter.Iterates.first_isSome _ hne'
          have hmem := Val.mem_distinct (Interpreter.Iterates.first_mem _ v hfirst)
          rw [Option.getD_some]
          cases hd : Val.distinct vs with
          | nil       => contradiction
          | cons w ws => simp [← hd, hfirst, hv _ hvs v hmem]

theorem Faithful.discrete [Interpreter.Iterates F] {min max : Option (Val F)} {enumerated : List (Val F)}
    (ht : t ≠ .untyped) (hn : rangeType name ≠ .untyped → t = rangeType name) (hv : ∀ v ∈ enumerated, v.type = t)
    (h : RangeValue.discrete t min max enumerated = .ok r) : Faithful name r := by
  dsimp only [RangeValue.discrete] at h
  split at h
  case isTrue =>
    rw [make_empty] at h
    cases h
    exact .empty t
  case isFalse hne =>
    refine .of_typed h ht hn rfl (by simpa using hne) nofun ?_
    rintro _ ⟨⟩ v hm
    exact hv v (List.mem_filter.mp hm).1

theorem Built.everything (h : Built r) (hi : r.infinite) : r = .cleared true false r.type := by
  obtain ⟨args, h⟩ := h
  exact (make_made h).everything hi

theorem Faithful.intersection_finite [Interpreter.Iterates F] (hx : Shaped t x) (hy : Shaped t y)
    (hn : rangeType name ≠ .untyped → t = rangeType name) (h : x.intersection y = .ok r) : Faithful name r := by
  have hverify : verifySameType x y = .ok ⟨⟩ := verifySameType_ok <| .inr <| .inr <| hx.type.trans hy.type.symm
  have htype : newType x y = t := by rw [RangeValue.newType, if_pos (hx.type ▸ hx.typed), hx.type]
  simp only [RangeValue.intersection, hverify, bind, Except.bind, htype, hx.empty, hy.empty, hx.infinite, hy.infinite,
    Bool.false_eq_true, or_self, and_self, if_false] at h
  split at h
  case isTrue =>
    rw [make_empty] at h
    cases h
    exact .empty _
  case isFalse =>
    split at h
    case h_1 hvx hvy =>
      refine .of_typed h hx.typed hn rfl (by simp) (fun _ => ?_) (by simp)
      -- without values there is a bound, which the other one cannot take away
      have hgiven := hx.given
      rw [present_self hx.typed fun m hm => hx.type_joinMin hy hm, present_self hx.typed fun m hm => hx.type_joinMax hy hm,
        joinMin_eq, joinMax_eq]
      simp only [hvx, Option.isSome_none, Bool.false_eq_true, or_false] at hgiven
      rw [← Option.isNone_iff_eq_none, ← Option.isNone_iff_eq_none, ← Option.not_isSome, ← Option.not_isSome, isSome_joined,
        isSome_joined, Option.isSome_or, Option.isSome_or]
      revert hgiven
      cases x.min.isSome <;> cases x.max.isSome <;> simp
    case h_2     => exact .discrete hx.typed hn hy.enumerated h
    case h_3     => exact .discrete hx.typed hn hx.enumerated h
    case h_4     => exact .discrete hx.typed hn (fun v hv => hx.enumerated v (List.mem_filter.mp hv).1) h

theorem Faithful.newType (hx : Faithful name x) (hy : Faithful name y) (hix : x.infinite) (hiy : y.infinite) :
    newType x y = rangeType name ∨ newType x y = .untyped := by
  unfold RangeValue.newType
  split
  case isTrue  => exact hx.infinite hix
  case isFalse => exact hy.infinite hiy

theorem Faithful.intersection [Interpreter.Iterates F] (hx : Faithful name x) (hy : Faithful name y)
    (hex : x.hasEnumException = false) (hey : y.hasEnumException = false) (h : x.intersection y = .ok r) :
    Faithful name r := by
  have hc := Compatible.of_ok h
  by_cases he : x.empty ∨ y.empty
  case pos =>
    rw [RangeValue.intersection, verifySameType_ok hc] at h
    simp only [bind, Except.bind, if_pos he] at h
    rw [make_empty] at h
    cases h
    exact .empty _
  obtain ⟨hxe, hye⟩ := not_or.mp he
  rw [Bool.not_eq_true] at hxe hye
  cases hix : x.infinite with
  | true  =>
    have hx' := hx.built.everything hix
    cases hiy : y.infinite with
    | true  =>
      rw [RangeValue.intersection, verifySameType_ok hc] at h
      simp only [bind, Except.bind, if_neg he, hix, hiy, and_self, if_true] at h
      rw [make_infinite] at h
      cases h
      exact .everything <| hx.newType hy hix hiy
    | false =>
      have hty := hy.built.shaped_finite hiy hye hey
      have hfit : Fits y.type (RangeValue.cleared true false x.type : RangeValue F) := hc.imp_right (·.resolve_left hty.typed)
      rw [hx', infinite_intersection hfit hty] at h
      cases h
      exact hy
  | false =>
    have htx := hx.built.shaped_finite hix hxe hex
    cases hiy : y.infinite with
    | true  =>
      have hy' := hy.built.everything hiy
      have hfit : Fits x.type (RangeValue.cleared true false y.type : RangeValue F) :=
        (hc.resolve_left htx.typed).imp_right Eq.symm
      rw [hy', intersection_infinite_right htx hfit] at h
      cases h
      exact hx
    | false =>
      have hty := hy.built.shaped_finite hiy hye hey
      have htype : x.type = y.type := (hc.resolve_left htx.typed).resolve_left hty.typed
      refine .intersection_finite htx (htype ▸ hty) (fun hn => ?_) h
      exact (hx.type hn hxe hex).resolve_right htx.typed

end Intersection

section Reading

variable {label : String}

theorem parseItem_valueToJson (context : String) (v : Val F) : parseItem context (valueToJson v) = .ok v := by
  cases v with
  | rational q => simp [parseItem, valueToJson, Val.integer?, Rat.num_div_den]
  | _          => rfl

theorem parseItems_valueToJson (context : String) (vs : List (Val F)) :
    parseItems context (vs.map valueToJson) = .ok vs := by
  induction vs with
  | nil         => rfl
  | cons v vs ih => rw [List.map_cons, parseItems, parseItem_valueToJson, ih]; rfl

-- The type is all that the inference depends on.
theorem construct_type (args : RangeArgs F) {t : RangeType} (h : inferType { args with type := t } = inferType args) :
    construct { args with type := t } = construct args := by
  simp only [construct, h]

theorem Shaped.present_bounds {t : RangeType} (h : Shaped t r) : present r.min = r.min ∧ present r.max = r.max :=
  ⟨present_self h.typed h.min, present_self h.typed h.max⟩

-- What says nothing, and what admits nothing, is read as anything.
theorem read_cleared (h : Faithful name r) (hr : r.infinite ∨ r.empty ∨ r.hasEnumException) :
    parseCapability name label (rangeToJson r) = .ok (.cleared true false (rangeType name)) := by
  have he : rangeToJson r = .keywords (.scalar .none) (.scalar .none) none := by
    unfold rangeToJson
    obtain ⟨args, hb⟩ := h.built
    obtain hi | he | hx := hr
    · rw [if_pos hi]
    · rw [(make_made hb).nothing he]; rfl
    · obtain ⟨hmin, hmax⟩ := h.listed hx
      have hv : r.values = some [] := by simpa [hasEnumException] using hx
      simp [hmin, hmax, hv]
  rw [he]
  cases ht : rangeType name <;> simp only [parseCapability, ht] <;> rfl

theorem Shaped.make_type {t t' : RangeType} (h : Shaped t r) (hb : Built r) (ht : inferType (r.args t') = r.type) :
    make (r.args t') = .ok r := by
  obtain ⟨hmin, hmax⟩ := h.present_bounds
  have hmake (t : RangeType) : make (r.args t) = construct (r.args t) := by
    simp only [make, RangeValue.args, hmin, hmax]
  rw [hmake, ← hb.again, hmake]
  refine construct_type (r.args r.type) (ht.trans (Eq.symm <| inferType_of_ne ?_))
  exact fun hu => h.typed <| h.type.symm.trans hu

theorem parseItem_bound (context : String) (bound : Option (Val F)) :
    parseItem context ((bound.map valueToJson).getD (.scalar .none)) = .ok (bound.getD .none) := by
  cases bound with
  | none   => rfl
  | some v => exact parseItem_valueToJson context v

omit [Interpreter F] in
theorem present_getD {bound : Option (Val F)} (h : present bound = bound) : present (some (bound.getD .none)) = bound := by
  cases bound with
  | none   => rfl
  | some v => exact h

omit [Interpreter F] in
theorem getD_ne_none {bound : Option (Val F)} (h : present bound = bound) (hs : bound.isSome) : bound.getD .none ≠ .none := by
  cases bound with
  | none   => cases hs
  | some v =>
    rintro rfl
    cases h

-- Any other range is read as it was.
theorem read_finite (h : Faithful name r) (hi : r.infinite = false) (he : r.empty = false)
    (hx : r.hasEnumException = false) : parseCapability name label (rangeToJson r) = .ok r := by
  have htyped := h.built.shaped_finite hi he hx
  obtain ⟨hmin, hmax⟩ := htyped.present_bounds
  have hmake := htyped.make_type h.built (h.inferred hi he hx)
  have hgiven := htyped.given
  have hinf : decide (r.min.getD .none = .none ∧ r.max.getD .none = .none ∧ r.values.isNone) = r.infinite := by
    rw [hi, decide_eq_false_iff_not]
    rintro ⟨hno, hno', hnone⟩
    obtain h | h | h := hgiven
    · exact getD_ne_none hmin h hno
    · exact getD_ne_none hmax h hno'
    · simp [Option.isNone_iff_eq_none.mp hnone] at h
  have hparse (enum : Option (List (Item F))) (vs : List (Val F)) (hp : parseItems "enumerated dict" (enum.getD []) = .ok vs)
      (hv : (if vs = [] then none else some vs) = r.values) (hs : enum.isNone = r.values.isNone) :
      parseRangeValue ((r.min.map valueToJson).getD (.scalar .none)) ((r.max.map valueToJson).getD (.scalar .none)) enum
        (rangeType name) = .ok r := by
    simp only [parseRangeValue, parseItem_bound, hp, bind, Except.bind, hv, hs, hinf, makeRange]
    suffices hsame : make _ = .ok r by rw [hsame]; rfl
    rw [← hmake, make, make, present_getD hmin, present_getD hmax]
    simp only [RangeValue.args, he, hmin, hmax]
  unfold rangeToJson
  rw [if_neg (by simp [hi])]
  cases hv : r.values with
  | none    =>
    rw [parseCapability, Option.filter_none, Option.map_none, hparse none [] rfl (by simp [hv]) (by simp [hv])]
    rfl
  | some vs =>
    have hne : vs ≠ [] := fun h => by simp [hasEnumException, hv, h] at hx
    rw [parseCapability, Option.filter_some_pos (by simpa using hne), Option.map_some,
      hparse (some <| vs.map valueToJson) vs (parseItems_valueToJson _ vs) (by simp [hv, hne]) (by simp [hv])]
    rfl

end Reading

end RangeValue

end Ccf
