import NmosReference.Ccf.Constriction
import NmosReference.Library.Searches

-- Which sets of constraints are met by a set of capabilities, and which of them are missed.
namespace Ccf

variable {F : Type} [Interpreter F] {x : CapSet F} {y : ConSet F} {cap : Capability F} {con : Constraint F}
  {cons : List (Constraint F)} {xCaps : Caps F} {capsets : List (CapSet F)} {pyramid : Bool}

open RangeValue Searches

-- They intersect, or there is no constraint. An enumeration that is empty is refused.
structure Meets (cap : Capability F) (con : Constraint F) : Prop where
  listed     : cap.value.hasEnumException = false
  enumerated : con.value.hasEnumException = false
  common     : con.value.infinite ∨ cap.value.Leaves con.value

-- The set is of the same part, and meets every constraint.
structure Matches (x : CapSet F) (y : ConSet F) : Prop where
  part  : x.isPartOf y
  meets : ∀ con ∈ y.cons.values, Meets (x.get con.name) con

section Names

omit [Interpreter F]

theorem CapSet.name_get (x : CapSet F) (name : String) : (x.get name).name = name := by
  unfold CapSet.get
  cases hg : x.caps.get? name with
  | none     => rfl
  | some cap => exact x.named _ (Dict.get?_eq_some.mp hg)

theorem CapSet.get_set_of_ne {name : String} (h : name ≠ cap.name) : (x.set cap).get name = x.get name := by
  simp only [CapSet.get, CapSet.set, Dict.get?_set_of_ne h]

theorem ConSet.nodup_names (y : ConSet F) : (y.cons.values.map Constraint.name).Nodup := by
  have hkeys : y.cons.values.map Constraint.name = y.cons.items.map Prod.fst := by
    rw [Dict.values, List.map_map]
    exact List.map_congr_left y.named
  exact hkeys ▸ y.cons.nodup

end Names

section Constriction

omit [Interpreter F] in
theorem fromRange_eq_ok {α : Type} {m : Except (RangeError F) α} {a : α} : fromRange m = .ok a ↔ m = .ok a :=
  ⟨fromRange_ok, fun h => h ▸ rfl⟩

theorem capConstrict_ok (hx : Built cap.value) (hn : cap.name = con.name) :
    (∃ r, capConstrictAdjustByCon cap con = .ok r) ↔ Meets cap con := by
  by_cases hex : cap.value.hasEnumException
  case pos => exact iff_of_false (by simp [capConstrictAdjustByCon, hex]) fun h => by simp [h.listed] at hex
  by_cases hey : con.value.hasEnumException
  case pos => exact iff_of_false (by simp [capConstrictAdjustByCon, hex, hey]) fun h => by simp [h.enumerated] at hey
  have he : capConstrictAdjustByCon cap con =
      if con.value.infinite then .ok cap
      else fromRange (cap.value.intersection con.value) >>= fun value =>
        if value.empty then .error <| .notIntersecting con.name else .ok { cap with value := value } := by
    rw [capConstrictAdjustByCon, if_neg hex, if_neg hey, if_neg (not_not.mpr hn), hx.again]
    rfl
  rw [Bool.not_eq_true] at hex hey
  have hm : Meets cap con ↔ con.value.infinite ∨ cap.value.Leaves con.value :=
    ⟨Meets.common, fun h => ⟨hex, hey, h⟩⟩
  rw [he, hm, Leaves]
  by_cases hi : con.value.infinite
  case pos => simp [hi]
  case neg =>
    simp only [hi, Bool.false_eq_true, ↓reduceIte, false_or]
    constructor
    case mp =>
      rintro ⟨r, h⟩
      obtain ⟨value, hv, h⟩ := Except.bind_eq_ok.mp h
      split at h
      case isTrue      => cases h
      case isFalse hne => exact ⟨value, fromRange_ok hv, Bool.not_eq_true _ ▸ hne⟩
    case mpr =>
      rintro ⟨value, hv, hne⟩
      exact ⟨_, Except.bind_eq_ok.mpr ⟨value, fromRange_eq_ok.mpr hv, if_neg (by simp [hne])⟩⟩

theorem name_capConstrict {r : Capability F} (h : capConstrictAdjustByCon cap con = .ok r) : r.name = cap.name := by
  unfold capConstrictAdjustByCon at h
  split_ifs at h
  case pos =>
    obtain ⟨value, -, h⟩ := Except.bind_eq_ok.mp h
    cases h
    rfl
  case neg =>
    obtain ⟨value, -, h⟩ := Except.bind_eq_ok.mp h
    obtain ⟨r, -, h⟩ := Except.bind_eq_ok.mp h
    split at h
    case isTrue  => cases h
    case isFalse => cases h; rfl

-- Each constraint has a name of its own, so what one leaves is not looked at by the next.
theorem constrictByAll_ok (hx : x.Whole) (hc : ∀ con ∈ cons, Built con.value) (hn : (cons.map Constraint.name).Nodup) :
    (∃ r, constrictByAll x cons = .ok r) ↔ ∀ con ∈ cons, Meets (x.get con.name) con := by
  induction cons generalizing x with
  | nil           => simp [constrictByAll]
  | cons con cons ih =>
    obtain ⟨hcon, hcons⟩ := List.forall_mem_cons.mp hc
    obtain ⟨hnew, hn⟩ := List.nodup_cons.mp hn
    have hiff := capConstrict_ok (hx.get con.name) (x.name_get con.name)
    rw [List.forall_mem_cons, ← hiff]
    by_cases hm : ∃ r, capConstrictAdjustByCon (x.get con.name) con = .ok r
    case neg =>
      refine iff_of_false ?_ fun h => hm h.1
      rintro ⟨r, h⟩
      obtain ⟨x', hx', -⟩ := Except.bind_eq_ok.mp h
      unfold capsetConstrictAdjustByCon at hx'
      split at hx'
      case isTrue  => cases hx'
      case isFalse =>
        obtain ⟨c, hcap, -⟩ := Except.bind_eq_ok.mp hx'
        exact hm ⟨c, hcap⟩
    case pos =>
      obtain ⟨c, hcap⟩ := hm
      have hname : c.name = con.name := (name_capConstrict hcap).trans (x.name_get con.name)
      have hset : capsetConstrictAdjustByCon x con = .ok (x.set c) := by
        rw [capsetConstrictAdjustByCon, if_neg (by simp [(hiff.mp ⟨c, hcap⟩).enumerated]), hcap]
        rfl
      rw [constrictByAll, hset]
      refine (ih (hx.set <| built_capConstrict hcap) hcons hn).trans ?_
      simp only [hcap, Except.ok.injEq, exists_eq', true_and]
      refine forall₂_congr fun d hd => ?_
      rw [CapSet.get_set_of_ne fun h => hnew (List.mem_map.mpr ⟨d, hd, h.trans hname⟩)]

theorem capsetConstrict_ok (hx : x.Whole) (hy : y.Whole) (hp : x.isPartOf y) :
    (∃ r, capsetConstrictAdjustByConset x y = .ok r) ↔ Matches x y := by
  have hm : Matches x y ↔ ∀ con ∈ y.cons.values, Meets (x.get con.name) con := ⟨Matches.meets, fun h => ⟨hp, h⟩⟩
  rw [hm, ← constrictByAll_ok hx hy y.nodup_names, capsetConstrictAdjustByConset, if_neg (by simp [hp])]
  constructor
  case mp =>
    rintro ⟨r, h⟩
    obtain ⟨r', h', -⟩ := Except.bind_eq_ok.mp h
    exact ⟨r', h'⟩
  case mpr =>
    rintro ⟨r, h⟩
    exact ⟨_, Except.bind_eq_ok.mpr ⟨r, h, rfl⟩⟩

-- The sets that are passed over.
def Passed (pyramid : Bool) (y : ConSet F) (x : CapSet F) : Prop :=
  pyramid ∧ y.preference ≠ NATIVE ∧ x.preference = NATIVE

theorem adjustFirst_some (hx : ∀ x ∈ capsets, x.Whole) (hy : y.Whole) :
    (∃ r, adjustFirst pyramid y capsets = .ok (some r)) ↔ ∃ x ∈ capsets, Matches x y ∧ ¬Passed pyramid y x := by
  induction capsets with
  | nil                => simp [adjustFirst]
  | cons capset capsets ih =>
    obtain ⟨hc, hcs⟩ := List.forall_mem_cons.mp hx
    rw [List.exists_mem_cons_iff, ← ih hcs, adjustFirst]
    by_cases hp : capset.isPartOf y
    case neg =>
      rw [if_pos (by simpa using hp)]
      exact (or_iff_right fun h => hp h.1.part).symm
    case pos =>
      have hok := capsetConstrict_ok hc hy hp
      by_cases hs : Passed pyramid y capset
      case pos =>
        rw [if_neg (by simp [hp]), if_pos (by exact hs)]
        exact (or_iff_right fun h => h.2 hs).symm
      case neg =>
        rw [if_neg (by simp [hp]), if_neg (by exact hs)]
        split
        case h_1 r hr => simp [hok.mp ⟨r, hr⟩, hs]
        case h_2 e he =>
          have hno : ¬Matches capset y := fun h => by
            obtain ⟨r, hr⟩ := hok.mpr h
            rw [he] at hr
            cases hr
          simp [tame_capsetConstrict hc hy e he, hno]

end Constriction

section Comparison

variable {native alt : CapSet F} {xCap yCap : Capability F} {names : List String}

-- What `includes_range` judges of two capabilities, and what it cannot judge.

structure Included (xCap yCap : Capability F) : Prop where
  listed     : xCap.value.hasEnumException = false
  enumerated : yCap.value.hasEnumException = false
  within     : yCap.value.includesRange xCap.value = .ok true

def Incomparable (xCap yCap : Capability F) : Prop :=
  xCap.value.hasEnumException ∨ yCap.value.hasEnumException ∨ ¬Compatible yCap.value.type xCap.value.type

theorem capIncluded_true (hn : xCap.name = yCap.name) : capIncludedInCap xCap yCap = .ok true ↔ Included xCap yCap := by
  unfold capIncludedInCap
  split_ifs with hx hy hne
  · exact iff_of_false (by simp) fun h => by simp [h.listed] at hx
  · exact iff_of_false (by simp) fun h => by simp [h.enumerated] at hy
  · exact absurd hn hne
  · rw [fromRange_eq_ok]
    exact ⟨fun h => ⟨Bool.not_eq_true _ ▸ hx, Bool.not_eq_true _ ▸ hy, h⟩, Included.within⟩

theorem capIncluded_error (hn : xCap.name = yCap.name) :
    (∃ e, capIncludedInCap xCap yCap = .error e) ↔ Incomparable xCap yCap := by
  unfold capIncludedInCap Incomparable
  split_ifs with hx hy hne
  · simp [hx]
  · simp [hy]
  · exact absurd hn hne
  · simp only [hx, hy, Bool.false_eq_true, false_or]
    by_cases hc : Compatible yCap.value.type xCap.value.type
    case pos =>
      refine iff_of_false ?_ (not_not.mpr hc)
      rw [includesRange, verifySameType_ok hc]
      rintro ⟨e, h⟩
      cases h
    case neg =>
      refine iff_of_true ?_ hc
      simp only [Compatible, not_or] at hc
      rw [includesRange, verifySameType, if_neg (not_or.mpr ⟨hc.1, hc.2.1⟩), if_pos hc.2.2]
      exact ⟨_, rfl⟩

theorem namesIncluded_eq : namesIncluded native alt false names =
    names.allM fun name => capIncludedInCap (native.get name) (alt.get name) := by
  induction names with
  | nil               => rfl
  | cons name names ih =>
    rw [namesIncluded, List.allM_cons]
    refine congrArg _ (funext fun b => ?_)
    cases b
    · rfl
    · exact ih

theorem namespaceInherit_error {caps : List (Capability F)} :
    (∃ e, namespaceInherit names caps = .error e) ↔ ∃ cap ∈ caps, cap.value.hasEnumException := by
  induction caps generalizing names with
  | nil           => simp [namespaceInherit]
  | cons cap caps ih =>
    rw [namespaceInherit, List.exists_mem_cons_iff]
    split
    case isTrue h  => simp [h]
    case isFalse h => rw [ih, or_iff_right (by simpa using h)]

theorem mem_namespaceInherit {caps : List (Capability F)} {names' : List String}
    (h : namespaceInherit names caps = .ok names') (name : String) :
    name ∈ names' ↔ name ∈ names ∨ name ∈ caps.map Capability.name := by
  induction caps generalizing names with
  | nil           => cases h; simp
  | cons cap caps ih =>
    rw [namespaceInherit] at h
    split at h
    case isTrue  => cases h
    case isFalse =>
      rw [ih h, List.map_cons, List.mem_cons]
      split
      case isTrue hm  =>
        rw [or_left_comm, iff_comm, or_iff_right_of_imp]
        rintro rfl
        exact .inl hm
      case isFalse    => simp [or_assoc]

-- The alternative has all that the native set has, as far as `includes_range` judges.
structure Accepts (native alt : CapSet F) : Prop where
  listed   : ∀ cap ∈ alt.caps.values, cap.value.hasEnumException = false
  included : ∀ name, name ∈ native.caps.keys ∨ name ∈ alt.caps.keys → Included (native.get name) (alt.get name)

-- To compare them raises.
inductive Troubles (native alt : CapSet F) : Prop
  | unlisted {cap : Capability F} (mem : cap ∈ alt.caps.values) (h : cap.value.hasEnumException)
  | incomparable {names : List String} (h : namespaceInherit native.caps.keys alt.caps.values = .ok names)
    (hr : Reaches (fun name => Included (native.get name) (alt.get name))
      (fun name => Incomparable (native.get name) (alt.get name)) (Interpreter.order F names))

def Undecides (native alt : CapSet F) : Prop :=
  ¬Accepts native alt ∧ ¬Troubles native alt

omit [Interpreter F] in
theorem names_caps (x : CapSet F) : x.caps.values.map Capability.name = x.caps.keys := by
  rw [Dict.values, List.map_map]
  exact List.map_congr_left x.named

omit [Interpreter F] in
theorem name_get_get (name : String) : (native.get name).name = (alt.get name).name :=
  (native.name_get name).trans (alt.name_get name).symm

theorem capsetIncluded_true (hp : native.isSamePart alt) : capsetIncludedInCapset native alt = .ok true ↔ Accepts native alt := by
  rw [capsetIncludedInCapset, if_neg (by simp [hp]), Except.bind_eq_ok]
  constructor
  case mp =>
    rintro ⟨names, hn, h⟩
    rw [namesIncluded_eq, allM_eq_true] at h
    refine ⟨fun cap hc => Bool.eq_false_iff.mpr fun he => ?_, fun name hname => ?_⟩
    · obtain ⟨e, he⟩ := namespaceInherit_error.mpr ⟨cap, hc, he⟩
      cases hn.symm.trans he
    · rw [← names_caps alt, ← mem_namespaceInherit hn, ← (Interpreter.order_perm (F := F) names).mem_iff] at hname
      exact (capIncluded_true (name_get_get name)).mp (h name hname)
  case mpr =>
    intro h
    cases hn : namespaceInherit native.caps.keys alt.caps.values with
    | error e  =>
      obtain ⟨cap, hc, he⟩ := namespaceInherit_error.mp ⟨e, hn⟩
      simp [h.listed cap hc] at he
    | ok names =>
      refine ⟨names, rfl, ?_⟩
      rw [namesIncluded_eq, allM_eq_true]
      intro name hname
      rw [(Interpreter.order_perm (F := F) names).mem_iff, mem_namespaceInherit hn, names_caps alt] at hname
      exact (capIncluded_true (name_get_get name)).mpr (h.included name hname)

theorem capsetIncluded_error (hp : native.isSamePart alt) :
    (∃ e, capsetIncludedInCapset native alt = .error e) ↔ Troubles native alt := by
  rw [capsetIncludedInCapset, if_neg (by simp [hp])]
  cases hn : namespaceInherit native.caps.keys alt.caps.values with
  | error e  =>
    obtain ⟨cap, hc, he⟩ := namespaceInherit_error.mp ⟨e, hn⟩
    exact iff_of_true ⟨e, rfl⟩ (.unlisted hc he)
  | ok names =>
    change (∃ e, namesIncluded native alt false (Interpreter.order F names) = .error e) ↔ _
    rw [namesIncluded_eq, allM_eq_error, Reaches.congr (fun name _ => capIncluded_true (name_get_get name))
      (fun name _ => capIncluded_error (name_get_get name))]
    constructor
    case mp  => exact .incomparable hn
    case mpr =>
      rintro (⟨hc, he⟩ | ⟨hn', hr⟩)
      · obtain ⟨e, he⟩ := namespaceInherit_error.mpr ⟨_, hc, he⟩
        cases hn.symm.trans he
      · cases hn.symm.trans hn'
        exact hr

theorem capsetIncluded_false (hp : native.isSamePart alt) :
    capsetIncludedInCapset native alt = .ok false ↔ Undecides native alt := by
  rw [Undecides, ← capsetIncluded_true hp, ← capsetIncluded_error hp]
  cases capsetIncludedInCapset native alt with
  | error e => simp
  | ok b    => cases b <;> simp

end Comparison

section Pyramid

variable {native alt : CapSet F}

def nativeSets (capsets : List (CapSet F)) : List (CapSet F) :=
  capsets.filter fun x => x.preference = NATIVE

def alternatives (capsets : List (CapSet F)) (native : CapSet F) : List (CapSet F) :=
  capsets.filter fun alt => alt.preference ≠ NATIVE ∧ alt.isSamePart native

-- One alternative after the other is compared with the native set, until one accepts it or the comparison raises.
def Covered (capsets : List (CapSet F)) (native : CapSet F) : Prop :=
  Reaches (Undecides native) (Accepts native) (alternatives capsets native)

def Uncertain (capsets : List (CapSet F)) (native : CapSet F) : Prop :=
  Reaches (Undecides native) (Troubles native) (alternatives capsets native)

theorem covered_eq : covered native capsets = (alternatives capsets native).anyM (capsetIncludedInCapset native) := by
  induction capsets with
  | nil                => rfl
  | cons alt capsets ih =>
    rw [covered, alternatives, List.filter_cons]
    by_cases ha : alt.preference = NATIVE ∨ !alt.isSamePart native
    case pos =>
      rw [if_pos ha, if_neg (by simpa [or_iff_not_imp_left] using ha), ih]
      rfl
    case neg =>
      rw [if_neg ha, if_pos (by simpa using ha), List.anyM_cons]
      refine congrArg _ (funext fun b => ?_)
      cases b
      · exact ih
      · rfl

theorem nativesCovered_eq (all : List (CapSet F)) :
    nativesCovered all capsets = (nativeSets capsets).allM fun native => covered native all := by
  induction capsets with
  | nil                   => rfl
  | cons native capsets ih =>
    rw [nativesCovered, nativeSets, List.filter_cons]
    by_cases hn : native.preference = NATIVE
    case neg =>
      rw [if_pos hn, if_neg (by simpa using hn), ih]
      rfl
    case pos =>
      rw [if_neg (not_not.mpr hn), if_pos (by simpa using hn), List.allM_cons]
      refine congrArg _ (funext fun b => ?_)
      cases b
      · rfl
      · exact ih

omit [Interpreter F] in
theorem isSamePart_alternative (h : alt ∈ alternatives capsets native) : native.isSamePart alt := by
  have hp := (List.mem_filter.mp h).2
  simp only [CapSet.isSamePart, decide_eq_true_eq] at hp ⊢
  exact ⟨hp.2.1.symm, hp.2.2.symm⟩

theorem covered_true : covered native capsets = .ok true ↔ Covered capsets native := by
  rw [covered_eq, anyM_eq_true]
  exact Reaches.congr (fun alt ha => capsetIncluded_false (isSamePart_alternative ha))
    fun alt ha => capsetIncluded_true (isSamePart_alternative ha)

theorem covered_error : (∃ e, covered native capsets = .error e) ↔ Uncertain capsets native := by
  rw [covered_eq, anyM_eq_error]
  exact Reaches.congr (fun alt ha => capsetIncluded_false (isSamePart_alternative ha))
    fun alt ha => capsetIncluded_error (isSamePart_alternative ha)

theorem areNative_true : areNativeInPyramid xCaps = .ok true ↔ ∀ x ∈ nativeSets xCaps.capsets, Covered xCaps.capsets x := by
  rw [areNativeInPyramid, nativesCovered_eq, allM_eq_true]
  exact forall₂_congr fun x _ => covered_true

theorem areNative_error : (∃ e, areNativeInPyramid xCaps = .error e) ↔
    Reaches (Covered xCaps.capsets) (Uncertain xCaps.capsets) (nativeSets xCaps.capsets) := by
  rw [areNativeInPyramid, nativesCovered_eq, allM_eq_error]
  exact Reaches.congr (fun x _ => covered_true) fun x _ => covered_error

end Pyramid

-- The alternative is judged to have what the capability has, but leaves nothing of the constraint: a value that the
-- capability and the constraint have is not in it, or there are NaN.
structure Misled (xCap yCap : Capability F) (con : Constraint F) : Prop where
  judged : yCap.value.includesRange xCap.value = .ok true
  meets  : xCap.value.Leaves con.value
  misses : ¬yCap.value.Leaves con.value
  cause  : (∃ v, xCap.value.Holds v ∧ con.value.Holds v ∧ ¬yCap.value.Holds v) ∨
    xCap.value.hasNan ∨ yCap.value.hasNan ∨ con.value.hasNan

-- Something matches, and is not found: the test of the natives raises, or it passes and only natives match. Then an
-- alternative is misled about what it stands for.
inductive Lost (xCaps : Caps F) (y : ConSet F) : Prop
  | raised {x : CapSet F} (mem : x ∈ xCaps.capsets) (matched : Matches x y)
    (raises : Reaches (Covered xCaps.capsets) (Uncertain xCaps.capsets) (nativeSets xCaps.capsets))
  | skipped {x alt : CapSet F} {con : Constraint F} (mem : x ∈ xCaps.capsets) (matched : Matches x y)
    (covered : ∀ x ∈ nativeSets xCaps.capsets, Covered xCaps.capsets x) (adjusting : y.preference ≠ NATIVE)
    (native : ∀ x ∈ xCaps.capsets, Matches x y → x.preference = NATIVE) (alternative : alt ∈ alternatives xCaps.capsets x)
    (constrained : con ∈ y.cons.values) (misled : Misled (x.get con.name) (alt.get con.name) con)

section Inclusion

variable {native alt : CapSet F} {xCap yCap : Capability F}

theorem type_of_hasNan {r : RangeValue F} (hb : Built r) (h : r.hasNan) : r.type = .float := by
  by_cases ht : r.type = .untyped
  case pos =>
    obtain rfl | rfl | rfl := hb.untyped_cases ht
    all_goals cases h
  case neg =>
    obtain he | he | hs := hb.shaped rfl ht
    · rw [he] at h; cases h
    · rw [he] at h; cases h
    · simp only [hasNan, Bool.or_eq_true, Option.any_eq_true, List.any_eq_true] at h
      obtain (⟨m, hm, hn⟩ | ⟨m, hm, hn⟩) | ⟨v, hv, hn⟩ := h
      · exact (hs.min m hm).symm.trans (type_of_isNan hn)
      · exact (hs.max m hm).symm.trans (type_of_isNan hn)
      · exact (hs.enumerated v hv).symm.trans (type_of_isNan hn)

-- Where inclusion is judged, it is misjudged.
theorem Misled.misjudged {t : RangeType} (h : Misled xCap yCap con) (ht : t = .int ∨ t = .rational ∨ t = .string)
    (hbx : Built xCap.value) (hby : Built yCap.value) (hbc : Built con.value) (hx : xCap.value.type = t)
    (hy : yCap.value.type = t) (hex : xCap.value.hasEnumException = false) (hey : yCap.value.hasEnumException = false) :
    Misjudged yCap.value xCap.value := by
  by_contra hno
  have hsub := ((includesRange_exact ht hbx hby hx hy hex hey).mpr hno).mp h.judged
  have hne : t ≠ .untyped ∧ t ≠ .float := by rcases ht with rfl | rfl | rfl <;> decide
  obtain ⟨v, hvx, -, hvy⟩ | hn | hn | hn := h.cause
  · have hv : v.type = t := (hvx.2.resolve_left (hx ▸ hne.1)).trans hx
    exact hvy ⟨hsub v hv hvx.1, .inr <| hv.trans hy.symm⟩
  · exact hne.2 (hx.symm.trans (type_of_hasNan hbx hn))
  · exact hne.2 (hy.symm.trans (type_of_hasNan hby hn))
  · obtain ⟨r, hr, -⟩ := h.meets
    have hc := Compatible.of_ok hr
    rw [hx, type_of_hasNan hbc hn] at hc
    exact hne.2 <| (hc.resolve_left hne.1).resolve_left (by decide)

-- Whatever intersects a capability intersects one that includes it, unless the latter is misled.
theorem misled_of_included (hbx : Built xCap.value) (hby : Built yCap.value) (hbc : Built con.value)
    (h : Included xCap yCap) (hm : Meets xCap con) (hno : ¬Meets yCap con) : Misled xCap yCap con := by
  have hi : con.value.infinite = false := Bool.eq_false_iff.mpr fun hi => hno ⟨h.enumerated, hm.enumerated, .inl hi⟩
  have hl : xCap.value.Leaves con.value := hm.common.resolve_left (by simp [hi])
  have hl' : ¬yCap.value.Leaves con.value := fun hl' => hno ⟨h.enumerated, hm.enumerated, .inr hl'⟩
  refine ⟨h.within, hl, hl', ?_⟩
  by_cases hnan : xCap.value.hasNan ∨ yCap.value.hasNan ∨ con.value.hasNan
  case pos => exact .inr hnan
  case neg =>
    simp only [not_or, Bool.not_eq_true] at hnan
    obtain ⟨hnx, hny, hnc⟩ := hnan
    obtain ⟨v, hn, hvx, hvc⟩ := (leaves_iff hbx hbc h.listed hm.enumerated hnx hnc).mp hl
    refine .inl ⟨v, hvx, hvc, fun hvy => hl' ?_⟩
    exact (leaves_iff hby hbc h.enumerated hm.enumerated hny hnc).mpr ⟨v, hn, hvy, hvc⟩

-- A name of neither set is unconstrained in both.
theorem misled_of_accepts (hx : native.Whole) (ha : alt.Whole) (hy : y.Whole) (h : Accepts native alt)
    (hm : Matches native y) (hp : alt.isPartOf y) (hno : ¬Matches alt y) :
    ∃ con ∈ y.cons.values, Misled (native.get con.name) (alt.get con.name) con := by
  obtain ⟨con, hc, hnot⟩ : ∃ con ∈ y.cons.values, ¬Meets (alt.get con.name) con := by
    by_contra hall
    simp only [not_exists, not_and, not_not] at hall
    exact hno ⟨hp, hall⟩
  have hmeets := hm.meets con hc
  refine ⟨con, hc, misled_of_included (hx.get con.name) (ha.get con.name) (hy con hc) ?_ hmeets hnot⟩
  by_cases hname : con.name ∈ native.caps.keys ∨ con.name ∈ alt.caps.keys
  case pos => exact h.included con.name hname
  case neg =>
    simp only [not_or] at hname
    have hget {x : CapSet F} (hx : con.name ∉ x.caps.keys) :
        x.get con.name = { name := con.name, value := cleared true false .untyped } := by
      rw [CapSet.get]
      cases hg : x.caps.get? con.name with
      | none     => rfl
      | some cap => exact absurd (Dict.mem_keys.mpr ⟨cap, hg⟩) hx
    rw [hget hname.1] at hmeets
    rw [hget hname.2] at hnot
    exact absurd hmeets hnot

end Inclusion

theorem capsConstrict_ok {pyramid : Bool} (hx : ∀ x ∈ xCaps.capsets, x.Whole) (hy : y.Whole)
    (hp : areNativeInPyramid xCaps = .ok pyramid) : (∃ r, capsConstrictAdjustByConset xCaps y = .ok r) ↔
      ∃ x ∈ xCaps.capsets, Matches x y ∧ ¬Passed pyramid y x := by
  rw [← adjustFirst_some hx hy, capsConstrictAdjustByConset, hp]
  constructor
  case mp =>
    rintro ⟨r, h⟩
    obtain ⟨_, ⟨⟩, h⟩ := Except.bind_eq_ok.mp h
    obtain ⟨found, hf, h⟩ := Except.bind_eq_ok.mp h
    cases found with
    | none   => cases h
    | some r => exact ⟨r, hf⟩
  case mpr =>
    rintro ⟨r, h⟩
    exact ⟨r, Except.bind_eq_ok.mpr ⟨pyramid, rfl, Except.bind_eq_ok.mpr ⟨some r, h, rfl⟩⟩⟩

theorem capsConstrict_exact (hx : ∀ x ∈ xCaps.capsets, x.Whole) (hy : y.Whole) :
    ((∃ r, capsConstrictAdjustByConset xCaps y = .ok r) ↔ ∃ x ∈ xCaps.capsets, Matches x y) ↔ ¬Lost xCaps y := by
  cases hp : areNativeInPyramid xCaps with
  | error e =>
    have hraises := areNative_error.mp ⟨e, hp⟩
    have hno : ¬∃ r, capsConstrictAdjustByConset xCaps y = .ok r := by
      rintro ⟨r, h⟩
      rw [capsConstrictAdjustByConset, hp] at h
      cases h
    rw [iff_false_left hno, not_iff_not]
    constructor
    case mp  =>
      rintro ⟨x, hm, h⟩
      exact .raised hm h hraises
    case mpr => rintro (⟨hm, h, -⟩ | ⟨hm, h, -, -, -, -, -, -⟩) <;> exact ⟨_, hm, h⟩
  | ok pyramid =>
    rw [capsConstrict_ok hx hy hp]
    constructor
    case mp =>
      rintro h (⟨-, -, hr⟩ | ⟨hm, hmatch, hc, ha, hn, -, -, -⟩)
      case raised  =>
        obtain ⟨e, he⟩ := areNative_error.mpr hr
        cases hp.symm.trans he
      case skipped =>
        obtain ⟨x, hx, hm, hs⟩ := h.mpr ⟨_, hm, hmatch⟩
        cases hp.symm.trans (areNative_true.mpr hc)
        exact hs ⟨rfl, ha, hn x hx hm⟩
    case mpr =>
      intro hl
      constructor
      case mp  =>
        rintro ⟨x, hm, h, -⟩
        exact ⟨x, hm, h⟩
      case mpr =>
        rintro ⟨x, hm, h⟩
        by_contra hno
        have hpass : ∀ x ∈ xCaps.capsets, Matches x y → Passed pyramid y x := fun x hm h =>
          by_contra fun hs => hno ⟨x, hm, h, hs⟩
        obtain ⟨rfl, ha, hnative⟩ := hpass x hm h
        have hc := areNative_true.mp hp
        -- an alternative accepts the native set, and does not match
        obtain ⟨alt, halt, hacc⟩ := (hc x (List.mem_filter.mpr ⟨hm, by simpa using hnative⟩)).exists_mem
        obtain ⟨hmem, hne⟩ := List.mem_filter.mp halt
        have hmiss : ¬Matches alt y := fun hmatch => by
          have hsame := (hpass alt hmem hmatch).2.2
          simp [hsame] at hne
        have hpart : alt.isPartOf y := by
          have hsame := isSamePart_alternative halt
          have hof := h.part
          simp only [CapSet.isSamePart, CapSet.isPartOf, decide_eq_true_eq] at hsame hof ⊢
          exact ⟨hsame.1.symm.trans hof.1, hsame.2.symm.trans hof.2⟩
        obtain ⟨con, hcon, hmis⟩ := misled_of_accepts (hx x hm) (hx alt hmem) hy hacc h hpart hmiss
        exact hl <| .skipped hm h hc ha (fun x hm h => (hpass x hm h).2.2) halt hcon hmis

namespace Pyramid

open RangeValue.Halves

local instance interpreter : Interpreter Rat := .exact

def minusHundred : RangeValue Rat where
  infinite   := false
  empty      := false
  type       := .int
  min        := none
  max        := none
  values     := some [.int (-100)]
  enumerated := [.int (-100)]

theorem built_minusHundred : Built minusHundred :=
  ⟨{ values := some [.int (-100)] }, by decide⟩

def capable (preference : Int) (value : RangeValue Rat) : CapSet Rat where
  caps                     := Dict.set ∅ "w" { name := "w", value }
  named                    := by
    intro e h
    obtain ⟨hk, hv⟩ | ⟨-, h⟩ := Dict.mem_set_items.mp h
    · rw [hk, hv]
    · exact absurd h List.not_mem_nil
  preference
  label                    := ""
  format                   := none
  layer                    := none
  layerCompatibilityGroups := none

-- The native set is judged to be part of the other one, which does not have the value.
def natives : Caps Rat where
  capsets := [capable NATIVE upToFive, capable 0 oneToTen]

def asked : ConSet Rat where
  cons                     := Dict.set ∅ "w" { name := "w", value := minusHundred }
  named                    := by
    intro e h
    obtain ⟨hk, hv⟩ | ⟨-, h⟩ := Dict.mem_set_items.mp h
    · rw [hk, hv]
    · exact absurd h List.not_mem_nil
  preference               := 0
  label                    := ""
  format                   := none
  layer                    := none
  layerCompatibilityGroups := none

theorem whole : (∀ x ∈ natives.capsets, x.Whole) ∧ asked.Whole := by
  refine ⟨List.forall_mem_cons.mpr ⟨?_, List.forall_mem_singleton.mpr ?_⟩, ?_⟩
  · exact List.forall_mem_singleton.mpr built.1
  · exact List.forall_mem_singleton.mpr built.2
  · exact List.forall_mem_singleton.mpr built_minusHundred

theorem capsConstrict_exact_pyramid : ((∃ r, capsConstrictAdjustByConset natives asked = .ok r) ↔
    ∃ x ∈ natives.capsets, Matches x asked) ↔ ¬Lost natives asked :=
  capsConstrict_exact whole.1 whole.2

theorem capsConstrict_pyramid : ¬((∃ r, capsConstrictAdjustByConset natives asked = .ok r) ↔
    ∃ x ∈ natives.capsets, Matches x asked) := by
  have hmeets : Matches (capable NATIVE upToFive) asked := by
    refine ⟨rfl, List.forall_mem_singleton.mpr ⟨rfl, rfl, .inr ⟨minusHundred, by decide, rfl⟩⟩⟩
  have hnone : (capsConstrictAdjustByConset natives asked).toOption.isNone = true := by decide +kernel
  intro h
  obtain ⟨r, hr⟩ := h.mpr ⟨_, List.mem_cons_self, hmeets⟩
  rw [hr] at hnone
  cases hnone

end Pyramid

end Ccf
