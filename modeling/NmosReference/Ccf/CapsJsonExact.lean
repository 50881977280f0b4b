import NmosReference.Ccf.CapsJsonRanges
import NmosReference.Ccf.Natives

-- Which capabilities survive being written and read.
namespace Ccf

variable {F : Type} [Interpreter F]

open RangeValue

section Ranges

variable {name label : String} {r : RangeValue F}

-- Ranges that can be told from what is written of them.
structure Written (name : String) (r : RangeValue F) : Prop where
  nonempty : r.empty = false
  listed   : r.hasEnumException = false
  typed    : r.infinite → r.type = rangeType name

def SameValues (r r' : RangeValue F) : Prop :=
  ∀ v, r'.includesValue v = .ok true ↔ r.includesValue v = .ok true

-- What is read of a range.
def readBack (name : String) (r : RangeValue F) : RangeValue F :=
  if r.infinite ∨ r.empty ∨ r.hasEnumException then cleared true false (rangeType name) else r

theorem parse_rangeToJson (h : Faithful name r) : parseCapability name label (rangeToJson r) = .ok (readBack name r) := by
  unfold readBack
  split
  case isTrue hr  => exact read_cleared h hr
  case isFalse hr =>
    simp only [not_or, Bool.not_eq_true] at hr
    exact read_finite h hr.1 hr.2.1 hr.2.2

theorem exists_admitted (F : Type) [Interpreter F] (t : RangeType) : ∃ v : Val F, admits t v := by
  cases t with
  | untyped  => exact ⟨.none, rfl⟩
  | bool     => exact ⟨.bool true, rfl⟩
  | string   => exact ⟨.str "", rfl⟩
  | int      => exact ⟨.int 0, rfl⟩
  | float    => exact (Interpreter.nonempty : Nonempty F).elim fun f => ⟨.float f, rfl⟩
  | rational => exact ⟨.rational 0, rfl⟩

theorem not_includesValue (h : Built r) (he : r.empty ∨ r.hasEnumException) (v : Val F) : r.includesValue v ≠ .ok true := by
  obtain ⟨args, h⟩ := h
  have hm := make_made h
  obtain he | hx := he
  case inl => exact hm.nothing he ▸ includesValue_empty
  case inr =>
    have hv : r.values = some [] := by simpa [hasEnumException] using hx
    obtain ⟨hi, he⟩ := hm.not_cleared hx
    unfold includesValue
    rw [ne_eq, Except.bind_eq_ok]
    rintro ⟨_, -, h⟩
    simp [hi, he, hv, enumerates, hm.unlisted hv] at h

theorem readBack_same (h : Faithful name r) : SameValues r (readBack name r) ↔ Written name r := by
  by_cases he : r.empty ∨ r.hasEnumException
  case pos =>
    refine iff_of_false (fun hs => ?_) fun hw => by simp [hw.nonempty, hw.listed] at he
    obtain ⟨v, hv⟩ := exists_admitted F (rangeType name)
    refine not_includesValue h.built he v <| (hs v).mp ?_
    rw [readBack, if_pos (.inr he)]
    exact includesValue_infinite hv
  case neg =>
    obtain ⟨hne, hl⟩ := not_or.mp he
    rw [Bool.not_eq_true] at hne hl
    by_cases hi : r.infinite
    case neg =>
      rw [readBack, if_neg (by simp [hi, hne, hl])]
      exact iff_of_true (fun _ => .rfl) ⟨hne, hl, fun h => absurd h hi⟩
    case pos =>
      have hw : Written name r ↔ r.type = rangeType name := ⟨fun h => h.typed hi, fun h => ⟨hne, hl, fun _ => h⟩⟩
      rw [readBack, if_pos (.inl hi), hw]
      constructor
      case mpr => exact fun ht v => by rw [← ht, ← h.built.everything hi]
      case mp =>
        intro hs
        obtain ht | hu := h.infinite hi
        case inl => exact ht
        case inr =>
          -- `null` is of no type, so that an untyped range alone includes it
          have hn : r.includesValue .none = .ok true := by
            rw [h.built.everything hi, hu]
            exact includesValue_infinite rfl
          have hn' := (hs .none).mpr hn
          rw [hu]
          cases ht : rangeType name with
          | untyped => rfl
          | _       => rw [ht] at hn'; cases hn'

end Ranges

section Sets

variable {s : CapSet F} {y : ConSet F}

-- The names are no meta keys, and the ranges are those of their names.
def CapSet.Faithful (s : CapSet F) : Prop :=
  ∀ e ∈ s.caps.items, isMeta e.1 = false ∧ RangeValue.Faithful e.1 e.2.value

def ConSet.Faithful (y : ConSet F) : Prop :=
  ∀ e ∈ y.cons.items, isMeta e.1 = false ∧ RangeValue.Faithful e.1 e.2.value

-- Of the same part and the same standing, with the same names and values in the same order.
structure SameSet (s s' : CapSet F) : Prop where
  label      : s'.label = s.label
  preference : s'.preference = s.preference
  format     : s'.format = s.format
  layer      : s'.layer = s.layer
  groups     : Option.Rel List.Perm s.layerCompatibilityGroups s'.layerCompatibilityGroups
  names      : s'.caps.keys = s.caps.keys
  values     : ∀ name ∈ s.caps.keys, SameValues (s.get name).value (s'.get name).value

def CapSet.readBack (s : CapSet F) : CapSet F where
  caps                     := s.caps.map fun name cap => { name, value := Ccf.readBack name cap.value }
  named                    := by
    intro e h
    obtain ⟨e', -, rfl⟩ := List.mem_map.mp h
    rfl
  preference               := s.preference
  label                    := s.label
  format                   := s.format
  layer                    := s.layer
  layerCompatibilityGroups := s.layerCompatibilityGroups.map (List.mergeSort · (· ≤ ·))

theorem parseEntries_written (label : String) {entries : List (String × Capability F)} (hd : (s.caps.keys ++ entries.map Prod.fst).Nodup)
    (hf : ∀ e ∈ entries, RangeValue.Faithful e.1 e.2.value) :
    ∃ s', parseEntries label (entries.map fun e => (e.1, rangeToJson e.2.value)) s = .ok s' ∧
      s'.caps.items = s.caps.items ++ entries.map (fun e => (e.1, { name := e.1, value := Ccf.readBack e.1 e.2.value })) ∧
      s'.preference = s.preference ∧ s'.label = s.label ∧ s'.format = s.format ∧ s'.layer = s.layer ∧
      s'.layerCompatibilityGroups = s.layerCompatibilityGroups := by
  induction entries generalizing s with
  | nil            => exact ⟨s, rfl, by simp, rfl, rfl, rfl, rfl, rfl⟩
  | cons e entries ih =>
    obtain ⟨he, hes⟩ := List.forall_mem_cons.mp hf
    have hnew : e.1 ∉ s.caps.keys := fun h =>
      List.disjoint_of_nodup_append hd h (List.mem_map_of_mem List.mem_cons_self)
    let cap : Capability F := { name := e.1, value := Ccf.readBack e.1 e.2.value }
    have hitems : (s.set cap).caps.items = s.caps.items ++ [(e.1, cap)] := Dict.set_items.trans (if_neg hnew)
    have hkeys : (s.set cap).caps.keys = s.caps.keys ++ [e.1] := Dict.keys_set_of_not_mem hnew
    obtain ⟨s', hp, hi, hrest⟩ := ih (s := s.set cap) (by rw [hkeys, List.append_assoc]; exact hd) hes
    refine ⟨s', Except.bind_eq_ok.mpr ⟨_, parse_rangeToJson he, hp⟩, ?_, hrest⟩
    rw [hi, hitems, List.append_assoc]
    rfl

omit [Interpreter F] in
theorem CapSet.ext_fields {s s' : CapSet F} (hc : s.caps.items = s'.caps.items) (hp : s.preference = s'.preference)
    (hl : s.label = s'.label) (hf : s.format = s'.format) (hy : s.layer = s'.layer)
    (hg : s.layerCompatibilityGroups = s'.layerCompatibilityGroups) : s = s' := by
  obtain ⟨caps, named, preference, label, format, layer, groups⟩ := s
  obtain ⟨caps', named', _, _, _, _, _⟩ := s'
  obtain rfl : caps = caps' := Dict.ext_items hc
  cases hp
  cases hl
  cases hf
  cases hy
  cases hg
  rfl

-- A set is always read, with all of its names.
theorem convertConstraintSet_written (h : s.Faithful) (i : Nat) :
    convertConstraintSet i (constraintSetToJson s) = .ok s.readBack := by
  have hkeep : ((constraintSetToJson s).entries.items.filter fun e => !isMeta e.1) =
      s.caps.items.map fun e => (e.1, rangeToJson e.2.value) := by
    rw [List.filter_eq_self.mpr]
    · rfl
    · intro e he
      obtain ⟨e', he', rfl⟩ := List.mem_map.mp he
      simp [(h e' he').1]
  rw [convertConstraintSet, hkeep]
  obtain ⟨s', hp, hi, hpref, hl, hf, hy, hg⟩ := parseEntries_written s.label
    (s := { caps := ∅, named := fun _ h => absurd h List.not_mem_nil, preference := s.preference, label := s.label,
            format := s.format, layer := s.layer,
            layerCompatibilityGroups := s.layerCompatibilityGroups.map (List.mergeSort · (· ≤ ·)) })
    s.caps.nodup fun e he => (h e he).2
  refine hp.trans <| congrArg Except.ok <| CapSet.ext_fields ?_ hpref hl hf hy hg
  rw [hi]
  rfl

omit [Interpreter F] in
theorem name_mem_keys {name : String} {cap : Capability F} (h : (name, cap) ∈ s.caps.items) : name ∈ s.caps.keys :=
  List.mem_map_of_mem h

omit [Interpreter F] in
theorem CapSet.get_of_mem {name : String} {cap : Capability F} (h : (name, cap) ∈ s.caps.items) : s.get name = cap := by
  rw [CapSet.get, Dict.get?_eq_some.mpr h]
  rfl

theorem CapSet.get_readBack {name : String} {cap : Capability F} (h : (name, cap) ∈ s.caps.items) :
    (s.readBack.get name).value = Ccf.readBack name cap.value := by
  rw [CapSet.get, CapSet.readBack, Dict.get?_map, Dict.get?_eq_some.mpr h]
  rfl

omit [Interpreter F] in
theorem groups_sorted (groups : Option (List Int)) : Option.Rel List.Perm groups (groups.map (List.mergeSort · (· ≤ ·))) := by
  cases groups with
  | none    => exact .none
  | some gs => exact .some (List.mergeSort_perm ..).symm

theorem sameSet_readBack (h : s.Faithful) : SameSet s s.readBack ↔ ∀ e ∈ s.caps.items, Written e.1 e.2.value := by
  have hvalues : ∀ e ∈ s.caps.items, (SameValues (s.get e.1).value (s.readBack.get e.1).value ↔ Written e.1 e.2.value) := by
    intro e he
    rw [CapSet.get_of_mem he, CapSet.get_readBack he]
    exact readBack_same (h e he).2
  constructor
  case mp => exact fun hs e he => (hvalues e he).mp <| hs.values e.1 (name_mem_keys he)
  case mpr =>
    intro hw
    refine ⟨rfl, rfl, rfl, rfl, groups_sorted _, ?_, fun name hn => ?_⟩
    · simp [CapSet.readBack, Dict.keys, Dict.map]
    · obtain ⟨e, he, rfl⟩ := List.mem_map.mp hn
      exact (hvalues e he).mpr (hw e he)

end Sets

section Operators

variable {name : String} {s r : CapSet F} {y : ConSet F} {cap rCap : Capability F} {con : Constraint F} {capsets : List (CapSet F)}

theorem CapSet.Faithful.get (h : s.Faithful) (name : String) : RangeValue.Faithful name (s.get name).value := by
  unfold CapSet.get
  cases hg : s.caps.get? name with
  | none     => exact .everything (.inr rfl)
  | some cap => exact (h _ (Dict.get?_eq_some.mp hg)).2

theorem CapSet.Faithful.set (h : s.Faithful) (hm : isMeta cap.name = false)
    (hf : RangeValue.Faithful cap.name cap.value) : (s.set cap).Faithful := by
  rintro ⟨k, c⟩ he
  obtain ⟨rfl, rfl⟩ | ⟨-, he⟩ := Dict.mem_set_items.mp he
  · exact ⟨hm, hf⟩
  · exact h _ he

theorem ConSet.Faithful.set (h : y.Faithful) (hm : isMeta con.name = false)
    (hf : RangeValue.Faithful con.name con.value) : (y.set con).Faithful := by
  rintro ⟨k, c⟩ he
  obtain ⟨rfl, rfl⟩ | ⟨-, he⟩ := Dict.mem_set_items.mp he
  · exact ⟨hm, hf⟩
  · exact h _ he

theorem ConSet.Faithful.values (h : y.Faithful) :
    ∀ con ∈ y.cons.values, isMeta con.name = false ∧ RangeValue.Faithful con.name con.value := by
  intro con hc
  obtain ⟨e, he, rfl⟩ := List.mem_map.mp hc
  exact y.named e he ▸ h e he

section Conversion

theorem parseRangeValue_faithful {minimum maximum : Item F} {enum : Option (List (Item F))} {value : RangeValue F}
    (h : parseRangeValue minimum maximum enum (rangeType name) = .ok value) : RangeValue.Faithful name value := by
  obtain ⟨min, -, h⟩ := Except.bind_eq_ok.mp h
  obtain ⟨max, -, h⟩ := Except.bind_eq_ok.mp h
  obtain ⟨enumerated, he, h⟩ := Except.bind_eq_ok.mp h
  refine .of_make (makeRange_make h) rfl (fun hi => ?_) fun hl => ?_
  · simp only [decide_eq_true_eq] at hi
    obtain ⟨rfl, rfl, hnone⟩ := hi
    rw [Option.isNone_iff_eq_none.mp hnone] at he
    cases he
    exact ⟨rfl, rfl, rfl⟩
  · split at hl
    case isTrue      => cases hl
    case isFalse hne => exact absurd (Option.some.inj hl) hne

theorem listed_faithful {vs : List (Val F)} {value : RangeValue F}
    (h : makeRange { type := rangeType name, values := some vs } = .ok value) : RangeValue.Faithful name value :=
  .of_make (makeRange_make h) rfl nofun fun _ => ⟨rfl, rfl⟩

theorem parseCapability_faithful {label : String} {c : CapJson F} {value : RangeValue F}
    (h : parseCapability name label c = .ok value) : RangeValue.Faithful name value := by
  cases c with
  | scalar v                       => exact listed_faithful h
  | list items                     =>
    obtain ⟨_, -, h⟩ := Except.bind_eq_ok.mp h
    exact listed_faithful h
  | rational numerator denominator =>
    obtain ⟨_, -, h⟩ := Except.bind_eq_ok.mp (named_ok h)
    exact listed_faithful h
  | keywords minimum maximum enum  => exact parseRangeValue_faithful (named_ok h)

theorem parseEntries_faithful {label : String} {entries : List (String × CapJson F)} (hs : s.Faithful)
    (hm : ∀ e ∈ entries, isMeta e.1 = false) (h : parseEntries label entries s = .ok r) : r.Faithful := by
  induction entries generalizing s with
  | nil            => cases h; exact hs
  | cons e entries ih =>
    obtain ⟨value, hv, h⟩ := Except.bind_eq_ok.mp h
    obtain ⟨he, hes⟩ := List.forall_mem_cons.mp hm
    have hset : (s.set { name := e.1, value }).Faithful := hs.set he (parseCapability_faithful hv)
    exact ih hset hes h

theorem convertConstraintSet_faithful {csIndex : Nat} {cs : ConstraintSet F} (h : convertConstraintSet csIndex cs = .ok s) :
    s.Faithful := by
  unfold convertConstraintSet at h
  refine parseEntries_faithful ?_ (fun e he => ?_) h
  · exact fun e he => absurd he List.not_mem_nil
  · simpa using (List.mem_filter.mp he).2

theorem convertConstraintSets_faithful {csIndex : Nat} {sets : List (ConstraintSet F)}
    (h : convertConstraintSets csIndex sets = .ok capsets) : ∀ s ∈ capsets, s.Faithful := by
  induction sets generalizing csIndex capsets with
  | nil           => cases h; simp
  | cons cs sets ih =>
    obtain ⟨s, hs, h⟩ := Except.bind_eq_ok.mp h
    obtain ⟨ss, hss, h⟩ := Except.bind_eq_ok.mp h
    cases h
    exact List.forall_mem_cons.mpr ⟨convertConstraintSet_faithful hs, ih hss⟩

theorem copyCapabilities_faithful {capabilities : List (Capability F)} {r : ConSet F} (hy : y.Faithful)
    (hc : ∀ cap ∈ capabilities, isMeta cap.name = false ∧ RangeValue.Faithful cap.name cap.value)
    (h : copyCapabilities capabilities y = .ok r) : r.Faithful := by
  induction capabilities generalizing y with
  | nil                   => cases h; exact hy
  | cons cap capabilities ih =>
    obtain ⟨value, hv, h⟩ := Except.bind_eq_ok.mp h
    obtain ⟨⟨hm, hf⟩, hcs⟩ := List.forall_mem_cons.mp hc
    rw [hf.built.again] at hv
    cases hv
    have hset : (y.set { name := cap.name, value := cap.value, original := cap.original }).Faithful := hy.set hm hf
    exact ih hset hcs h

theorem CapSet.Faithful.values (h : s.Faithful) :
    ∀ cap ∈ s.caps.values, isMeta cap.name = false ∧ RangeValue.Faithful cap.name cap.value := by
  intro cap hc
  obtain ⟨e, he, rfl⟩ := List.mem_map.mp hc
  exact s.named e he ▸ h e he

theorem toConsets_faithful {consets : List (ConSet F)} (hs : ∀ s ∈ capsets, s.Faithful)
    (h : toConsets capsets = .ok consets) : ∀ y ∈ consets, y.Faithful := by
  induction capsets generalizing consets with
  | nil                => cases h; simp
  | cons capset capsets ih =>
    obtain ⟨hc, hcs⟩ := List.forall_mem_cons.mp hs
    obtain ⟨y, hy, h⟩ := Except.bind_eq_ok.mp h
    obtain ⟨ys, hys, h⟩ := Except.bind_eq_ok.mp h
    cases h
    exact List.forall_mem_cons.mpr ⟨copyCapabilities_faithful (fun _ h => absurd h List.not_mem_nil) hc.values hy, ih hcs hys⟩

end Conversion

section Constriction

variable [Interpreter.Iterates F]

-- What a constriction does to a capability: it is kept, is replaced by a constraint, or meets it.
theorem capConstrict_faithful (hx : RangeValue.Faithful cap.name cap.value) (hy : RangeValue.Faithful con.name con.value)
    (h : capConstrictAdjustByCon cap con = .ok rCap) : rCap.name = cap.name ∧ RangeValue.Faithful cap.name rCap.value := by
  unfold capConstrictAdjustByCon at h
  split_ifs at h with hex hey hn hi
  case pos =>
    obtain ⟨value, hv, h⟩ := Except.bind_eq_ok.mp h
    rw [hx.built.again] at hv
    cases hv
    cases h
    exact ⟨rfl, hx⟩
  case neg =>
    obtain ⟨value, hv, h⟩ := Except.bind_eq_ok.mp h
    rw [hx.built.again] at hv
    cases hv
    obtain ⟨r, hr, h⟩ := Except.bind_eq_ok.mp h
    split at h
    case isTrue  => cases h
    case isFalse =>
      cases h
      rw [← not_not.mp hn] at hy
      exact ⟨rfl, hx.intersection hy (Bool.not_eq_true _ ▸ hex) (Bool.not_eq_true _ ▸ hey) (fromRange_ok hr)⟩

omit [Interpreter.Iterates F] in
theorem capConstrictByCon_faithful (hx : RangeValue.Faithful cap.name cap.value)
    (hy : RangeValue.Faithful con.name con.value) (h : capConstrictByCon cap con = .ok rCap) :
    rCap.name = cap.name ∧ RangeValue.Faithful cap.name rCap.value := by
  unfold capConstrictByCon at h
  split_ifs at h with hex hey hn hi
  case pos =>
    obtain ⟨value, hv, h⟩ := Except.bind_eq_ok.mp h
    rw [hx.built.again] at hv
    cases hv
    cases h
    exact ⟨rfl, hx⟩
  case neg =>
    obtain ⟨value, hv, h⟩ := Except.bind_eq_ok.mp h
    obtain ⟨within, -, h⟩ := Except.bind_eq_ok.mp h
    split at h
    case isTrue  => cases h; exact ⟨rfl, not_not.mp hn ▸ hy⟩
    case isFalse => cases h

theorem foldlM_keeps {ε σ α : Type} {f : σ → α → Except ε σ} {P : σ → Prop} {Q : α → Prop} {as : List α} {a b : σ}
    (hf : ∀ s x r, P s → Q x → f s x = .ok r → P r) (has : ∀ x ∈ as, Q x) (ha : P a) (h : as.foldlM f a = .ok b) : P b := by
  induction as generalizing a with
  | nil         => cases h; exact ha
  | cons x as ih =>
    obtain ⟨hx, hxs⟩ := List.forall_mem_cons.mp has
    rw [List.foldlM_cons] at h
    obtain ⟨c, hc, h⟩ := Except.bind_eq_ok.mp h
    exact ih hxs (hf a x c ha hx hc) h

omit [Interpreter.Iterates F] in
theorem constrictByAll_eq (s : CapSet F) (cons : List (Constraint F)) :
    constrictByAll s cons = cons.foldlM capsetConstrictAdjustByCon s := by
  induction cons generalizing s with
  | nil           => rfl
  | cons con cons ih => simp only [constrictByAll, List.foldlM_cons, ih]

omit [Interpreter.Iterates F] in
theorem narrowByAll_eq (s : CapSet F) (cons : List (Constraint F)) :
    narrowByAll s cons = cons.foldlM capsetConstrictByCon s := by
  induction cons generalizing s with
  | nil           => rfl
  | cons con cons ih => simp only [narrowByAll, List.foldlM_cons, ih]

omit [Interpreter.Iterates F] in
theorem named_get (s : CapSet F) (h : s.Faithful) (name : String) :
    RangeValue.Faithful (s.get name).name (s.get name).value :=
  (s.name_get name).symm ▸ h.get name

theorem capsetConstrictAdjustByConset_faithful (hs : s.Faithful) (hy : y.Faithful)
    (h : capsetConstrictAdjustByConset s y = .ok r) : r.Faithful := by
  unfold capsetConstrictAdjustByConset at h
  split at h
  case isTrue  => cases h; exact hs
  case isFalse =>
    obtain ⟨r', hr, h⟩ := Except.bind_eq_ok.mp h
    cases h
    rw [constrictByAll_eq] at hr
    suffices hr' : r'.Faithful from hr'
    refine foldlM_keeps (fun s con r hs hc h => ?_) hy.values hs hr
    unfold capsetConstrictAdjustByCon at h
    split at h
    case isTrue  => cases h
    case isFalse =>
      obtain ⟨cap, hcap, h⟩ := Except.bind_eq_ok.mp h
      cases h
      obtain ⟨hn, hf⟩ := capConstrict_faithful (named_get s hs _) hc.2 hcap
      exact hs.set (by rw [hn, s.name_get]; exact hc.1) (hn ▸ hf)

omit [Interpreter.Iterates F] in
theorem capsetConstrictByConset_faithful (hs : s.Faithful) (hy : y.Faithful)
    (h : capsetConstrictByConset s y = .ok r) : r.Faithful := by
  unfold capsetConstrictByConset at h
  split at h
  case isTrue  => cases h; exact hs
  case isFalse =>
    obtain ⟨r', hr, h⟩ := Except.bind_eq_ok.mp h
    cases h
    rw [narrowByAll_eq] at hr
    suffices hr' : r'.Faithful from hr'
    refine foldlM_keeps (fun s con r hs hc h => ?_) hy.values hs hr
    unfold capsetConstrictByCon at h
    split at h
    case isTrue  => cases h
    case isFalse =>
      obtain ⟨cap, hcap, h⟩ := Except.bind_eq_ok.mp h
      cases h
      obtain ⟨hn, hf⟩ := capConstrictByCon_faithful (named_get s hs _) hc.2 hcap
      exact hs.set (by rw [hn, s.name_get]; exact hc.1) (hn ▸ hf)

theorem capsConstrictAdjustByConset_faithful {x : Caps F} (hx : ∀ s ∈ x.capsets, s.Faithful) (hy : y.Faithful)
    (h : capsConstrictAdjustByConset x y = .ok r) : r.Faithful := by
  obtain ⟨pyramid, -, h⟩ := Except.bind_eq_ok.mp h
  obtain ⟨found, hf, h⟩ := Except.bind_eq_ok.mp h
  cases found with
  | none    => cases h
  | some r' =>
    cases h
    suffices hall : ∀ capsets : List (CapSet F), (∀ s ∈ capsets, s.Faithful) →
        adjustFirst pyramid y capsets = .ok (some r) → r.Faithful from hall _ hx hf
    intro capsets hs hf
    induction capsets with
    | nil                => cases hf
    | cons capset capsets ih =>
      obtain ⟨hc, hcs⟩ := List.forall_mem_cons.mp hs
      unfold adjustFirst at hf
      split_ifs at hf
      · exact ih hcs hf
      · exact ih hcs hf
      · split at hf
        case h_1 r' hr => cases hf; exact capsetConstrictAdjustByConset_faithful hc hy hr
        case h_2       => split at hf; exact ih hcs hf; cases hf

omit [Interpreter.Iterates F] in
theorem capsConstrictByConset_faithful {x : Caps F} (hx : ∀ s ∈ x.capsets, s.Faithful) (hy : y.Faithful)
    (h : capsConstrictByConset x y = .ok r) : r.Faithful := by
  unfold capsConstrictByConset at h
  generalize x.capsets = capsets at hx h
  induction capsets with
  | nil                => cases h
  | cons capset capsets ih =>
    obtain ⟨hc, hcs⟩ := List.forall_mem_cons.mp hx
    unfold constrictFirst at h
    split at h
    case isTrue  => exact ih hcs h
    case isFalse =>
      obtain ⟨within, -, h⟩ := Except.bind_eq_ok.mp h
      split at h
      case isTrue  => exact capsetConstrictByConset_faithful hc hy h
      case isFalse => exact ih hcs h

omit [Interpreter.Iterates F] in
theorem byEach_keeps {constrict : ConSet F → Except (CapsError F) (CapSet F)} {consets : List (ConSet F)}
    (hf : ∀ y ∈ consets, ∀ r, constrict y = .ok r → r.Faithful) (h : byEach constrict consets = .ok capsets) :
    ∀ s ∈ capsets, s.Faithful := by
  induction consets generalizing capsets with
  | nil                => cases h; simp
  | cons conset consets ih =>
    obtain ⟨hc, hcs⟩ := List.forall_mem_cons.mp hf
    unfold byEach at h
    split at h
    case h_1 r hr =>
      obtain ⟨rs, hrs, h⟩ := Except.bind_eq_ok.mp h
      cases h
      exact List.forall_mem_cons.mpr ⟨hc r hr, ih hcs hrs⟩
    case h_2 =>
      split at h
      case isTrue  => exact ih hcs h
      case isFalse => cases h

omit [Interpreter.Iterates F] in
theorem bySets_keeps {constrict : ConSet F → Except (CapsError F) (CapSet F)} {cons : Cons F} {x : Caps F}
    (hf : ∀ y ∈ cons.consets, ∀ r, constrict y = .ok r → r.Faithful) (h : bySets constrict cons = .ok x) :
    ∀ s ∈ x.capsets, s.Faithful := by
  obtain ⟨rCaps, hr, h⟩ := Except.bind_eq_ok.mp h
  split at h
  case isTrue  => cases h
  case isFalse =>
    cases h
    exact byEach_keeps hf hr

end Constriction

end Operators

section RoundTrip

variable {caps x y : Caps F} {cons : Cons F}

-- The capabilities that are read, and what the operators make of them.
inductive Reachable : Caps F → Prop
  | converted {sets : List (ConstraintSet F)} {caps : Caps F} (h : convertCapsJsonToCaps sets = .ok caps) : Reachable caps
  | sorted {x : Caps F} (hx : Reachable x) : Reachable x.get
  | constricted {x y caps : Caps F} {cons : Cons F} (hx : Reachable x) (hy : Reachable y) (hc : y.toCons = .ok cons)
    (h : capsConstrictByCons x cons = .ok caps) : Reachable caps
  | adjusted {x y caps : Caps F} {cons : Cons F} (hx : Reachable x) (hy : Reachable y) (hc : y.toCons = .ok cons)
    (h : capsConstrictAdjustByCons x cons = .ok caps) : Reachable caps

theorem toCons_faithful (hy : ∀ s ∈ y.capsets, s.Faithful) (h : y.toCons = .ok cons) :
    ∀ c ∈ cons.consets, c.Faithful := by
  obtain ⟨consets, hc, h⟩ := Except.bind_eq_ok.mp h
  cases h
  exact toConsets_faithful hy hc

theorem Reachable.faithful [Interpreter.Iterates F] (h : Reachable caps) : ∀ s ∈ caps.capsets, s.Faithful := by
  induction h with
  | converted h =>
    obtain ⟨capsets, hc, h⟩ := Except.bind_eq_ok.mp h
    cases h
    exact convertConstraintSets_faithful hc
  | sorted _ ih => exact fun s hs => ih s (List.mem_mergeSort.mp hs)
  | constricted _ _ hc h ihx ihy =>
    exact bySets_keeps (fun c hm r hr => capsConstrictByConset_faithful ihx (toCons_faithful ihy hc c hm) hr) h
  | adjusted _ _ hc h ihx ihy =>
    exact bySets_keeps (fun c hm r hr => capsConstrictAdjustByConset_faithful ihx (toCons_faithful ihy hc c hm) hr) h

def RoundTrips (caps : Caps F) : Prop :=
  ∃ caps', convertCapsJsonToCaps (convertCapsCapsToJson caps) = .ok caps' ∧
    List.Forall₂ SameSet caps.capsets caps'.capsets

theorem convertConstraintSets_written {capsets : List (CapSet F)} (h : ∀ s ∈ capsets, s.Faithful) (i : Nat) :
    convertConstraintSets i (capsets.map constraintSetToJson) = .ok (capsets.map CapSet.readBack) := by
  induction capsets generalizing i with
  | nil                => rfl
  | cons capset capsets ih =>
    obtain ⟨hc, hcs⟩ := List.forall_mem_cons.mp h
    exact Except.bind_eq_ok.mpr ⟨_, convertConstraintSet_written hc i, Except.bind_eq_ok.mpr ⟨_, ih hcs (i + 1), rfl⟩⟩

theorem roundTrips_of_faithful (hf : ∀ s ∈ caps.capsets, s.Faithful) :
    RoundTrips caps ↔ ∀ s ∈ caps.capsets, ∀ e ∈ s.caps.items, Written e.1 e.2.value := by
  have he : convertCapsJsonToCaps (convertCapsCapsToJson caps) = .ok { capsets := caps.capsets.map CapSet.readBack } :=
    Except.bind_eq_ok.mpr ⟨_, convertConstraintSets_written hf 1, rfl⟩
  have hiff : RoundTrips caps ↔ List.Forall₂ SameSet caps.capsets (caps.capsets.map CapSet.readBack) := by
    unfold RoundTrips
    rw [he]
    constructor
    case mp  => rintro ⟨_, ⟨⟩, h⟩; exact h
    case mpr => exact fun h => ⟨_, rfl, h⟩
  rw [hiff, List.forall₂_map_right_iff, List.forall₂_same]
  exact forall₂_congr fun s hs => sameSet_readBack (hf s hs)

-- Capabilities survive if each of their ranges can be told from what is written of it.
theorem roundTrips_iff [Interpreter.Iterates F] (h : Reachable caps) :
    RoundTrips caps ↔ ∀ s ∈ caps.capsets, ∀ e ∈ s.caps.items, Written e.1 e.2.value :=
  roundTrips_of_faithful h.faithful

end RoundTrip

namespace Crossed

local instance interpreter : Interpreter Rat := .exact

local instance iterates : Interpreter.Iterates Rat where
  first_mem _ _ h    := List.mem_of_mem_head? h
  first_isSome vs hn := by
    cases vs with
    | nil      => contradiction
    | cons _ _ => rfl

-- A minimum above the maximum.
def crossed : ConstraintSet Rat where
  label                    := some ""
  preference               := none
  format                   := none
  layer                    := none
  layerCompatibilityGroups := none
  entries                  := Dict.set ∅ "w" (.keywords (.scalar (.int 2)) (.scalar (.int 1)) none)

def empty : CapSet Rat where
  caps                     := Dict.set ∅ "w" { name := "w", value := cleared false true .int }
  named                    := by
    intro e h
    obtain ⟨hk, hv⟩ | ⟨-, h⟩ := Dict.mem_set_items.mp h
    · rw [hk, hv]
    · exact absurd h List.not_mem_nil
  preference               := 0
  label                    := ""
  format                   := none
  layer                    := none
  layerCompatibilityGroups := none

theorem reachable_crossed : Reachable { capsets := [empty] } := by
  have hc : convertCapsJsonToCaps [crossed] = .ok { capsets := [empty] } := rfl
  exact .converted hc

theorem roundTrips_iff_crossed : RoundTrips { capsets := [empty] } ↔
    ∀ s ∈ [empty], ∀ e ∈ s.caps.items, Written e.1 e.2.value :=
  roundTrips_iff reachable_crossed

-- What nothing satisfies is written as what anything satisfies.
theorem not_roundTrips_crossed : Reachable { capsets := [empty] } ∧ ¬RoundTrips { capsets := [empty] } := by
  refine ⟨reachable_crossed, fun h => ?_⟩
  have hw := (roundTrips_of_faithful reachable_crossed.faithful).mp h empty List.mem_cons_self ("w", _) List.mem_cons_self
  cases hw.nonempty

end Crossed

end Ccf
