import NmosReference.Ccf.CapsJsonRanges
import NmosReference.Controller.Compat

-- Both paths to an intersection meet, but for the trunk.
namespace Ccf

variable {F : Type} [Interpreter F] {xCaps caps : Caps F} {capset : CapSet F} {conset : ConSet F} {consets : List (ConSet F)}

open RangeValue

section Conversion

theorem makeRange_ok {args : RangeArgs F} {r : RangeValue F} (h : makeRange args = .ok r) : Built r :=
  ⟨args, makeRange_make h⟩

theorem parseCapability_ok {capName label : String} {c : CapJson F} {r : RangeValue F}
    (h : parseCapability capName label c = .ok r) : Built r := by
  cases c with
  | scalar v                       => exact makeRange_ok h
  | list items                     =>
    obtain ⟨_, -, h⟩ := Except.bind_eq_ok.mp h
    exact makeRange_ok h
  | rational numerator denominator =>
    obtain ⟨_, -, h⟩ := Except.bind_eq_ok.mp (named_ok h)
    exact makeRange_ok h
  | keywords minimum maximum enum  =>
    obtain ⟨_, -, h⟩ := Except.bind_eq_ok.mp (named_ok h)
    obtain ⟨_, -, h⟩ := Except.bind_eq_ok.mp h
    obtain ⟨_, -, h⟩ := Except.bind_eq_ok.mp h
    exact makeRange_ok h

theorem parseEntries_whole {label : String} {entries : List (String × CapJson F)} {x : CapSet F} (hx : x.Whole)
    (h : parseEntries label entries x = .ok capset) : capset.Whole := by
  induction entries generalizing x with
  | nil             => cases h; exact hx
  | cons e entries ih =>
    obtain ⟨value, hv, h⟩ := Except.bind_eq_ok.mp h
    exact ih (hx.set <| parseCapability_ok hv) h

theorem convertConstraintSets_whole {csIndex : Nat} {sets : List (ConstraintSet F)} {capsets : List (CapSet F)}
    (h : convertConstraintSets csIndex sets = .ok capsets) : ∀ x ∈ capsets, x.Whole := by
  induction sets generalizing csIndex capsets with
  | nil           => cases h; simp
  | cons cs sets ih =>
    obtain ⟨x, hx, h⟩ := Except.bind_eq_ok.mp h
    obtain ⟨xs, hxs, h⟩ := Except.bind_eq_ok.mp h
    cases h
    exact List.forall_mem_cons.mpr ⟨parseEntries_whole (fun _ h => absurd h List.not_mem_nil) hx, ih hxs⟩

theorem convert_whole {sets : List (ConstraintSet F)} (h : convertCapsJsonToCaps sets = .ok caps) :
    ∀ x ∈ caps.capsets, x.Whole := by
  obtain ⟨capsets, hc, h⟩ := Except.bind_eq_ok.mp h
  cases h
  exact convertConstraintSets_whole hc

end Conversion

section Cons

theorem ConSet.Whole.set {con : Constraint F} (h : conset.Whole) (hc : Built con.value) : (conset.set con).Whole := by
  intro c hm
  obtain rfl | hm := Dict.mem_values_set hm
  · exact hc
  · exact h c hm

theorem copyCapabilities_ok {capabilities : List (Capability F)} (hc : ∀ cap ∈ capabilities, Built cap.value)
    (hy : conset.Whole) : ∃ y, copyCapabilities capabilities conset = .ok y ∧ y.Whole := by
  induction capabilities generalizing conset with
  | nil                  => exact ⟨conset, rfl, hy⟩
  | cons cap capabilities ih =>
    obtain ⟨hcap, hcaps⟩ := List.forall_mem_cons.mp hc
    have hset : (conset.set { name := cap.name, value := cap.value, original := cap.original }).Whole := hy.set hcap
    obtain ⟨y, he, hw⟩ := ih hcaps hset
    exact ⟨y, Except.bind_eq_ok.mpr ⟨cap.value, by rw [hcap.again]; rfl, he⟩, hw⟩

theorem toConsets_ok {capsets : List (CapSet F)} (h : ∀ x ∈ capsets, x.Whole) :
    ∃ consets, toConsets capsets = .ok consets ∧ ∀ y ∈ consets, y.Whole := by
  induction capsets with
  | nil                => exact ⟨[], rfl, by simp⟩
  | cons capset capsets ih =>
    obtain ⟨hc, hcs⟩ := List.forall_mem_cons.mp h
    have hnil : ∀ con ∈ (∅ : Dict String (Constraint F)).values, Built con.value := fun _ h => absurd h List.not_mem_nil
    obtain ⟨y, hy, hw⟩ : ∃ y, capset.toConset = .ok y ∧ y.Whole := copyCapabilities_ok hc hnil
    obtain ⟨ys, hys, hws⟩ := ih hcs
    exact ⟨y :: ys, Except.bind_eq_ok.mpr ⟨y, hy, Except.bind_eq_ok.mpr ⟨ys, hys, rfl⟩⟩, List.forall_mem_cons.mpr ⟨hw, hws⟩⟩

theorem toCons_ok (h : ∀ x ∈ caps.capsets, x.Whole) :
    ∃ cons, caps.toCons = .ok cons ∧ ∀ y ∈ cons.consets, y.Whole := by
  obtain ⟨consets, hc, hw⟩ := toConsets_ok h
  exact ⟨_, Except.bind_eq_ok.mpr ⟨consets, hc, rfl⟩, hw⟩

omit [Interpreter F] in
theorem byEach_eq {constrict : ConSet F → Except (CapsError F) (CapSet F)} (h : ∀ y ∈ consets, Tame (constrict y)) :
    byEach constrict consets = .ok (consets.filterMap fun y => (constrict y).toOption) := by
  induction consets with
  | nil                => rfl
  | cons conset consets ih =>
    obtain ⟨hc, hcs⟩ := List.forall_mem_cons.mp h
    rw [byEach, ih hcs]
    cases he : constrict conset with
    | ok r    => simp [he, Except.toOption, bind, Except.bind]
    | error e => simp [he, Except.toOption, hc e he]

end Cons

end Ccf

namespace Compat

open Ccf

variable {F : Type} [Interpreter F] {sender receiver : Resource F} {senderSets receiverSets : List (ConstraintSet F)}
  {x y : Caps F}

-- What a receiver leaves of a sender, in the order of its sets.
def overlaps (x : Caps F) (cons : Cons F) : List (CapSet F) :=
  cons.consets.filterMap fun conset => (capsConstrictAdjustByConset x.get conset).toOption

def Negotiable (sender receiver : Resource F) : Prop :=
  ∃ s sets, filterSenderCsByReceiver sender receiver = .ok s ∧ s.constraintSets = some sets ∧ sets ≠ []

theorem get_whole (h : ∀ s ∈ x.capsets, s.Whole) : ∀ s ∈ x.get.capsets, s.Whole :=
  fun s hs => h s (List.mem_mergeSort.mp hs)

theorem intersectCaps_eq {cons : Cons F} (hx : ∀ s ∈ x.capsets, s.Whole) (hw : ∀ s ∈ cons.consets, s.Whole)
    (hc : y.toCons = .ok cons) : intersectCaps (some x) (some y) =
      if overlaps x cons = [] then none else some (.caps { capsets := overlaps x cons }) := by
  have he := byEach_eq fun s hs => tame_capsConstrict (get_whole hx) (hw s hs)
  simp only [intersectCaps, intersectConstraintsWithCaps, hc, capsConstrictAdjustByCons, bySets, he, bind, Except.bind]
  rw [overlaps]
  split <;> rfl

omit [Interpreter F] in
theorem any_relabel (f : ConSet F → Option (CapSet F)) (consets : List (ConSet F)) :
    (consets.filterMap fun c => (f c).map (relabel c.label)).any isTrunk = (consets.filterMap f).any isTrunk := by
  rw [List.any_filterMap, List.any_filterMap]
  refine congrArg consets.any <| funext fun c => ?_
  cases f c <;> rfl

omit [Interpreter F] in
theorem kept_ne_nil {narrowed : List (CapSet F)} :
    (if narrowed ≠ [] ∧ !narrowed.any isTrunk then [] else narrowed) ≠ [] ↔ narrowed.any isTrunk := by
  split
  case isTrue h  => simpa using h.2
  case isFalse h =>
    cases narrowed with
    | nil                 => simp
    | cons capset capsets => simpa [or_iff_not_imp_left] using h

theorem resourceCcfCaps_eq (hs : sender.constraintSets = some senderSets) (hx : convertCapsJsonToCaps senderSets = .ok x) :
    resourceCcfCaps sender = some x := by
  simp [resourceCcfCaps, hs, hx, Except.toOption]

theorem negotiable_overlaps {cons : Cons F} (hs : sender.constraintSets = some senderSets)
    (hr : receiver.constraintSets = some receiverSets) (hx : convertCapsJsonToCaps senderSets = .ok x)
    (hy : convertCapsJsonToCaps receiverSets = .ok y) (hc : y.toCons = .ok cons) :
    Negotiable sender receiver ↔ (overlaps x cons).any isTrunk := by
  unfold Negotiable filterSenderCsByReceiver
  simp only [resourceCcfCaps_eq hs hx, resourceCcfCaps_eq hr hy, hr, hc, bind, Except.bind, Option.isNone_some,
    Bool.false_eq_true, ↓reduceIte]
  have ht : (cons.consets.filterMap (narrowBy x.get)).any isTrunk = (overlaps x cons).any isTrunk := any_relabel ..
  rw [← ht, ← kept_ne_nil]
  constructor
  case mp =>
    rintro ⟨s, sets, ⟨⟩, ⟨⟩, hn⟩ hk
    exact hn <| List.map_eq_nil_iff.mpr hk
  case mpr =>
    intro hk
    exact ⟨_, _, rfl, rfl, fun hn => hk <| List.map_eq_nil_iff.mp hn⟩

-- Layers without a trunk are compatible, and nothing is left of them.
theorem negotiable_iff (hs : sender.constraintSets = some senderSets) (hr : receiver.constraintSets = some receiverSets)
    (hx : convertCapsJsonToCaps senderSets = .ok x) (hy : convertCapsJsonToCaps receiverSets = .ok y) :
    Negotiable sender receiver ↔ isCompatible (resourceCcfCaps sender) (resourceCcfCaps receiver) ∧
      ∃ result, intersectCaps (resourceCcfCaps sender) (resourceCcfCaps receiver) = some (.caps result) ∧
        ∃ c ∈ result.capsets, isTrunk c := by
  obtain ⟨cons, hc, hw⟩ := toCons_ok (convert_whole hy)
  have hi := intersectCaps_eq (convert_whole hx) hw hc
  rw [negotiable_overlaps hs hr hx hy hc, isCompatible, resourceCcfCaps_eq hs hx, resourceCcfCaps_eq hr hy, hi, List.any_eq_true]
  by_cases hn : overlaps x cons = []
  case pos => simp [hn]
  case neg => simp [hn]

section Examples

local instance interpreter : Interpreter Rat := .exact

-- A constraint set without constraints.
def declares (format : Option String) (layer : Option Int) : Resource Rat where
  constraintSets :=
    some [{ label := none, preference := none, format, layer, layerCompatibilityGroups := none, entries := ∅ }]

def constraintSet (preference : Int) (format : Option String) (layer : Option Int) (entries : List (String × CapJson Rat)) :
    ConstraintSet Rat where
  label                    := none
  preference               := some preference
  format
  layer
  layerCompatibilityGroups := some [0]
  entries                  := entries.foldl (fun d e => d.set e.1 e.2) ∅

def width (minimum maximum : Val Rat) : String × CapJson Rat :=
  ("urn:x-nmos:cap:format:frame_width", .keywords (.scalar minimum) (.scalar maximum) none)

-- A multiplexed stream: a native layer of video with an alternative, the trunk and a layer of audio.
def muxSets : List (ConstraintSet Rat) :=
  [ constraintSet 100 (some FormatVideo) (some 0) [width (.int 1920) (.int 1920)],
    constraintSet 10 (some FormatVideo) (some 0) [width (.int 1280) (.int 3840)],
    constraintSet 0 none none [("urn:x-nmos:cap:format:media_type", .list [.scalar (.str "video/mp2t")])],
    constraintSet 0 (some FormatAudio) (some 0) [("urn:x-nmos:cap:format:channel_count", .scalar (.int 2))] ]

-- Its second set is met by none of those.
def playerSets : List (ConstraintSet Rat) :=
  [ constraintSet 0 none none
      [ ("urn:x-nmos:cap:format:media_type",
          .keywords (.scalar .none) (.scalar .none) (some [.scalar (.str "video/mp2t"), .scalar (.str "application/mp4")])),
        ("urn:x-nmos:cap:format:grain_rate", .rational (.int 30000) (.int 1001)) ],
    constraintSet 50 (some FormatVideo) (some 0) [width (.int 7680) .none],
    constraintSet 20 (some FormatVideo) (some 0) [width .none (.int 1920)] ]

def mux : Resource Rat where
  constraintSets := some muxSets

def player : Resource Rat where
  constraintSets := some playerSets

-- What is declared in the order of preference stays as it is.
theorem overlaps_of_sorted {x : Caps F} (h : x.capsets.Pairwise fun c d => d.preference ≤ c.preference) (cons : Cons F) :
    overlaps x cons = cons.consets.filterMap fun conset =>
      (capsConstrictAdjustByConset { capsets := x.capsets, filtered := true } conset).toOption := by
  rw [overlaps, Caps.get, List.mergeSort_of_pairwise (by simpa using h)]

theorem negotiated : (convertCapsJsonToCaps muxSets).toOption.any fun x => (convertCapsJsonToCaps playerSets).toOption.any fun y =>
    y.toCons.toOption.any fun cons => decide (x.capsets.Pairwise fun c d => d.preference ≤ c.preference) &&
      (cons.consets.filterMap fun conset =>
        (capsConstrictAdjustByConset { capsets := x.capsets, filtered := true } conset).toOption).any isTrunk := by
  decide +kernel

theorem negotiable_iff_trunk : Negotiable mux player ∧ isCompatible (resourceCcfCaps mux) (resourceCcfCaps player) ∧
    ∃ result, intersectCaps (resourceCcfCaps mux) (resourceCcfCaps player) = some (.caps result) ∧
      ∃ c ∈ result.capsets, isTrunk c := by
  obtain ⟨x, hx, h⟩ := (Option.any_eq_true _ _).mp negotiated
  obtain ⟨y, hy, h⟩ := (Option.any_eq_true _ _).mp h
  obtain ⟨cons, hc, h⟩ := (Option.any_eq_true _ _).mp h
  rw [Except.toOption_eq_some] at hx hy hc
  rw [Bool.and_eq_true, decide_eq_true_eq] at h
  have hmux : mux.constraintSets = some muxSets := rfl
  have hplayer : player.constraintSets = some playerSets := rfl
  have hn : Negotiable mux player := by
    rw [negotiable_overlaps hmux hplayer hx hy hc, overlaps_of_sorted h.1]
    exact h.2
  exact ⟨hn, (negotiable_iff hmux hplayer hx hy).mp hn⟩

theorem not_negotiable_layer :
    ¬(isCompatible (resourceCcfCaps (declares (some FormatVideo) (some 0)))
      (resourceCcfCaps (declares (some FormatVideo) (some 0))) = true ↔
        Negotiable (declares (some FormatVideo) (some 0)) (declares (some FormatVideo) (some 0))) := by
  have hc : isCompatible (resourceCcfCaps (declares (some FormatVideo) (some 0)))
      (resourceCcfCaps (declares (some FormatVideo) (some 0))) = true := by
    decide +kernel
  have hf : ((filterSenderCsByReceiver (declares (some FormatVideo) (some 0)) (declares (some FormatVideo) (some 0))).toOption.bind
      Resource.constraintSets).all List.isEmpty = true := by
    decide +kernel
  intro h
  obtain ⟨s, sets, hs, hsets, hn⟩ := h.mp hc
  rw [hs] at hf
  simp only [Except.toOption, Option.bind_some, hsets, Option.all_some, List.isEmpty_iff] at hf
  exact hn hf

end Examples

end Compat
