import NmosReference.Ccf.Normalize

namespace Ccf

open PartSet

def formats : List String :=
  [FormatAudio, FormatVideo, FormatData]

-- How many layers a format has.
def Layers.count (layers : Layers) (fmt : String) : Int :=
  if fmt = FormatAudio then layers.audio.getD 0
  else if fmt = FormatVideo then layers.video.getD 0
  else if fmt = FormatData then layers.data.getD 0
  else 0

variable {S : Type} [PartSet S]

-- A layer that one of the formats has.
structure InRange (layers : Layers) (fmt : String) (layerId : Int) : Prop where
  known : fmt ∈ formats
  first : 0 ≤ layerId
  last  : layerId < layers.count fmt

-- The trunk, or a layer of a format.
def fits (layers : Layers) (s : S) : Bool :=
  isTrunk s ||
    match format s, layer s with
    | some fmt, some l => decide (fmt ∈ formats) && decide (0 ≤ l) && decide (l < layers.count fmt)
    | _,        _      => false

-- A format that has no layers, which is removed.
def retained (layers : Layers) (fmts : List String) (s : S) : Bool :=
  fmts.all fun fmt => decide ¬(layers.count fmt ≤ 0 ∧ format s = some fmt)

-- What is refused with an error.
def TooHigh (layers : Layers) (fmts : List String) (s : S) : Prop :=
  ∃ fmt ∈ fmts, 0 < layers.count fmt ∧ above fmt (layers.count fmt) s

variable {layers : Layers} {namespaces : Namespaces} {fmt : String} {fmts : List String} {sets result : List S} {s : S}
variable {layerId : Int}

theorem isPart_iff : isPart fmt layerId s ↔ format s = some fmt ∧ layer s = some layerId := by
  simp [isPart]

theorem isTrunk_iff : isTrunk s ↔ format s = none ∧ layer s = none := by
  simp [isTrunk]

theorem above_iff {count : Int} : above fmt count s ↔ format s = some fmt ∧ ∃ l, layer s = some l ∧ count ≤ l := by
  cases hl : layer s <;> simp [above, hl]

theorem fits_iff : fits layers s ↔ isTrunk s ∨ ∃ fmt l, InRange layers fmt l ∧ isPart fmt l s := by
  simp only [fits, Bool.or_eq_true, isPart_iff]
  refine or_congr_right ?_
  split
  case h_1 fmt l hf hl =>
    simp only [Bool.and_eq_true, decide_eq_true_eq]
    constructor
    case mp  => exact fun h => ⟨fmt, l, ⟨h.1.1, h.1.2, h.2⟩, hf, hl⟩
    case mpr =>
      rintro ⟨fmt', l', hr, hf', hl'⟩
      cases hf.symm.trans hf'
      cases hl.symm.trans hl'
      exact ⟨⟨hr.known, hr.first⟩, hr.last⟩
  case h_2 hn =>
    simp only [Bool.false_eq_true, false_iff, not_exists, not_and]
    exact fun fmt l _ hf hl => hn fmt l hf hl

theorem retained_iff : retained layers fmts s ↔ ∀ fmt ∈ fmts, format s = some fmt → 0 < layers.count fmt := by
  simp only [retained, List.all_eq_true, decide_eq_true_eq, not_and']
  exact forall₂_congr fun fmt _ => imp_congr_right fun _ => Int.not_le

theorem InRange.pos (h : InRange layers fmt layerId) : 0 < layers.count fmt :=
  Int.lt_of_le_of_lt h.first h.last

theorem retained_of_fits (h : fits layers s) : retained layers fmts s := by
  rw [retained_iff]
  intro fmt _ hf
  rcases fits_iff.mp h with ht | ⟨fmt', l, hr, hp⟩
  case inl => cases hf.symm.trans (isTrunk_iff.mp ht).1
  case inr =>
    cases hf.symm.trans (isPart_iff.mp hp).1
    exact hr.pos

theorem not_above_of_fits (h : fits layers s) : ¬above fmt (layers.count fmt) s := by
  rw [above_iff]
  rintro ⟨hf, l, hl, hc⟩
  rcases fits_iff.mp h with ht | ⟨fmt', l', hr, hp⟩
  case inl => cases hf.symm.trans (isTrunk_iff.mp ht).1
  case inr =>
    cases hf.symm.trans (isPart_iff.mp hp).1
    cases hl.symm.trans (isPart_iff.mp hp).2
    exact absurd hr.last (Int.not_lt.mpr hc)

theorem not_tooHigh_of_fits (h : fits layers s) : ¬TooHigh layers fmts s :=
  fun ⟨_, _, _, ha⟩ => not_above_of_fits h ha

-- The sets that are made for the layers that are missing.
def Made (layers : Layers) (s : S) : Prop :=
  ∃ label fmt layerId, InRange layers fmt layerId ∧ s = made label (some fmt) (some layerId)

theorem Made.fits (h : Made layers s) : fits layers s := by
  obtain ⟨label, fmt, l, hr, rfl⟩ := h
  exact fits_iff.mpr <| .inr ⟨fmt, l, hr, isPart_iff.mpr ⟨format_made .., layer_made ..⟩⟩

theorem Made.not_isTrunk (h : Made layers s) : ¬isTrunk s := by
  obtain ⟨label, fmt, l, -, rfl⟩ := h
  simp [isTrunk, format_made]

theorem foldl_ensureLayer (fmt : String) (n : Nat) (sets : List S) :
    ∃ mades, (List.range n).foldl (ensureLayer fmt) sets = sets ++ mades ∧
    (∀ m ∈ mades, ∃ label, ∃ l < n, m = made label (some fmt) (some (l : Int))) ∧
      ∀ l < n, ∃ s ∈ sets ++ mades, isPart fmt l s := by
  induction n with
  | zero      => exact ⟨[], by simp, by simp, by simp⟩
  | succ n ih =>
    obtain ⟨mades, he, hm, hl⟩ := ih
    rw [List.range_succ, List.foldl_append, he, List.foldl_cons, List.foldl_nil, ensureLayer]
    split
    case isTrue h  =>
      refine ⟨mades, rfl, fun m h => ?_, fun l h' => ?_⟩
      · obtain ⟨label, l, hlt, rfl⟩ := hm m h
        exact ⟨label, l, by omega, rfl⟩
      · rcases Nat.lt_succ_iff_lt_or_eq.mp h' with hlt | rfl
        case inl => exact hl l hlt
        case inr => exact List.any_eq_true.mp h
    case isFalse h =>
      refine ⟨mades ++ [made s!"{fmt}{n}" (some fmt) (some (n : Int))], by simp, fun m h => ?_, fun l h' => ?_⟩
      · rcases List.mem_append.mp h with h | h
        case inl =>
          obtain ⟨label, l, hlt, rfl⟩ := hm m h
          exact ⟨label, l, by omega, rfl⟩
        case inr => exact ⟨_, n, Nat.lt_succ_self n, List.mem_singleton.mp h⟩
      · rw [← List.append_assoc]
        rcases Nat.lt_succ_iff_lt_or_eq.mp h' with hlt | rfl
        case inl =>
          obtain ⟨s, hs, hp⟩ := hl l hlt
          exact ⟨s, List.mem_append_left _ hs, hp⟩
        case inr =>
          refine ⟨_, List.mem_append_right _ (List.mem_singleton.mpr rfl), isPart_iff.mpr ⟨?_, ?_⟩⟩
          · exact format_made ..
          · exact layer_made ..

theorem foldl_ensureLayer_self (n : Nat) (h : ∀ l < n, ∃ s ∈ sets, isPart fmt l s) :
    (List.range n).foldl (ensureLayer fmt) sets = sets := by
  induction n with
  | zero      => rfl
  | succ n ih =>
    rw [List.range_succ, List.foldl_append, ih fun l hl => h l (by omega), List.foldl_cons, List.foldl_nil, ensureLayer]
    exact if_pos <| List.any_eq_true.mpr <| h n n.lt_succ_self

-- A pass over one format.

theorem retained_singleton_of_pos (h : 0 < layers.count fmt) : retained layers [fmt] s :=
  retained_iff.mpr fun _ hm _ => List.mem_singleton.mp hm ▸ h

theorem ensureFormatLayers_ok (known : fmt ∈ formats)
    (h : ensureFormatLayers fmt (layers.count fmt) sets = .ok result) :
    (∃ mades, result = sets.filter (retained layers [fmt]) ++ mades ∧ ∀ m ∈ mades, Made layers m) ∧
      (∀ l, InRange layers fmt l → ∃ s ∈ result, isPart fmt l s) ∧ ∀ s ∈ sets, ¬TooHigh layers [fmt] s := by
  rw [ensureFormatLayers] at h
  split at h
  case isTrue hc =>
    cases h
    refine ⟨⟨[], ?_, by simp⟩, fun l hr => absurd hr.pos (Int.not_lt.mpr hc), ?_⟩
    · rw [List.append_nil]
      exact List.filter_congr fun s _ => by simp [retained, hc]
    · rintro s - ⟨fmt', hm, hp, -⟩
      cases List.mem_singleton.mp hm
      exact absurd hp (Int.not_lt.mpr hc)
  case isFalse hc =>
    have hp : 0 < layers.count fmt := Int.not_le.mp hc
    obtain ⟨mades, he, hm, hl⟩ := foldl_ensureLayer fmt (layers.count fmt).toNat sets
    simp only [he] at h
    split at h
    case h_1 => cases h
    case h_2 hn =>
      cases h
      rw [List.find?_eq_none] at hn
      refine ⟨⟨mades, ?_, fun m h => ?_⟩, fun l hr => ?_, ?_⟩
      · rw [List.filter_eq_self.mpr fun s _ => retained_singleton_of_pos hp]
      · obtain ⟨label, l, hlt, rfl⟩ := hm m h
        exact ⟨label, fmt, l, ⟨known, by omega, by omega⟩, rfl⟩
      · have := hr.first
        have := hr.last
        obtain ⟨s, hs, hp⟩ := hl l.toNat (by omega)
        exact ⟨s, hs, by rwa [Int.toNat_of_nonneg hr.first] at hp⟩
      · rintro s hs ⟨fmt', hm, -, ha⟩
        cases List.mem_singleton.mp hm
        exact hn s (List.mem_append_left _ hs) ha

theorem ensureFormatLayers_error {e : Refusal} (known : fmt ∈ formats)
    (h : ensureFormatLayers fmt (layers.count fmt) sets = .error e) : ∃ s ∈ sets, TooHigh layers [fmt] s := by
  rw [ensureFormatLayers] at h
  split at h
  case isTrue    => cases h
  case isFalse hc =>
    obtain ⟨mades, he, hm, -⟩ := foldl_ensureLayer fmt (layers.count fmt).toNat sets
    simp only [he] at h
    split at h
    case h_1 s hs =>
      have ha := List.find?_some hs
      rcases List.mem_append.mp (List.mem_of_find?_eq_some hs) with h' | h'
      case inl => exact ⟨s, h', fmt, List.mem_singleton_self fmt, Int.not_le.mp hc, ha⟩
      case inr =>
        obtain ⟨label, l, hlt, rfl⟩ := hm s h'
        have hr : InRange layers fmt l := ⟨known, by omega, by omega⟩
        exact absurd ha <| not_above_of_fits <| Made.fits ⟨label, fmt, l, hr, rfl⟩
    case h_2 => cases h

-- The passes over all formats.

def passes (layers : Layers) (fmts : List String) (sets : List S) : Except Refusal (List S) :=
  fmts.foldlM (fun sets fmt => ensureFormatLayers fmt (layers.count fmt) sets) sets

theorem passes_cons : passes layers (fmt :: fmts) sets =
    ensureFormatLayers fmt (layers.count fmt) sets >>= passes layers fmts :=
  List.foldlM_cons

theorem normalizeSets_hierarchical (h : layers.hierarchical) : normalizeSets layers namespaces sets =
    (passes layers formats (ensureTrunk sets)).map (List.map (restrict namespaces)) := by
  simp only [normalizeSets, h, passes, formats, List.foldlM_cons, List.foldlM_nil, Layers.count, ↓reduceIte,
    Bool.not_true, Bool.false_eq_true]
  rw [if_neg (by decide : FormatVideo ≠ FormatAudio), if_neg (by decide : FormatData ≠ FormatAudio),
    if_neg (by decide : FormatData ≠ FormatVideo)]
  cases ensureFormatLayers FormatAudio (layers.audio.getD 0) (ensureTrunk sets) with
  | error e => rfl
  | ok s₁   =>
    cases h₂ : ensureFormatLayers FormatVideo (layers.video.getD 0) s₁ with
    | error e => simp [bind, Except.bind, Except.map, h₂]
    | ok s₂   =>
      cases h₃ : ensureFormatLayers FormatData (layers.data.getD 0) s₂ <;>
        simp [bind, Except.bind, Except.map, pure, Except.pure, h₂, h₃]

theorem retained_cons : retained layers (fmt :: fmts) s = (retained layers [fmt] s && retained layers fmts s) := by
  simp [retained]

theorem TooHigh.retained (h : TooHigh layers fmts s) (fmts' : List String) : retained layers fmts' s := by
  obtain ⟨fmt, -, hp, ha⟩ := h
  refine retained_iff.mpr fun fmt' _ hf => ?_
  cases hf.symm.trans (above_iff.mp ha).1
  exact hp

theorem tooHigh_cons : TooHigh layers (fmt :: fmts) s ↔ TooHigh layers [fmt] s ∨ TooHigh layers fmts s := by
  simp [TooHigh]

theorem passes_ok (known : ∀ fmt ∈ fmts, fmt ∈ formats) (h : passes layers fmts sets = .ok result) :
    (∃ mades, result = sets.filter (retained layers fmts) ++ mades ∧ ∀ m ∈ mades, Made layers m) ∧
      (∀ fmt ∈ fmts, ∀ l, InRange layers fmt l → ∃ s ∈ result, isPart fmt l s) ∧
        ∀ s ∈ sets, ¬TooHigh layers fmts s := by
  induction fmts generalizing sets with
  | nil =>
    cases h
    refine ⟨⟨[], ?_, by simp⟩, by simp, by simp [TooHigh]⟩
    exact (List.append_nil _).symm ▸ (List.filter_eq_self.mpr fun _ _ => rfl).symm
  | cons fmt fmts ih =>
    rw [passes_cons] at h
    obtain ⟨sets', h₁, h₂⟩ := Except.bind_eq_ok.mp h
    obtain ⟨⟨m₁, rfl, hm₁⟩, hl₁, ht₁⟩ := ensureFormatLayers_ok (known fmt List.mem_cons_self) h₁
    obtain ⟨⟨m₂, rfl, hm₂⟩, hl₂, ht₂⟩ := ih (fun fmt h => known fmt <| List.mem_cons_of_mem _ h) h₂
    have hf : m₁.filter (retained layers fmts) = m₁ :=
      List.filter_eq_self.mpr fun m h => retained_of_fits (hm₁ m h).fits
    refine ⟨⟨m₁ ++ m₂, ?_, fun m h => (List.mem_append.mp h).elim (hm₁ m) (hm₂ m)⟩, ?_, ?_⟩
    · rw [List.filter_append, List.filter_filter, hf, List.append_assoc]
      exact congrArg (· ++ _) <| List.filter_congr fun s _ => (retained_cons.trans <| Bool.and_comm ..).symm
    · intro fmt' h l hr
      rcases List.mem_cons.mp h with rfl | h
      case inr => exact hl₂ fmt' h l hr
      case inl =>
        obtain ⟨s, hs, hp⟩ := hl₁ l hr
        have hf := fits_iff.mpr <| .inr ⟨_, l, hr, hp⟩
        exact ⟨s, List.mem_append_left _ <| List.mem_filter.mpr ⟨hs, retained_of_fits hf⟩, hp⟩
    · intro s hs ht
      rcases tooHigh_cons.mp ht with h | h
      case inl => exact ht₁ s hs h
      case inr => exact ht₂ s (List.mem_append_left _ <| List.mem_filter.mpr ⟨hs, h.retained _⟩) h

theorem passes_error {e : Refusal} (known : ∀ fmt ∈ fmts, fmt ∈ formats) (h : passes layers fmts sets = .error e) :
    ∃ s ∈ sets, TooHigh layers fmts s := by
  induction fmts generalizing sets with
  | nil           => cases h
  | cons fmt fmts ih =>
    rw [passes_cons] at h
    cases h₁ : ensureFormatLayers fmt (layers.count fmt) sets with
    | error e' =>
      obtain ⟨s, hs, ht⟩ := ensureFormatLayers_error (known fmt List.mem_cons_self) h₁
      exact ⟨s, hs, tooHigh_cons.mpr <| .inl ht⟩
    | ok sets' =>
      rw [h₁] at h
      obtain ⟨s, hs, ht⟩ := ih (fun fmt h => known fmt <| List.mem_cons_of_mem _ h) h
      obtain ⟨⟨mades, rfl, hm⟩, -, -⟩ := ensureFormatLayers_ok (known fmt List.mem_cons_self) h₁
      rcases List.mem_append.mp hs with hs | hs
      case inl => exact ⟨s, (List.mem_filter.mp hs).1, tooHigh_cons.mpr <| .inr ht⟩
      case inr => exact absurd ht <| not_tooHigh_of_fits (hm s hs).fits

section Restrict

@[simp]
theorem format_restrict : format (restrict namespaces s) = format s := by
  unfold restrict
  split_ifs <;> simp [format_keep]

@[simp]
theorem layer_restrict : layer (restrict namespaces s) = layer s := by
  unfold restrict
  split_ifs <;> simp [layer_keep]

theorem keep_keep (p : String → Bool) (s : S) : keep p (keep p s) = keep p s :=
  keep_self p _ fun _ h => (List.mem_filter.mp (names_keep p s ▸ h)).2

-- The names that stay depend on the format.
theorem restrict_eq_keep (namespaces : Namespaces) (s : S) :
    ∃ p, ∀ s' : S, format s' = format s → restrict namespaces s' = keep p s' := by
  by_cases ha : format s = some FormatAudio
  case pos => exact ⟨admitted namespaces.audio, fun s' h => by rw [restrict, h, if_pos ha]⟩
  by_cases hv : format s = some FormatVideo
  case pos => exact ⟨admitted namespaces.video, fun s' h => by rw [restrict, h, if_neg ha, if_pos hv]⟩
  by_cases hd : format s = some FormatData
  case pos => exact ⟨admitted namespaces.data, fun s' h => by rw [restrict, h, if_neg ha, if_neg hv, if_pos hd]⟩
  refine ⟨fun _ => true, fun s' h => ?_⟩
  rw [restrict, h, if_neg ha, if_neg hv, if_neg hd, keep_self _ _ fun _ _ => rfl]

theorem restrict_restrict : restrict namespaces (restrict namespaces s) = restrict namespaces s := by
  obtain ⟨p, hp⟩ := restrict_eq_keep namespaces s
  rw [hp _ format_restrict, hp s rfl, keep_keep]

@[simp]
theorem isTrunk_restrict : isTrunk (restrict namespaces s) = isTrunk s := by
  simp [isTrunk]

@[simp]
theorem isPart_restrict : isPart fmt layerId (restrict namespaces s) = isPart fmt layerId s := by
  simp [isPart]

@[simp]
theorem fits_restrict : fits layers (restrict namespaces s) = fits layers s := by
  simp [fits]

theorem restrict_trunk (h : isTrunk s) : restrict namespaces s = s := by
  simp [restrict, (isTrunk_iff.mp h).1]

end Restrict

-- A set with only one of a format and a layer.
def Malformed (s : S) : Prop :=
  (format s).isSome ≠ (layer s).isSome

def OutOfRange (layers : Layers) (s : S) : Prop :=
  ∃ fmt l, isPart fmt l s ∧ ¬InRange layers fmt l

theorem fits_congr {r : S} (hf : format r = format s) (hl : layer r = layer s) : fits layers r = fits layers s := by
  simp [fits, isTrunk, hf, hl]

theorem not_fits (h : Malformed s ∨ OutOfRange layers s) : ¬fits layers s := by
  rw [fits_iff]
  rintro (ht | ⟨fmt, l, hr, hp⟩)
  case inl =>
    obtain ⟨hf, hl⟩ := isTrunk_iff.mp ht
    rcases h with h | ⟨fmt, l, hp, -⟩
    case inl => simp [Malformed, hf, hl] at h
    case inr => cases hf.symm.trans (isPart_iff.mp hp).1
  case inr =>
    obtain ⟨hf, hl⟩ := isPart_iff.mp hp
    rcases h with h | ⟨fmt', l', hp', hn⟩
    case inl => simp [Malformed, hf, hl] at h
    case inr =>
      cases hf.symm.trans (isPart_iff.mp hp').1
      cases hl.symm.trans (isPart_iff.mp hp').2
      exact hn hr

-- The trunk with its names, a layer that is there, or a format that is removed.
def Allowed (layers : Layers) (namespaces : Namespaces) (s : S) : Prop :=
  (isTrunk s ∧ ∀ name ∈ names s, admitted namespaces.trunk name) ∨
    (∃ fmt l, InRange layers fmt l ∧ isPart fmt l s) ∨ ∃ fmt ∈ formats, format s = some fmt ∧ layers.count fmt ≤ 0

-- A set with the names of the namespace for its part.
def restricted (namespaces : Namespaces) (s : S) : S :=
  if isTrunk s then keep (admitted namespaces.trunk) s else restrict namespaces s

@[simp]
theorem isTrunk_restricted : isTrunk (restricted namespaces s) = isTrunk s := by
  unfold restricted
  split <;> simp [isTrunk, format_keep, layer_keep]

theorem trunk_and_fits : (isTrunk s && fits layers s) = isTrunk s :=
  Bool.eq_iff_iff.mpr <| by simpa using fun ht => fits_iff.mpr <| .inl ht

theorem trunk_and_retained : (isTrunk s && retained layers fmts s) = isTrunk s :=
  Bool.eq_iff_iff.mpr <| by simpa using fun ht => retained_of_fits <| fits_iff.mpr <| .inl ht

-- No set of the result is the part that the set of the input says.
def Refused (result : List S) (s : S) : Prop :=
  ¬∃ r ∈ result, format r = format s ∧ layer r = layer s

def Refuses (layers : Layers) (sets result : List S) : Prop :=
  ∀ s ∈ sets, Malformed s ∨ OutOfRange layers s → Refused result s

-- The valid sets in their order.
def Keeps (layers : Layers) (namespaces : Namespaces) (sets result : List S) : Prop :=
  ((sets.filter (fits layers)).map (restricted namespaces)).Sublist result

-- The hierarchy that the numbers of layers call for.
structure Normal (layers : Layers) (sets : List S) : Prop where
  fits  : ∀ s ∈ sets, fits layers s
  trunk : ∃ s ∈ sets, isTrunk s
  part  : ∀ fmt l, InRange layers fmt l → ∃ s ∈ sets, isPart fmt l s

theorem Allowed.fits (h : Allowed layers namespaces s) (hr : retained layers formats s) : fits layers s := by
  rcases h with ⟨ht, -⟩ | hp | ⟨fmt, hm, hf, hc⟩
  case inl     => exact fits_iff.mpr <| .inl ht
  case inr.inl => exact fits_iff.mpr <| .inr hp
  case inr.inr => exact absurd (retained_iff.mp hr fmt hm hf) (Int.not_lt.mpr hc)

theorem Allowed.restricted_eq (h : Allowed layers namespaces s) :
    restricted namespaces s = restrict namespaces s := by
  unfold restricted
  split
  case isFalse   => rfl
  case isTrue ht =>
    rw [restrict_trunk ht]
    rcases h with ⟨-, hn⟩ | ⟨_, _, -, hp⟩ | ⟨_, -, hp, -⟩
    case inl     => exact keep_self _ _ hn
    case inr.inl => cases (isTrunk_iff.mp ht).1.symm.trans (isPart_iff.mp hp).1
    case inr.inr => cases (isTrunk_iff.mp ht).1.symm.trans hp

theorem ensureTrunk_eq (sets : List S) :
    ∃ trunks, ensureTrunk sets = sets ++ trunks ∧ (∀ t ∈ trunks, isTrunk t ∧ names t = []) ∧
      (∃ s ∈ sets ++ trunks, isTrunk s) ∧ (trunks ≠ [] → ∀ s ∈ sets, ¬isTrunk s) := by
  unfold ensureTrunk
  split
  case isTrue h  => exact ⟨[], by simp, by simp, by simpa using h, by simp⟩
  case isFalse h =>
    refine ⟨_, rfl, ?_, ?_, fun _ s hs ht => h <| List.any_eq_true.mpr ⟨s, hs, ht⟩⟩
    · simp [isTrunk_iff, format_made, layer_made, names_made]
    · simp [isTrunk_iff, format_made, layer_made]

section Hierarchical

variable (hh : layers.hierarchical)

include hh

theorem normalizeSets_ok (h : normalizeSets layers namespaces sets = .ok result) :
    ∃ trunks mades, ensureTrunk sets = sets ++ trunks ∧
      result = ((sets ++ trunks).filter (retained layers formats) ++ mades).map (restrict namespaces) ∧
        (∀ m ∈ mades, Made layers m) ∧ ∀ fmt l, InRange layers fmt l → ∃ s ∈ result, isPart fmt l s := by
  rw [normalizeSets_hierarchical hh] at h
  obtain ⟨trunks, he, -, -⟩ := ensureTrunk_eq sets
  cases hp : passes layers formats (ensureTrunk sets) with
  | error e => simp [hp, Except.map] at h
  | ok sets' =>
    rw [hp] at h
    cases h
    obtain ⟨⟨mades, rfl, hm⟩, hl, -⟩ := passes_ok (fun _ h => h) hp
    refine ⟨trunks, mades, he, by rw [he], hm, fun fmt l hr => ?_⟩
    obtain ⟨s, hs, h⟩ := hl fmt hr.known l hr
    exact ⟨_, List.mem_map_of_mem hs, by rwa [isPart_restrict]⟩

theorem normalizeSets_refused (h : ∃ e, normalizeSets layers namespaces sets = .error e) :
    ∃ s ∈ sets, TooHigh layers formats s := by
  obtain ⟨e, h⟩ := h
  rw [normalizeSets_hierarchical hh] at h
  obtain ⟨trunks, he, ht, -, -⟩ := ensureTrunk_eq sets
  cases hp : passes layers formats (ensureTrunk sets) with
  | ok sets'  => simp [hp, Except.map] at h
  | error e   =>
    obtain ⟨s, hs, h⟩ := passes_error (fun _ h => h) hp
    rw [he] at hs
    rcases List.mem_append.mp hs with hs | hs
    case inl => exact ⟨s, hs, h⟩
    case inr => exact absurd h <| not_tooHigh_of_fits <| fits_iff.mpr <| .inl (ht s hs).1

theorem not_tooHigh_of_ok (h : normalizeSets layers namespaces sets = .ok result) (hs : s ∈ sets) :
    ¬TooHigh layers formats s := by
  rw [normalizeSets_hierarchical hh] at h
  obtain ⟨trunks, he, -, -⟩ := ensureTrunk_eq sets
  cases hp : passes layers formats (ensureTrunk sets) with
  | error e => simp [hp, Except.map] at h
  | ok sets' => exact (passes_ok (fun _ h => h) hp).2.2 s (he ▸ List.mem_append_left _ hs)

theorem normalizeSets_self (h : Normal layers sets) (hr : ∀ s ∈ sets, restrict namespaces s = s) :
    normalizeSets layers namespaces sets = .ok sets := by
  rw [normalizeSets_hierarchical hh, ensureTrunk, if_pos <| List.any_eq_true.mpr h.trunk]
  suffices hp : ∀ fmts, (∀ fmt ∈ fmts, fmt ∈ formats) → passes layers fmts sets = .ok sets by
    rw [hp formats fun _ h => h]
    exact congrArg Except.ok <| (List.map_congr_left hr).trans sets.map_id
  intro fmts known
  induction fmts with
  | nil           => rfl
  | cons fmt fmts ih =>
    suffices he : ensureFormatLayers fmt (layers.count fmt) sets = .ok sets by
      rw [passes_cons, he]
      exact ih fun fmt h => known fmt <| List.mem_cons_of_mem _ h
    rw [ensureFormatLayers]
    split
    case isTrue hc  =>
      refine congrArg Except.ok <| List.filter_eq_self.mpr fun s hs => decide_eq_true fun hf => ?_
      have hr := retained_iff.mp (retained_of_fits (h.fits s hs)) fmt (known fmt List.mem_cons_self) hf
      exact absurd hr (Int.not_lt.mpr hc)
    case isFalse hc =>
      rw [foldl_ensureLayer_self _ fun l hl => h.part fmt l ⟨known fmt List.mem_cons_self, by omega, by omega⟩]
      have hn : sets.find? (above fmt (layers.count fmt)) = none :=
        List.find?_eq_none.mpr fun s hs => not_above_of_fits (h.fits s hs)
      simp only [hn]

theorem sound_of_allowed (h : normalizeSets layers namespaces sets = .ok result)
    (ha : ∀ s ∈ sets, Allowed layers namespaces s) :
    Refuses layers sets result ∧ Normal layers result ∧ Keeps layers namespaces sets result ∧
      normalizeSets layers namespaces result = .ok result := by
  obtain ⟨trunks, mades, he, rfl, hm, hl⟩ := normalizeSets_ok hh h
  obtain ⟨trunks', he', ht, htrunk, -⟩ := ensureTrunk_eq sets
  obtain rfl := List.append_cancel_left (he.symm.trans he')
  have hfits : ∀ s ∈ (sets ++ trunks).filter (retained layers formats) ++ mades, fits layers s := by
    intro s hs
    rcases List.mem_append.mp hs with hs | hs
    case inr => exact (hm s hs).fits
    case inl =>
      obtain ⟨hs, hr⟩ := List.mem_filter.mp hs
      rcases List.mem_append.mp hs with hs | hs
      case inl => exact (ha s hs).fits hr
      case inr => exact fits_iff.mpr <| .inl (ht s hs).1
  have hn : Normal layers (((sets ++ trunks).filter (retained layers formats) ++ mades).map (restrict namespaces)) := by
    refine ⟨fun r hr => ?_, ?_, hl⟩
    · obtain ⟨s, hs, rfl⟩ := List.mem_map.mp hr
      rw [fits_restrict]
      exact hfits s hs
    · obtain ⟨s, hs, ht⟩ := htrunk
      have hf : retained layers formats s := retained_of_fits <| fits_iff.mpr <| .inl ht
      exact ⟨_, List.mem_map_of_mem <| List.mem_append_left _ <| List.mem_filter.mpr ⟨hs, hf⟩, by rwa [isTrunk_restrict]⟩
  refine ⟨fun s hs hb ⟨r, hr, hf, hlr⟩ => ?_, hn, ?_, normalizeSets_self hh hn fun r hr => ?_⟩
  · exact not_fits hb <| fits_congr hf hlr ▸ hn.fits r hr
  · rw [Keeps, List.filter_append, List.append_assoc, List.map_append]
    have hk : sets.filter (fits layers) = sets.filter (retained layers formats) :=
      List.filter_congr fun s hs => Bool.eq_iff_iff.mpr ⟨retained_of_fits, (ha s hs).fits⟩
    rw [hk, List.map_congr_left fun s hs => (ha s (List.mem_filter.mp hs).1).restricted_eq]
    exact List.sublist_append_left ..
  · obtain ⟨s, -, rfl⟩ := List.mem_map.mp hr
    exact restrict_restrict

theorem allowed_of_sound (h : normalizeSets layers namespaces sets = .ok result)
    (hn : Normal layers result) (hk : Keeps layers namespaces sets result) :
    ∀ s ∈ sets, Allowed layers namespaces s := by
  obtain ⟨trunks, mades, he, rfl, hm, -⟩ := normalizeSets_ok hh h
  intro s hm'
  by_cases hr : retained layers formats s
  case neg =>
    simp only [retained_iff, not_forall, Int.not_lt] at hr
    obtain ⟨fmt, hk, hf, hc⟩ := hr
    exact .inr <| .inr ⟨fmt, hk, hf, hc⟩
  case pos =>
    have hf := hn.fits _ <| List.mem_map_of_mem <| List.mem_append_left mades <|
      List.mem_filter.mpr ⟨List.mem_append_left trunks hm', hr⟩
    rw [fits_restrict] at hf
    rcases fits_iff.mp hf with ht | hp
    case inr => exact .inr <| .inl hp
    case inl =>
      refine .inl ⟨ht, ?_⟩
      obtain ⟨trunks', he', -, -, htr⟩ := ensureTrunk_eq sets
      obtain rfl := List.append_cancel_left (he.symm.trans he')
      have hnil : trunks = [] := by_contra fun hne => htr hne s hm' ht
      -- There are no other trunks in the result, so those of the input keep all of their names.
      have hmade : mades.filter isTrunk = [] :=
        List.filter_eq_nil_iff.mpr fun m h => (hm m h).not_isTrunk
      have hsub := hk.filter isTrunk
      rw [hnil, List.append_nil, List.filter_map, List.filter_map, List.filter_append] at hsub
      simp only [Function.comp_def, isTrunk_restrict, isTrunk_restricted, List.filter_filter, hmade, List.append_nil,
        trunk_and_fits, trunk_and_retained] at hsub
      have heq := List.map_inj_left.mp <| hsub.eq_of_length (by simp)
      have hk := heq s <| List.mem_filter.mpr ⟨hm', ht⟩
      rw [restricted, if_pos ht, restrict_trunk ht] at hk
      intro name hn
      rw [← hk, names_keep] at hn
      exact (List.mem_filter.mp hn).2

end Hierarchical

theorem refuses_flat (hh : ¬layers.hierarchical) (h : normalizeSets layers namespaces sets = .ok result) :
    Refuses layers sets result := by
  simp only [normalizeSets, Bool.not_eq_true _ ▸ hh, Bool.not_false, ↓reduceIte] at h
  split at h
  case h_1    => cases h
  case h_2 hn =>
    rintro s hs hb
    have ht : isTrunk s := by simpa [isTrunk] using List.find?_eq_none.mp hn s hs
    exact absurd (fits_iff.mpr <| .inl ht) (not_fits hb)

-- When a normalization does what it should: there is nothing to do, a layer is too high, or every set is one that the
-- checks and the namespaces leave alone.
def Normalizable (layers : Layers) (namespaces : Namespaces) (filtered : Bool) (sets : List S) : Prop :=
  ¬layers.hierarchical ∨ filtered ∨ (∃ s ∈ sets, TooHigh layers formats s) ∨ ∀ s ∈ sets, Allowed layers namespaces s

theorem normalizeSets_exact (layers : Layers) (namespaces : Namespaces) (sets : List S) :
    (∀ result, normalizeSets layers namespaces sets = .ok result →
      Refuses layers sets result ∧ (layers.hierarchical →
        Normal layers result ∧ Keeps layers namespaces sets result ∧
          normalizeSets layers namespaces result = .ok result)) ↔ Normalizable layers namespaces false sets := by
  constructor
  case mp =>
    intro h
    by_cases hh : layers.hierarchical
    case neg => exact .inl hh
    case pos =>
      refine .inr <| .inr ?_
      cases hr : normalizeSets layers namespaces sets with
      | error e   => exact .inl <| normalizeSets_refused hh ⟨e, hr⟩
      | ok result =>
        obtain ⟨hn, hk, -⟩ := (h result hr).2 hh
        exact .inr <| allowed_of_sound hh hr hn hk
  case mpr =>
    intro h result hr
    by_cases hh : layers.hierarchical
    case neg => exact ⟨refuses_flat hh hr, fun h => absurd h hh⟩
    case pos =>
      rcases h with hf | hf | ⟨s, hs, ht⟩ | ha
      case inl         => exact absurd hh hf
      case inr.inl     => cases hf
      case inr.inr.inl => exact absurd ht <| not_tooHigh_of_ok hh hr hs
      case inr.inr.inr =>
        obtain ⟨hd, hn, hk, hg⟩ := sound_of_allowed hh hr ha
        exact ⟨hd, fun _ => ⟨hn, hk, hg⟩⟩

section Normalization

variable {F : Type}

def Caps.WellNormalized (caps : Caps F) (layers : Layers) (namespaces : Namespaces) : Prop :=
  ∀ result, caps.normalize layers namespaces = .ok result →
    Refuses layers caps.capsets result.capsets ∧ (layers.hierarchical →
      Normal layers result.capsets ∧ Keeps layers namespaces caps.capsets result.capsets ∧
        result.normalize layers namespaces = .ok result)

def Cons.WellNormalized (cons : Cons F) (layers : Layers) (namespaces : Namespaces) : Prop :=
  ∀ result, cons.normalize layers namespaces = .ok result →
    Refuses layers cons.consets result.consets ∧ (layers.hierarchical →
      Normal layers result.consets ∧ Keeps layers namespaces cons.consets result.consets ∧
        result.normalize layers namespaces = .ok result)

theorem Caps.wellNormalized_iff (caps : Caps F) : caps.WellNormalized layers namespaces ↔
    Normalizable layers namespaces caps.filtered caps.capsets := by
  obtain ⟨capsets, filtered⟩ := caps
  cases filtered with
  | true  => simp [Caps.WellNormalized, Caps.normalize, Normalizable]
  | false =>
    rw [← normalizeSets_exact]
    simp [Caps.WellNormalized, Caps.normalize, Except.map_eq_ok]

theorem Cons.wellNormalized_iff (cons : Cons F) : cons.WellNormalized layers namespaces ↔
    Normalizable layers namespaces cons.filtered cons.consets := by
  obtain ⟨consets, filtered⟩ := cons
  cases filtered with
  | true  => simp [Cons.WellNormalized, Cons.normalize, Normalizable]
  | false =>
    rw [← normalizeSets_exact]
    simp [Cons.WellNormalized, Cons.normalize, Except.map_eq_ok]

theorem normalize_exact (F : Type) (layers : Layers) (namespaces : Namespaces) :
    (∀ caps : Caps F, caps.WellNormalized layers namespaces ↔
      Normalizable layers namespaces caps.filtered caps.capsets) ∧
    ∀ cons : Cons F, cons.WellNormalized layers namespaces ↔
      Normalizable layers namespaces cons.filtered cons.consets :=
  ⟨Caps.wellNormalized_iff, Cons.wellNormalized_iff⟩

-- A set of a format that names no layer stays in the hierarchy.
theorem normalize_keeps_malformed :
    ¬({ capsets := [.made "audio" (some FormatAudio) none] } : Caps Unit).WellNormalized
      ⟨some 1, none, none⟩ ⟨none, none, none, none⟩ := by
  intro h
  obtain ⟨-, hn⟩ := h _ rfl
  exact absurd ((hn rfl).1.fits _ List.mem_cons_self) (by decide)

end Normalization

end Ccf
