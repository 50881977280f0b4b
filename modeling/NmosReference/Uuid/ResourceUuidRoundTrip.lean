import NmosReference.Uuid.ResourceUuidText

-- Whether a resource UUID survives its text, and a text being read.
namespace Uuid.ResourceUuid

open BitFields Text

variable [Python] {r r' : ResourceUuid} {s : List Char} {value u : Nat}

structure Valid (r : ResourceUuid) : Prop where
  uniqueId     : r.uniqueId < 2 ^ 32
  index        : r.index ≤ 255
  serialNumber : isValidSerial r.serialNumber

-- The resource UUIDs `set` makes are the valid ones.
theorem valid_iff : r.Valid ↔
    ∃ resourceType resourceSubType index serialNumber uniqueId onDemand,
      set resourceType resourceSubType index serialNumber uniqueId onDemand = .ok r := by
  constructor
  · intro ⟨hu, hx, hs⟩
    refine ⟨r.resourceType, r.resourceSubType, r.index, r.serialNumber, r.uniqueId, r.onDemand, ?_⟩
    have hm : r.uniqueId &&& 0xFFFFFFFF = r.uniqueId :=
      (and_mask _ 32).trans (Nat.mod_eq_of_lt hu)
    have hi : (0 : Int) ≤ r.index ∧ (r.index : Int) ≤ 255 := by omega
    simp [set, hs, hi, hm]
  · rintro ⟨t, st, index, sn, uid, od, h⟩
    unfold set at h
    split at h
    · cases h
    · split at h
      · cases h
      · cases h
        exact ⟨and_mask_lt _ 32, by dsimp only; omega, by simp_all⟩

omit [Python] in
theorem setFromString_dashed (hv : value < 2 ^ 128) (h1 : 1 ≤ version value) (h5 : version value ≤ 5)
    (h2 : variant value = 2) : setFromString (dashed (hex 32 value)) = unpack value := by
  have hh : ∀ c ∈ hex 32 value, isHex c := fun c => isHex_of_mem_hex
  have hs : strip (dashed (hex 32 value)) = dashed (hex 32 value) := strip_eq fun c hc => (mem_dashed hh hc).2
  have hn := isNmosUuid_dashed.mpr ⟨h1, h5, h2⟩
  simp only [setFromString, hs, lower_dashed hh, hn, if_true, filter_dashed hh]
  rw [ofHex_hex hv]

theorem pack_eq (h : r.Valid) : ∃ e < offset (MAX_ENCODED_CHARS + 1), ∃ hi < 256, ∃ lo < 256,
    encodeSerial r.serialNumber = .ok (e, hi, lo) ∧ decodeSerial e hi lo = .ok (kept r.serialNumber) ∧
      r.pack = .ok (join (reverseBytes r.uniqueId) (r.fields e hi lo)) := by
  obtain ⟨e, he, hi, hhi, lo, hlo, hE, hD⟩ := decodeSerial_encodeSerial h.serialNumber
  have hu : r.uniqueId &&& 0xFFFFFFFF = r.uniqueId := (and_mask _ 32).trans (Nat.mod_eq_of_lt h.uniqueId)
  refine ⟨e, he, hi, hhi, lo, hlo, hE, hD, ?_⟩
  rw [pack, hE, hu]
  rfl

-- A resource UUID read back from its text, but for what the serial number lost.
theorem setFromString_str (h : r.Valid) :
    ∃ s, r.str = .ok s ∧ setFromString s = .ok { r with serialNumber := kept r.serialNumber } := by
  obtain ⟨e, he, hi, hhi, lo, hlo, hE, hD, hp⟩ := pack_eq h
  refine ⟨_, by rw [str, hp]; rfl, ?_⟩
  have hsplit : split widths (join (reverseBytes r.uniqueId) (r.fields e hi lo)) = r.fields e hi lo :=
    split_join_fields
  have hver := version_eq hsplit
  rw [setFromString_dashed (join_fields_lt reverseBytes_lt) (by omega) (by omega) (variant_eq hsplit),
    unpack_eq hsplit (join_shiftRight (fits_fields _ _ _ _)) h.uniqueId (by have := h.index; omega)
      (he.trans (by decide)) hhi hlo, hD]
  rfl

theorem str_kept : ({ r with serialNumber := kept r.serialNumber } : ResourceUuid).str = r.str := by
  simp only [str, pack, encodeSerial_kept]
  rfl

-- Two serial numbers that differ by a zero that is taken for no character.
def DifferByZero (s s' : List Char) : Prop :=
  ∃ c, s = [c] ∧ s' = ['0', c] ∨ s = ['0', c] ∧ s' = [c]

omit [Python] in
theorem kept_eq_iff : kept s = s ↔ ¬LosesZero s := by
  refine ⟨?_, kept_eq⟩
  rintro h (rfl | ⟨c, rfl⟩)
  · cases h
  · by_cases hc : c = '0'
    · subst hc
      cases h
    · simp [kept] at h

-- What is left tells nothing of a zero before one character, and of nothing else.
omit [Python] in
theorem kept_cases (s : List Char) : (s = ['0'] ∨ s = ['0', '0']) ∧ kept s = [] ∨
    (∃ c ≠ '0', s = ['0', c] ∧ kept s = [c]) ∨ ¬LosesZero s ∧ kept s = s := by
  by_cases h : LosesZero s
  · obtain rfl | ⟨c, rfl⟩ := h
    · exact .inl ⟨.inl rfl, rfl⟩
    · by_cases hc : c = '0'
      · exact .inl ⟨.inr (by rw [hc]), by rw [hc]; rfl⟩
      · exact .inr (.inl ⟨c, hc, rfl, by simp [kept]⟩)
  · exact .inr (.inr ⟨h, kept_eq h⟩)

omit [Python] in
theorem kept_inj {s' : List Char} (h : s ≠ []) (h' : s' ≠ []) :
    kept s = kept s' ↔ s = s' ∨ DifferByZero s s' := by
  constructor
  · intro hk
    rcases kept_cases s with ⟨hs, e⟩ | ⟨c, hc, hs, e⟩ | ⟨hs, e⟩ <;>
      rcases kept_cases s' with ⟨hs', e'⟩ | ⟨c', hc', hs', e'⟩ | ⟨hs', e'⟩ <;> rw [e, e'] at hk
    · rcases hs with rfl | rfl <;> rcases hs' with rfl | rfl <;> simp [DifferByZero]
    · cases hk
    · exact absurd hk.symm h'
    · cases hk
    · exact .inl (by rw [hs, hs', hk])
    · exact .inr ⟨c, .inr ⟨hs, hk.symm⟩⟩
    · exact absurd hk h
    · exact .inr ⟨c', .inl ⟨hk, hs'⟩⟩
    · exact .inl hk
  · have hz (c : Char) : kept [c] = kept ['0', c] := by
      by_cases hc : c = '0'
      · subst hc
        rfl
      · simp [kept, hc]
    rintro (rfl | ⟨c, ⟨rfl, rfl⟩ | ⟨rfl, rfl⟩⟩)
    · rfl
    · exact hz c
    · exact (hz c).symm

theorem str_eq_iff (h : r.Valid) (h' : r'.Valid) : r.str = r'.str ↔
    r = r' ∨ r' = { r with serialNumber := r'.serialNumber } ∧ DifferByZero r.serialNumber r'.serialNumber := by
  have hk : r.str = r'.str ↔ ({ r with serialNumber := kept r.serialNumber } : ResourceUuid) =
      { r' with serialNumber := kept r'.serialNumber } := by
    constructor
    · intro he
      obtain ⟨s, hs, hr⟩ := setFromString_str h
      obtain ⟨s', hs', hr'⟩ := setFromString_str h'
      rw [hs, hs'] at he
      cases he
      rw [hr] at hr'
      exact Except.ok.inj hr'
    · intro he
      rw [← str_kept (r := r), he, str_kept]
  have hn : ∀ {s}, isValidSerial s → s ≠ [] := fun h => (isValidSerial_iff.mp h).1
  rw [hk]
  cases r
  cases r'
  simp only [ResourceUuid.mk.injEq, kept_inj (hn h.serialNumber) (hn h'.serialNumber)]
  constructor
  · rintro ⟨rfl, rfl, rfl, rfl, rfl, rfl | hd⟩ <;> simp [*]
  · rintro (⟨rfl, rfl, rfl, rfl, rfl, rfl⟩ | ⟨⟨rfl, rfl, rfl, rfl, rfl, -⟩, hd⟩) <;> simp [*]

-- The digits below the unique id are those of the packed fields whatever is above them.
omit [Python] in
theorem hex_join {uid e hi lo : Nat} : hex 32 (join uid (r.fields e hi lo)) =
    hex 8 uid ++ hex 24 (join 0 (r.fields e hi lo)) := by
  have hm : join uid (r.fields e hi lo) % 2 ^ 96 = join 0 (r.fields e hi lo) := join_mod (fits_fields _ _ _ _)
  rw [hex_append (n := 8) (m := 24), ← hex_mod (n := 24), hm]
  congr 2
  exact join_shiftRight (fits_fields _ _ _ _)

omit [Python] in
theorem dashed_append {a tail : List Char} (h : a.length = 8) : dashed (a ++ tail) =
    a ++ ('-' :: tail.take 4 ++ '-' :: (tail.drop 4).take 4 ++ '-' :: (tail.drop 8).take 4 ++
      '-' :: tail.drop 12) := by
  simp [dashed, List.drop_append, List.drop_of_length_le, h]

theorem str_setUniqueId : (r.setUniqueId u).str = (do .ok (updateResourceUniqueId (← r.str) u)) := by
  have hu : (r.setUniqueId u).uniqueId &&& 0xFFFFFFFF = u &&& 0xFFFFFFFF := by
    rw [setUniqueId, Nat.and_assoc, Nat.and_self]
  have hp : (r.setUniqueId u).pack = (do
      let serial ← encodeSerial r.serialNumber
      .ok (join (reverseBytes (u &&& 0xFFFFFFFF)) (r.fields serial.1 serial.2.1 serial.2.2))) := by
    rw [pack, hu]
    rfl
  rw [str, str, hp, pack]
  cases encodeSerial r.serialNumber with
  | error e => rfl
  | ok a =>
    obtain ⟨e, hi, lo⟩ := a
    simp only [bind, Except.bind, updateResourceUniqueId]
    rw [hex_join, hex_join, dashed_append length_hex, dashed_append length_hex,
      List.drop_left' length_hex]

-- A text that is read prints back in lower case, and one that is not is refused as what it is.
def ReadsBack (s : List Char) : Prop :=
  match setFromString s with
  | .ok r    => r.str = .ok (lower s)
  | .error e => ∃ msg, e = .invalidData msg

-- The number in the digits of a text.
def bits (s : List Char) : Nat :=
  ofHex ((lower (strip s)).filter (· ≠ '-'))

theorem readsBack_iff : ReadsBack s ↔ (isNmosUuid (lower (strip s)) → strip s = s ∧ version (bits s) = 4 ∧
    snEncoded (bits s) < offset (MAX_ENCODED_CHARS + 1)) := by
  by_cases hs : isNmosUuid (lower (strip s))
  · obtain ⟨value, hv, hd, -, -, hvar⟩ := isNmosUuid_iff.mp hs
    have hh : ∀ c ∈ hex 32 value, isHex c := fun c => isHex_of_mem_hex
    have hb : bits s = value := by
      rw [bits, hd, filter_dashed hh, ofHex_hex hv]
    have hr : setFromString s = unpack value := by
      rw [← hb]
      simp only [setFromString, hs, if_true, bits]
    simp only [hs, true_implies, hb, ReadsBack, hr]
    by_cases he : snEncoded value < offset (MAX_ENCODED_CHARS + 1)
    · obtain ⟨r, hu, value', hp, hv', hver', hvv⟩ := pack_unpack hv he
      simp only [hu, he, and_true, str, hp, bind, Except.bind, Except.ok.injEq]
      constructor
      · intro hl
        have hh' : ∀ c ∈ hex 32 value', isHex c := fun c => isHex_of_mem_hex
        have hst : lower (strip s) = lower s := by
          have hlen : (lower (strip s)).length = (lower s).length := by
            rw [hd, ← hl, length_dashed length_hex, length_dashed length_hex]
          rw [lower, lower, List.length_map, List.length_map] at hlen
          rw [strip_sublist.eq_of_length hlen]
        have hx : hex 32 value' = hex 32 value := by
          rw [← filter_dashed hh', hl, ← hst, hd, filter_dashed hh]
        have hvv : value' = value := by
          rw [← ofHex_hex (n := 32) hv', hx, ofHex_hex hv]
        exact ⟨lower_strip_iff.mp hst, hvv ▸ hver'⟩
      · rintro ⟨hst, hver⟩
        rw [hvv hver hvar, ← hd, hst]
    · have hu : unpack value =
          .error (.invalidParameter s!"encoded value {snEncoded value} exceeds max range") := by
        rw [unpack, decodeSerial_error (not_lt.mp he)]
        rfl
      simp [hu, he]
  · have hr : setFromString s = .error (.invalidData "invalid NMOS UUID format") := by
      simp [setFromString, hs]
    simp [ReadsBack, hr, hs]

theorem str_setFromString_iff (h : r.Valid) :
    (do setFromString (← r.str)) = .ok r ↔ ¬LosesZero r.serialNumber := by
  obtain ⟨s, hs, hr⟩ := setFromString_str h
  simp only [hs, bind, Except.bind, hr, Except.ok.injEq, ← kept_eq_iff]
  constructor
  · intro hk
    exact congrArg serialNumber hk
  · intro hk
    rw [hk]

-- The encoding loses a zero that is all there is before the last character, and nothing else; a text that is
-- read prints back unless it has white space around it, another version, or bits of no serial number, for
-- which the error is that of a parameter.
theorem text_faithful_iff :
    (∀ r : ResourceUuid, r.Valid →
      ((do setFromString (← r.str)) = .ok r ↔ ¬LosesZero r.serialNumber)) ∧
    (∀ r r' : ResourceUuid, r.Valid → r'.Valid → (r.str = r'.str ↔ r = r' ∨
      r' = { r with serialNumber := r'.serialNumber } ∧ DifferByZero r.serialNumber r'.serialNumber)) ∧
    (∀ (r : ResourceUuid) (u : Nat),
      (r.setUniqueId u).str = (do .ok (updateResourceUniqueId (← r.str) u))) ∧
    (∀ s, ReadsBack s ↔ (isNmosUuid (lower (strip s)) → strip s = s ∧ version (bits s) = 4 ∧
      snEncoded (bits s) < offset (MAX_ENCODED_CHARS + 1))) :=
  ⟨fun _ => str_setFromString_iff, fun _ _ => str_eq_iff, fun _ _ => str_setUniqueId, fun _ => readsBack_iff⟩

end Uuid.ResourceUuid

namespace Uuid.ResourceUuid.Example

local instance python : Python := .ofTable []

def node (serialNumber : List Char) : ResourceUuid where
  uniqueId        := 1
  resourceType    := .node
  resourceSubType := .none
  onDemand        := false
  index           := 0
  serialNumber    := serialNumber

-- Two serial numbers with one text, a text that prints back as another, and a text refused as a parameter.
theorem not_faithful :
    (node ['0', 'A']).Valid ∧ (node ['A']).Valid ∧
    (node ['0', 'A']).str = .ok "01000000-0000-4000-8000-000000000011".toList ∧
    (node ['A']).str = .ok "01000000-0000-4000-8000-000000000011".toList ∧
    (do setFromString (← (node ['0', 'A']).str)) = .ok (node ['A']) ∧
    ¬ReadsBack "01000000-0000-1000-8000-000000000011".toList ∧
    ¬ReadsBack "01000000-0003-4fff-bfff-ffffffff0011".toList := by
  refine ⟨⟨by decide, by decide, by decide +kernel⟩, ⟨by decide, by decide, by decide +kernel⟩,
    by decide +kernel, by decide +kernel, by decide +kernel, ?_, ?_⟩
  · rw [readsBack_iff]
    decide +kernel
  · rw [readsBack_iff]
    decide +kernel

end Uuid.ResourceUuid.Example
