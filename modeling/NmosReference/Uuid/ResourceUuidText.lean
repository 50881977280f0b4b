import NmosReference.Uuid.ResourceUuidCodec

namespace Uuid

open BitFields Text

namespace ResourceUuid

-- The fields `fields` packs, as wide as it makes them, and the four parts of the serial number's bits.

def widths : List Nat :=
  [1, 3, 8, 2, 2, 4, 12, 2, 14, 32, 8, 8]

def serialWidths : List Nat :=
  [2, 12, 14, 32]

def version (value : Nat) : Nat :=
  value >>> 76 &&& 0xF

def variant (value : Nat) : Nat :=
  value >>> 62 &&& 0x3

section Bits

variable [Python] {r r' : ResourceUuid} {value uid e hi lo : Nat}

omit [Python] in
theorem split_widths : split widths value =
    [(1, value >>> 95 &&& 0x1), (3, value >>> 92 &&& 0x7), (8, value >>> 84 &&& 0xFF),
      (2, value >>> 82 &&& 0x3), (2, value >>> 80 &&& 0x3), (4, version value), (12, value >>> 64 &&& 0xFFF),
      (2, variant value), (14, value >>> 48 &&& 0x3FFF), (32, value >>> 16 &&& 0xFFFFFFFF),
      (8, value >>> 8 &&& 0xFF), (8, value &&& 0xFF)] := rfl

omit [Python] in
theorem split_serialWidths : split serialWidths e =
    [(2, e >>> 58 &&& 0x3), (12, e >>> 46 &&& 0xFFF), (14, e >>> 32 &&& 0x3FFF), (32, e &&& 0xFFFFFFFF)] := rfl

omit [Python] in
theorem snEncoded_eq : snEncoded value = join 0 [(2, value >>> 80 &&& 0x3), (12, value >>> 64 &&& 0xFFF),
    (14, value >>> 48 &&& 0x3FFF), (32, value >>> 16 &&& 0xFFFFFFFF)] := by
  simp only [snEncoded, join, List.foldl_cons, List.foldl_nil, Nat.shiftLeft_or_distrib, ← Nat.shiftLeft_add,
    Nat.zero_shiftLeft, Nat.zero_or]

omit [Python] in
theorem fits_fields (r : ResourceUuid) (e hi lo : Nat) : Fits (r.fields e hi lo) := by
  have hm (n w : Nat) : n &&& mask w < 2 ^ w := and_mask_lt n w
  have hb : (if r.onDemand then 1 else 0) < 2 ^ 1 := by split <;> decide
  simp only [Fits, fields, List.forall_mem_cons, List.not_mem_nil, false_implies, implies_true, and_true]
  exact ⟨hb, hm _ 3, hm _ 8, hm _ 2, hm _ 2, by decide, hm _ 12, by decide, hm _ 14, hm _ 32, hm _ 8, hm _ 8⟩

omit [Python] in
theorem map_fst_fields (r : ResourceUuid) (e hi lo : Nat) : (r.fields e hi lo).map Prod.fst = widths := rfl

omit [Python] in
theorem split_join_fields : split widths (join uid (r.fields e hi lo)) = r.fields e hi lo := by
  rw [← map_fst_fields r e hi lo, split_join (fits_fields r e hi lo)]

omit [Python] in
theorem version_eq (h : split widths value = r.fields e hi lo) : version value = 4 := by
  simp only [split_widths, fields, List.cons.injEq, Prod.mk.injEq, true_and] at h
  exact h.2.2.2.2.2.1

omit [Python] in
theorem variant_eq (h : split widths value = r.fields e hi lo) : variant value = 2 := by
  simp only [split_widths, fields, List.cons.injEq, Prod.mk.injEq, true_and] at h
  exact h.2.2.2.2.2.2.2.1

omit [Python] in
theorem join_fields_lt (h : uid < 2 ^ 32) : join uid (r.fields e hi lo) < 2 ^ 128 := by
  obtain ⟨n, hn, hj⟩ := join_eq (fits_fields r e hi lo)
  have hw : ((r.fields e hi lo).map Prod.fst).sum = 96 := rfl
  rw [hj, hw]
  rw [hw] at hn
  omega

omit [Python] in
theorem snEncoded_of_split (h : split widths value = r.fields e hi lo) (he : e < 2 ^ 60) :
    snEncoded value = e := by
  simp only [split_widths, fields, List.cons.injEq, Prod.mk.injEq, true_and] at h
  obtain ⟨-, -, -, -, ha, -, hb, -, hc, hd, -⟩ := h
  have hz : e >>> serialWidths.sum = 0 := by
    rw [Nat.shiftRight_eq_div_pow]
    exact Nat.div_eq_of_lt he
  rw [snEncoded_eq, ha, hb, hc, hd, ← split_serialWidths, ← hz, join_split]

-- What was packed is unpacked, but for what the serial number lost.
omit [Python] in
theorem unpack_eq (h : split widths value = r.fields e hi lo) (hu : value >>> 96 = reverseBytes r.uniqueId)
    (hu' : r.uniqueId < 2 ^ 32) (hx : r.index < 256) (he : e < 2 ^ 60) (hh : hi < 256) (hl : lo < 256) :
    unpack value = (do .ok { r with serialNumber := ← decodeSerial e hi lo }) := by
  have hm {n : Nat} (w : Nat) (h : n < 2 ^ w) : n &&& mask w = n := by rw [and_mask, Nat.mod_eq_of_lt h]
  have hr : reverseBytes (value >>> 96 &&& 0xFFFFFFFF) = r.uniqueId := by
    rw [hu]
    exact (congrArg _ (hm 32 reverseBytes_lt)).trans (reverseBytes_reverseBytes hu')
  have hsn := snEncoded_of_split h he
  simp only [split_widths, fields, List.cons.injEq, Prod.mk.injEq, true_and] at h
  obtain ⟨hd, ht, hi', hs, -, -, -, -, -, -, hh', hl', -⟩ := h
  rw [unpack, hsn, hr, hd, ht, hi', hs, hh', hl']
  rw [show r.resourceType.value &&& 0x7 = _ from hm 3 ResourceType.value_lt,
    show r.index &&& 0xFF = _ from hm 8 hx,
    show r.resourceSubType.value &&& 0x3 = _ from hm 2 ResourceSubType.value_lt,
    show hi &&& 0xFF = _ from hm 8 hh, show lo &&& 0xFF = _ from hm 8 hl,
    ResourceType.ofValue_value, ResourceSubType.ofValue_value]
  have hod : decide ((if r.onDemand = true then 1 else 0) ≠ 0) = r.onDemand := by
    cases r.onDemand <;> rfl
  simp only [hod]

omit [Python] in
theorem split_snEncoded (value : Nat) : split serialWidths (snEncoded value) =
    [(2, value >>> 80 &&& 0x3), (12, value >>> 64 &&& 0xFFF), (14, value >>> 48 &&& 0x3FFF),
      (32, value >>> 16 &&& 0xFFFFFFFF)] := by
  have hb (w n : Nat) : n &&& mask w < 2 ^ w := and_mask_lt n w
  have hf : Fits [(2, value >>> 80 &&& 0x3), (12, value >>> 64 &&& 0xFFF), (14, value >>> 48 &&& 0x3FFF),
      (32, value >>> 16 &&& 0xFFFFFFFF)] := by
    simp only [Fits, List.forall_mem_cons, List.not_mem_nil, false_implies, implies_true, and_true]
    exact ⟨hb 2 _, hb 12 _, hb 14 _, hb 32 _⟩
  rw [snEncoded_eq]
  exact split_join hf

-- The fields of what is unpacked are those of the value, but for the version and the variant.
omit [Python] in
theorem fields_unpack {s : List Char} {uid : Nat} (hver : version value = 4) (hvar : variant value = 2) :
    ResourceUuid.fields
      { uniqueId := uid, resourceType := .ofValue (value >>> 92 &&& 0x7),
        resourceSubType := .ofValue (value >>> 82 &&& 0x3), onDemand := value >>> 95 &&& 0x1 ≠ 0,
        index := value >>> 84 &&& 0xFF, serialNumber := s }
      (snEncoded value) (value >>> 8 &&& 0xFF) (value &&& 0xFF) = split widths value := by
  have hb (w n : Nat) : n &&& mask w < 2 ^ w := and_mask_lt n w
  have hsn := split_snEncoded value
  simp only [split_serialWidths, List.cons.injEq, Prod.mk.injEq, true_and, and_true] at hsn
  have hod : (if decide (value >>> 95 &&& 0x1 ≠ 0) = true then 1 else 0) = value >>> 95 &&& 0x1 := by
    have : value >>> 95 &&& 0x1 < 2 := hb 1 _
    simp only [decide_eq_true_eq]
    split <;> omega
  have ht : (ResourceType.ofValue (value >>> 92 &&& 0x7)).value = value >>> 92 &&& 0x7 :=
    ResourceType.value_ofValue (hb 3 _)
  have hs : (ResourceSubType.ofValue (value >>> 82 &&& 0x3)).value = value >>> 82 &&& 0x3 :=
    ResourceSubType.value_ofValue (hb 2 _)
  simp only [fields, split_widths, hver, hvar, hod, hsn, ht, hs, Nat.and_assoc, Nat.and_self]

-- What was unpacked packs again, into the same value if it has the version and the variant of the encoding.
theorem pack_unpack (hv : value < 2 ^ 128) (he : snEncoded value < offset (MAX_ENCODED_CHARS + 1)) :
    ∃ r, unpack value = .ok r ∧ ∃ value', r.pack = .ok value' ∧ value' < 2 ^ 128 ∧ version value' = 4 ∧
      (version value = 4 → variant value = 2 → value' = value) := by
  have hb (w n : Nat) : n &&& mask w < 2 ^ w := and_mask_lt n w
  have hm {n : Nat} (w : Nat) (h : n < 2 ^ w) : n &&& mask w = n := by rw [and_mask, Nat.mod_eq_of_lt h]
  have hhi : value >>> 8 &&& 0xFF < 256 := and_mask_lt _ 8
  have hlo : value &&& 0xFF < 256 := and_mask_lt _ 8
  obtain ⟨s, hD, hE⟩ := encodeSerial_decodeSerial he hhi hlo
  refine ⟨_, by rw [unpack, hD]; rfl, _, by rw [pack, hE]; rfl, join_fields_lt reverseBytes_lt,
    version_eq split_join_fields, fun hver hvar => ?_⟩
  have huid : value >>> 96 < 2 ^ 32 := by
    rw [Nat.shiftRight_eq_div_pow]
    omega
  have hu : reverseBytes (reverseBytes (value >>> 96 &&& 0xFFFFFFFF) &&& 0xFFFFFFFF) = value >>> 96 := by
    rw [show value >>> 96 &&& 0xFFFFFFFF = _ from hm 32 huid,
      show reverseBytes (value >>> 96) &&& 0xFFFFFFFF = _ from hm 32 reverseBytes_lt,
      reverseBytes_reverseBytes huid]
  rw [fields_unpack hver hvar, hu]
  exact join_split widths

end Bits
section Text

variable {s h : List Char} {c : Char} {value : Nat}

def groups (h : List Char) : List (List Char) :=
  [h.take 8, (h.drop 8).take 4, (h.drop 12).take 4, (h.drop 16).take 4, h.drop 20]

theorem dashed_eq : dashed h = ['-'].intercalate (groups h) := by
  simp [dashed, groups, List.intercalate, List.intersperse]

theorem flatten_groups : (groups h).flatten = h := by
  simp only [groups, List.flatten_cons, List.flatten_nil, List.append_nil]
  rw [← List.drop_drop (i := 4) (j := 16), List.take_append_drop, ← List.drop_drop (i := 4) (j := 12),
    List.take_append_drop, ← List.drop_drop (i := 4) (j := 8), List.take_append_drop, List.take_append_drop]

theorem length_dashed (hl : h.length = 32) : (dashed h).length = 36 := by
  simp [dashed, hl]

theorem isHex_ne (h : isHex c) : c ≠ '-' := by
  rintro rfl
  exact absurd h (by decide)

theorem splitOn_dashed (hh : ∀ c ∈ h, isHex c) : (dashed h).splitOn '-' = groups h := by
  rw [dashed_eq, List.splitOn_intercalate _ (fun g hg hc => ?_) (by simp [groups])]
  have hm : '-' ∈ (groups h).flatten := List.mem_flatten.mpr ⟨g, hg, hc⟩
  rw [flatten_groups] at hm
  exact isHex_ne (hh _ hm) rfl

theorem filter_dashed (hh : ∀ c ∈ h, isHex c) : (dashed h).filter (· ≠ '-') = h := by
  have hf (g : List Char) (hg : g ⊆ h) : g.filter (· ≠ '-') = g :=
    List.filter_eq_self.mpr fun c hc => by simpa using isHex_ne (hh c (hg hc))
  have ht (n m : Nat) : (h.drop n).take m ⊆ h := fun c hc => List.mem_of_mem_drop (List.mem_of_mem_take hc)
  calc (dashed h).filter (· ≠ '-')
    _ = (groups h).flatten := by
        simp only [dashed, groups, List.filter_append, List.filter_cons, List.append_assoc, hf _ (ht _ _),
          hf _ (List.take_subset 8 h), hf _ (List.drop_subset 20 h), List.flatten_cons, List.flatten_nil]
        simp
    _ = h := flatten_groups

theorem drop_hex {n m : Nat} : (hex (n + m) value).drop n = hex m value := by
  rw [hex_append, List.drop_append_of_le_length (by rw [length_hex]), List.drop_of_length_le (by rw [length_hex]),
    List.nil_append]

theorem digitChar_version {n : Nat} (h : n < 16) :
    ('1' ≤ n.digitChar ∧ n.digitChar ≤ '5' ↔ 1 ≤ n ∧ n ≤ 5) ∧
      (n.digitChar ∈ ['8', '9', 'a', 'b'] ↔ n >>> 2 = 2) := by
  have hs : ∀ n : Fin 16, ('1' ≤ n.val.digitChar ∧ n.val.digitChar ≤ '5' ↔ 1 ≤ n.val ∧ n.val ≤ 5) ∧
      (n.val.digitChar ∈ ['8', '9', 'a', 'b'] ↔ n.val >>> 2 = 2) := by decide +kernel
  exact hs ⟨n, h⟩

theorem isNmosUuid_dashed : isNmosUuid (dashed (hex 32 value)) ↔
    1 ≤ version value ∧ version value ≤ 5 ∧ variant value = 2 := by
  have hv : (hex 32 value).drop 12 = (version value).digitChar :: hex 19 value :=
    (drop_hex (n := 12) (m := 20)).trans hex_succ
  have hw : (hex 32 value).drop 16 = (value >>> 60 &&& 0xF).digitChar :: hex 15 value :=
    (drop_hex (n := 16) (m := 16)).trans hex_succ
  have hvar : (value >>> 60 &&& 0xF) >>> 2 = variant value := by
    rw [variant, Nat.shiftRight_and_distrib, ← Nat.shiftRight_add]
    rfl
  obtain ⟨h5, -⟩ := digitChar_version (n := version value) (and_mask_lt _ 4)
  obtain ⟨-, h2⟩ := digitChar_version (n := value >>> 60 &&& 0xF) (and_mask_lt _ 4)
  have hh : (((hex 32 value).take 8 ++ ((hex 32 value).drop 8).take 4 ++ ((hex 32 value).drop 12).take 4 ++
      ((hex 32 value).drop 16).take 4 ++ (hex 32 value).drop 20)).all isHex := by
    have hf := flatten_groups (h := hex 32 value)
    simp only [groups, List.flatten_cons, List.flatten_nil, List.append_nil, ← List.append_assoc] at hf
    rw [hf, List.all_eq_true]
    exact fun c => isHex_of_mem_hex
  rw [isNmosUuid, splitOn_dashed fun c => isHex_of_mem_hex, ← hvar, ← and_assoc, ← h5, ← h2]
  simp only [groups, hh]
  simp [length_hex, hv, hw]

theorem exists_dashed (hs : isNmosUuid s) : ∃ h, s = dashed h ∧ h.length = 32 ∧ ∀ c ∈ h, isHex c := by
  unfold isNmosUuid at hs
  split at hs
  · rename_i a b c d e heq
    simp only [Bool.and_eq_true, decide_eq_true_eq, List.all_eq_true] at hs
    obtain ⟨⟨⟨⟨⟨⟨⟨ha, hb⟩, hc⟩, hd⟩, he⟩, hh⟩, -⟩, -⟩ := hs
    have hg : groups (a ++ b ++ c ++ d ++ e) = [a, b, c, d, e] := by
      simp [groups, List.drop_append, List.drop_of_length_le, ha, hb, hc, hd]
    refine ⟨a ++ b ++ c ++ d ++ e, ?_, ?_, hh⟩
    · rw [dashed_eq, hg, ← heq, List.intercalate_splitOn]
    · simp only [List.length_append, ha, hb, hc, hd, he]
  · exact absurd hs (by decide)

-- The texts the pattern takes are those of the numbers with a version from 1 to 5 and with the variant.
theorem isNmosUuid_iff : isNmosUuid s ↔ ∃ value < 2 ^ 128, s = dashed (hex 32 value) ∧
    1 ≤ version value ∧ version value ≤ 5 ∧ variant value = 2 := by
  constructor
  · intro hs
    obtain ⟨h, rfl, hl, hh⟩ := exists_dashed hs
    have hd : hex 32 (ofHex h) = h := by rw [← hl, hex_ofHex hh]
    have hlt := ofHex_lt hh
    rw [hl] at hlt
    refine ⟨ofHex h, hlt, by rw [hd], isNmosUuid_dashed.mp (by rwa [hd])⟩
  · rintro ⟨value, -, rfl, h⟩
    exact isNmosUuid_dashed.mpr h

theorem isHex_plain (h : isHex c) : c.toLower = c ∧ isSpace c = false := by
  have hs : ∀ n : Fin 16, n.val.digitChar.toLower = n.val.digitChar ∧ isSpace n.val.digitChar = false := by
    decide +kernel
  have ⟨hlt, hc⟩ := digitChar_hexValue h
  have := hs ⟨hexValue c, hlt⟩
  rwa [hc] at this

theorem mem_dashed (hh : ∀ c ∈ h, isHex c) (hc : c ∈ dashed h) : c.toLower = c ∧ isSpace c = false := by
  by_cases hd : c = '-'
  · subst hd
    decide
  · have hm : c ∈ (dashed h).filter (· ≠ '-') := List.mem_filter.mpr ⟨hc, by simpa using hd⟩
    rw [filter_dashed hh] at hm
    exact isHex_plain (hh c hm)

theorem lower_dashed (hh : ∀ c ∈ h, isHex c) : lower (dashed h) = dashed h :=
  (List.map_congr_left fun _ hc => (mem_dashed hh hc).1).trans (List.map_id _)

theorem dropWhile_isSpace (hs : ∀ c ∈ s, isSpace c = false) : s.dropWhile isSpace = s := by
  cases s with
  | nil => rfl
  | cons c s => rw [List.dropWhile_cons, hs c (by simp), if_neg (by decide)]

theorem strip_eq (hs : ∀ c ∈ s, isSpace c = false) : strip s = s := by
  rw [strip, dropWhile_isSpace hs, dropWhile_isSpace (by simpa using hs), List.reverse_reverse]

theorem strip_sublist : (strip s).Sublist s := by
  have h := (List.dropWhile_sublist isSpace (l := (s.dropWhile isSpace).reverse)).reverse
  rw [List.reverse_reverse] at h
  exact h.trans (List.dropWhile_sublist _)

-- Lower case keeps the length, so a text that was stripped of something is not printed back.
theorem lower_strip_iff : lower (strip s) = lower s ↔ strip s = s := by
  refine ⟨fun h => strip_sublist.eq_of_length ?_, congrArg lower⟩
  have := congrArg List.length h
  rwa [lower, lower, List.length_map, List.length_map] at this

end Text
end ResourceUuid
end Uuid
