import NmosReference.Uuid.ResourceUuid

-- What of a resource UUID survives its text, and which texts survive being read.
namespace Uuid

open BitFields Text

section Bytes

theorem and_shiftLeft {x m k : Nat} : x &&& m <<< k = (x >>> k &&& m) <<< k := by
  refine Nat.eq_of_testBit_eq fun i => ?_
  simp only [Nat.testBit_and, Nat.testBit_shiftLeft, Nat.testBit_shiftRight]
  by_cases h : k ≤ i <;> simp [h]

theorem reverseBytes_eq (uid : Nat) : reverseBytes uid =
    uid % 256 * 2 ^ 24 + uid / 2 ^ 8 % 256 * 2 ^ 16 + uid / 2 ^ 16 % 256 * 2 ^ 8 + uid / 2 ^ 24 % 256 := by
  have h1 : uid &&& 0xFF00 = (uid / 2 ^ 8 % 256) <<< 8 := by
    rw [show 0xFF00 = 0xFF <<< 8 from rfl, and_shiftLeft, Nat.shiftRight_eq_div_pow]
    exact congrArg (· <<< 8) (and_mask _ 8)
  have h2 : uid &&& 0xFF0000 = (uid / 2 ^ 16 % 256) <<< 16 := by
    rw [show 0xFF0000 = 0xFF <<< 16 from rfl, and_shiftLeft, Nat.shiftRight_eq_div_pow]
    exact congrArg (· <<< 16) (and_mask _ 8)
  have h0 : uid &&& 0xFF = uid % 256 := and_mask _ 8
  have h3 : uid >>> 24 &&& 0xFF = uid / 2 ^ 24 % 256 := by
    rw [Nat.shiftRight_eq_div_pow]
    exact and_mask _ 8
  have hj : reverseBytes uid =
      join 0 [(8, uid % 256), (8, uid / 2 ^ 8 % 256), (8, uid / 2 ^ 16 % 256), (8, uid / 2 ^ 24 % 256)] := by
    simp only [reverseBytes, h0, h1, h2, h3, join, List.foldl_cons, List.foldl_nil]
    simp only [Nat.shiftLeft_or_distrib, ← Nat.shiftLeft_add, Nat.zero_shiftLeft, Nat.zero_or]
    rw [show (uid / 2 ^ 16 % 256) <<< 16 >>> 8 = (uid / 2 ^ 16 % 256) <<< 8 by
      simp only [Nat.shiftLeft_eq, Nat.shiftRight_eq_div_pow]
      omega]
  have hf : Fits [(8, uid % 256), (8, uid / 2 ^ 8 % 256), (8, uid / 2 ^ 16 % 256), (8, uid / 2 ^ 24 % 256)] := by
    simp only [Fits, List.forall_mem_cons, List.not_mem_nil, false_implies, implies_true, and_true]
    omega
  rw [hj]
  simp only [Fits, List.forall_mem_cons] at hf
  simp only [join, List.foldl_cons, List.foldl_nil]
  rw [or_shiftLeft hf.1, or_shiftLeft hf.2.1, or_shiftLeft hf.2.2.1, or_shiftLeft hf.2.2.2.1]
  omega

theorem reverseBytes_lt {uid : Nat} : reverseBytes uid < 2 ^ 32 := by
  rw [reverseBytes_eq]
  omega

theorem reverseBytes_bytes {a b c d : Nat} (ha : a < 256) (hb : b < 256) (hc : c < 256) (hd : d < 256) :
    reverseBytes (a * 2 ^ 24 + b * 2 ^ 16 + c * 2 ^ 8 + d) = d * 2 ^ 24 + c * 2 ^ 16 + b * 2 ^ 8 + a := by
  rw [reverseBytes_eq]
  have h0 : (a * 2 ^ 24 + b * 2 ^ 16 + c * 2 ^ 8 + d) % 256 = d := by omega
  have h1 : (a * 2 ^ 24 + b * 2 ^ 16 + c * 2 ^ 8 + d) / 2 ^ 8 % 256 = c := by omega
  have h2 : (a * 2 ^ 24 + b * 2 ^ 16 + c * 2 ^ 8 + d) / 2 ^ 16 % 256 = b := by omega
  have h3 : (a * 2 ^ 24 + b * 2 ^ 16 + c * 2 ^ 8 + d) / 2 ^ 24 % 256 = a := by omega
  rw [h0, h1, h2, h3]

theorem reverseBytes_reverseBytes {uid : Nat} (h : uid < 2 ^ 32) : reverseBytes (reverseBytes uid) = uid := by
  have hb (n : Nat) : n % 256 < 256 := Nat.mod_lt _ (by decide)
  rw [reverseBytes_eq uid, reverseBytes_bytes (hb _) (hb _) (hb _) (hb _)]
  omega

end Bytes

section Hex

variable {value n m k : Nat} {s : List Char} {c : Char}

theorem hexValue_digitChar (h : n < 16) :
    isHex n.digitChar ∧ hexValue n.digitChar = n := by
  have hs : ∀ n : Fin 16, isHex n.val.digitChar ∧ hexValue n.val.digitChar = n.val := by decide +kernel
  exact hs ⟨n, h⟩

theorem digitChar_hexValue (h : isHex c) : hexValue c < 16 ∧ (hexValue c).digitChar = c := by
  have hc : c.toNat < 128 := by
    simp only [isHex, Bool.or_eq_true, Bool.and_eq_true, decide_eq_true_eq, Char.le_def] at h
    rcases h with ⟨-, h⟩ | ⟨-, h⟩
    · exact lt_of_le_of_lt (UInt32.le_iff_toNat_le.mp h) (by decide)
    · exact lt_of_le_of_lt (UInt32.le_iff_toNat_le.mp h) (by decide)
  have hs : ∀ n : Fin 128, isHex (.ofNat n) →
      hexValue (.ofNat n) < 16 ∧ (hexValue (.ofNat n)).digitChar = .ofNat n := by
    decide +kernel
  have := hs ⟨c.toNat, hc⟩
  simp only [Char.ofNat_toNat] at this
  exact this h
theorem hex_succ : hex (n + 1) value = (value >>> (n * 4) &&& 0xF).digitChar :: hex n value := by
  simp only [hex, List.replicate_succ, split, List.map_cons, List.sum_replicate_nat]
  rfl

theorem length_hex : (hex n value).length = n := by
  induction n with
  | zero => rfl
  | succ n ih => rw [hex_succ, List.length_cons, ih]

theorem isHex_of_mem_hex (h : c ∈ hex n value) : isHex c := by
  induction n with
  | zero => simp [hex, split] at h
  | succ n ih =>
    rw [hex_succ, List.mem_cons] at h
    rcases h with rfl | h
    · exact (hexValue_digitChar (and_mask_lt _ 4)).1
    · exact ih h

theorem hex_append : hex (n + m) value = hex n (value >>> (m * 4)) ++ hex m value := by
  rw [hex, List.replicate_add, split_append, List.map_append, List.sum_replicate_nat]
  rfl

theorem hex_mod : hex n (value % 2 ^ (n * 4)) = hex n value := by
  have h := split_mod (List.replicate n 4) value
  rw [List.sum_replicate_nat] at h
  rw [hex, hex, h]

theorem ofHex_hex (h : value < 2 ^ (n * 4)) : ofHex (hex n value) = value := by
  have hm : (hex n value).map (fun c => (4, hexValue c)) = split (List.replicate n 4) value := by
    rw [hex, List.map_map]
    refine (List.map_congr_left fun f hf => ?_).trans (List.map_id _)
    have hw : f.1 = 4 := by
      have := List.mem_map_of_mem (f := Prod.fst) hf
      rw [map_fst_split] at this
      exact (List.mem_replicate.mp this).2
    have hv : f.2 < 16 := by
      have := split_fits f hf
      rwa [hw] at this
    exact Prod.ext hw.symm (hexValue_digitChar hv).2
  have hz : value >>> (List.replicate n 4).sum = 0 := by
    rw [List.sum_replicate_nat, Nat.shiftRight_eq_div_pow, Nat.div_eq_of_lt h]
  rw [ofHex, hm, ← hz, join_split]

theorem fits_hexValue (h : ∀ c ∈ s, isHex c) : Fits (s.map fun c => (4, hexValue c)) := by
  intro f hf
  obtain ⟨c, hc, rfl⟩ := List.mem_map.mp hf
  exact (digitChar_hexValue (h c hc)).1

theorem map_fst_hexValue : ((s.map fun c => (4, hexValue c)).map Prod.fst) = List.replicate s.length 4 := by
  rw [List.map_map]
  exact List.map_const' ..

theorem hex_ofHex (h : ∀ c ∈ s, isHex c) : hex s.length (ofHex s) = s := by
  rw [hex, ofHex, ← map_fst_hexValue, split_join (fits_hexValue h), List.map_map]
  exact (List.map_congr_left fun c hc => (digitChar_hexValue (h c hc)).2).trans (List.map_id _)

theorem ofHex_lt (h : ∀ c ∈ s, isHex c) : ofHex s < 2 ^ (s.length * 4) := by
  obtain ⟨r, hr, e⟩ := join_eq (fits_hexValue h)
  rw [map_fst_hexValue, List.sum_replicate_nat] at hr
  rw [ofHex, e, Nat.zero_mul, Nat.zero_add]
  exact hr

end Hex

section Serial

variable {s : List Char} {c : Char} {snEncoded hi lo n : Nat}

theorem charToClear_of_mem (h : c ∈ ALPHABET) :
    charToClear c < 256 ∧ clearToChar (charToClear c) = c ∧ (charToClear c = 0 ↔ c = '0') := by
  have hs : ALPHABET.all fun c => charToClear c < 256 && clearToChar (charToClear c) == c &&
      decide (charToClear c = 0 ↔ c = '0') := by decide +kernel
  have hc := List.all_eq_true.mp hs c h
  simp only [Bool.and_eq_true, decide_eq_true_eq, beq_iff_eq] at hc
  exact ⟨hc.1.1, hc.1.2, hc.2⟩

theorem charToClear_clearToChar (h : n < 256) : charToClear (clearToChar n) = n := by
  have hs : ∀ n : Fin 256, charToClear (clearToChar n.val) = n.val := by decide +kernel
  exact hs ⟨n, h⟩

-- A serial number of which a zero is taken for no character at all.
def LosesZero (s : List Char) : Prop :=
  s = ['0'] ∨ ∃ c, s = ['0', c]

-- What is left of a serial number.
def kept : List Char → List Char
  | ['0']      => []
  | ['0', '0'] => []
  | ['0', c]   => [c]
  | s          => s

theorem isValidSerial_iff :
    isValidSerial s ↔ s ≠ [] ∧ s.length ≤ MAX_SERIAL_LENGTH ∧ ∀ c ∈ s, c ∈ ALPHABET := by
  simp [isValidSerial]

theorem decodeSerial_error (he : offset (MAX_ENCODED_CHARS + 1) ≤ snEncoded) :
    decodeSerial snEncoded hi lo =
      .error (.invalidParameter s!"encoded value {snEncoded} exceeds max range") := by
  have hs : snEncoded ≠ 0 := by
    have := offset_pos (n := MAX_ENCODED_CHARS + 1) (by decide)
    omega
  simp only [decodeSerial, hs, false_and, if_false, decode_error he, bind, Except.bind]

theorem kept_eq (h : ¬LosesZero s) : kept s = s := by
  unfold kept
  split
  · exact absurd (.inl rfl) h
  · exact absurd (.inr ⟨_, rfl⟩) h
  · exact absurd (.inr ⟨_, rfl⟩) h
  · rfl

theorem serial_cases (s : List Char) : s = [] ∨ (∃ lo, s = [lo]) ∨ (∃ hi lo, s = [hi, lo]) ∨
    ∃ leading ≠ [], ∃ hi lo, s = leading ++ [hi, lo] := by
  rw [← List.reverse_reverse s]
  match s.reverse with
  | []                       => exact .inl rfl
  | [lo]                     => exact .inr (.inl ⟨lo, rfl⟩)
  | [lo, hi]                 => exact .inr (.inr (.inl ⟨hi, lo, rfl⟩))
  | lo :: hi :: a :: leading => exact .inr (.inr (.inr ⟨(a :: leading).reverse, by simp, hi, lo, by simp⟩))

variable [Python]

theorem encodeSerial_append {leading : List Char} {hi lo : Char} (h : leading ≠ []) :
    encodeSerial (leading ++ [hi, lo]) = (do .ok (← encode leading, charToClear hi, charToClear lo)) := by
  have hr : (leading ++ [hi, lo]).reverse = lo :: hi :: leading.reverse := by simp
  rw [encodeSerial, hr]
  obtain ⟨a, l, ha⟩ := List.exists_cons_of_ne_nil (mt List.reverse_eq_nil_iff.mp h)
  rw [← List.reverse_reverse leading, ha]
  simp

theorem decodeSerial_encodeSerial (h : isValidSerial s) : ∃ e < offset (MAX_ENCODED_CHARS + 1), ∃ hi < 256,
    ∃ lo < 256, encodeSerial s = .ok (e, hi, lo) ∧ decodeSerial e hi lo = .ok (kept s) := by
  have ⟨hs, hl, hm⟩ := isValidSerial_iff.mp h
  obtain rfl | ⟨lo, rfl⟩ | ⟨hi, lo, rfl⟩ | ⟨leading, hne, hi, lo, rfl⟩ := serial_cases s
  · exact absurd rfl hs
  · have ⟨hlt, hc, hz⟩ := charToClear_of_mem (hm lo (by simp))
    refine ⟨0, by decide, 0, by decide, _, hlt, rfl, ?_⟩
    by_cases h0 : lo = '0'
    · subst h0
      rfl
    · simp [decodeSerial, hz, h0, hc, kept]
  · have ⟨hlt, hc, hz⟩ := charToClear_of_mem (hm lo (by simp))
    have ⟨hlt', hc', hz'⟩ := charToClear_of_mem (hm hi (by simp))
    refine ⟨0, by decide, _, hlt', _, hlt, rfl, ?_⟩
    by_cases h0 : hi = '0'
    · subst h0
      by_cases h1 : lo = '0'
      · subst h1
        rfl
      · have hd : decodeSerial 0 0 (charToClear lo) = .ok [lo] := by
          simp [decodeSerial, hz, h1, hc]
        rw [hz'.mpr rfl, hd]
        simp [kept]
    · have hk : kept [hi, lo] = [hi, lo] := kept_eq (by simp [LosesZero, h0])
      simp [decodeSerial, hz', h0, hc, hc', hk]
  · have ⟨hlt, hc, hz⟩ := charToClear_of_mem (hm lo (by simp))
    have ⟨hlt', hc', hz'⟩ := charToClear_of_mem (hm hi (by simp))
    have hlen : leading.length ≤ MAX_ENCODED_CHARS := by
      simp only [List.length_append, List.length_cons, List.length_nil, MAX_SERIAL_LENGTH] at hl
      simp only [MAX_ENCODED_CHARS]
      omega
    obtain ⟨e, he, hE, hD, h0⟩ := decode_encode (fun c hc => hm c (List.mem_append_left _ hc)) hlen
    refine ⟨e, he, _, hlt', _, hlt, ?_, ?_⟩
    · rw [encodeSerial_append hne, hE]
      rfl
    · have hk : kept (leading ++ [hi, lo]) = leading ++ [hi, lo] := by
        refine kept_eq ?_
        intro hk
        have hk : (leading ++ [hi, lo]).length ≤ 2 := by
          obtain hk | ⟨c, hk⟩ := hk <;> simp [hk]
        have := List.length_pos_iff.mpr hne
        simp only [List.length_append, List.length_cons, List.length_nil] at hk
        omega
      simp only [decodeSerial, mt h0.mp hne, false_and, if_false, hD, bind, Except.bind, hc, hc', hk]

theorem encodeSerial_kept : encodeSerial (kept s) = encodeSerial s := by
  unfold kept
  split <;> rfl

theorem encodeSerial_decodeSerial (he : snEncoded < offset (MAX_ENCODED_CHARS + 1)) (hh : hi < 256)
    (hl : lo < 256) :
    ∃ s, decodeSerial snEncoded hi lo = .ok s ∧ encodeSerial s = .ok (snEncoded, hi, lo) := by
  by_cases h0 : snEncoded = 0
  · subst h0
    by_cases h1 : hi = 0 <;> by_cases h2 : lo = 0
    · subst h1 h2
      exact ⟨[], rfl, rfl⟩
    · subst h1
      exact ⟨[clearToChar lo], by simp [decodeSerial, h2], by simp [encodeSerial, charToClear_clearToChar hl]⟩
    all_goals
      exact ⟨[clearToChar hi, clearToChar lo], by simp [decodeSerial, h1],
        by simp [encodeSerial, charToClear_clearToChar hl, charToClear_clearToChar hh]⟩
  · obtain ⟨s, hD, hE, hs⟩ := encode_decode he
    refine ⟨s ++ [clearToChar hi, clearToChar lo], ?_, ?_⟩
    · simp only [decodeSerial, h0, false_and, if_false, hD, bind, Except.bind]
    · rw [encodeSerial_append (mt hs.mp h0), hE, charToClear_clearToChar hh, charToClear_clearToChar hl]
      rfl

end Serial
end Uuid
