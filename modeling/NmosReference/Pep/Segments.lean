import NmosReference.Pep.Ipmx

open BigEndian CounterMode

namespace Pep

section Segments

variable (lib : Primitives) (key : PrivacyKey) (ivPrime : Nat) (ivMode : IvMode)

-- The segments one after the other, each from the counter that the previous one returned.
def encryptSegments : (ctr : Nat) → List Bytes → Bytes
  | _,   []                  => []
  | ctr, segment :: segments =>
    let (result, nextCtr) := pepEncryptSlices lib key ivPrime ctr segment ivMode
    result ++ encryptSegments nextCtr segments

end Segments

-- Only the last of the segments may end within a block.
def WholeBlocks (segments : List Bytes) : Prop :=
  ∀ segment ∈ segments.dropLast, 16 ∣ segment.length

-- Every segment that holds something starts where a counter of 64 bits still is what was counted. The cipher's own
-- counter comes back to it after `2 ^ 128` blocks.
def StartsLow : (ctr : Nat) → List Bytes → Prop
  | _,   []                  => True
  | ctr, segment :: segments => (segment ≠ [] → ctr % 2 ^ 128 < 2 ^ 64) ∧ StartsLow (ctr + slices segment) segments

variable {lib : Primitives} {key : PrivacyKey} {ivPrime ctr initial : Nat} {ivMode : IvMode}
variable {segment data : Bytes} {segments : List Bytes}

-- The packed vector, as the number that the upper half of a counter block is.
def packedIv (ivPrime : Nat) (ivMode : IvMode) : Nat :=
  let iv := encode 8 (ivPrime % 2 ^ 64)
  decode (if ivMode = .swap then iv.reverse else iv)

theorem decode_buildIvCtr_mode :
    decode (buildIvCtr ivPrime ctr ivMode) = packedIv ivPrime ivMode * 2 ^ 64 + ctr % 2 ^ 64 := by
  have hp : 256 ^ 8 = 2 ^ 64 := by norm_num
  rw [buildIvCtr, decode_append, length_encode, decode_encode, hp, Nat.mod_mod, packedIv]

theorem pepEncrypt_eq_crypt : pepEncrypt lib key ivPrime ctr data ivMode =
    crypt (lib.aes key) (packedIv ivPrime ivMode * 2 ^ 64 + ctr % 2 ^ 64) data := by
  rw [pepEncrypt, decode_buildIvCtr_mode]
  split
  case isTrue h => simp [h]
  case isFalse  => rfl

theorem WholeBlocks.tail (h : WholeBlocks (segment :: segments)) : WholeBlocks segments := by
  cases segments with
  | nil                  => simp [WholeBlocks]
  | cons next segments => exact fun s hs => h s (List.mem_cons_of_mem _ hs)

-- What is behind a segment is enciphered where the segment stops.
theorem WholeBlocks.crypt_cons {E : Cipher} (h : WholeBlocks (segment :: segments)) :
    crypt E initial (segment :: segments).flatten =
      crypt E initial segment ++ crypt E (initial + slices segment) segments.flatten := by
  cases segments with
  | nil                  => simp
  | cons next segments => exact crypt_append (h segment (by simp))

-- The counter block of a segment is the one that a whole encryption has reached there.
theorem low_iff {offset : Nat} (h : ctr < 2 ^ 64) (iv : Nat) :
    (iv * 2 ^ 64 + (ctr + offset) % 2 ^ 64) % 2 ^ 128 = (iv * 2 ^ 64 + ctr % 2 ^ 64 + offset) % 2 ^ 128 ↔
      (ctr + offset) % 2 ^ 128 < 2 ^ 64 := by
  omega

-- Over any ciphers, a segmented encryption is a whole one exactly if no segment starts past the counter.
theorem encryptSegments_eq_crypt (hc : ctr < 2 ^ 64) (offset : Nat) (h : WholeBlocks segments) :
    (∀ lib : Primitives, encryptSegments lib key ivPrime ivMode (ctr + offset) segments =
      crypt (lib.aes key) (packedIv ivPrime ivMode * 2 ^ 64 + ctr % 2 ^ 64 + offset) segments.flatten) ↔
      StartsLow (ctr + offset) segments := by
  induction segments generalizing offset with
  | nil => simp [encryptSegments, StartsLow]
  | cons segment segments ih =>
    have hi := ih (offset + slices segment) h.tail
    rw [← Nat.add_assoc, ← Nat.add_assoc] at hi
    rw [StartsLow, ← hi, ← low_iff hc (packedIv ivPrime ivMode), ← crypt_eq_crypt]
    have hs (lib : Primitives) : (encryptSegments lib key ivPrime ivMode (ctr + offset) (segment :: segments) =
        crypt (lib.aes key) (packedIv ivPrime ivMode * 2 ^ 64 + ctr % 2 ^ 64 + offset) (segment :: segments).flatten) ↔
        crypt (lib.aes key) (packedIv ivPrime ivMode * 2 ^ 64 + (ctr + offset) % 2 ^ 64) segment =
          crypt (lib.aes key) (packedIv ivPrime ivMode * 2 ^ 64 + ctr % 2 ^ 64 + offset) segment ∧
        encryptSegments lib key ivPrime ivMode (ctr + offset + slices segment) segments =
          crypt (lib.aes key) (packedIv ivPrime ivMode * 2 ^ 64 + ctr % 2 ^ 64 + offset + slices segment)
            segments.flatten := by
      rw [h.crypt_cons, ← pepEncrypt_eq_crypt]
      refine ⟨fun he => List.append_inj he ?_, fun ⟨hl, hr⟩ => congrArg₂ (· ++ ·) hl hr⟩
      rw [pepEncrypt_eq_crypt, length_crypt, length_crypt]
    simp only [hs, forall_and]
    refine and_congr_left fun _ => ⟨fun he E => ?_, fun he lib => he (lib.aes key)⟩
    exact he ⟨fun _ => E, fun _ _ => block 0⟩

theorem encryptSegments_eq_pepEncrypt (hc : ctr < 2 ^ 64) (h : WholeBlocks segments) :
    (∀ lib, encryptSegments lib key ivPrime ivMode ctr segments =
      pepEncrypt lib key ivPrime ctr segments.flatten ivMode) ↔ StartsLow ctr segments := by
  simpa only [Nat.add_zero, pepEncrypt_eq_crypt] using encryptSegments_eq_crypt hc 0 h

-- Segments encrypted one after the other are one encryption, and are decrypted as one, exactly if no segment starts
-- past the counter.
theorem encryptSegments_exact (key : PrivacyKey) (ivPrime ctr : Nat) (ivMode : IvMode) (segments : List Bytes)
    (hc : ctr < 2 ^ 64) (h : WholeBlocks segments) :
    (∀ lib : Primitives,
      encryptSegments lib key ivPrime ivMode ctr segments = pepEncrypt lib key ivPrime ctr segments.flatten ivMode ∧
      pepDecrypt lib key ivPrime ctr (pepEncrypt lib key ivPrime ctr segments.flatten ivMode) ivMode =
        segments.flatten) ↔
      StartsLow ctr segments := by
  have hd (lib : Primitives) :
      pepDecrypt lib key ivPrime ctr (pepEncrypt lib key ivPrime ctr segments.flatten ivMode) ivMode = segments.flatten :=
    pepEncrypt_pepEncrypt
  simp only [hd, and_true]
  exact encryptSegments_eq_pepEncrypt hc h

section Wrap

theorem length_zeroKey : (List.replicate 16 0 : Bytes).length = 16 ∨ (List.replicate 16 0 : Bytes).length = 32 :=
  .inl rfl

def zeroKey : PrivacyKey where
  bytes        := .replicate 16 0
  length_bytes := length_zeroKey

-- The first segment takes the last counter there is.
def lastBlock : List Bytes :=
  [.replicate 16 0, [0]]

theorem wholeBlocks_lastBlock : WholeBlocks lastBlock := by
  simp [WholeBlocks, lastBlock]

-- The counter blocks themselves for a keystream.
def blocksOnly : Primitives where
  aes _    := id
  cmac _ _ := block 0

theorem encryptSegments_exact_zero :
    encryptSegments blocksOnly zeroKey 0 .spec 0 lastBlock = pepEncrypt blocksOnly zeroKey 0 0 lastBlock.flatten .spec ∧
    pepDecrypt blocksOnly zeroKey 0 0 (pepEncrypt blocksOnly zeroKey 0 0 lastBlock.flatten .spec) .spec =
      lastBlock.flatten :=
  (encryptSegments_exact zeroKey 0 0 .spec lastBlock (by norm_num) wholeBlocks_lastBlock).mpr
    (by simp [StartsLow, lastBlock, slices]) blocksOnly

theorem encryptSegments_lastBlock : ¬∀ lib : Primitives,
    encryptSegments lib zeroKey 0 .spec (2 ^ 64 - 1) lastBlock =
      pepEncrypt lib zeroKey 0 (2 ^ 64 - 1) lastBlock.flatten .spec := by
  rw [encryptSegments_eq_pepEncrypt (by norm_num) wholeBlocks_lastBlock]
  simp [StartsLow, lastBlock, slices]

end Wrap

end Pep
