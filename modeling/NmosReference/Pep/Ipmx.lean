import NmosReference.Library.CounterMode
import Mathlib

open BigEndian CounterMode

-- The privacy encryption of media streams: the cipher, and its adaptation to RTP packets.
namespace Pep

inductive PepMode
  | aes128Ctr
  | aes256Ctr
  | aes128CtrCmac64
  | aes256CtrCmac64
  | aes128CtrCmac64Aad
  | aes256CtrCmac64Aad
  | aes128Gmac128
  | aes256Gmac128
  | ecdhAes128Ctr
  | ecdhAes256Ctr
  | ecdhAes128CtrCmac64
  | ecdhAes256CtrCmac64
  | ecdhAes128CtrCmac64Aad
  | ecdhAes256CtrCmac64Aad
  | ecdhAes128Gmac128
  | ecdhAes256Gmac128
deriving DecidableEq

def PepMode.value : PepMode → String
  | aes128Ctr              => "AES-128-CTR"
  | aes256Ctr              => "AES-256-CTR"
  | aes128CtrCmac64        => "AES-128-CTR_CMAC-64"
  | aes256CtrCmac64        => "AES-256-CTR_CMAC-64"
  | aes128CtrCmac64Aad     => "AES-128-CTR_CMAC-64-AAD"
  | aes256CtrCmac64Aad     => "AES-256-CTR_CMAC-64-AAD"
  | aes128Gmac128          => "AES-128-GMAC-128"
  | aes256Gmac128          => "AES-256-GMAC-128"
  | ecdhAes128Ctr          => "ECDH_AES-128-CTR"
  | ecdhAes256Ctr          => "ECDH_AES-256-CTR"
  | ecdhAes128CtrCmac64    => "ECDH_AES-128-CTR_CMAC-64"
  | ecdhAes256CtrCmac64    => "ECDH_AES-256-CTR_CMAC-64"
  | ecdhAes128CtrCmac64Aad => "ECDH_AES-128-CTR_CMAC-64-AAD"
  | ecdhAes256CtrCmac64Aad => "ECDH_AES-256-CTR_CMAC-64-AAD"
  | ecdhAes128Gmac128      => "ECDH_AES-128-GMAC-128"
  | ecdhAes256Gmac128      => "ECDH_AES-256-GMAC-128"

def cmacTagSize : Nat :=
  8

def modeHasCmac (mode : PepMode) : Bool :=
  mode.value.toList.tails.any ("CMAC-64".toList.isPrefixOf ·)

def modeHasAad (mode : PepMode) : Bool :=
  "-AAD".toList.isSuffixOf mode.value.toList

example : modeHasCmac .aes256CtrCmac64Aad = true ∧ modeHasCmac .ecdhAes128Gmac128 = false := by decide

inductive IvMode
  | spec
  | swap
deriving DecidableEq

-- The key sizes that are documented.
structure PrivacyKey where
  bytes        : Bytes
  length_bytes : bytes.length = 16 ∨ bytes.length = 32
deriving DecidableEq

-- What the cryptographic library provides: the block cipher and its message authentication code.
structure Primitives where
  aes  : PrivacyKey → Cipher
  cmac : PrivacyKey → Bytes → Block

-- A 32-bit field of a header. Nothing else can be packed into it.
abbrev Word :=
  BitVec 32

def packWord (w : Word) : Bytes :=
  encode 4 w.toNat

def lowWord (n : Nat) : Word :=
  .ofNat 32 n

def buildIvCtr (ivPrime ctr : Nat) (ivMode : IvMode) : Bytes :=
  let iv := encode 8 (ivPrime % 2 ^ 64)
  (if ivMode = .swap then iv.reverse else iv) ++ encode 8 (ctr % 2 ^ 64)

section Cipher

variable (lib : Primitives) (key : PrivacyKey)

def pepEncrypt (ivPrime ctr : Nat) (plaintext : Bytes) (ivMode : IvMode) : Bytes :=
  if plaintext = [] then
    []
  else
    crypt (lib.aes key) (decode <| buildIvCtr ivPrime ctr ivMode) plaintext

def pepEncryptSlices (ivPrime ctr : Nat) (plaintext : Bytes) (ivMode : IvMode) : Bytes × Nat :=
  let result := pepEncrypt lib key ivPrime ctr plaintext ivMode
  let numSlices := (plaintext.length + 16 - 1) / 16
  (result, ctr + numSlices)

def pepDecrypt (ivPrime ctr : Nat) (ciphertext : Bytes) (ivMode : IvMode) : Bytes :=
  pepEncrypt lib key ivPrime ctr ciphertext ivMode

def pepCmac64 (data aad : Bytes) : Bytes :=
  (lib.cmac key <| aad ++ data).bytes.take cmacTagSize

def pepCmac64Verify (data expectedMac aad : Bytes) : Bool :=
  pepCmac64 lib key data aad == expectedMac

def toEncrypt (payload : Bytes) (mode : PepMode) (aad : Bytes) : Bytes :=
  if modeHasCmac mode then payload ++ pepCmac64 lib key payload aad else payload

def encryptRtpPayload (payload : Bytes) (ivPrime ctr : Nat) (mode : PepMode) (aad : Bytes) : Bytes × Nat :=
  pepEncryptSlices lib key ivPrime ctr (toEncrypt lib key payload mode aad) .spec

def decryptRtpPayload (encrypted : Bytes) (ivPrime ctr : Nat) (mode : PepMode) (aad : Bytes) :
    Bytes × Bool × Nat :=
  let (decrypted, nextCtr) := pepEncryptSlices lib key ivPrime ctr encrypted .spec
  if modeHasCmac mode then
    let plainData := decrypted.take (decrypted.length - cmacTagSize)
    let recoveredMac := decrypted.drop (decrypted.length - cmacTagSize)
    (plainData, pepCmac64Verify lib key plainData recoveredMac aad, nextCtr)
  else
    (decrypted, true, nextCtr)

end Cipher

-- `0xBEDE` and the length of what follows in words, which begins every extension header.
def extensionHeader (length : Nat) : Bytes :=
  encode 2 0xbede ++ encode 2 length

-- The identifier of the element, and its length less one.
def idL (extId length : Nat) : Nat :=
  (extId &&& 0xf) <<< 4 ||| length

def buildRtpFullExtension (extId ctr : Nat) (dynamicKeyVersion : Word) : Bytes :=
  extensionHeader 4 ++ encode 1 (idL extId 14) ++ encode 1 0 ++ encode 2 0 ++ packWord dynamicKeyVersion ++
    packWord (lowWord <| ctr >>> 32) ++ packWord (lowWord ctr)

structure FullExtension where
  dynamicKeyVersion : Word
  ctrHigh           : Word
  ctrLow            : Word
deriving DecidableEq

def unpackWord (data : Bytes) (offset : Nat) : Word :=
  lowWord <| decode <| data.drop offset |>.take 4

def parseRtpFullExtension (data : Bytes) : Except String FullExtension :=
  if data.length < 20 then
    .error s!"Full RTP extension must be >= 20 bytes, got {data.length}"
  else
    .ok ⟨unpackWord data 8, unpackWord data 12, unpackWord data 16⟩

def recoverFullCtr (ctrHigh ctrLow : Word) : Nat :=
  ctrHigh.toNat <<< 32 ||| ctrLow.toNat

def buildRtpShortExtension (extId ctr : Nat) : Bytes :=
  let ctrShort := ctr % 2 ^ 24
  extensionHeader 1 ++ encode 1 (idL extId 2) ++ encode 1 (ctrShort >>> 16) ++ encode 1 (ctrShort >>> 8) ++
    encode 1 ctrShort

def recoverShortCtr (prevCtr ctrShort : Nat) : Nat :=
  let prev24 := prevCtr % 2 ^ 24
  let new24 := ctrShort % 2 ^ 24
  let upper40 := prevCtr >>> 24
  if prev24 < new24 then upper40 <<< 24 ||| new24 else (upper40 + 1) <<< 24 ||| new24

def buildRtpAadFull (dynamicKeyVersion ctrHigh ctrLow : Word) (isKv : Bool) : Bytes :=
  let dkv := if isKv then dynamicKeyVersion else 0
  packWord 0 ++ packWord dkv ++ packWord ctrHigh ++ packWord ctrLow

def buildRtpAadShort (ctrShort : Nat) : Bytes :=
  encode 8 0 ++ encode 5 0 ++ (encode 4 (ctrShort % 2 ^ 24)).tail

variable {lib : Primitives} {key : PrivacyKey} {ivPrime ctr extId : Nat} {data aad : Bytes} {mode : PepMode}

theorem decode_buildIvCtr :
    decode (buildIvCtr ivPrime ctr .spec) = ivPrime % 2 ^ 64 * 2 ^ 64 + ctr % 2 ^ 64 := by
  have h (n : Nat) : decode (encode 8 (n % 2 ^ 64)) = n % 2 ^ 64 := by
    rw [decode_encode, show 256 ^ 8 = 2 ^ 64 by norm_num, Nat.mod_mod]
  have hp : 256 ^ 8 = 2 ^ 64 := by norm_num
  simp only [buildIvCtr, reduceCtorEq, if_false, decode_append, h, length_encode, hp]

@[simp]
theorem pepEncrypt_pepEncrypt {ivMode : IvMode} :
    pepEncrypt lib key ivPrime ctr (pepEncrypt lib key ivPrime ctr data ivMode) ivMode = data := by
  have hc {initial : Nat} : crypt (lib.aes key) initial data = [] ↔ data = [] := by
    rw [← List.length_eq_zero_iff, length_crypt, List.length_eq_zero_iff]
  by_cases h : data = [] <;> simp [pepEncrypt, h, hc]

@[simp]
theorem length_pepEncrypt : (pepEncrypt lib key ivPrime ctr data .spec).length = data.length := by
  by_cases h : data = [] <;> simp [pepEncrypt, h]

theorem length_pepCmac64 : (pepCmac64 lib key data aad).length = cmacTagSize := by
  simp [pepCmac64, Block.length_bytes, cmacTagSize]

-- Decrypting with the counter of the packet gives the payload back, and its tag holds.
theorem decryptRtpPayload_encryptRtpPayload :
    decryptRtpPayload lib key (encryptRtpPayload lib key data ivPrime ctr mode aad).1 ivPrime ctr mode aad =
      (data, true, (encryptRtpPayload lib key data ivPrime ctr mode aad).2) := by
  simp only [decryptRtpPayload, encryptRtpPayload, pepEncryptSlices, pepEncrypt_pepEncrypt, length_pepEncrypt]
  cases h : modeHasCmac mode
  case false => simp [toEncrypt, h]
  case true  => simp [toEncrypt, h, length_pepCmac64, pepCmac64Verify]

theorem length_toEncrypt : (toEncrypt lib key data mode aad).length =
    data.length + if modeHasCmac mode then cmacTagSize else 0 := by
  rw [toEncrypt]
  split <;> simp [length_pepCmac64]

-- A packet takes no counter only if it is empty and carries no tag.
theorem slices_toEncrypt_pos (h : modeHasCmac mode ∨ data ≠ []) :
    0 < slices (toEncrypt lib key data mode aad) := by
  refine Nat.pos_of_ne_zero fun hs => ?_
  have hl := congrArg List.length (slices_eq_zero.mp hs)
  rw [length_toEncrypt, List.length_nil, Nat.add_eq_zero_iff, List.length_eq_zero_iff] at hl
  rcases h with h | h
  case inl => simp [h, cmacTagSize] at hl
  case inr => exact h hl.1

theorem slices_toEncrypt_le (h : data.length ≤ 65535) : slices (toEncrypt lib key data mode aad) ≤ 4097 := by
  rw [slices, length_toEncrypt, cmacTagSize]
  split <;> omega

theorem lowWord_decode_packWord {w : Word} : lowWord (decode <| packWord w) = w := by
  have hw : w.toNat < 256 ^ 4 := w.isLt
  rw [packWord, decode_encode_of_lt hw, lowWord, BitVec.ofNat_toNat, BitVec.setWidth_eq]

-- A word is unpacked from where it was packed.
theorem unpackWord_packWord {w : Word} {before after : Bytes} {offset : Nat} (h : before.length = offset) :
    unpackWord (before ++ (packWord w ++ after)) offset = w := by
  have hl : (packWord w).length = 4 := length_encode
  rw [unpackWord, ← h, List.drop_left, ← hl, List.take_left, lowWord_decode_packWord]

theorem parseRtpFullExtension_buildRtpFullExtension {dkv : Word} :
    parseRtpFullExtension (buildRtpFullExtension extId ctr dkv) = .ok ⟨dkv, lowWord (ctr >>> 32), lowWord ctr⟩ := by
  have hl : (buildRtpFullExtension extId ctr dkv).length = 20 := by
    simp [buildRtpFullExtension, extensionHeader, packWord]
  have hv : unpackWord (buildRtpFullExtension extId ctr dkv) 8 = dkv := by
    rw [buildRtpFullExtension, List.append_assoc, List.append_assoc]
    exact unpackWord_packWord (by simp [extensionHeader])
  have hh : unpackWord (buildRtpFullExtension extId ctr dkv) 12 = lowWord (ctr >>> 32) := by
    rw [buildRtpFullExtension, List.append_assoc]
    exact unpackWord_packWord (by simp [extensionHeader, packWord])
  have hw : unpackWord (buildRtpFullExtension extId ctr dkv) 16 = lowWord ctr := by
    rw [buildRtpFullExtension, ← List.append_nil (packWord (lowWord ctr))]
    exact unpackWord_packWord (by simp [extensionHeader, packWord])
  rw [parseRtpFullExtension, if_neg (by omega), hv, hh, hw]

theorem recoverFullCtr_lowWord (h : ctr < 2 ^ 64) :
    recoverFullCtr (lowWord <| ctr >>> 32) (lowWord ctr) = ctr := by
  have hl : (lowWord ctr).toNat < 2 ^ 32 := (lowWord ctr).isLt
  have hh : (lowWord (ctr >>> 32)).toNat = ctr / 2 ^ 32 := by
    rw [lowWord, Nat.shiftRight_eq_div_pow]
    exact Nat.mod_eq_of_lt (by omega)
  rw [recoverFullCtr, ← Nat.shiftLeft_add_eq_or_of_lt hl, hh, Nat.shiftLeft_eq]
  exact Nat.div_add_mod' ctr (2 ^ 32)

-- A counter is recovered if it is ahead of the previous one by less than the short counter can hold.
theorem recoverShortCtr_eq {prevCtr : Nat} (hp : prevCtr < ctr) (hc : ctr < prevCtr + 2 ^ 24) :
    recoverShortCtr prevCtr (ctr % 2 ^ 24) = ctr := by
  have hj (n : Nat) : n <<< 24 ||| ctr % 2 ^ 24 = n * 2 ^ 24 + ctr % 2 ^ 24 := by
    rw [← Nat.shiftLeft_add_eq_or_of_lt (Nat.mod_lt _ (by decide)), Nat.shiftLeft_eq]
  simp only [recoverShortCtr, Nat.mod_mod, hj, Nat.shiftRight_eq_div_pow]
  split <;> omega

-- The counter of a packet that took none is recovered as a different one.
theorem recoverShortCtr_self : recoverShortCtr ctr (ctr % 2 ^ 24) = ctr + 2 ^ 24 := by
  have hj (n : Nat) : n <<< 24 ||| ctr % 2 ^ 24 = n * 2 ^ 24 + ctr % 2 ^ 24 := by
    rw [← Nat.shiftLeft_add_eq_or_of_lt (Nat.mod_lt _ (by decide)), Nat.shiftLeft_eq]
  simp only [recoverShortCtr, Nat.mod_mod, hj, Nat.shiftRight_eq_div_pow, Nat.lt_irrefl, if_false]
  omega

end Pep
