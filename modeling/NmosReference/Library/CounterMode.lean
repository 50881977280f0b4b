import Mathlib

-- Numbers as octets, the most significant first.
namespace BigEndian

abbrev Bytes :=
  List UInt8

-- The number modulo `256 ^ width`, in `width` octets.
def encode : (width n : Nat) → Bytes
  | 0,         _ => []
  | width + 1, n => encode width (n / 256) ++ [UInt8.ofNat n]

def decode (bs : Bytes) : Nat :=
  bs.foldl (fun n b => n * 256 + b.toNat) 0

variable {width n : Nat} {bs bs' : Bytes}

@[simp]
theorem length_encode : (encode width n).length = width := by
  induction width generalizing n with
  | zero => rfl
  | succ width ih => simp [encode, ih]

theorem decode_concat {b : UInt8} : decode (bs ++ [b]) = decode bs * 256 + b.toNat := by
  simp [decode, List.foldl_append]

theorem decode_append : decode (bs ++ bs') = decode bs * 256 ^ bs'.length + decode bs' := by
  induction bs' using List.reverseRecOn with
  | nil => simp [decode]
  | append_singleton bs' b ih =>
    rw [← List.append_assoc, decode_concat, ih, decode_concat, List.length_append, List.length_singleton,
      Nat.pow_succ, Nat.add_mul, Nat.mul_assoc, Nat.add_assoc]

theorem decode_encode : decode (encode width n) = n % 256 ^ width := by
  induction width generalizing n with
  | zero => simp [encode, decode, Nat.mod_one]
  | succ width ih =>
    have hb : (UInt8.ofNat n).toNat = n % 256 := by simp
    rw [encode, decode_concat, ih, hb, Nat.pow_succ', Nat.mod_mul]
    omega

theorem encode_mod : encode width (n % 256 ^ width) = encode width n := by
  induction width generalizing n with
  | zero => rfl
  | succ width ih =>
    have hd : n % 256 ^ (width + 1) / 256 = n / 256 % 256 ^ width := by
      rw [Nat.pow_succ', Nat.mod_mul_right_div_self]
    have hb : UInt8.ofNat (n % 256 ^ (width + 1)) = UInt8.ofNat n := by
      rw [Nat.pow_succ', ← UInt8.toNat_inj]
      simp
    rw [encode, encode, hd, ih, hb]

theorem decode_encode_of_lt (h : n < 256 ^ width) : decode (encode width n) = n := by
  rw [decode_encode, Nat.mod_eq_of_lt h]

end BigEndian

-- Counter mode: the data is xored with the encipherment of consecutive counter blocks.
namespace CounterMode

open BigEndian

structure Block where
  bytes        : Bytes
  length_bytes : bytes.length = 16
deriving DecidableEq

-- A block cipher under one key.
abbrev Cipher :=
  Block → Block

-- The whole block is one counter, which wraps.
def block (counter : Nat) : Block where
  bytes        := encode 16 counter
  length_bytes := length_encode

-- How many blocks the data takes. The last one may be used in part.
def slices (data : Bytes) : Nat :=
  (data.length + 15) / 16

def blocks (initial n : Nat) : List Block :=
  (List.range n).map fun i => block (initial + i)

def keystream (E : Cipher) (initial n : Nat) : Bytes :=
  (blocks initial n).flatMap fun b => (E b).bytes

def xor : Bytes → Bytes → Bytes :=
  List.zipWith (· ^^^ ·)

def crypt (E : Cipher) (initial : Nat) (data : Bytes) : Bytes :=
  xor data (keystream E initial (slices data))

variable {E : Cipher} {initial n : Nat} {data key : Bytes}

theorem xor_xor (h : data.length ≤ key.length) : xor (xor data key) key = data := by
  induction data generalizing key with
  | nil => rfl
  | cons b data ih =>
    cases key with
    | nil => simp at h
    | cons k key =>
      have hx : b ^^^ k ^^^ k = b := by rw [UInt8.xor_assoc, UInt8.xor_self, UInt8.xor_zero]
      simpa [xor, hx] using ih (Nat.le_of_succ_le_succ h)

theorem length_xor (h : data.length ≤ key.length) : (xor data key).length = data.length := by
  rw [xor, List.length_zipWith, Nat.min_eq_left h]

theorem length_keystream : (keystream E initial n).length = 16 * n := by
  rw [keystream, List.length_flatMap, List.map_congr_left fun b _ => (E b).length_bytes]
  simp [blocks, Function.comp_def, Nat.mul_comm]

theorem length_le_keystream : data.length ≤ (keystream E initial (slices data)).length := by
  rw [length_keystream, slices]
  omega

@[simp]
theorem length_crypt : (crypt E initial data).length = data.length :=
  length_xor length_le_keystream

@[simp]
theorem crypt_nil : crypt E initial [] = [] :=
  rfl

-- What was enciphered is deciphered by the same operation.
@[simp]
theorem crypt_crypt : crypt E initial (crypt E initial data) = data := by
  have hs : slices (crypt E initial data) = slices data := by simp [slices]
  rw [crypt, hs, crypt, xor_xor length_le_keystream]

theorem decode_block {counter : Nat} : decode (block counter).bytes = counter % 2 ^ 128 :=
  decode_encode

theorem slices_eq_zero : slices data = 0 ↔ data = [] := by
  rw [slices, ← List.length_eq_zero_iff]
  omega

theorem keystream_add {m : Nat} : keystream E initial (m + n) = keystream E initial m ++ keystream E (initial + m) n := by
  simp [keystream, blocks, List.range_add, Nat.add_assoc, List.flatMap_map]

theorem slices_append {data' : Bytes} (h : 16 ∣ data.length) : slices (data ++ data') = slices data + slices data' := by
  rw [slices, slices, slices, List.length_append]
  omega

theorem xor_append {data' key' : Bytes} (h : data.length = key.length) :
    xor (data ++ data') (key ++ key') = xor data key ++ xor data' key' :=
  List.zipWith_append h

-- Whole blocks before it, what follows is enciphered where they stop.
theorem crypt_append {data' : Bytes} (h : 16 ∣ data.length) :
    crypt E initial (data ++ data') = crypt E initial data ++ crypt E (initial + slices data) data' := by
  have hl : data.length = (keystream E initial (slices data)).length := by
    rw [length_keystream, slices]
    omega
  rw [crypt, crypt, crypt, slices_append h, keystream_add, xor_append hl]

theorem block_eq_block {a b : Nat} : block a = block b ↔ a % 2 ^ 128 = b % 2 ^ 128 := by
  constructor
  case mp =>
    intro h
    rw [← decode_block, h, decode_block]
  case mpr =>
    intro h
    have he (n : Nat) : encode 16 n = encode 16 (n % 2 ^ 128) := encode_mod.symm
    rw [block, block, Block.mk.injEq, he a, he b, h]

theorem crypt_congr {a b : Nat} (h : a % 2 ^ 128 = b % 2 ^ 128) : crypt E a data = crypt E b data := by
  have hb : blocks a (slices data) = blocks b (slices data) := by
    refine List.map_congr_left fun i _ => block_eq_block.mpr ?_
    rw [Nat.add_mod, h, ← Nat.add_mod]
  rw [crypt, crypt, keystream, keystream, hb]

theorem head?_crypt {b : UInt8} : (crypt E initial (b :: data)).head? = (E (block initial)).bytes.head?.map (b ^^^ ·) := by
  have hs : slices (b :: data) = 1 + ((b :: data).length - 1) / 16 := by
    rw [slices, List.length_cons]
    omega
  have hk : keystream E initial 1 = (E (block initial)).bytes := by simp [keystream, blocks]
  rw [crypt, hs, keystream_add, hk]
  cases he : (E (block initial)).bytes with
  | nil =>
    have hl := (E (block initial)).length_bytes
    simp [he] at hl
  | cons k key => rfl

-- A cipher that tells one block from all others.
def mark (b : Block) : Cipher := fun b' =>
  if b' = b then ⟨.replicate 16 1, rfl⟩ else ⟨.replicate 16 0, rfl⟩

-- No more than the counter itself matters, and all of it does.
theorem crypt_eq_crypt {a b : Nat} : (∀ E, crypt E a data = crypt E b data) ↔ (data ≠ [] → a % 2 ^ 128 = b % 2 ^ 128) := by
  cases data with
  | nil => simp
  | cons d data =>
    refine ⟨fun h _ => ?_, fun h E => crypt_congr (h (List.cons_ne_nil _ _))⟩
    have hd := congrArg List.head? (h (mark (block a)))
    rw [head?_crypt, head?_crypt, mark, if_pos rfl] at hd
    by_cases hb : block b = block a
    case pos => exact (block_eq_block.mp hb).symm
    case neg =>
      rw [mark, if_neg hb] at hd
      have hx := Option.some.inj hd
      have hx' := (UInt8.xor_right_inj d).mp hx
      exact absurd hx' (by decide)

end CounterMode
