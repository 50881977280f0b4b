import Mathlib

-- Numbers in little-endian order.
namespace LittleEndian

def decode : List UInt8 → Nat
  | []        => 0
  | b :: data => b.toNat + 256 * decode data

def encode : (size value : Nat) → List UInt8
  | 0,        _     => []
  | size + 1, value => .ofNat value :: encode size (value / 256)

variable {size value : Nat} {data data' : List UInt8}

@[simp]
theorem length_encode : (encode size value).length = size := by
  induction size generalizing value with
  | zero         => rfl
  | succ size hi => simp [encode, hi]

theorem decode_lt : decode data < 2 ^ (8 * data.length) := by
  induction data with
  | nil           => simp [decode]
  | cons b data h =>
    have hb := b.toNat_lt
    rw [decode, List.length_cons, Nat.mul_add, Nat.pow_add]
    omega

theorem decode_encode (h : value < 2 ^ (8 * size)) : decode (encode size value) = value := by
  induction size generalizing value with
  | zero         => simp_all [encode, decode]
  | succ size hi =>
    have hs : value / 256 < 2 ^ (8 * size) := by
      rw [Nat.mul_add, Nat.pow_add] at h
      omega
    rw [encode, decode, hi hs, UInt8.toNat_ofNat']
    omega

theorem encode_decode : encode data.length (decode data) = data := by
  induction data with
  | nil           => rfl
  | cons b data h =>
    have hb := b.toNat_lt
    have hlow : UInt8.ofNat (b.toNat + 256 * decode data) = b := by
      rw [← UInt8.toNat_inj, UInt8.toNat_ofNat']
      omega
    rw [List.length_cons, encode, decode, hlow, show (b.toNat + 256 * decode data) / 256 = decode data by omega, h]

theorem decode_inj (hl : data.length = data'.length) (h : decode data = decode data') : data = data' := by
  calc data
    _ = encode data.length (decode data)   := encode_decode.symm
    _ = encode data'.length (decode data') := by rw [hl, h]
    _ = data'                              := encode_decode

end LittleEndian

-- Cyclic redundancy checks whose register takes in the lowest bit of each byte first.
namespace Crc

open LittleEndian

variable {w : Nat} (g : BitVec w)

-- The register moves down by one bit, and the polynomial is added if a one fell out.
def shift (c : BitVec w) : BitVec w :=
  if c.getLsbD 0 then c >>> 1 ^^^ g else c >>> 1

def shifts : Nat → BitVec w → BitVec w
  | 0,     c => c
  | n + 1, c => shifts n (shift g c)

def feed (c : BitVec w) (b : UInt8) : BitVec w :=
  shifts g 8 (c ^^^ .ofNat w b.toNat)

def register (c : BitVec w) (data : List UInt8) : BitVec w :=
  data.foldl (feed g) c

variable {g} {c d : BitVec w} {n m v : Nat} {data data' before after : List UInt8}

theorem shift_xor : shift g (c ^^^ d) = shift g c ^^^ shift g d := by
  simp only [shift, BitVec.getLsbD_xor, BitVec.ushiftRight_xor_distrib]
  cases c.getLsbD 0 <;> cases d.getLsbD 0 <;> simp
  · ac_rfl
  · ac_rfl
  · rw [show c >>> 1 ^^^ g ^^^ (d >>> 1 ^^^ g) = c >>> 1 ^^^ d >>> 1 ^^^ (g ^^^ g) by ac_rfl]
    simp

theorem shifts_xor : shifts g n (c ^^^ d) = shifts g n c ^^^ shifts g n d := by
  induction n generalizing c d with
  | zero      => rfl
  | succ n hi => rw [shifts, shift_xor, hi, shifts, shifts]

theorem shifts_add : shifts g (n + m) c = shifts g m (shifts g n c) := by
  induction n generalizing c with
  | zero      => rw [Nat.zero_add]; rfl
  | succ n hi => rw [Nat.add_right_comm, shifts, hi, shifts]

-- Zeros fall out.
theorem shift_double (h : 2 * v < 2 ^ w) : shift g (.ofNat w (2 * v)) = .ofNat w v := by
  have hl : (BitVec.ofNat w (2 * v)).getLsbD 0 = false := by
    simp [BitVec.getLsbD_ofNat, Nat.testBit_zero]
  rw [shift, hl]
  apply BitVec.eq_of_toNat_eq
  simp only [Bool.false_eq_true, if_false, BitVec.toNat_ushiftRight, BitVec.toNat_ofNat, Nat.shiftRight_eq_div_pow]
  rw [Nat.mod_eq_of_lt h, Nat.mod_eq_of_lt (by omega)]
  omega

theorem shifts_scaled (h : v * 2 ^ n < 2 ^ w) : shifts g n (.ofNat w (v * 2 ^ n)) = .ofNat w v := by
  induction n generalizing v with
  | zero      => simp [shifts]
  | succ n hi =>
    have he : v * 2 ^ (n + 1) = 2 * (v * 2 ^ n) := by rw [Nat.pow_succ]; ring
    rw [he] at h ⊢
    rw [shifts, shift_double h, hi (by omega)]

-- The polynomial leaves its mark at the top, so the register can be moved back.
theorem shift_injective (hg : g.msb = true) (h : shift g c = shift g d) : c = d := by
  suffices hz : ∀ {e : BitVec w}, shift g e = 0 → e = 0 by
    have := hz (e := c ^^^ d) (by rw [shift_xor, h, BitVec.xor_self]; rfl)
    exact BitVec.xor_eq_zero_iff.mp this
  intro e he
  have hw : 0 < w := by
    by_contra hw
    obtain rfl : w = 0 := by omega
    simp [BitVec.msb, BitVec.getMsbD] at hg
  have htop : (e >>> 1).msb = false := by
    simp [BitVec.msb_ushiftRight]
  cases hl : e.getLsbD 0 with
  | true  =>
    rw [shift, hl, if_pos rfl] at he
    have := congrArg BitVec.msb he
    rw [BitVec.msb_xor, htop, hg] at this
    simp at this
  | false =>
    rw [shift, hl] at he
    simp only [Bool.false_eq_true, if_false] at he
    apply BitVec.eq_of_getLsbD_eq
    intro i hi
    cases i with
    | zero   => simpa using hl
    | succ i =>
      have := congrArg (BitVec.getLsbD · i) he
      simpa [BitVec.getLsbD_ushiftRight, Nat.add_comm] using this

theorem shifts_injective (hg : g.msb = true) (h : shifts g n c = shifts g n d) : c = d := by
  induction n generalizing c d with
  | zero      => exact h
  | succ n hi => exact shift_injective hg (hi h)

theorem ofNat_add_scaled {b : UInt8} (hv : b.toNat + 256 * v < 2 ^ w) :
    BitVec.ofNat w b.toNat ^^^ .ofNat w (v * 2 ^ 8) = .ofNat w (b.toNat + 256 * v) := by
  have hb : b.toNat < 2 ^ 8 := b.toNat_lt
  apply BitVec.eq_of_toNat_eq
  rw [BitVec.toNat_xor, BitVec.toNat_ofNat, BitVec.toNat_ofNat, BitVec.toNat_ofNat, Nat.mod_eq_of_lt (by omega),
    Nat.mod_eq_of_lt (by omega), Nat.mod_eq_of_lt hv]
  apply Nat.eq_of_testBit_eq
  intro i
  rw [Nat.testBit_xor, show b.toNat + 256 * v = 2 ^ 8 * v + b.toNat by ring, Nat.mul_comm v,
    Nat.testBit_two_pow_mul_add v hb, Nat.testBit_two_pow_mul]
  by_cases hi : i < 8
  · simp [hi, show ¬8 ≤ i by omega]
  · have hf : b.toNat.testBit i = false := Nat.testBit_lt_two_pow (hb.trans_le (Nat.pow_le_pow_right (by omega) (by omega)))
    simp [hi, hf, show 8 ≤ i by omega]

-- No more bytes than the register holds are taken in all at once.
theorem register_eq (h : 8 * data.length ≤ w) :
    register g c data = shifts g (8 * data.length) (c ^^^ .ofNat w (decode data)) := by
  induction data generalizing c with
  | nil           => simp [register, shifts, decode]
  | cons b data hi =>
    have hd : decode data < 2 ^ (8 * data.length) := decode_lt
    have hb := b.toNat_lt
    have hlt : b.toNat + 256 * decode data < 2 ^ w := by
      have hl : decode (b :: data) < 2 ^ (8 * (b :: data).length) := decode_lt
      exact hl.trans_le (Nat.pow_le_pow_right (by omega) h)
    have hs : shifts g 8 (.ofNat w (decode data * 2 ^ 8)) = .ofNat w (decode data) := shifts_scaled (by omega)
    rw [List.length_cons] at h ⊢
    rw [decode, ← ofNat_add_scaled hlt, Nat.mul_succ, Nat.add_comm, shifts_add, ← BitVec.xor_assoc, shifts_xor, hs]
    exact hi (by omega)

theorem register_append : register g c (data ++ data') = register g (register g c data) data' :=
  List.foldl_append ..

theorem register_injective (hg : g.msb = true) (h : register g c data = register g d data) : c = d := by
  induction data generalizing c d with
  | nil            => exact h
  | cons b data hi => exact (BitVec.xor_left_inj _).mp (shifts_injective hg (hi h))

-- A burst that is no longer than the register is always noticed.
theorem register_burst (hg : g.msb = true) (hl : data.length = data'.length) (hw : 8 * data.length ≤ w)
    (h : register g c (before ++ data ++ after) = register g c (before ++ data' ++ after)) : data = data' := by
  simp only [register_append] at h
  have h := register_injective hg h
  generalize register g c before = c at h
  have hw' : 8 * data'.length ≤ w := by omega
  rw [register_eq hw, register_eq hw', ← hl] at h
  have h := (BitVec.xor_right_inj _).mp (shifts_injective hg h)
  refine decode_inj hl ?_
  have hlt (d : List UInt8) (hd : 8 * d.length ≤ w) : (BitVec.ofNat w (decode d)).toNat = decode d := by
    rw [BitVec.toNat_ofNat]
    exact Nat.mod_eq_of_lt (decode_lt.trans_le (Nat.pow_le_pow_right (by omega) hd))
  rw [← hlt data hw, ← hlt data' hw', h]

end Crc
