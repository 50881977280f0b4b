import Mathlib

-- Binary floating point numbers in double precision: what a number is rounded to.
namespace Rounding

-- The nearest integer, and the even one if there are two.
def nearest (q : Rat) : Int :=
  if Int.fract q < 1 / 2 then ⌊q⌋
  else if 1 / 2 < Int.fract q then ⌊q⌋ + 1
  else if ⌊q⌋ % 2 = 0 then ⌊q⌋
  else ⌊q⌋ + 1

section Nearest

variable {p q : Rat}

theorem floor_le_nearest (q : Rat) : ⌊q⌋ ≤ nearest q := by
  unfold nearest
  split_ifs <;> omega

theorem nearest_le_floor (q : Rat) : nearest q ≤ ⌊q⌋ + 1 := by
  unfold nearest
  split_ifs <;> omega

@[simp] theorem nearest_intCast (n : Int) : nearest n = n := by
  simp [nearest]

theorem nearest_mono (h : p ≤ q) : nearest p ≤ nearest q := by
  have hfloor : ⌊p⌋ ≤ ⌊q⌋ := Int.floor_mono h
  obtain heq | hlt := hfloor.eq_or_lt
  case inl =>
    have hfract : Int.fract p ≤ Int.fract q := by
      simp only [Int.fract, heq]
      exact sub_le_sub_right h _
    unfold nearest
    rw [heq]
    split_ifs <;> first | omega | linarith
  case inr =>
    have := nearest_le_floor p
    have := floor_le_nearest q
    omega

theorem abs_nearest_sub_le (q : Rat) : |(nearest q : Rat) - q| ≤ 1 / 2 := by
  have hq : (⌊q⌋ : Rat) = q - Int.fract q := (Int.self_sub_fract q).symm
  have hpos := Int.fract_nonneg q
  have hlt := Int.fract_lt_one q
  unfold nearest
  rw [abs_le]
  split_ifs <;> push_cast <;> rw [hq] <;> constructor <;> linarith

theorem nearest_le_of_le {n : Int} (h : q ≤ n) : nearest q ≤ n := by
  simpa using nearest_mono h

theorem le_nearest_of_le {n : Int} (h : (n : Rat) ≤ q) : n ≤ nearest q := by
  simpa using nearest_mono h

end Nearest

-- The exponent of the last place: there are 53 places, and none beyond `2 ^ (-1074)`.
def exponent (q : Rat) : Int :=
  max (Int.log 2 q - 52) (-1074)

-- Of numbers that are not negative.
def roundAbs (q : Rat) : Rat :=
  nearest (q / 2 ^ exponent q) * 2 ^ exponent q

-- The number that is nearest, or that of the two with an even last place. There are also numbers that are too large
-- to be stored.
def round (q : Rat) : Rat :=
  if q < 0 then -roundAbs (-q) else roundAbs q

-- Addition of numbers that are already rounded.
def add (a b : Rat) : Rat :=
  round (a + b)

section Round

variable {p q : Rat}

theorem unit_pos (e : Int) : (0 : Rat) < 2 ^ e := by
  positivity

theorem pow_log_le (hq : 0 < q) : (2 : Rat) ^ Int.log 2 q ≤ q := by
  exact_mod_cast Int.zpow_log_le_self (b := 2) (by decide) hq

theorem lt_pow_log (q : Rat) : q < (2 : Rat) ^ (Int.log 2 q + 1) := by
  exact_mod_cast Int.lt_zpow_succ_log_self (b := 2) (by decide) q

theorem exponent_mono (hp : 0 < p) (h : p ≤ q) : exponent p ≤ exponent q :=
  max_le_max (sub_le_sub_right (Int.log_mono_right hp h) 52) le_rfl

theorem roundAbs_nonneg (hq : 0 ≤ q) : 0 ≤ roundAbs q := by
  have hnearest : (0 : Int) ≤ nearest (q / 2 ^ exponent q) := le_nearest_of_le <| by
    rw [Int.cast_zero]
    exact div_nonneg hq (unit_pos _).le
  exact mul_nonneg (by exact_mod_cast hnearest) (unit_pos _).le

@[simp] theorem roundAbs_zero : roundAbs 0 = 0 := by
  have : nearest 0 = 0 := by simpa using nearest_intCast 0
  simp [roundAbs, this]

-- A power of two above a number is above what it is rounded to, if it has that many places.
theorem roundAbs_le_pow {n : Int} (hn : exponent q ≤ n) (h : q ≤ 2 ^ n) : roundAbs q ≤ 2 ^ n := by
  obtain ⟨k, hk⟩ := Int.eq_ofNat_of_zero_le (sub_nonneg.mpr hn)
  have hn : n = k + exponent q := by omega
  have hpow : (2 : Rat) ^ n = ((2 ^ k : Int) : Rat) * 2 ^ exponent q := by
    rw [hn, zpow_add₀ two_ne_zero]
    simp
  rw [hpow] at h ⊢
  refine mul_le_mul_of_nonneg_right ?_ (unit_pos _).le
  exact_mod_cast nearest_le_of_le ((div_le_iff₀ (unit_pos _)).mpr h)

theorem pow_le_roundAbs {n : Int} (hn : exponent q ≤ n) (h : 2 ^ n ≤ q) : 2 ^ n ≤ roundAbs q := by
  obtain ⟨k, hk⟩ := Int.eq_ofNat_of_zero_le (sub_nonneg.mpr hn)
  have hn : n = k + exponent q := by omega
  have hpow : (2 : Rat) ^ n = ((2 ^ k : Int) : Rat) * 2 ^ exponent q := by
    rw [hn, zpow_add₀ two_ne_zero]
    simp
  rw [hpow] at h ⊢
  refine mul_le_mul_of_nonneg_right ?_ (unit_pos _).le
  exact_mod_cast le_nearest_of_le ((le_div_iff₀ (unit_pos _)).mpr h)

theorem roundAbs_mono (hp : 0 ≤ p) (h : p ≤ q) : roundAbs p ≤ roundAbs q := by
  obtain rfl | hp := hp.eq_or_lt
  case inl =>
    rw [roundAbs_zero]
    exact roundAbs_nonneg h
  have hq : 0 < q := hp.trans_le h
  obtain heq | hlt := (exponent_mono hp h).eq_or_lt
  case inl =>
    unfold roundAbs
    rw [heq]
    refine mul_le_mul_of_nonneg_right ?_ (unit_pos _).le
    exact_mod_cast nearest_mono (div_le_div_of_nonneg_right h (unit_pos _).le)
  case inr =>
    -- There is a power of two in between.
    have hexp : exponent q = Int.log 2 q - 52 := by
      have : -1074 ≤ exponent p := le_max_right _ _
      unfold exponent at hlt this ⊢
      omega
    have hlog : Int.log 2 p + 1 ≤ Int.log 2 q := by
      have : Int.log 2 p - 52 ≤ exponent p := le_max_left _ _
      omega
    have hbelow : p ≤ 2 ^ Int.log 2 q :=
      (lt_pow_log p).le.trans (zpow_le_zpow_right₀ one_le_two hlog)
    calc roundAbs p
      _ ≤ 2 ^ Int.log 2 q := roundAbs_le_pow (by omega) hbelow
      _ ≤ roundAbs q      := pow_le_roundAbs (by omega) (pow_log_le hq)

theorem round_mono (h : p ≤ q) : round p ≤ round q := by
  unfold round
  split_ifs with hp hq
  case pos => exact neg_le_neg (roundAbs_mono (by linarith) (neg_le_neg h))
  case neg => exact (neg_nonpos.mpr (roundAbs_nonneg (by linarith))).trans (roundAbs_nonneg (not_lt.mp hq))
  case pos => linarith
  case neg => exact roundAbs_mono (not_lt.mp hp) h

theorem add_mono_left {a b : Rat} (h : a ≤ b) (c : Rat) : add a c ≤ add b c :=
  round_mono (add_le_add_left h c)

-- Half a unit in the last place is the most that rounding makes of a difference.
theorem abs_roundAbs_sub_le (hq : 0 < q) : |roundAbs q - q| ≤ max (q / 2 ^ 53) (2 ^ (-1075 : Int)) := by
  have hunit := unit_pos (exponent q)
  have herror : |roundAbs q - q| ≤ 1 / 2 * 2 ^ exponent q := by
    have hsub : roundAbs q - q = (nearest (q / 2 ^ exponent q) - q / 2 ^ exponent q) * 2 ^ exponent q := by
      unfold roundAbs
      field_simp
    rw [hsub, abs_mul, abs_of_pos hunit]
    exact mul_le_mul_of_nonneg_right (abs_nearest_sub_le _) hunit.le
  refine herror.trans ?_
  unfold exponent
  obtain hmax | hmax := max_choice (Int.log 2 q - 52) (-1074)
  case inl =>
    refine le_max_of_le_left ?_
    rw [hmax, zpow_sub₀ two_ne_zero]
    have := pow_log_le hq
    norm_num at this ⊢
    linarith
  case inr =>
    refine le_max_of_le_right (le_of_eq ?_)
    rw [hmax, show (-1075 : Int) = -1074 - 1 from rfl, zpow_sub₀ two_ne_zero, zpow_one]
    ring

theorem abs_round_sub_le (q : Rat) : |round q - q| ≤ max (|q| / 2 ^ 53) (2 ^ (-1075 : Int)) := by
  unfold round
  split_ifs with h
  case pos =>
    have hneg : |-roundAbs (-q) - q| = |roundAbs (-q) - -q| := by
      rw [← abs_neg]
      congr 1
      ring
    rw [hneg, abs_of_neg h]
    exact abs_roundAbs_sub_le (neg_pos.mpr h)
  case neg =>
    obtain rfl | hq := (not_lt.mp h).eq_or_lt
    · simp
    · rw [abs_of_pos hq]
      exact abs_roundAbs_sub_le hq

end Round

end Rounding
