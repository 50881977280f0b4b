import Mathlib

-- Numbers packed side by side into one number, the first in the highest bits.
namespace BitFields

-- A field: its width, and its value.
abbrev Field :=
  Nat × Nat

def join (value : Nat) (fields : List Field) : Nat :=
  fields.foldl (fun value f => value <<< f.1 ||| f.2) value

def mask (width : Nat) : Nat :=
  2 ^ width - 1

-- The fields of these widths at the bottom of a number.
def split : List Nat → Nat → List Field
  | [],              _     => []
  | width :: widths, value => (width, value >>> widths.sum &&& mask width) :: split widths value

def Fits (fields : List Field) : Prop :=
  ∀ f ∈ fields, f.2 < 2 ^ f.1

variable {value width : Nat} {fields : List Field} {widths widths' : List Nat}

theorem or_shiftLeft {f : Nat} (h : f < 2 ^ width) : value <<< width ||| f = value * 2 ^ width + f := by
  rw [← Nat.shiftLeft_add_eq_or_of_lt h, Nat.shiftLeft_eq]

theorem and_mask (value width : Nat) : value &&& mask width = value % 2 ^ width :=
  Nat.and_two_pow_sub_one_eq_mod value width

theorem and_mask_lt (value width : Nat) : value &&& mask width < 2 ^ width := by
  rw [and_mask]
  exact Nat.mod_lt _ (Nat.two_pow_pos width)

theorem split_fits : Fits (split widths value) := by
  induction widths with
  | nil => simp [split, Fits]
  | cons width widths ih =>
    rw [split, Fits, List.forall_mem_cons]
    exact ⟨and_mask_lt _ _, ih⟩

theorem map_fst_split : (split widths value).map Prod.fst = widths := by
  induction widths with
  | nil => rfl
  | cons width widths ih => simp [split, ih]

theorem split_append : split (widths ++ widths') value =
    split widths (value >>> widths'.sum) ++ split widths' value := by
  induction widths with
  | nil => rfl
  | cons width widths ih =>
    simp only [List.cons_append, split, ih, List.sum_append, Nat.add_comm widths.sum, Nat.shiftRight_add]

-- The fields do not see what is above them.
theorem split_mod (widths : List Nat) (value : Nat) : split widths (value % 2 ^ widths.sum) = split widths value := by
  induction widths generalizing value with
  | nil => rfl
  | cons width widths ih =>
    have hm : value % 2 ^ (width + widths.sum) % 2 ^ widths.sum = value % 2 ^ widths.sum :=
      Nat.mod_mod_of_dvd _ (Nat.pow_dvd_pow _ (Nat.le_add_left _ _))
    have hd : (value % 2 ^ (width + widths.sum)) >>> widths.sum &&& mask width =
        value >>> widths.sum &&& mask width := by
      rw [and_mask, and_mask, Nat.shiftRight_eq_div_pow, Nat.shiftRight_eq_div_pow, Nat.add_comm width,
        Nat.pow_add, Nat.mod_mul_right_div_self, Nat.mod_mod]
    rw [split, split, List.sum_cons, hd, ← ih value, ← ih (value % _), hm]

-- What is joined onto a number does not reach the number itself.
theorem join_eq (h : Fits fields) : ∃ r < 2 ^ (fields.map Prod.fst).sum, ∀ value,
    join value fields = value * 2 ^ (fields.map Prod.fst).sum + r := by
  induction fields with
  | nil => exact ⟨0, by simp, by simp [join]⟩
  | cons f fields ih =>
    have ⟨hf, h⟩ := List.forall_mem_cons.mp h
    obtain ⟨r, hr, e⟩ := ih h
    refine ⟨f.2 * 2 ^ (fields.map Prod.fst).sum + r, ?_, fun value => ?_⟩
    · simp only [List.map_cons, List.sum_cons, Nat.pow_add]
      calc f.2 * 2 ^ (fields.map Prod.fst).sum + r
        _ < (f.2 + 1) * 2 ^ (fields.map Prod.fst).sum := by rw [Nat.succ_mul]; omega
        _ ≤ 2 ^ f.1 * 2 ^ (fields.map Prod.fst).sum := Nat.mul_le_mul_right _ hf
    · have hj : join value (f :: fields) = join (value <<< f.1 ||| f.2) fields := rfl
      rw [hj, e, or_shiftLeft hf]
      simp only [List.map_cons, List.sum_cons, Nat.pow_add, Nat.add_mul, Nat.mul_assoc, Nat.add_assoc]

theorem join_shiftRight (h : Fits fields) : join value fields >>> (fields.map Prod.fst).sum = value := by
  obtain ⟨r, hr, e⟩ := join_eq h
  rw [e, Nat.shiftRight_eq_div_pow, Nat.mul_comm, Nat.mul_add_div (Nat.two_pow_pos _), Nat.div_eq_of_lt hr,
    Nat.add_zero]

theorem join_mod (h : Fits fields) :
    join value fields % 2 ^ (fields.map Prod.fst).sum = join 0 fields := by
  obtain ⟨r, hr, e⟩ := join_eq h
  rw [e, e, Nat.zero_mul, Nat.zero_add, Nat.mul_comm, Nat.mul_add_mod, Nat.mod_eq_of_lt hr]

-- The fields that were joined are read back.
theorem split_join (h : Fits fields) : split (fields.map Prod.fst) (join value fields) = fields := by
  induction fields generalizing value with
  | nil => rfl
  | cons f fields ih =>
    have ⟨hf, h⟩ := List.forall_mem_cons.mp h
    have hj : join value (f :: fields) = join (value <<< f.1 ||| f.2) fields := rfl
    rw [List.map_cons, split, hj, join_shiftRight h, ih h, and_mask, or_shiftLeft hf, Nat.add_comm,
      Nat.add_mul_mod_self_right, Nat.mod_eq_of_lt hf]

-- Joining the fields of a number onto what is above them gives the number.
theorem join_split (widths : List Nat) : join (value >>> widths.sum) (split widths value) = value := by
  induction widths with
  | nil => rfl
  | cons width widths ih =>
    have hj (v : Nat) : join v (split (width :: widths) value) =
        join (v <<< width ||| (value >>> widths.sum &&& mask width)) (split widths value) := rfl
    rw [hj, or_shiftLeft (and_mask_lt _ _), and_mask, List.sum_cons, Nat.add_comm width, Nat.shiftRight_add,
      Nat.shiftRight_eq_div_pow (value >>> widths.sum), Nat.mul_comm, Nat.div_add_mod]
    exact ih

end BitFields
