import Mathlib

-- Where a key belongs in a sorted list, after the elements that have it.
section

variable {α κ : Type*} [LinearOrder κ]

-- The loop of `bisect_right`, on the positions from `lo` to `hi`.
def bisectLoop (key : α → κ) (l : List α) (x : κ) : Nat → Nat → Nat → Nat
  | 0, lo, _         => lo
  | fuel + 1, lo, hi =>
    if lo < hi then
      let mid := (lo + hi) / 2
      match l[mid]? with
      | some a => if x < key a then bisectLoop key l x fuel lo mid else bisectLoop key l x fuel (mid + 1) hi
      | none   => lo
    else
      lo

def bisectRight (key : α → κ) (l : List α) (x : κ) : Nat :=
  bisectLoop key l x l.length 0 l.length

namespace Bisect

variable {key : α → κ} {l : List α} {x : κ}

-- A position that splits a list into what is at most `x` and what is above it.
structure Splits (key : α → κ) (l : List α) (x : κ) (i : Nat) : Prop where
  le    : i ≤ l.length
  below : ∀ a ∈ l.take i, key a ≤ x
  above : ∀ a ∈ l.drop i, x < key a

theorem loop_splits (hs : l.Pairwise fun a b => key a ≤ key b) (fuel lo hi : Nat) (hf : hi - lo ≤ fuel)
    (hlo : lo ≤ hi) (hhi : hi ≤ l.length) (hb : ∀ a ∈ l.take lo, key a ≤ x)
    (ha : ∀ a ∈ l.drop hi, x < key a) : Splits key l x (bisectLoop key l x fuel lo hi) := by
  induction fuel generalizing lo hi with
  | zero =>
    obtain rfl : lo = hi := by omega
    exact ⟨hhi, hb, ha⟩
  | succ fuel ih =>
    simp only [bisectLoop]
    split
    case isFalse h =>
      obtain rfl : lo = hi := by omega
      exact ⟨hhi, hb, ha⟩
    case isTrue h =>
      have hm : (lo + hi) / 2 < l.length := by omega
      rw [List.getElem?_eq_getElem hm]
      have hget := List.pairwise_iff_getElem.mp hs
      dsimp only
      split
      case isTrue hx =>
        refine ih lo _ (by omega) (by omega) (by omega) hb fun a ha' => ?_
        obtain ⟨i, hi', rfl⟩ := List.mem_iff_getElem.mp ha'
        rw [List.getElem_drop]
        rw [List.length_drop] at hi'
        cases i with
        | zero   => simpa using hx
        | succ i => exact hx.trans_le (hget _ _ hm (by omega) (by omega))
      case isFalse hx =>
        refine ih _ hi (by omega) (by omega) hhi (fun a ha' => ?_) ha
        obtain ⟨i, hi', rfl⟩ := List.mem_iff_getElem.mp ha'
        rw [List.getElem_take]
        rw [List.length_take] at hi'
        obtain e | e : i = (lo + hi) / 2 ∨ i < (lo + hi) / 2 := by omega
        · subst e
          exact not_lt.mp hx
        · exact (hget _ _ (by omega) hm e).trans (not_lt.mp hx)

theorem splits (hs : l.Pairwise fun a b => key a ≤ key b) : Splits key l x (bisectRight key l x) :=
  loop_splits hs _ _ _ (by omega) (by omega) le_rfl (by simp) (by simp)

namespace Splits

variable {i j n : Nat} {y : κ}

theorem filter_le (h : Splits key l x i) : l.filter (key · ≤ x) = l.take i := by
  conv_lhs => rw [← List.take_append_drop i l]
  rw [List.filter_append, List.filter_eq_self.mpr (by simpa using h.below),
    List.filter_eq_nil_iff.mpr (by simpa using h.above), List.append_nil]

theorem filter_gt (h : Splits key l x i) : l.filter (x < key ·) = l.drop i := by
  conv_lhs => rw [← List.take_append_drop i l]
  rw [List.filter_append, List.filter_eq_nil_iff.mpr (by simpa using h.below),
    List.filter_eq_self.mpr (by simpa using h.above), List.nil_append]

theorem eq (h₁ : Splits key l x i) (h₂ : Splits key l x j) : i = j := by
  have e := congrArg List.length (h₁.filter_le.symm.trans h₂.filter_le)
  rwa [List.length_take_of_le h₁.le, List.length_take_of_le h₂.le] at e

theorem bot (h : ∀ a ∈ l, x < key a) : Splits key l x 0 :=
  ⟨Nat.zero_le _, by simp, by simpa using h⟩

-- Between neighbours whose keys differ, the lower one splits the list.
theorem at_step (hs : l.Pairwise fun a b => key a ≤ key b) (hi : 0 < i) (hle : i ≤ l.length)
    (h : ∀ hlt : i < l.length, key l[i - 1] < key l[i]) : Splits key l (key l[i - 1]) i := by
  have hget := List.pairwise_iff_getElem.mp hs
  refine ⟨hle, fun a ha => ?_, fun b hb => ?_⟩
  · obtain ⟨k, hk, rfl⟩ := List.mem_iff_getElem.mp ha
    rw [List.length_take] at hk
    rw [List.getElem_take]
    obtain hk' | hk' : k = i - 1 ∨ k < i - 1 := by omega
    · subst hk'
      exact le_rfl
    · exact hget _ _ _ _ hk'
  · obtain ⟨k, hk, rfl⟩ := List.mem_iff_getElem.mp hb
    rw [List.length_drop] at hk
    rw [List.getElem_drop]
    obtain rfl | hk' := Nat.eq_zero_or_pos k
    · exact h (by omega)
    · exact (h (by omega)).trans_le (hget _ _ _ _ (by omega))

theorem mem_slice (hd : l.Nodup) (hj : j ≤ l.length) (hn : n < l.length) :
    l[n] ∈ (l.take j).drop i ↔ i ≤ n ∧ n < j := by
  constructor
  · intro h
    obtain ⟨m, hm, e⟩ := List.mem_iff_getElem.mp h
    rw [List.length_drop, List.length_take_of_le hj] at hm
    rw [List.getElem_drop, List.getElem_take, hd.getElem_inj_iff] at e
    omega
  · rintro ⟨hi, hj'⟩
    refine List.mem_iff_getElem.mpr ⟨n - i, by rw [List.length_drop, List.length_take_of_le hj]; omega, ?_⟩
    rw [List.getElem_drop, List.getElem_take]
    congr 1
    omega

section Whole

-- Nothing from `i` to `j` shares its key with what is outside.
variable (hs : l.Pairwise fun a b => key a ≤ key b) (hd : l.Nodup) (hj : j ≤ l.length) (hij : i < j)
  (h : ∀ a ∈ (l.take j).drop i, ∀ b ∈ l, b ∉ (l.take j).drop i → key a ≠ key b)

include hs hd hj hij h

theorem at_stop : Splits key l (key l[j - 1]) j := by
  refine at_step hs (by omega) hj fun hlt => ?_
  refine lt_of_le_of_ne (List.pairwise_iff_getElem.mp hs _ _ _ _ (by omega)) ?_
  refine h _ ((mem_slice hd hj _).mpr (by omega)) _ (by simp) fun hm => ?_
  have := (mem_slice hd hj _).mp hm
  omega

theorem at_start (hi : 0 < i) : Splits key l (key l[i - 1]) i := by
  refine at_step hs hi (by omega) fun hlt => ?_
  refine lt_of_le_of_ne (List.pairwise_iff_getElem.mp hs _ _ _ _ (by omega)) ?_
  refine (h _ ((mem_slice hd hj _).mpr (by omega)) _ (by simp) fun hm => ?_).symm
  have := (mem_slice hd hj _).mp hm
  omega

end Whole

end Splits

theorem bisectRight_eq {i : Nat} (hs : l.Pairwise fun a b => key a ≤ key b) (h : Splits key l x i) :
    bisectRight key l x = i :=
  (splits hs).eq h

end Bisect
end
