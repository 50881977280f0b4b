import Mathlib

-- Sorting a list by a key.
section

variable {α κ : Type*} [LinearOrder κ] {key : α → κ} {l l₁ l₂ : List α} {a : α}

def sortBy (key : α → κ) (l : List α) : List α :=
  l.insertionSort fun a b => key a ≤ key b

namespace SortBy

theorem perm : (sortBy key l).Perm l :=
  List.perm_insertionSort _ l

@[simp] theorem mem : a ∈ sortBy key l ↔ a ∈ l :=
  perm.mem_iff

theorem pairwise : (sortBy key l).Pairwise fun a b => key a ≤ key b :=
  have : Std.Total fun a b : α => key a ≤ key b := ⟨fun _ _ => le_total _ _⟩
  have : IsTrans α fun a b => key a ≤ key b := ⟨fun _ _ _ => le_trans⟩
  List.pairwise_insertionSort _ l

-- The result depends on the elements only, where distinct elements have distinct keys.
theorem congr (hp : l₁.Perm l₂) (hk : ∀ a ∈ l₁, ∀ b ∈ l₁, key a = key b → a = b) :
    sortBy key l₁ = sortBy key l₂ := by
  refine List.Perm.eq_of_pairwise (fun a b ha hb h₁ h₂ => ?_) pairwise pairwise
    (perm.trans <| hp.trans perm.symm)
  exact hk a (mem.mp ha) b (hp.mem_iff.mpr (mem.mp hb)) (le_antisymm h₁ h₂)

-- Sorting and then selecting is selecting and then sorting.
theorem filter {P : α → Bool} (hk : ∀ a ∈ l, ∀ b ∈ l, key a = key b → a = b) :
    (sortBy key l).filter P = sortBy key (l.filter P) := by
  refine List.Perm.eq_of_pairwise (fun a b ha hb h₁ h₂ => ?_) (pairwise.filter P) pairwise
    ((perm.filter P).trans perm.symm)
  rw [mem, List.mem_filter] at hb
  exact hk a (mem.mp (List.mem_filter.mp ha).1) b hb.1 (le_antisymm h₁ h₂)

end SortBy
end
