import Mathlib
import NmosReference.Library.Sort

-- Majorities of a list of members.
namespace Quorum

variable {α : Type*} {members : List α} {p q : α → Bool}

-- Two sets of members that are more than all of them together have one in common.
theorem meets (h : members.length < members.countP p + members.countP q) : ∃ m ∈ members, p m = true ∧ q m = true := by
  by_contra hn
  have disjoint : ∀ m ∈ members, p m = true → ¬q m = true := fun m hm hp hq => hn ⟨m, hm, hp, hq⟩
  have hle : members.countP p ≤ members.countP (fun m => !q m) :=
    List.countP_mono_left fun m hm hp => by simpa using disjoint m hm hp
  have hsum := members.length_eq_countP_add_countP q
  simp only [Bool.not_eq_true, Bool.decide_eq_false] at hsum
  omega

def IsMajority (members : List α) (p : α → Bool) : Prop :=
  members.length / 2 + 1 ≤ members.countP p

theorem IsMajority.meets (hp : IsMajority members p) (hq : IsMajority members q) :
    ∃ m ∈ members, p m = true ∧ q m = true := by
  unfold IsMajority at hp hq
  exact Quorum.meets (by omega)

theorem IsMajority.mono (h : ∀ m ∈ members, p m = true → q m = true) (hp : IsMajority members p) :
    IsMajority members q :=
  Nat.le_trans hp <| List.countP_mono_left h

-- Enough different members make a majority.
theorem IsMajority.of_nodup [DecidableEq α] {l : List α} (hn : l.Nodup) (hl : ∀ m ∈ l, m ∈ members)
    (h : members.length / 2 + 1 ≤ l.length) : IsMajority members fun m => m ∈ l := by
  have hsub : l.Subperm (members.filter fun m => m ∈ l) :=
    List.subperm_of_subset hn fun m hm => List.mem_filter.mpr ⟨hl m hm, decide_eq_true hm⟩
  rw [IsMajority, List.countP_eq_length_filter]
  exact h.trans hsub.length_le

-- In descending order, what stands at a position is reached by everything up to it.
theorem le_countP_of_descending {κ : Type*} [LinearOrder κ] {l : List κ} {i : Nat} {c : κ}
    (h : (sortBy OrderDual.toDual l)[i]? = some c) : i + 1 ≤ l.countP (c ≤ ·) := by
  obtain ⟨hlt, hc⟩ := List.getElem?_eq_some_iff.mp h
  have reached : ∀ a ∈ (sortBy OrderDual.toDual l).take (i + 1), decide (c ≤ a) = true := by
    intro a ha
    obtain ⟨j, hj, rfl⟩ := List.mem_take_iff_getElem.mp ha
    rcases Nat.lt_or_ge j i with hji | hij
    case inl =>
      have := List.pairwise_iff_getElem.mp (SortBy.pairwise : (sortBy OrderDual.toDual l).Pairwise _) j i (by omega) hlt hji
      simpa [hc] using this
    case inr =>
      have hi : j = i := by omega
      subst hi
      simp [hc]
  calc i + 1 = ((sortBy OrderDual.toDual l).take (i + 1)).length := by rw [List.length_take]; omega
    _ = ((sortBy OrderDual.toDual l).take (i + 1)).countP (c ≤ ·) := (List.countP_eq_length.mpr reached).symm
    _ ≤ (sortBy OrderDual.toDual l).countP (c ≤ ·) := (List.take_sublist _ _).countP_le
    _ = l.countP (c ≤ ·) := SortBy.perm.countP_eq _

end Quorum
