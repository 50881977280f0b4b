import Mathlib

-- Entries that know the one before them. Whoever writes for a term goes on from where it found its log.
namespace Ancestry

structure Position where
  index : Nat
  term  : Nat
deriving DecidableEq, Repr

def origin : Position :=
  ⟨0, 0⟩

-- The other one is at least as recent.
def Position.Behind (a b : Position) : Prop :=
  a.term < b.term ∨ a.term = b.term ∧ a.index ≤ b.index

-- For an index and a term, the term of the entry before it, and what it says.
abbrev Entries (α : Type*) :=
  Nat → Nat → Option (Nat × α)

variable {α : Type*} {entry entry' : Entries α} {a b c : Position} {k j t p : Nat} {x : α}

inductive Le (entry : Entries α) (a : Position) : Position → Prop
  | refl : Le entry a a
  | step {k t p : Nat} {x : α} (h : entry (k + 1) t = some (p, x)) (ha : Le entry a ⟨k, p⟩) : Le entry a ⟨k + 1, t⟩

namespace Le

theorem index_le (h : Le entry a b) : a.index ≤ b.index := by
  induction h with
  | refl        => exact Nat.le_refl _
  | step _ _ ih => exact Nat.le_succ_of_le ih

theorem trans (h : Le entry a b) (h' : Le entry b c) : Le entry a c := by
  induction h' with
  | refl         => exact h
  | step he _ ih => exact .step he ih

theorem mono (he : ∀ k t y, entry k t = some y → entry' k t = some y) (h : Le entry a b) : Le entry' a b := by
  induction h with
  | refl         => exact .refl
  | step hx _ ih => exact .step (he _ _ _ hx) ih

-- One thing that is behind a position is behind the other.
theorem of_le (ha : Le entry a c) (hb : Le entry b c) (hi : a.index ≤ b.index) : Le entry a b := by
  induction hb with
  | refl => exact ha
  | @step k t p x he hb ih =>
    cases ha with
    | refl         => exact absurd hi (Nat.not_le_of_lt (Nat.lt_succ_of_le hb.index_le))
    | step he' ha' =>
      cases he.symm.trans he'
      exact ih ha'

theorem eq_of_index (ha : Le entry a c) (hb : Le entry b c) (hi : a.index = b.index) : a = b := by
  cases ha.of_le hb (Nat.le_of_eq hi) with
  | refl         => rfl
  | step he hle  => exact absurd hi (Nat.ne_of_lt (Nat.lt_succ_of_le hle.index_le))

-- Nothing comes in between later.
theorem back (ho : Le entry origin b) (he : ∀ k t y, entry k t = some y → entry' k t = some y) (h : Le entry' a b) :
    Le entry a b := by
  induction h with
  | refl => exact .refl
  | @step k t p x hx _ ih =>
    cases ho with
    | step hx' ho' =>
      cases hx.symm.trans (he _ _ _ hx')
      exact .step hx' (ih ho')

-- Whatever is behind something that was written was written, or is the origin.
theorem written (ho : Le entry origin b) : b = origin ∨ ∃ x, entry b.index b.term = some x := by
  cases ho with
  | refl      => exact .inl rfl
  | step hx _ => exact .inr ⟨_, hx⟩

end Le

-- What is written for a term goes on from a position of an earlier one, and from each entry to the next.
structure Grown (entry : Entries α) (base : Nat → Position) : Prop where
  ground : ∀ k t y, entry k t = some y → Le entry origin (base t)
  older  : ∀ k t y, entry k t = some y → (base t).term < t
  above  : ∀ k t y, entry k t = some y → (base t).index < k
  next   : ∀ k t y, entry (k + 1) t = some y → k = (base t).index ∧ y.1 = (base t).term ∨ y.1 = t ∧ ∃ z, entry k t = some z

-- What the log of whoever writes for a term has.
def On (entry : Entries α) (base : Nat → Position) (t : Nat) (a : Position) : Prop :=
  Le entry a (base t) ∨ a.term = t ∧ ∃ y, entry a.index t = some y

namespace Grown

variable {base : Nat → Position} {y z : Nat × α} (hg : Grown entry base)

include hg

-- The terms do not decrease along a log.
theorem le_of_entry (h : entry (k + 1) t = some y) : y.1 ≤ t := by
  rcases hg.next _ _ _ h with ⟨_, hp⟩ | ⟨hp, _⟩
  case inl => exact hp ▸ Nat.le_of_lt (hg.older _ _ _ h)
  case inr => exact Nat.le_of_eq hp

theorem term_le (h : Le entry a b) : a.term ≤ b.term := by
  induction h with
  | refl         => exact Nat.le_refl _
  | step hx _ ih => exact Nat.le_trans ih (hg.le_of_entry hx)

theorem base_le (h : entry k t = some y) : Le entry (base t) ⟨k, t⟩ := by
  induction k generalizing y with
  | zero      => exact absurd (hg.above _ _ _ h) (Nat.not_lt_zero _)
  | succ k ih =>
    obtain ⟨p, x⟩ := y
    rcases hg.next _ _ _ h with ⟨hk, hp⟩ | ⟨hp, z, hz⟩
    case inl =>
      simp only at hp
      subst hk hp
      exact .step h .refl
    case inr =>
      simp only at hp
      subst hp
      exact .step h (ih hz)

-- The entries of one term follow each other.
theorem same_term (hj : entry j t = some z) (hk : entry k t = some y) (hjk : j ≤ k) : Le entry ⟨j, t⟩ ⟨k, t⟩ := by
  induction k generalizing y with
  | zero =>
    cases Nat.le_zero.mp hjk
    exact .refl
  | succ k ih =>
    rcases Nat.lt_or_ge k j with hlt | hle
    case inl =>
      obtain rfl : j = k + 1 := Nat.le_antisymm hjk hlt
      exact .refl
    case inr =>
      obtain ⟨p, x⟩ := y
      have := hg.above _ _ _ hj
      rcases hg.next _ _ _ hk with ⟨hk', _⟩ | ⟨hp, w, hw⟩
      case inl => omega
      case inr =>
        simp only at hp
        subst hp
        exact .step hk (ih hw hle)

theorem origin_le (h : entry k t = some y) : Le entry origin ⟨k, t⟩ :=
  (hg.ground _ _ _ h).trans (hg.base_le h)

-- What the writer of a term has is one line.
theorem On.le (ha : On entry base t a) (hb : On entry base t b) (hi : a.index ≤ b.index) : Le entry a b := by
  obtain ⟨i, s⟩ := a
  obtain ⟨j, u⟩ := b
  rcases ha with ha | ⟨rfl, y, hy⟩ <;> rcases hb with hb | ⟨rfl, z, hz⟩
  case inl.inl => exact ha.of_le hb hi
  case inl.inr => exact ha.trans (hg.base_le hz)
  case inr.inl =>
    have hbase := hg.above _ _ _ hy
    have hle := hb.index_le
    simp only at hi hbase hle
    omega
  case inr.inr => exact hg.same_term hy hz hi

theorem On.origin_le {t : Nat} (ho : Le entry origin (base t)) (ha : On entry base t a) : Le entry origin a := by
  rcases ha with ha | ⟨rfl, y, hy⟩
  case inl => exact ho.of_le ha (Nat.zero_le _)
  case inr => exact hg.origin_le hy

theorem On.term_le {t : Nat} (ho : (base t).term ≤ t) (ha : On entry base t a) : a.term ≤ t := by
  rcases ha with ha | ⟨rfl, _⟩
  case inl => exact Nat.le_trans (hg.term_le ha) ho
  case inr => exact Nat.le_refl _

theorem On.down (h : Le entry a b) (hb : On entry base t b) : On entry base t a := by
  rcases hb with hb | ⟨rfl, z, hz⟩
  case inl => exact .inl (h.trans hb)
  case inr =>
    induction h generalizing z with
    | refl => exact .inr ⟨rfl, z, hz⟩
    | @step k t p x hx ha ih =>
      rcases hg.next _ _ _ hx with ⟨hk, hp⟩ | ⟨hp, w, hw⟩
      case inl =>
        simp only at hp
        subst hk hp
        exact .inl ha
      case inr =>
        simp only at hp
        subst hp
        exact ih w hw

-- Of two positions that were written for one term, the one that is behind is an ancestor.
theorem le_of_behind (ha : Le entry origin a) (hb : Le entry origin b) (ht : a.term = b.term) (hi : a.index ≤ b.index) :
    Le entry a b := by
  obtain ⟨i, s⟩ := a
  obtain ⟨j, u⟩ := b
  cases ht
  rcases ha.written with hoa | ⟨y, hy⟩ <;> rcases hb.written with hob | ⟨z, hz⟩
  case inl.inl => exact hoa ▸ hb
  case inl.inr => exact hoa ▸ hb
  case inr.inl =>
    cases hob
    exact absurd (hg.older _ _ _ hy) (Nat.not_lt_zero _)
  case inr.inr => exact hg.same_term hy hz hi

end Grown
end Ancestry
