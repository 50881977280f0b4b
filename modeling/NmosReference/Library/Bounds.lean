import Mathlib

-- What lies between bounds, either of which may be missing.
structure Bounds (α : Type*) where
  lower : Option α
  upper : Option α

namespace Bounds

variable {α : Type*} [LinearOrder α] {b c : Bounds α} {l u v : α}

structure Mem (b : Bounds α) (v : α) : Prop where
  lower : ∀ l ∈ b.lower, l ≤ v
  upper : ∀ u ∈ b.upper, v ≤ u

-- The bounds are not crossed.
def Proper (b : Bounds α) : Prop :=
  ∀ l ∈ b.lower, ∀ u ∈ b.upper, l ≤ u

theorem Proper.mem_lower (hp : b.Proper) (hl : l ∈ b.lower) : b.Mem l where
  lower _ hl' := (Option.mem_unique hl' hl).le
  upper u hu  := hp l hl u hu

theorem Proper.mem_upper (hp : b.Proper) (hu : u ∈ b.upper) : b.Mem u where
  lower l hl  := hp l hl u hu
  upper _ hu' := (Option.mem_unique hu hu').le

-- What has no upper bound is infinite, and so is what has no lower bound.
theorem infinite_of_upper [NoMaxOrder α] [Nonempty α] (h : b.upper = none) : {v | b.Mem v}.Infinite := by
  have hsub {v : α} : b.Mem v ↔ ∀ l ∈ b.lower, l ≤ v := ⟨Mem.lower, fun hl => ⟨hl, by simp [h]⟩⟩
  simp only [hsub]
  cases b.lower with
  | none   => simpa using Set.infinite_univ
  | some l => exact (Set.Ici_infinite l).mono fun v hv => by simpa using hv

theorem infinite_of_lower [NoMinOrder α] [Nonempty α] (h : b.lower = none) : {v | b.Mem v}.Infinite := by
  have hsub {v : α} : b.Mem v ↔ ∀ u ∈ b.upper, v ≤ u := ⟨Mem.upper, fun hu => ⟨by simp [h], hu⟩⟩
  simp only [hsub]
  cases b.upper with
  | none   => simpa using Set.infinite_univ
  | some u => exact (Set.Iic_infinite u).mono fun v hv => by simpa using hv

-- The bounds of one compared with those of the other, and the values with the bounds.
def Covers (b c : Bounds α) : Prop :=
  (∀ l ∈ c.lower, ∃ l' ∈ b.lower, l ≤ l') ∧ ∀ u ∈ c.upper, ∃ u' ∈ b.upper, u' ≤ u

def Ends (b c : Bounds α) : Prop :=
  (∀ l ∈ b.lower, c.Mem l) ∧ ∀ u ∈ b.upper, c.Mem u

def Lacks (b c : Bounds α) : Prop :=
  c.lower.isSome ∧ b.lower = none ∨ c.upper.isSome ∧ b.upper = none

theorem Covers.ends (hp : b.Proper) (h : b.Covers c) : b.Ends c := by
  refine ⟨fun l hl => ⟨fun l₀ hl₀ => ?_, fun u₀ hu₀ => ?_⟩, fun u hu => ⟨fun l₀ hl₀ => ?_, fun u₀ hu₀ => ?_⟩⟩
  · obtain ⟨l', hl', hle⟩ := h.1 l₀ hl₀
    exact Option.mem_unique hl hl' ▸ hle
  · obtain ⟨u', hu', hle⟩ := h.2 u₀ hu₀
    exact (hp l hl u' hu').trans hle
  · obtain ⟨l', hl', hle⟩ := h.1 l₀ hl₀
    exact hle.trans (hp l' hl' u hu)
  · obtain ⟨u', hu', hle⟩ := h.2 u₀ hu₀
    exact Option.mem_unique hu hu' ▸ hle

theorem Ends.covers (h : b.Ends c) (hl : ¬b.Lacks c) : b.Covers c := by
  simp only [Lacks, not_or, not_and] at hl
  refine ⟨fun l₀ hl₀ => ?_, fun u₀ hu₀ => ?_⟩
  · obtain ⟨l, hb⟩ := Option.ne_none_iff_exists'.mp (hl.1 (Option.isSome_iff_exists.mpr ⟨l₀, hl₀⟩))
    exact ⟨l, hb, (h.1 l hb).lower l₀ hl₀⟩
  · obtain ⟨u, hb⟩ := Option.ne_none_iff_exists'.mp (hl.2 (Option.isSome_iff_exists.mpr ⟨u₀, hu₀⟩))
    exact ⟨u, hb, (h.2 u hb).upper u₀ hu₀⟩

theorem Covers.not_lacks (h : b.Covers c) : ¬b.Lacks c := by
  rintro (⟨hc, hb⟩ | ⟨hc, hb⟩)
  · obtain ⟨l, hl⟩ := Option.isSome_iff_exists.mp hc
    obtain ⟨l', hl', -⟩ := h.1 l hl
    rw [hb] at hl'
    cases hl'
  · obtain ⟨u, hu⟩ := Option.isSome_iff_exists.mp hc
    obtain ⟨u', hu', -⟩ := h.2 u hu
    rw [hb] at hu'
    cases hu'

-- To look at the ends alone is right unless a bound is lacking.
theorem ends_iff_covers (hp : b.Proper) : (b.Ends c ↔ b.Covers c) ↔ ¬(b.Lacks c ∧ b.Ends c) := by
  constructor
  · rintro h ⟨hl, he⟩
    exact (h.mp he).not_lacks hl
  · intro h
    exact ⟨fun he => he.covers fun hl => h ⟨hl, he⟩, Covers.ends hp⟩

section

variable [NoMinOrder α] [NoMaxOrder α]

omit [NoMinOrder α] in
theorem exists_mem [Nonempty α] (hp : b.Proper) : ∃ v, b.Mem v := by
  cases hu : b.upper with
  | none   => exact (infinite_of_upper hu).nonempty
  | some u => exact ⟨u, hp.mem_upper hu⟩

-- One is within the other if its bounds are.
theorem subset_iff (hp : b.Proper) : (∀ v, b.Mem v → c.Mem v) ↔ b.Covers c := by
  constructor
  · intro h
    constructor
    · intro l hl
      cases hb : b.lower with
      | none    =>
        -- below both the bound and the values
        obtain ⟨v, hv⟩ := exists_lt l
        cases hu : b.upper with
        | none   => exact absurd ((h v ⟨by simp [hb], by simp [hu]⟩).lower l hl) (not_le.mpr hv)
        | some u =>
          have hmem : b.Mem (min u v) := ⟨by simp [hb], fun u' hu' => by simp_all⟩
          exact absurd ((h _ hmem).lower l hl) (not_le.mpr (lt_of_le_of_lt (min_le_right u v) hv))
      | some l' => exact ⟨l', rfl, (h l' (hp.mem_lower hb)).lower l hl⟩
    · intro u hu
      cases hb : b.upper with
      | none    =>
        obtain ⟨v, hv⟩ := exists_gt u
        cases hl : b.lower with
        | none   => exact absurd ((h v ⟨by simp [hl], by simp [hb]⟩).upper u hu) (not_le.mpr hv)
        | some l =>
          have hmem : b.Mem (max l v) := ⟨fun l' hl' => by simp_all, by simp [hb]⟩
          exact absurd ((h _ hmem).upper u hu) (not_le.mpr (lt_of_lt_of_le hv (le_max_right l v)))
      | some u' => exact ⟨u', rfl, (h u' (hp.mem_upper hb)).upper u hu⟩
  · rintro ⟨hl, hu⟩ v hv
    constructor
    · intro l hc
      obtain ⟨l', hb, hle⟩ := hl l hc
      exact hle.trans (hv.lower l' hb)
    · intro u hc
      obtain ⟨u', hb, hle⟩ := hu u hc
      exact (hv.upper u' hb).trans hle

-- A bound leaves something out.
theorem exists_outside (h : b.lower.isSome ∨ b.upper.isSome) : ∃ v, ¬b.Mem v := by
  obtain h | h := h
  · obtain ⟨l, hl⟩ := Option.isSome_iff_exists.mp h
    obtain ⟨v, hv⟩ := exists_lt l
    exact ⟨v, fun hm => not_lt_of_ge (hm.lower l hl) hv⟩
  · obtain ⟨u, hu⟩ := Option.isSome_iff_exists.mp h
    obtain ⟨v, hv⟩ := exists_gt u
    exact ⟨v, fun hm => not_lt_of_ge (hm.upper u hu) hv⟩

-- A list has all of what lies between two bounds at most.
theorem bounds_of_listed [Nonempty α] {es : List α} (h : ∀ v, b.Mem v → v ∈ es) :
    ∃ l u, b.lower = some l ∧ b.upper = some u := by
  have hnone (hno : b.lower = none ∨ b.upper = none) : False := by
    have hinf : {v | b.Mem v}.Infinite := hno.elim infinite_of_lower infinite_of_upper
    obtain ⟨v, hv, hes⟩ := hinf.exists_notMem_finite es.finite_toSet
    exact hes (h v hv)
  cases hl : b.lower with
  | none   => exact (hnone (.inl hl)).elim
  | some l =>
    cases hu : b.upper with
    | none   => exact (hnone (.inr hu)).elim
    | some u => exact ⟨l, u, rfl, rfl⟩

end

-- Where values are dense, it has no more than one.
theorem eq_of_listed [DenselyOrdered α] {es : List α} (hp : b.Proper) (hl : b.lower = some l) (hu : b.upper = some u)
    (h : ∀ v, b.Mem v → v ∈ es) : l = u := by
  by_contra hne
  obtain ⟨v, hv, hes⟩ := (Set.Icc_infinite (lt_of_le_of_ne (hp l hl u hu) hne)).exists_notMem_finite es.finite_toSet
  exact hes (h v ⟨by simp [hl, hv.1], by simp [hu, hv.2]⟩)

end Bounds
