import Mathlib

-- A dictionary that keeps the order of first insertion: setting a present key leaves it in place,
-- and a key that was removed goes to the end when it is set again.
structure Dict (κ : Type*) (α : Type*) where
  items : List (κ × α)
  nodup : (items.map Prod.fst).Nodup

namespace Dict

variable {κ α : Type*} [DecidableEq κ] {d d₁ d₂ : Dict κ α} {k k' : κ} {v v' : α}

def empty : Dict κ α where
  items := []
  nodup := .nil

instance : EmptyCollection (Dict κ α) := ⟨empty⟩
instance : Inhabited (Dict κ α) := ⟨empty⟩

def keys (d : Dict κ α) : List κ :=
  d.items.map Prod.fst

def values (d : Dict κ α) : List α :=
  d.items.map Prod.snd

def get? (d : Dict κ α) (k : κ) : Option α :=
  (d.items.find? (·.1 = k)).map Prod.snd

def contains (d : Dict κ α) (k : κ) : Bool :=
  (d.get? k).isSome

def set (d : Dict κ α) (k : κ) (v : α) : Dict κ α :=
  if h : k ∈ d.keys then
    { items := d.items.map fun p => if p.1 = k then (k, v) else p
      nodup := by
        have e : d.items.map (Prod.fst ∘ fun p => if p.1 = k then (k, v) else p) =
            d.items.map Prod.fst :=
          List.map_congr_left fun p _ => by simp only [Function.comp]; split <;> simp_all
        rw [List.map_map, e]
        exact d.nodup }
  else
    { items := d.items ++ [(k, v)]
      nodup := by
        rw [List.map_append, List.nodup_append]
        exact ⟨d.nodup, by simp, by rintro _ h₁ _ h₂ rfl; simp_all [keys]⟩ }

def erase (d : Dict κ α) (k : κ) : Dict κ α where
  items := d.items.filter (·.1 ≠ k)
  nodup := d.nodup.sublist (List.filter_sublist.map _)

def filter (p : κ → Bool) (d : Dict κ α) : Dict κ α where
  items := d.items.filter fun e => p e.1
  nodup := d.nodup.sublist (List.filter_sublist.map _)

def map {β : Type*} (f : κ → α → β) (d : Dict κ α) : Dict κ β where
  items := d.items.map fun p => (p.1, f p.1 p.2)
  nodup := by
    rw [List.map_map]
    exact d.nodup

theorem get?_eq_some : d.get? k = some v ↔ (k, v) ∈ d.items := by
  simp only [get?, Option.map_eq_some_iff]
  constructor
  · rintro ⟨⟨k', v'⟩, h, rfl⟩
    have hk : k' = k := by simpa using List.find?_some h
    exact hk ▸ List.mem_of_find?_eq_some h
  · intro h
    obtain ⟨p, hp⟩ : ∃ p, d.items.find? (·.1 = k) = some p :=
      Option.isSome_iff_exists.mp <| List.find?_isSome.mpr ⟨(k, v), h, by simp⟩
    have hk : p.1 = k := by simpa using List.find?_some hp
    have e := List.inj_on_of_nodup_map d.nodup (List.mem_of_find?_eq_some hp) h hk
    exact ⟨p, hp, by simp [e]⟩

theorem get?_map {β : Type*} {f : κ → α → β} : (d.map f).get? k = (d.get? k).map (f k) := by
  refine Option.ext fun b => ?_
  simp only [get?_eq_some, Option.map_eq_some_iff, map, List.mem_map, Prod.exists, Prod.mk.injEq]
  constructor
  · rintro ⟨k', a, h, rfl, rfl⟩
    exact ⟨a, h, rfl⟩
  · rintro ⟨a, h, rfl⟩
    exact ⟨k, a, h, rfl, rfl⟩

omit [DecidableEq κ] in
theorem ext_items (h : d₁.items = d₂.items) : d₁ = d₂ := by
  cases d₁
  cases d₂
  cases h
  rfl

theorem set_items : (d.set k v).items =
    if k ∈ d.keys then d.items.map fun p => if p.1 = k then (k, v) else p else d.items ++ [(k, v)] := by
  unfold set
  split <;> rfl

theorem map_set {β : Type*} {f : κ → α → β} : (d.set k v).map f = (d.map f).set k (f k v) := by
  have hkeys : (d.map f).keys = d.keys := by simp [keys, map]
  refine ext_items ?_
  change (d.set k v).items.map _ = _
  rw [set_items, set_items, hkeys]
  split
  case isTrue =>
    simp only [map, List.map_map]
    refine List.map_congr_left fun p _ => ?_
    simp only [Function.comp]
    split <;> rfl
  case isFalse => simp [map]

theorem mem_keys : k ∈ d.keys ↔ ∃ v, d.get? k = some v := by
  simp [keys, get?_eq_some]

theorem mem_values : v ∈ d.values ↔ ∃ k, d.get? k = some v := by
  simp [values, get?_eq_some]

@[simp] theorem get?_empty : (∅ : Dict κ α).get? k = none := rfl

omit [DecidableEq κ] in
@[simp] theorem keys_empty : (∅ : Dict κ α).keys = [] := rfl

theorem mem_set_items : (k', v') ∈ (d.set k v).items ↔
    (k' = k ∧ v' = v) ∨ (k' ≠ k ∧ (k', v') ∈ d.items) := by
  simp only [set]
  split
  case isTrue h =>
    simp only [List.mem_map, Prod.exists]
    constructor
    · rintro ⟨a, b, hm, e⟩
      split at e <;> simp_all
    · rintro (⟨rfl, rfl⟩ | ⟨hk, hm⟩)
      · have ⟨v, hv⟩ := mem_keys.mp h
        exact ⟨k', v, get?_eq_some.mp hv, by simp⟩
      · exact ⟨k', v', hm, by simp [hk]⟩
  case isFalse h =>
    simp only [List.mem_append, List.mem_singleton, Prod.mk.injEq]
    constructor
    · rintro (hm | ⟨rfl, rfl⟩)
      · exact .inr ⟨fun e => h <| e ▸ mem_keys.mpr ⟨v', get?_eq_some.mpr hm⟩, hm⟩
      · exact .inl ⟨rfl, rfl⟩
    · rintro (⟨rfl, rfl⟩ | ⟨_, hm⟩)
      · exact .inr ⟨rfl, rfl⟩
      · exact .inl hm

theorem mem_values_set {w : α} (h : w ∈ (d.set k v).values) : w = v ∨ w ∈ d.values := by
  obtain ⟨⟨k', w⟩, hm, rfl⟩ := List.mem_map.mp h
  obtain ⟨-, rfl⟩ | ⟨-, hm⟩ := mem_set_items.mp hm
  · exact .inl rfl
  · exact .inr <| List.mem_map_of_mem hm

theorem map_eq_self {f : κ → α → α} : d.map f = d ↔ ∀ k, ∀ v ∈ d.get? k, f k v = v := by
  constructor
  case mp =>
    intro h k v hv
    have hm := congrArg (·.get? k) h
    simp only [get?_map, show d.get? k = some v from hv, Option.map_some, Option.some.injEq] at hm
    exact hm
  case mpr =>
    intro h
    refine ext_items ((List.map_congr_left fun e he => ?_).trans d.items.map_id)
    have hv := h e.1 e.2 (get?_eq_some.mpr he)
    exact congrArg (Prod.mk e.1) hv

theorem get?_set : (d.set k v).get? k' = if k' = k then some v else d.get? k' := by
  refine Option.ext fun v' => ?_
  rw [get?_eq_some, mem_set_items]
  split <;> simp_all [get?_eq_some, eq_comm]

@[simp] theorem get?_set_self : (d.set k v).get? k = some v := by
  simp [get?_set]

theorem get?_set_of_ne (h : k' ≠ k) : (d.set k v).get? k' = d.get? k' := by
  simp [get?_set, h]

theorem get?_erase : (d.erase k).get? k' = if k' = k then none else d.get? k' := by
  refine Option.ext fun v' => ?_
  rw [get?_eq_some]
  simp only [erase, List.mem_filter, ne_eq, decide_eq_true_eq]
  split <;> simp_all [get?_eq_some]

@[simp] theorem get?_erase_self : (d.erase k).get? k = none := by
  simp [get?_erase]

theorem contains_iff : d.contains k ↔ ∃ v, d.get? k = some v :=
  Option.isSome_iff_exists

theorem keys_erase : (d.erase k).keys = d.keys.filter (· ≠ k) := by
  simp only [keys, erase, List.filter_map]
  rfl

theorem keys_set_of_not_mem (h : k ∉ d.keys) : (d.set k v).keys = d.keys ++ [k] := by
  rw [set, dif_neg h]
  simp [keys]

theorem keys_foldl_set {l : List κ} (h : (d.keys ++ l).Nodup) :
    (l.foldl (fun d k => d.set k v) d).keys = d.keys ++ l := by
  induction l generalizing d with
  | nil => simp
  | cons k l hi =>
    have hk : k ∉ d.keys := fun hm => (List.nodup_append.mp h).2.2 k hm k (by simp) rfl
    have e := keys_set_of_not_mem (v := v) hk
    rw [List.foldl_cons, hi (by simpa [e] using h), e]
    simp

end Dict
