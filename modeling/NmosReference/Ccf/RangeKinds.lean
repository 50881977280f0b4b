import NmosReference.Ccf.RangeShapes
import NmosReference.Library.Bounds
import Mathlib

-- The types of values as ordered types, but for the floating point numbers, which NaN are among.
namespace Ccf

variable {F : Type} [Interpreter F]

-- The values of a type.
structure Kind (F : Type) [Interpreter F] (α : Type) [LinearOrder α] where
  type     : RangeType
  val      : α → Val F
  -- Strings have no bounds.
  ranged   : Bool
  typed    : type ≠ .untyped
  type_val : ∀ a, (val a).type = type
  of_type  : ∀ v, v.type = type → ∃ a, v = val a
  same_iff : ∀ a b, (val a).same (val b) ↔ a = b
  lt_iff   : ∀ a b, (val a).lt (val b) ↔ a < b
  unranged : ranged = false → type = .string ∨ type = .bool

namespace Kind

def int : Kind F Int where
  type         := .int
  val          := .int
  ranged       := true
  typed        := by decide
  type_val _   := rfl
  of_type v h  := by cases v <;> simp_all [Val.type]
  same_iff a b := by simp [Val.same, Val.number]
  lt_iff a b   := by simp [Val.lt, Val.integer?]
  unranged h   := by cases h

def rational : Kind F Rat where
  type         := .rational
  val          := .rational
  ranged       := true
  typed        := by decide
  type_val _   := rfl
  of_type v h  := by cases v <;> simp_all [Val.type]
  same_iff a b := by simp [Val.same, Val.number]
  lt_iff a b   := by simp [Val.lt, Val.integer?]
  unranged h   := by cases h

def string : Kind F String where
  type         := .string
  val          := .str
  ranged       := false
  typed        := by decide
  type_val _   := rfl
  of_type v h  := by cases v <;> simp_all [Val.type]
  same_iff a b := by simp [Val.same, Val.number]
  lt_iff a b   := by simp [Val.lt, Val.integer?]
  unranged _   := .inl rfl

end Kind

namespace RangeValue

variable {α : Type} [LinearOrder α] {k : Kind F α} {r : RangeValue F} {b : Bounds α} {es : List α} {v : α}

-- A range of the type, in terms of its values.
structure Typed (k : Kind F α) (r : RangeValue F) (b : Bounds α) (es : List α) : Prop where
  shaped     : Shaped k.type r
  min        : r.min = b.lower.map k.val
  max        : r.max = b.upper.map k.val
  enumerated : r.enumerated = es.map k.val
  proper     : b.Proper
  inside     : ∀ e ∈ es, b.Mem e
  unranged   : k.ranged = false → b.lower = none ∧ b.upper = none

theorem lt_false_iff {a b : α} : (k.val a).lt (k.val b) = false ↔ b ≤ a := by
  rw [← not_lt, ← k.lt_iff, Bool.not_eq_true]

theorem exists_bound {bound : Option (Val F)} (h : ∀ m ∈ bound, m.type = k.type) :
    ∃ l : Option α, bound = l.map k.val := by
  cases bound with
  | none   => exact ⟨none, rfl⟩
  | some m =>
    obtain ⟨a, rfl⟩ := k.of_type m (h m rfl)
    exact ⟨some a, rfl⟩

theorem exists_values {vs : List (Val F)} (h : ∀ v ∈ vs, v.type = k.type) : ∃ es : List α, vs = es.map k.val := by
  induction vs with
  | nil          => exact ⟨[], rfl⟩
  | cons v vs hi =>
    obtain ⟨hv, hvs⟩ := List.forall_mem_cons.mp h
    obtain ⟨a, rfl⟩ := k.of_type v hv
    obtain ⟨es, rfl⟩ := hi hvs
    exact ⟨a :: es, rfl⟩

theorem passes_lower {l : Option α} : Passes Val.lt (l.map k.val) (k.val v) ↔ ∀ a ∈ l, a ≤ v := by
  cases l <;> simp [Passes, lt_false_iff]

theorem passes_upper {u : Option α} : Passes (fun v w => w.lt v) (u.map k.val) (k.val v) ↔ ∀ a ∈ u, v ≤ a := by
  cases u <;> simp [Passes, lt_false_iff]

theorem passes_kind : Passes Val.lt (b.lower.map k.val) (k.val v) ∧ Passes (fun v w => w.lt v) (b.upper.map k.val) (k.val v) ↔
    b.Mem v := by
  rw [passes_lower, passes_upper]
  exact ⟨fun h => ⟨h.1, h.2⟩, fun h => ⟨h.lower, h.upper⟩⟩

theorem crossed_kind : crossed (b.lower.map k.val) (b.upper.map k.val) = false ↔ b.Proper := by
  simp only [Bounds.Proper]
  cases b.lower <;> cases b.upper <;> simp [crossed, lt_false_iff]

theorem Shaped.exists_typed (h : Shaped k.type r) : ∃ b es, Typed k r b es := by
  obtain ⟨lower, hl⟩ := exists_bound h.min
  obtain ⟨upper, hu⟩ := exists_bound h.max
  obtain ⟨es, hes⟩ := exists_values h.enumerated
  refine ⟨⟨lower, upper⟩, es, h, hl, hu, hes, crossed_kind.mp (hl ▸ hu ▸ h.uncrossed), fun e he => ?_, fun hr => ?_⟩
  · have hin := (within_allows (h.unbounded (k.type_val e))).mp (h.inside _ (hes ▸ List.mem_map_of_mem he))
    have hc := Val.compares (F := F) k.typed
    refine (passes_kind (k := k)).mp ⟨fun m hm => ?_, fun m hm => ?_⟩
    · exact hc.not_lt (h.min m (hl ▸ hm)) (k.type_val e) (hin.1 m (hl ▸ hm))
    · exact hc.not_lt (k.type_val e) (h.max m (hu ▸ hm)) (hin.2 m (hu ▸ hm))
  · obtain ⟨hmin, hmax⟩ := h.unranged (k.unranged hr)
    exact ⟨by simpa [hl] using hmin, by simpa [hu] using hmax⟩

theorem Built.typed (h : Built r) (ht : r.type = k.type) :
    r = cleared true false k.type ∨ r = cleared false true k.type ∨ ∃ b es, Typed k r b es :=
  (h.shaped ht k.typed).imp_right <| .imp_right Shaped.exists_typed

section Values

variable (h : Typed k r b es)

include h

theorem Typed.enumerates : r.enumerates (k.val v) ↔ v ∈ es := by
  simp [RangeValue.enumerates, h.enumerated, k.same_iff]

theorem Typed.bounded : RangeValue.bounded r.min r.max (k.val v) ↔ b.Mem v := by
  rw [bounded_passes (h.shaped.unbounded (k.type_val v)), h.min, h.max, passes_kind]

theorem Typed.includesValue : r.includesValue (k.val v) = .ok true ↔ b.Mem v ∧ (r.values = none ∨ v ∈ es) := by
  rw [h.shaped.includesValue (k.type_val v), ← h.bounded, bounded_passes (h.shaped.unbounded (k.type_val v)), ← h.enumerates]
  exact ⟨fun h => ⟨⟨h.min, h.max⟩, h.listed⟩, fun h => ⟨h.1.1, h.1.2, h.2⟩⟩

end Values

end RangeValue

end Ccf
