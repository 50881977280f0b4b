import Mathlib

-- A search that looks at the elements of a list one after the other, until it is decided or something is raised.
namespace Searches

variable {α ε : Type} {go stop : α → Prop} {p : α → Except ε Bool} {a : α} {l : List α}

-- The search comes to an element at which it stops.
def Reaches (go stop : α → Prop) (l : List α) : Prop :=
  ∃ before a after, l = before ++ a :: after ∧ (∀ b ∈ before, go b) ∧ stop a

@[simp]
theorem reaches_nil : ¬Reaches go stop [] := by
  rintro ⟨before, a, after, h, -⟩
  simp at h

theorem reaches_cons : Reaches go stop (a :: l) ↔ stop a ∨ go a ∧ Reaches go stop l := by
  constructor
  case mp =>
    rintro ⟨before, b, after, h, hgo, hstop⟩
    cases before with
    | nil           => cases h; exact .inl hstop
    | cons c before =>
      cases h
      obtain ⟨hc, hgo⟩ := List.forall_mem_cons.mp hgo
      exact .inr ⟨hc, before, b, after, rfl, hgo, hstop⟩
  case mpr =>
    rintro (h | ⟨hgo, before, b, after, rfl, hall, hstop⟩)
    · exact ⟨[], a, l, rfl, fun _ h => absurd h List.not_mem_nil, h⟩
    · exact ⟨a :: before, b, after, rfl, List.forall_mem_cons.mpr ⟨hgo, hall⟩, hstop⟩

theorem Reaches.congr {go' stop' : α → Prop} (hgo : ∀ a ∈ l, go a ↔ go' a) (hstop : ∀ a ∈ l, stop a ↔ stop' a) :
    Reaches go stop l ↔ Reaches go' stop' l := by
  induction l with
  | nil        => simp
  | cons a l hi =>
    obtain ⟨hg, hgs⟩ := List.forall_mem_cons.mp hgo
    obtain ⟨hs, hss⟩ := List.forall_mem_cons.mp hstop
    rw [reaches_cons, reaches_cons, hg, hs, hi hgs hss]

theorem Reaches.exists_mem (h : Reaches go stop l) : ∃ a ∈ l, stop a := by
  obtain ⟨before, a, after, rfl, -, hs⟩ := h
  exact ⟨a, by simp, hs⟩

-- Whether any element is what is searched for.

theorem anyM_eq_error : (∃ e, l.anyM p = .error e) ↔ Reaches (p · = .ok false) (fun a => ∃ e, p a = .error e) l := by
  induction l with
  | nil        => simp [pure, Except.pure]
  | cons a l hi =>
    rw [reaches_cons, ← hi, List.anyM_cons]
    cases h : p a with
    | error e => simp [bind, Except.bind]
    | ok b    => cases b <;> simp [bind, Except.bind, pure, Except.pure]

theorem anyM_eq_true : l.anyM p = .ok true ↔ Reaches (p · = .ok false) (p · = .ok true) l := by
  induction l with
  | nil        => simp [pure, Except.pure]
  | cons a l hi =>
    rw [reaches_cons, ← hi, List.anyM_cons]
    cases h : p a with
    | error e => simp [bind, Except.bind]
    | ok b    => cases b <;> simp [bind, Except.bind, pure, Except.pure]

-- Whether all of them are.

theorem allM_eq_error : (∃ e, l.allM p = .error e) ↔ Reaches (p · = .ok true) (fun a => ∃ e, p a = .error e) l := by
  induction l with
  | nil        => simp [pure, Except.pure]
  | cons a l hi =>
    rw [reaches_cons, ← hi, List.allM_cons]
    cases h : p a with
    | error e => simp [bind, Except.bind]
    | ok b    => cases b <;> simp [bind, Except.bind, pure, Except.pure]

theorem allM_eq_true : l.allM p = .ok true ↔ ∀ a ∈ l, p a = .ok true := by
  induction l with
  | nil        => simp [pure, Except.pure]
  | cons a l hi =>
    rw [List.forall_mem_cons, ← hi, List.allM_cons]
    cases h : p a with
    | error e => simp [bind, Except.bind]
    | ok b    => cases b <;> simp [bind, Except.bind, pure, Except.pure]

end Searches
