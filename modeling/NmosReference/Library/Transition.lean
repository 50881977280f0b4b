import Mathlib

-- A transition system whose nondeterminism (schedule, clock, faults) is all in the actions, so that
-- a step is a partial function and a run can be evaluated.
structure TransitionSystem (σ : Type*) (α : Type*) where
  init : σ
  step : σ → α → Option σ

namespace TransitionSystem

variable {σ α : Type*} {T : TransitionSystem σ α} {ok ok' : σ → α → Prop}

-- Runs all of whose steps meet the condition `ok` (on the state before the step and the action).
inductive Run (T : TransitionSystem σ α) (ok : σ → α → Prop) (s : σ) : σ → Prop
  | refl : Run T ok s s
  | tail {s₁ s₂ : σ} {a : α} : Run T ok s s₁ → ok s₁ a → T.step s₁ a = some s₂ → Run T ok s s₂

def Reaches (T : TransitionSystem σ α) (ok : σ → α → Prop) (s : σ) : Prop :=
  T.Run ok T.init s

abbrev Reachable (T : TransitionSystem σ α) (s : σ) : Prop :=
  T.Reaches (fun _ _ => True) s

-- Evaluates a list of actions; `none` if one of them is not enabled.
def run (T : TransitionSystem σ α) : σ → List α → Option σ
  | s, []      => some s
  | s, a :: as => (T.step s a).bind (T.run · as)

-- Every step taken while the actions are evaluated meets `P`.
def Along (T : TransitionSystem σ α) (P : σ → α → Prop) : σ → List α → Prop
  | _, []      => True
  | s, a :: as => P s a ∧ ∀ s', T.step s a = some s' → T.Along P s' as

-- Evaluates a list of actions; `none` also if `ok` does not hold of one of them.
def runWhile (T : TransitionSystem σ α) (ok : σ → α → Prop) [∀ s a, Decidable (ok s a)] :
    σ → List α → Option σ
  | s, []      => some s
  | s, a :: as => if ok s a then (T.step s a).bind (T.runWhile ok · as) else none

variable {s s₁ s₂ s₃ : σ} {a : α}

namespace Run

theorem single (h : ok s₁ a) (e : T.step s₁ a = some s₂) : T.Run ok s₁ s₂ :=
  .tail .refl h e

theorem trans (r₁ : T.Run ok s₁ s₂) (r₂ : T.Run ok s₂ s₃) : T.Run ok s₁ s₃ := by
  induction r₂ with
  | refl          => exact r₁
  | tail _ h e hi => exact .tail hi h e

theorem mono (h : ∀ s a, ok s a → ok' s a) (r : T.Run ok s₁ s₂) : T.Run ok' s₁ s₂ := by
  induction r with
  | refl           => exact .refl
  | tail _ ho e hi => exact .tail hi (h _ _ ho) e

-- What every step preserves, a run preserves.
theorem preserves {I : σ → Prop} (r : T.Run ok s₁ s₂)
    (hs : ∀ s a s', I s → ok s a → T.step s a = some s' → I s') (h : I s₁) : I s₂ := by
  induction r with
  | refl           => exact h
  | tail _ ho e hi => exact hs _ _ _ hi ho e

-- An invariant holds before every step of a run.
theorem with_invariant {I : σ → Prop} (r : T.Run ok s₁ s₂)
    (hs : ∀ s a s', I s → ok s a → T.step s a = some s' → I s') (h : I s₁) :
    T.Run (fun s a => ok s a ∧ I s) s₁ s₂ := by
  induction r with
  | refl           => exact .refl
  | tail r ho e hi => exact .tail hi ⟨ho, r.preserves hs h⟩ e

theorem of_run (as : List α) (h : T.run s₁ as = some s₂) : T.Run (fun _ _ => True) s₁ s₂ := by
  induction as generalizing s₁ with
  | nil          => cases h; exact .refl
  | cons a as hi =>
    obtain ⟨s, e, h⟩ := Option.bind_eq_some_iff.mp h
    exact .trans (.single trivial e) (hi h)

end Run

theorem run_append {as bs : List α} : T.run s (as ++ bs) = (T.run s as).bind (T.run · bs) := by
  induction as generalizing s with
  | nil          => rfl
  | cons a as hi => cases h : T.step s a <;> simp [run, h, hi]

theorem run_concat {as : List α} (h : T.run s (as ++ [a]) = some s₂) :
    ∃ s₁, T.run s as = some s₁ ∧ T.step s₁ a = some s₂ := by
  rw [run_append, Option.bind_eq_some_iff] at h
  simpa [run] using h

theorem along_concat {P : σ → α → Prop} {as : List α} (h : T.run s as = some s₁) :
    T.Along P s (as ++ [a]) ↔ T.Along P s as ∧ P s₁ a := by
  induction as generalizing s with
  | nil => cases h; simp [Along]
  | cons b as hi =>
    obtain ⟨s', e, h⟩ := Option.bind_eq_some_iff.mp h
    simp [Along, e, hi h, and_assoc]

-- A run that can be evaluated, along which `ok` holds.
theorem Run.of_along {as : List α} (h : T.run s₁ as = some s₂) (ha : T.Along ok s₁ as) :
    T.Run ok s₁ s₂ := by
  induction as generalizing s₁ with
  | nil          => cases h; exact .refl
  | cons a as hi =>
    obtain ⟨s, e, h⟩ := Option.bind_eq_some_iff.mp h
    exact .trans (.single ha.1 e) (hi h (ha.2 s e))

theorem Run.of_runWhile [∀ s a, Decidable (ok s a)] (as : List α)
    (h : T.runWhile ok s₁ as = some s₂) : T.Run ok s₁ s₂ := by
  induction as generalizing s₁ with
  | nil          => cases h; exact .refl
  | cons a as hi =>
    simp only [runWhile, Option.ite_none_right_eq_some] at h
    obtain ⟨s, e, h'⟩ := Option.bind_eq_some_iff.mp h.2
    exact .trans (.single h.1 e) (hi h')

theorem Reachable.of_run (as : List α) (h : T.run T.init as = some s) : T.Reachable s :=
  Run.of_run as h

-- An invariant: it holds at the start, and a step from a state reached so far preserves it.
theorem Reaches.induct {I : σ → Prop} (r : T.Reaches ok s) (h : I T.init)
    (hs : ∀ s a s', T.Reaches ok s → I s → ok s a → T.step s a = some s' → I s') : I s := by
  induction r with
  | refl           => exact h
  | tail r ho e hi => exact hs _ _ _ r hi ho e

end TransitionSystem
