import Mathlib

-- A program over a state that may raise. What it changed before raising stays changed.
def Handler (σ ε α : Type) : Type :=
  σ → Except ε α × σ

namespace Handler

variable {σ τ ε α β γ : Type}

def run (m : Handler σ ε α) (s : σ) : Except ε α × σ :=
  m s

-- The state a run leaves behind, whether it finished or raised.
def leaves (m : Handler σ ε α) (s : σ) : σ :=
  (m.run s).2

instance : Monad (Handler σ ε) where
  pure a   := fun s => (.ok a, s)
  bind m f := fun s =>
    match m.run s with
    | (.ok a, s')    => (f a).run s'
    | (.error e, s') => (.error e, s')

instance : MonadStateOf σ (Handler σ ε) where
  get         := fun s => (.ok s, s)
  set s       := fun _ => (.ok ⟨⟩, s)
  modifyGet f := fun s => let (a, s') := f s; (.ok a, s')

instance : MonadExceptOf ε (Handler σ ε) where
  throw e      := fun s => (.error e, s)
  tryCatch m h := fun s =>
    match m.run s with
    | (.ok a, s')    => (.ok a, s')
    | (.error e, s') => (h e).run s'

-- A program over a part of the state.
def on (part : σ → τ) (put : σ → τ → σ) (m : Handler τ ε α) : Handler σ ε α :=
  fun s => ((m.run (part s)).1, put s (m.leaves (part s)))

def ofExcept (r : Except ε α) : Handler σ ε α :=
  fun s => (r, s)

-- The same program, under other names for what it raises.
def mapError {ε' : Type} (f : ε → ε') (m : Handler σ ε α) : Handler σ ε' α := fun s =>
  match m.run s with
  | (.ok a, s')    => (.ok a, s')
  | (.error e, s') => (.error (f e), s')

-- One program after the other, each on the next element of a list, while both last.
def each (f : γ → Handler σ ε Unit) : List γ → Handler (List σ) ε Unit
  | []      => pure ()
  | x :: xs => fun
    | []      => (.ok (), [])
    | s :: ss =>
      match (f x).run s with
      | (.ok (), s')   => (((each f xs).run ss).1, s' :: (each f xs).leaves ss)
      | (.error e, s') => (.error e, s' :: ss)

section Run

variable {m : Handler σ ε α} {f : α → Handler σ ε β} {s s' : σ} {a : α} {e : ε}

@[simp] theorem run_pure : (pure a : Handler σ ε α).run s = (.ok a, s) := rfl
@[simp] theorem run_throw : (throw e : Handler σ ε α).run s = (.error e, s) := rfl
@[simp] theorem run_get : (get : Handler σ ε σ).run s = (.ok s, s) := rfl
@[simp] theorem run_set : (set s' : Handler σ ε Unit).run s = (.ok ⟨⟩, s') := rfl
@[simp] theorem run_ofExcept {r : Except ε α} : (ofExcept r : Handler σ ε α).run s = (r, s) := rfl
@[simp] theorem run_modify {g : σ → σ} : (modify g : Handler σ ε Unit).run s = (.ok ⟨⟩, g s) := rfl

theorem run_bind : (m >>= f).run s =
    match m.run s with
    | (.ok a, s')    => (f a).run s'
    | (.error e, s') => (.error e, s') := rfl

theorem run_bind_ok (h : m.run s = (.ok a, s')) : (m >>= f).run s = (f a).run s' := by
  rw [run_bind, h]

theorem run_bind_error (h : m.run s = (.error e, s')) : (m >>= f).run s = (.error e, s') := by
  rw [run_bind, h]

theorem run_bind_eq_ok {b : β} : (m >>= f).run s = (.ok b, s') ↔
    ∃ a s₁, m.run s = (.ok a, s₁) ∧ (f a).run s₁ = (.ok b, s') := by
  rw [run_bind]
  rcases m.run s with ⟨e | a, s₁⟩
  case error => simp
  case ok    => simp [and_assoc]

end Run

-- `m`, run from `s`, does not finish.
def Raises (m : Handler σ ε α) (s : σ) : Prop :=
  ∃ e, (m.run s).1 = .error e

theorem run_mapError {ε' : Type} {g : ε → ε'} {m : Handler σ ε α} {s : σ} : (m.mapError g).run s =
    match m.run s with
    | (.ok a, s')    => (.ok a, s')
    | (.error e, s') => (.error (g e), s') := rfl

theorem run_mapError_eq {ε' : Type} {g : ε → ε'} {m : Handler σ ε α} {s s' : σ} {a : α}
    (h : m.run s = (.ok a, s')) : (m.mapError g).run s = (.ok a, s') := by
  rw [run_mapError, h]

theorem run_mapError_ok {ε' : Type} {g : ε → ε'} {m : Handler σ ε α} {s s' : σ} {a : α}
    (h : (m.mapError g).run s = (.ok a, s')) : m.run s = (.ok a, s') := by
  rw [run_mapError] at h
  split at h
  case h_1 e => cases h; exact e
  case h_2   => cases h

section Raises

variable {m : Handler σ ε α} {n : Handler σ ε β} {s s' : σ}

theorem not_raises_iff : ¬m.Raises s ↔ ∃ a, m.run s = (.ok a, m.leaves s) := by
  unfold Raises leaves
  rcases m.run s with ⟨a | e, s'⟩ <;> simp

theorem raises_iff : m.Raises s ↔ ∃ e, m.run s = (.error e, m.leaves s) := by
  unfold Raises leaves
  rcases m.run s with ⟨a | e, s'⟩ <;> simp

theorem not_raises_of_isOk (h : (m.run s).1.isOk) : ¬m.Raises s := by
  rintro ⟨e, he⟩
  rw [he] at h
  cases h

theorem raises_mapError {ε' : Type} {g : ε → ε'} : (m.mapError g).Raises s ↔ m.Raises s := by
  unfold Raises
  rw [run_mapError]
  rcases m.run s with ⟨e | a, s'⟩ <;> simp

theorem leaves_mapError {ε' : Type} {g : ε → ε'} : (m.mapError g).leaves s = m.leaves s := by
  unfold leaves
  rw [run_mapError]
  rcases m.run s with ⟨e | a, s'⟩ <;> rfl

theorem raises_seq : (m >>= fun _ => n).Raises s ↔ m.Raises s ∨ ¬m.Raises s ∧ n.Raises (m.leaves s) := by
  unfold Raises leaves
  rw [run_bind]
  rcases m.run s with ⟨a | e, s'⟩ <;> simp

@[simp] theorem not_raises_pure {a : α} : ¬(pure a : Handler σ ε α).Raises s := by
  rintro ⟨e, ⟨⟩⟩

theorem leaves_seq (h : ¬m.Raises s) : (m >>= fun _ => n).leaves s = n.leaves (m.leaves s) := by
  obtain ⟨a, h⟩ := not_raises_iff.mp h
  exact congrArg Prod.snd (run_bind_ok h)

theorem leaves_seq_of_raises (h : m.Raises s) : (m >>= fun _ => n).leaves s = m.leaves s := by
  obtain ⟨e, h⟩ := raises_iff.mp h
  exact congrArg Prod.snd (run_bind_error h)

theorem leaves_seq_throw {e : ε} : (m >>= fun _ => (throw e : Handler σ ε β)).leaves s = m.leaves s := by
  by_cases h : m.Raises s
  case pos => exact leaves_seq_of_raises h
  case neg => exact leaves_seq h

theorem leaves_seq_pure {b : β} : (m >>= fun _ => (pure b : Handler σ ε β)).leaves s = m.leaves s := by
  by_cases h : m.Raises s
  case pos => exact leaves_seq_of_raises h
  case neg => exact leaves_seq h

@[simp] theorem leaves_pure {a : α} : (pure a : Handler σ ε α).leaves s = s := rfl

@[simp] theorem leaves_modify {g : σ → σ} : (modify g : Handler σ ε Unit).leaves s = g s := rfl

@[simp] theorem not_raises_modify {g : σ → σ} : ¬(modify g : Handler σ ε Unit).Raises s := by
  rintro ⟨e, ⟨⟩⟩

@[simp] theorem leaves_on {part : τ → σ} {put : τ → σ → τ} {t : τ} :
    (m.on part put).leaves t = put t (m.leaves (part t)) := rfl

@[simp] theorem raises_on {part : τ → σ} {put : τ → σ → τ} {t : τ} :
    (m.on part put).Raises t ↔ m.Raises (part t) := Iff.rfl

section TryCatch

variable {h : ε → Handler σ ε α}

theorem not_raises_tryCatch (hh : ∀ e s, ¬(h e).Raises s) : ¬(tryCatch m h).Raises s := by
  unfold Raises at *
  simp only [run, tryCatch, tryCatchThe, MonadExceptOf.tryCatch] at *
  rcases hm : m s with ⟨a | e, s'⟩
  · exact hh _ _
  · simp

theorem leaves_tryCatch_of_raises {e : ε} (hm : m.run s = (.error e, s')) :
    (tryCatch m h).leaves s = (h e).leaves s' := by
  simp only [leaves, run, tryCatch, tryCatchThe, MonadExceptOf.tryCatch] at *
  rw [hm]

theorem run_tryCatch_ok {a : α} (hm : m.run s = (.ok a, s')) : (tryCatch m h).run s = (.ok a, s') := by
  simp only [run, tryCatch, tryCatchThe, MonadExceptOf.tryCatch] at *
  rw [hm]

theorem leaves_tryCatch_of_ok {a : α} (hm : m.run s = (.ok a, s')) : (tryCatch m h).leaves s = s' := by
  simp only [leaves, run, tryCatch, tryCatchThe, MonadExceptOf.tryCatch] at *
  rw [hm]

theorem leaves_tryCatch (hm : ¬m.Raises s) : (tryCatch m h).leaves s = m.leaves s := by
  obtain ⟨a, hm⟩ := not_raises_iff.mp hm
  exact leaves_tryCatch_of_ok hm

end TryCatch
end Raises

-- `m` does not touch what `view` shows of the state.
def Keeps (m : Handler σ ε α) (view : σ → β) : Prop :=
  ∀ s, view (m.leaves s) = view s

section Keeps

variable {m : Handler σ ε α} {f : α → Handler σ ε γ} {view : σ → β}

theorem keeps_pure {a : α} : Keeps (pure a : Handler σ ε α) view :=
  fun _ => rfl

theorem keeps_throw {e : ε} : Keeps (throw e : Handler σ ε α) view :=
  fun _ => rfl

theorem keeps_get : Keeps (get : Handler σ ε σ) view :=
  fun _ => rfl

theorem keeps_ofExcept {r : Except ε α} : Keeps (ofExcept r : Handler σ ε α) view :=
  fun _ => rfl

theorem keeps_modify {g : σ → σ} (h : ∀ s, view (g s) = view s) :
    Keeps (modify g : Handler σ ε Unit) view :=
  h

theorem keeps_on {part : σ → τ} {put : σ → τ → σ} {m : Handler τ ε α}
    (h : ∀ s t, view (put s t) = view s) : Keeps (m.on part put) view :=
  fun _ => h _ _

theorem Keeps.bind (hm : m.Keeps view) (hf : ∀ a, (f a).Keeps view) : (m >>= f).Keeps view := by
  intro s
  rw [← hm s]
  simp only [leaves, run_bind]
  split
  case h_1 a s' e => rw [e]; exact hf a s'
  case h_2 e' s' e => rw [e]

theorem Keeps.tryCatch {h : ε → Handler σ ε α} (hm : m.Keeps view) (hh : ∀ e, (h e).Keeps view) :
    (tryCatch m h).Keeps view := by
  intro s
  rw [← hm s]
  simp only [leaves, run, MonadExcept.tryCatch, tryCatchThe, MonadExceptOf.tryCatch]
  split
  case h_1 a s' e => exact congrArg view (congrArg Prod.snd e).symm
  case h_2 e' s' e => exact (hh e' s').trans (congrArg view (congrArg Prod.snd e).symm)

theorem Keeps.ite {c : Prop} [Decidable c] {m' : Handler σ ε α} (hm : m.Keeps view)
    (hm' : m'.Keeps view) : Keeps (if c then m else m') view := by
  split
  · exact hm
  · exact hm'

theorem keeps_mapError {ε' : Type} {g : ε → ε'} (hm : m.Keeps view) : (m.mapError g).Keeps view := by
  intro s
  rw [← hm s]
  simp only [leaves, run, mapError]
  rcases m s with ⟨a | e, s'⟩ <;> rfl

end Keeps
end Handler

namespace Except

variable {ε α β : Type} {x : Except ε α} {a : α} {b : β}

theorem bind_eq_ok {f : α → Except ε β} : (x >>= f) = .ok b ↔ ∃ a, x = .ok a ∧ f a = .ok b := by
  cases x with
  | error e => simp [bind, Except.bind]
  | ok a    => simp [bind, Except.bind]

theorem map_eq_ok {f : α → β} : x.map f = .ok b ↔ ∃ a, x = .ok a ∧ f a = b := by
  cases x with
  | error e => simp [Except.map]
  | ok a    => simp [Except.map]

theorem toOption_eq_some : x.toOption = some a ↔ x = .ok a := by
  cases x with
  | error e => simp [Except.toOption]
  | ok a    => simp [Except.toOption]

end Except
