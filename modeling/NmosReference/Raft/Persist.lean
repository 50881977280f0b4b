import NmosReference.Registry.Types

namespace Raft

open Registry

-- What must survive a crash for elections and paging to stay safe: the content of the state file.
structure PersistentState where
  term              : Nat
  votedFor          : Option Nat
  incarnation       : Nat
  cursorReservation : Option TaiCursor
  deriving DecidableEq, Repr

-- How one call of `TermStore.save` ends: the rename is atomic, so an `OSError` comes either before
-- it (the old file stays) or after it (the directory could not be synced, the new file is in
-- place). A process that dies inside the save is such a failed save followed by a crash.
inductive SaveOutcome
  | saved | failedBefore | failedAfter
  deriving DecidableEq, Repr

-- The state file; `none` before a member's first start.
abbrev TermStore := Option PersistentState

namespace TermStore

def save (state : PersistentState) (store : TermStore) : SaveOutcome → TermStore
  | .saved | .failedAfter => some state
  | .failedBefore         => store

-- Reading the state file bumps the incarnation and saves it; `none` is a refusal to start. Only the
-- reservation is text in the file, and a signed one is refused when it is parsed back.
def load : TermStore → Option PersistentState
  | none   => some { term := 0, votedFor := none, incarnation := 1, cursorReservation := none }
  | some s =>
    if ∀ c ∈ s.cursorReservation, c.Unsigned then
      some { s with incarnation := s.incarnation + 1 }
    else
      none

variable {store : TermStore} {state loaded : PersistentState} {o : SaveOutcome}

theorem save_cases (state : PersistentState) (store : TermStore) (o : SaveOutcome) :
    save state store o = some state ∨ save state store o = store := by
  cases o <;> simp [save]

theorem save_saved : save state store .saved = some state := rfl

-- A load changes nothing but the incarnation.
theorem load_some {s : PersistentState} (h : load (some s) = some loaded) :
    loaded = { s with incarnation := s.incarnation + 1 } := by
  simp only [load] at h
  split at h <;> simp_all

theorem load_none (h : load none = some loaded) :
    loaded = { term := 0, votedFor := none, incarnation := 1, cursorReservation := none } := by
  simpa [load] using h.symm

end TermStore
end Raft
