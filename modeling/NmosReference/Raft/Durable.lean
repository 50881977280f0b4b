import NmosReference.Raft.Cursors

namespace Raft

open Registry

-- The part of a running member that its state file mirrors.
structure Durable where
  term        : Nat
  votedFor    : Option Nat
  incarnation : Nat
  cursors     : CursorAllocator

namespace Durable

def state (d : Durable) (cursorReservation : Option TaiCursor) : PersistentState :=
  { term := d.term, votedFor := d.votedFor, incarnation := d.incarnation, cursorReservation }

@[simp] theorem state_cursorReservation {d : Durable} {r : Option TaiCursor} :
    (d.state r).cursorReservation = r := rfl

-- What a member starts from: the loaded state, and an allocator that resumes its reservation.
def start (owner : Fin MAX_OWNERS) (loaded : PersistentState) : Durable where
  term        := loaded.term
  votedFor    := loaded.votedFor
  incarnation := loaded.incarnation
  cursors     := (CursorAllocator.new owner).resume loaded.cursorReservation

-- `_persist`: a save made for the term or the vote carries the reservation that is durable now.
def persist (d : Durable) (store : TermStore) (o : SaveOutcome) : TermStore :=
  store.save (d.state d.cursors.reserved) o

-- The next paging cursor, reserved durably. Without the reservation the cursor is not returned
-- (`RaftCursorReservationFailed`), but the allocator has moved past it.
def allocateCursor (d : Durable) (t : ResourceType) (now : TaiCursor) (store : TermStore)
    (o : SaveOutcome) : Option TaiCursor × Durable × TermStore :=
  let (cursor, cursors) := d.cursors.allocate t now
  match cursors.reservationNeeded cursor with
  | none        => (some cursor, { d with cursors }, store)
  | some needed =>
    match o with
    | .saved => (some cursor, { d with cursors := cursors.confirmReservation needed },
        store.save (d.state needed) .saved)
    | o      => (none, { d with cursors }, store.save (d.state needed) o)

variable {d d' : Durable} {t : ResourceType} {now c : TaiCursor} {store store' : TermStore}
variable {o : SaveOutcome} {cursor : Option TaiCursor}

-- Everything one call can do: the reservation in memory covers the cursor already; a new bound,
-- above the cursor and the old bound, is made durable; or the save fails and no cursor is returned.
theorem allocateCursor_cases {c : TaiCursor} {cursors : CursorAllocator}
    (ha : d.cursors.allocate t now = (c, cursors))
    (h : d.allocateCursor t now store o = (cursor, d', store')) :
    (Covers cursors.reserved c ∧ cursor = some c ∧ d' = { d with cursors } ∧ store' = store) ∨
    ∃ needed, c < needed ∧ (∀ r ∈ cursors.reserved, r < needed) ∧
      (cursor = some c ∧ d' = { d with cursors := cursors.confirmReservation needed } ∧
          store' = some (d.state needed) ∨
        cursor = none ∧ d' = { d with cursors } ∧
          (store' = some (d.state needed) ∨ store' = store)) := by
  simp only [allocateCursor, ha] at h
  split at h
  case h_1 hn =>
    cases h
    exact .inl ⟨CursorAllocator.reservationNeeded_none hn, rfl, rfl, rfl⟩
  case h_2 needed hn =>
    have ⟨hc, hr⟩ := CursorAllocator.reservationNeeded_some hn
    refine .inr ⟨needed, hc, hr, ?_⟩
    cases o <;> cases h <;> simp [TermStore.save]

end Durable
end Raft
