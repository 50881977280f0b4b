import NmosReference.Raft.Persist
import Mathlib

namespace Raft

open Registry

def OWNER_BITS : Nat := 3
def MAX_OWNERS : Nat := 2 ^ OWNER_BITS

theorem one_lt_maxOwners : 1 < MAX_OWNERS := by decide

def NANOS_PER_SECOND : Int := 1000000000
def RESERVATION_WINDOW_SECONDS : Int := 1

-- Allocates cursors for one member, per resource type. That the owner index fits is checked by the
-- constructor.
structure CursorAllocator where
  owner     : Fin MAX_OWNERS
  highWater : ResourceType → Option TaiCursor
  -- What the previous incarnation reserved: nothing at or below it is ever allocated again.
  floor     : Option TaiCursor
  -- The bound that is durable now.
  reserved  : Option TaiCursor

def ownerOf (cursor : TaiCursor) : Int :=
  cursor.nanoseconds % MAX_OWNERS

-- `b` is a bound on the cursor `c`. No bound covers nothing.
def Covers (b : Option TaiCursor) (c : TaiCursor) : Prop :=
  ∃ r ∈ b, c ≤ r

theorem Covers.self {c : TaiCursor} : Covers (some c) c :=
  ⟨c, rfl, le_refl c⟩

theorem Covers.of_le {b : Option TaiCursor} {c c' : TaiCursor} (h : Covers b c') (hc : c ≤ c') :
    Covers b c :=
  h.imp fun _ ⟨hr, hc'⟩ => ⟨hr, hc.trans hc'⟩

namespace CursorAllocator

variable {a : CursorAllocator} {t t' : ResourceType} {c c' now : TaiCursor}

def new (owner : Fin MAX_OWNERS) : CursorAllocator :=
  { owner, highWater := fun _ => none, floor := none, reserved := none }

def resume (reserved : Option TaiCursor) (a : CursorAllocator) : CursorAllocator :=
  { a with floor := reserved, reserved }

-- Rounds a real instant down into this member's lane: the low bits (`& ~_LANE_MASK`) are the
-- remainder by the lane stride.
def inLane (a : CursorAllocator) (c : TaiCursor) : TaiCursor :=
  { c with nanoseconds := c.nanoseconds / MAX_OWNERS * MAX_OWNERS + a.owner }

-- The smallest cursor in this member's lane strictly above `after`.
def nextInLane (a : CursorAllocator) (after : TaiCursor) : TaiCursor :=
  let nanoseconds := (after.nanoseconds / MAX_OWNERS + 1) * MAX_OWNERS + a.owner
  if nanoseconds ≥ NANOS_PER_SECOND then
    { seconds := after.seconds + 1, nanoseconds := a.owner }
  else
    { seconds := after.seconds, nanoseconds }

-- The mark an allocation must exceed: what was seen of the type, or what was reserved earlier.
def previous (a : CursorAllocator) (t : ResourceType) : Option TaiCursor :=
  match a.floor, a.highWater t with
  | some f, none   => some f
  | some f, some h => if h < f then some f else some h
  | none,   h      => h

def candidate (a : CursorAllocator) (t : ResourceType) (now : TaiCursor) : TaiCursor :=
  match a.previous t with
  | some p => if a.inLane now ≤ p then a.nextInLane p else a.inLane now
  | none   => a.inLane now

def allocate (a : CursorAllocator) (t : ResourceType) (now : TaiCursor) :
    TaiCursor × CursorAllocator :=
  (a.candidate t now, { a with highWater := Function.update a.highWater t (a.candidate t now) })

def reservationNeeded (a : CursorAllocator) (c : TaiCursor) : Option TaiCursor :=
  let needed := { c with seconds := c.seconds + RESERVATION_WINDOW_SECONDS }
  match a.reserved with
  | some r => if c ≤ r then none else some needed
  | none   => some needed

def confirmReservation (a : CursorAllocator) (reserved : TaiCursor) : CursorAllocator :=
  match a.reserved with
  | some r => if reserved > r then { a with reserved := some reserved } else a
  | none   => { a with reserved := some reserved }

def observe (a : CursorAllocator) (t : ResourceType) (c : TaiCursor) : CursorAllocator :=
  match a.highWater t with
  | some h => if c > h then { a with highWater := Function.update a.highWater t (some c) } else a
  | none   => { a with highWater := Function.update a.highWater t (some c) }

theorem ownerOf_inLane : ownerOf (a.inLane c) = a.owner := by
  have := a.owner.isLt
  simp only [ownerOf, inLane, MAX_OWNERS, OWNER_BITS] at *
  omega

-- Either the next lane stride or, past the end of the second, the lane of the next one.
theorem nextInLane_cases :
    a.nextInLane c = ⟨c.seconds + 1, a.owner⟩ ∨
    a.nextInLane c = ⟨c.seconds, (c.nanoseconds / MAX_OWNERS + 1) * MAX_OWNERS + a.owner⟩ := by
  simp only [nextInLane]
  split
  · exact .inl rfl
  · exact .inr rfl

theorem ownerOf_nextInLane : ownerOf (a.nextInLane c) = a.owner := by
  have := a.owner.isLt
  obtain h | h := a.nextInLane_cases (c := c) <;>
    simp only [h, ownerOf, MAX_OWNERS, OWNER_BITS] at * <;> omega

theorem lt_nextInLane : c < a.nextInLane c := by
  obtain h | h := a.nextInLane_cases (c := c) <;> rw [h, TaiCursor.lt_def]
  · exact .inl (by simp only []; omega)
  · exact .inr ⟨rfl, by simp only [MAX_OWNERS, OWNER_BITS]; omega⟩

theorem covers_previous : Covers (a.previous t) c ↔ Covers a.floor c ∨ Covers (a.highWater t) c := by
  cases hf : a.floor <;> cases hw : a.highWater t <;> simp only [previous, Covers, hf, hw]
  case none.none => simp
  case none.some => simp
  case some.none => simp
  case some.some f w =>
    split <;> simp only [Option.mem_def, Option.some.injEq, exists_eq_left']
    case isTrue h  => exact ⟨.inl, (Or.elim · id (·.trans h.le))⟩
    case isFalse h => exact ⟨.inr, (Or.elim · (·.trans (le_of_not_gt h)) id)⟩

theorem ownerOf_candidate (t : ResourceType) (now : TaiCursor) : ownerOf (a.candidate t now) = a.owner := by
  simp only [candidate]
  split
  · split
    · exact ownerOf_nextInLane
    · exact ownerOf_inLane
  · exact ownerOf_inLane

-- What is allocated is strictly ahead of everything seen of the type and of everything that an
-- earlier incarnation reserved, whatever the clock reads.
theorem lt_candidate (now : TaiCursor) (h : Covers (a.previous t) c) : c < a.candidate t now := by
  obtain ⟨p, hp, hc⟩ := h
  simp only [Option.mem_def] at hp
  simp only [candidate, hp]
  split
  · exact lt_of_le_of_lt hc lt_nextInLane
  case isFalse h => exact lt_of_le_of_lt hc (lt_of_not_ge h)

theorem reservationNeeded_none (h : a.reservationNeeded c = none) : Covers a.reserved c := by
  simp only [reservationNeeded] at h
  split at h
  case h_1 r hr => exact ⟨r, hr, by simpa using h⟩
  case h_2 => simp at h

-- A new bound is above the cursor it is for and above the bound it replaces.
theorem reservationNeeded_some (h : a.reservationNeeded c = some c') :
    c < c' ∧ ∀ r ∈ a.reserved, r < c' := by
  have hc : c < { c with seconds := c.seconds + RESERVATION_WINDOW_SECONDS } := by
    exact TaiCursor.lt_def.mpr <| .inl (by simp only [RESERVATION_WINDOW_SECONDS]; omega)
  simp only [reservationNeeded] at h
  split at h
  case h_1 r hr =>
    split at h <;> cases h
    case isFalse hl => exact ⟨hc, by simpa [hr] using (lt_of_not_ge hl).trans hc⟩
  case h_2 hr =>
    cases h
    exact ⟨hc, by simp [hr]⟩

theorem confirmReservation_reserved (h : ∀ r ∈ a.reserved, r < c) :
    (a.confirmReservation c).reserved = some c := by
  simp only [confirmReservation]
  split
  case h_1 r hr => simp [h r hr]
  case h_2 => rfl

@[simp] theorem confirmReservation_owner : (a.confirmReservation c).owner = a.owner := by
  simp only [confirmReservation]; split <;> (try split) <;> rfl

@[simp] theorem confirmReservation_floor : (a.confirmReservation c).floor = a.floor := by
  simp only [confirmReservation]; split <;> (try split) <;> rfl

@[simp] theorem confirmReservation_highWater :
    (a.confirmReservation c).highWater = a.highWater := by
  simp only [confirmReservation]; split <;> (try split) <;> rfl

@[simp] theorem observe_owner : (a.observe t c).owner = a.owner := by
  simp only [observe]; split <;> (try split) <;> rfl

@[simp] theorem observe_floor : (a.observe t c).floor = a.floor := by
  simp only [observe]; split <;> (try split) <;> rfl

@[simp] theorem observe_reserved : (a.observe t c).reserved = a.reserved := by
  simp only [observe]; split <;> (try split) <;> rfl

-- Observing never lowers a mark.
theorem observe_previous (h : Covers (a.previous t) c) :
    Covers ((a.observe t' c').previous t) c := by
  rw [covers_previous, observe_floor] at *
  refine h.imp_right fun ⟨w, hw, hc⟩ => ?_
  simp only [observe]
  split
  case h_1 w' hw' =>
    split
    case isTrue hl =>
      by_cases ht : t = t'
      · subst ht
        exact ⟨c', by simp, hc.trans (by simp_all [le_of_lt])⟩
      · exact ⟨w, by simp_all [Function.update], hc⟩
    case isFalse => exact ⟨w, hw, hc⟩
  case h_2 hn =>
    have ht : t ≠ t' := by rintro rfl; simp_all
    exact ⟨w, by simp_all [Function.update], hc⟩

theorem allocate_previous_self (a : CursorAllocator) (t : ResourceType) (now : TaiCursor) :
    Covers ((a.allocate t now).2.previous t) (a.allocate t now).1 :=
  covers_previous.mpr <| .inr ⟨a.candidate t now, by simp [allocate], le_refl _⟩

theorem allocate_previous (h : Covers (a.previous t') c) :
    Covers ((a.allocate t now).2.previous t') c := by
  by_cases ht : t' = t
  · subst ht
    exact (allocate_previous_self a _ now).of_le (lt_candidate now h).le
  · rw [covers_previous] at *
    simpa [allocate, ht] using h

end CursorAllocator
end Raft
