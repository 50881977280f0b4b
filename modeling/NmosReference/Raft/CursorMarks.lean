import NmosReference.Raft.Durable

-- Which cursors an allocator stays above, whatever the clock reads.
namespace Raft

open Registry

-- What a clock reads: the seconds and nanoseconds of an instant.
def IsReading (now : TaiCursor) : Prop :=
  0 ≤ now.nanoseconds ∧ now.nanoseconds < NANOS_PER_SECOND

instance {now : TaiCursor} : Decidable (IsReading now) :=
  inferInstanceAs <| Decidable (_ ∧ _)

namespace CursorAllocator

variable {a a' : CursorAllocator} {t : ResourceType} {c c' x now : TaiCursor}

-- The marks of an allocator are instants.
structure Proper (a : CursorAllocator) : Prop where
  highWater : ∀ t, ∀ c ∈ a.highWater t, IsReading c
  floor     : ∀ c ∈ a.floor, IsReading c

theorem Proper.previous (h : a.Proper) (hc : c ∈ a.previous t) : IsReading c := by
  simp only [CursorAllocator.previous] at hc
  split at hc
  case h_1 hf _    => exact h.floor c (hf ▸ hc)
  case h_2 hf hw   =>
    split at hc
    · exact h.floor c (hf ▸ hc)
    · exact h.highWater t c (hw ▸ hc)
  case h_3         => exact h.highWater t c hc

-- The first place in the allocator's lane above a mark.
def placeAbove (a : CursorAllocator) (mark : TaiCursor) : TaiCursor :=
  if a.inLane mark ≤ mark then a.nextInLane mark else a.inLane mark

theorem inLane_eq (a : CursorAllocator) (c : TaiCursor) :
    a.inLane c = ⟨c.seconds, c.nanoseconds / 8 * 8 + a.owner⟩ := rfl

-- When the next stride is in the same second, and when in the next one.
theorem nextInLane_spec (a : CursorAllocator) (c : TaiCursor) :
    999999992 ≤ c.nanoseconds ∧ a.nextInLane c = ⟨c.seconds + 1, a.owner⟩ ∨
    c.nanoseconds < 999999992 ∧ a.nextInLane c = ⟨c.seconds, (c.nanoseconds / 8 + 1) * 8 + a.owner⟩ := by
  have ho : a.owner.val < 8 := a.owner.isLt
  have he : a.nextInLane c = if (c.nanoseconds / 8 + 1) * 8 + a.owner ≥ 1000000000 then
      ⟨c.seconds + 1, a.owner⟩ else ⟨c.seconds, (c.nanoseconds / 8 + 1) * 8 + a.owner⟩ := rfl
  rw [he]
  split
  · exact .inl ⟨by omega, rfl⟩
  · exact .inr ⟨by omega, rfl⟩

theorem lt_placeAbove : c < a.placeAbove c := by
  unfold placeAbove
  split
  · exact lt_nextInLane
  case isFalse h => exact lt_of_not_ge h

theorem placeAbove_le_nextInLane : a.placeAbove c ≤ a.nextInLane c := by
  have ho : a.owner.val < 8 := a.owner.isLt
  unfold placeAbove
  split
  · exact le_rfl
  · refine le_of_lt ?_
    obtain ⟨h, e⟩ | ⟨h, e⟩ := a.nextInLane_spec c <;> rw [e, inLane_eq, TaiCursor.lt_def] <;> simp only
    · exact .inl (by omega)
    · exact .inr ⟨trivial, by omega⟩

-- What is in the lane and above the mark is no lower than that place.
theorem placeAbove_le_inLane (hc : IsReading c) (hn : IsReading now) (h : c < a.inLane now) :
    a.placeAbove c ≤ a.inLane now := by
  have ho : a.owner.val < 8 := a.owner.isLt
  have hc : 0 ≤ c.nanoseconds ∧ c.nanoseconds < 1000000000 := hc
  have hn : 0 ≤ now.nanoseconds ∧ now.nanoseconds < 1000000000 := hn
  refine le_of_not_gt fun hgt => ?_
  rw [inLane_eq, TaiCursor.lt_def] at h
  unfold placeAbove at hgt
  split at hgt
  case isTrue hle =>
    have hle : c.nanoseconds / 8 * 8 + a.owner ≤ c.nanoseconds := by
      by_contra hlt
      exact absurd hle (not_le_of_gt (TaiCursor.lt_def.mpr (.inr ⟨rfl, not_le.mp hlt⟩)))
    obtain ⟨h₁, e₁⟩ | ⟨h₁, e₁⟩ := a.nextInLane_spec c <;>
      rw [e₁, inLane_eq, TaiCursor.lt_def] at hgt <;> simp only at hgt h <;> omega
  case isFalse hle =>
    rw [inLane_eq, inLane_eq, TaiCursor.lt_def] at hgt
    simp only at hgt h
    omega

theorem placeAbove_mono (hc : IsReading c) (hc' : IsReading c') (h : c ≤ c') :
    a.placeAbove c ≤ a.placeAbove c' := by
  have ho : a.owner.val < 8 := a.owner.isLt
  conv_rhs => rw [placeAbove]
  split
  case isFalse hlt => exact placeAbove_le_inLane hc hc' (h.trans_lt (lt_of_not_ge hlt))
  case isTrue  hle =>
    refine placeAbove_le_nextInLane.trans (le_of_not_gt fun hgt => ?_)
    have hc' : 0 ≤ c'.nanoseconds := hc'.1
    obtain rfl | hlt := h.eq_or_lt
    · exact lt_irrefl _ hgt
    rw [TaiCursor.lt_def] at hlt
    obtain ⟨h₁, e₁⟩ | ⟨h₁, e₁⟩ := a.nextInLane_spec c <;> obtain ⟨h₂, e₂⟩ | ⟨h₂, e₂⟩ := a.nextInLane_spec c' <;>
      rw [e₁, e₂, TaiCursor.lt_def] at hgt <;> simp only at hgt <;> omega

-- The cursor lies below the allocator's first place above its mark.
def Below (a : CursorAllocator) (t : ResourceType) (x : TaiCursor) : Prop :=
  ∃ c ∈ a.previous t, x < a.placeAbove c

instance : Decidable (a.Below t x) :=
  inferInstanceAs <| Decidable (∃ _ ∈ _, _)

theorem Below.of_covers (h : Covers (a.previous t) x) : a.Below t x :=
  h.imp fun _ ⟨hc, hx⟩ => ⟨hc, hx.trans_lt lt_placeAbove⟩

-- The marks of one allocator are at or above those of the other, in the same lane.
structure Rises (a a' : CursorAllocator) : Prop where
  owner    : a'.owner = a.owner
  previous : ∀ t c, Covers (a.previous t) c → Covers (a'.previous t) c

theorem Rises.refl : a.Rises a :=
  ⟨rfl, fun _ _ h => h⟩

theorem placeAbove_congr (h : a'.owner = a.owner) : a'.placeAbove = a.placeAbove := by
  obtain ⟨_, _, _, _⟩ := a
  obtain ⟨_, _, _, _⟩ := a'
  cases h
  rfl

theorem Below.mono (h : a.Below t x) (hp : a.Proper) (hp' : a'.Proper) (hr : a.Rises a') :
    a'.Below t x := by
  obtain ⟨c, hc, hx⟩ := h
  obtain ⟨c', hc', hle⟩ := hr.previous t c ⟨c, hc, le_rfl⟩
  refine ⟨c', hc', hx.trans_le ?_⟩
  rw [placeAbove_congr hr.owner]
  exact placeAbove_mono (hp.previous hc) (hp'.previous hc') hle

-- No reading makes the next allocation fall to the cursor or below it.
theorem lt_candidate_iff (ha : a.Proper) (t : ResourceType) (x : TaiCursor) :
    (∀ now, IsReading now → x < a.candidate t now) ↔ a.Below t x := by
  constructor
  · intro h
    cases hp : a.previous t with
    | none   =>
      -- A clock that is late by a second.
      have hr : IsReading ⟨x.seconds - 1, 0⟩ := by simp [IsReading, NANOS_PER_SECOND]
      have hx := h _ hr
      simp only [candidate, hp, inLane, TaiCursor.lt_def] at hx
      omega
    | some c =>
      -- A clock that reads just the mark.
      have hx := h c (ha.previous hp)
      simp only [candidate, hp] at hx
      exact ⟨c, hp, hx⟩
  · rintro ⟨c, hc, hx⟩ now hn
    have hr := ha.previous hc
    simp only [Option.mem_def] at hc
    simp only [candidate, hc]
    split
    · exact hx.trans_le placeAbove_le_nextInLane
    case isFalse h => exact hx.trans_le (placeAbove_le_inLane hr hn (lt_of_not_ge h))

theorem isReading_candidate (ha : a.Proper) (hn : IsReading now) : IsReading (a.candidate t now) := by
  have ho : a.owner.val < 8 := a.owner.isLt
  have hi : IsReading (a.inLane now) := by
    have hn : 0 ≤ now.nanoseconds ∧ now.nanoseconds < 1000000000 := hn
    rw [inLane_eq]
    refine ⟨by simp only; omega, ?_⟩
    simp only [NANOS_PER_SECOND]
    omega
  simp only [candidate]
  split
  case h_1 c hc =>
    split
    · have hc : 0 ≤ c.nanoseconds ∧ c.nanoseconds < 1000000000 := ha.previous hc
      obtain ⟨_, h⟩ | ⟨_, h⟩ := a.nextInLane_spec c <;> rw [h] <;>
        refine ⟨by simp only; omega, ?_⟩ <;> simp only [NANOS_PER_SECOND] <;> omega
    · exact hi
  case h_2 => exact hi

theorem reservationNeeded_nanoseconds (h : a.reservationNeeded c = some c') :
    c'.nanoseconds = c.nanoseconds := by
  simp only [reservationNeeded] at h
  split at h
  · split at h <;> cases h
    rfl
  · cases h
    rfl

theorem rises_observe : a.Rises (a.observe t c) where
  owner    := observe_owner
  previous := fun _ _ => observe_previous

theorem observe_covers : Covers ((a.observe t c).previous t) c := by
  rw [covers_previous]
  refine .inr ?_
  simp only [observe]
  split
  case h_1 h hh =>
    split
    case isTrue     => exact ⟨c, by simp, le_rfl⟩
    case isFalse hl => exact ⟨h, hh, le_of_not_gt hl⟩
  case h_2 => exact ⟨c, by simp, le_rfl⟩

theorem highWater_observe : (a.observe t c).highWater = a.highWater ∨
    (a.observe t c).highWater = Function.update a.highWater t (some c) := by
  simp only [observe]
  split <;> (try split) <;> simp

theorem Proper.mark {w : ResourceType → Option TaiCursor} (h : a.Proper) (hc : IsReading c)
    (hw : w = a.highWater ∨ w = Function.update a.highWater t (some c)) (t' : ResourceType) :
    ∀ c ∈ w t', IsReading c := by
  obtain rfl | rfl := hw
  · exact h.highWater t'
  · by_cases ht : t' = t
    · subst ht
      simpa using hc
    · simpa [ht] using h.highWater t'

theorem Proper.observe (h : a.Proper) (hc : IsReading c) : (a.observe t c).Proper where
  highWater := h.mark hc highWater_observe
  floor     := by
    rw [observe_floor]
    exact h.floor

end CursorAllocator

-- What is reserved on disk is an instant.
def TermStore.Readings (store : TermStore) : Prop :=
  ∀ state ∈ store, ∀ c ∈ state.cursorReservation, IsReading c

namespace Durable

variable {d d' : Durable} {t : ResourceType} {now : TaiCursor} {store store' : TermStore}
variable {o : SaveOutcome} {cursor : Option TaiCursor}

-- An allocation raises the mark, even where no cursor is returned.
theorem allocateCursor_rises (ha : d.cursors.Proper) (hn : IsReading now)
    (h : d.allocateCursor t now store o = (cursor, d', store')) :
    d.cursors.Rises d'.cursors ∧ d'.cursors.Proper := by
  have hr : d.cursors.Rises (d.cursors.allocate t now).2 :=
    ⟨rfl, fun _ _ => CursorAllocator.allocate_previous⟩
  have hp : (d.cursors.allocate t now).2.Proper :=
    ⟨ha.mark (CursorAllocator.isReading_candidate ha hn) (.inr rfl), ha.floor⟩
  -- A reservation that is confirmed moves no mark.
  have hc : ∀ needed, d.cursors.Rises ((d.cursors.allocate t now).2.confirmReservation needed) ∧
      ((d.cursors.allocate t now).2.confirmReservation needed).Proper := fun needed => by
    refine ⟨⟨by simpa using hr.owner, fun t' c h => ?_⟩, by simpa using hp.highWater, by simpa using hp.floor⟩
    simpa [CursorAllocator.previous] using hr.previous t' c h
  obtain ⟨_, _, rfl, _⟩ | ⟨needed, _, _, ⟨_, rfl, _⟩ | ⟨_, rfl, _⟩⟩ := allocateCursor_cases rfl h
  · exact ⟨hr, hp⟩
  · exact hc needed
  · exact ⟨hr, hp⟩

theorem allocateCursor_some {c : TaiCursor} (h : d.allocateCursor t now store o = (some c, d', store')) :
    c = d.cursors.candidate t now := by
  obtain ⟨_, e, _⟩ | ⟨_, _, _, ⟨e, _⟩ | ⟨e, _⟩⟩ := allocateCursor_cases rfl h
  · exact Option.some.inj e
  · exact Option.some.inj e
  · cases e

theorem allocateCursor_saved (d : Durable) (t : ResourceType) (now : TaiCursor) (store : TermStore) :
    ∃ d' store', d.allocateCursor t now store .saved = (some (d.cursors.candidate t now), d', store') := by
  simp only [allocateCursor]
  split
  · exact ⟨_, _, rfl⟩
  · exact ⟨_, _, rfl⟩

theorem save_readings {state : PersistentState} (hs : ∀ c ∈ state.cursorReservation, IsReading c)
    (h : store.Readings) (o : SaveOutcome) : (store.save state o).Readings := by
  obtain e | e := TermStore.save_cases state store o <;> rw [e]
  · rintro _ ⟨⟩
    exact hs
  · exact h

-- The bound that an allocation reserves is an instant, like the cursor.
theorem allocateCursor_readings (ha : d.cursors.Proper) (hn : IsReading now)
    (hr : ∀ c ∈ d.cursors.reserved, IsReading c) (hd : store.Readings)
    (h : d.allocateCursor t now store o = (cursor, d', store')) :
    (∀ c ∈ d'.cursors.reserved, IsReading c) ∧ store'.Readings := by
  simp only [allocateCursor] at h
  split at h
  case h_1 =>
    cases h
    exact ⟨hr, hd⟩
  case h_2 needed hneed =>
    have hneeded : IsReading needed := by
      have hc : IsReading (d.cursors.candidate t now) := CursorAllocator.isReading_candidate ha hn
      rw [IsReading, CursorAllocator.reservationNeeded_nanoseconds hneed]
      exact hc
    have hstate : ∀ c ∈ (d.state needed).cursorReservation, IsReading c := by
      rintro _ ⟨⟩
      exact hneeded
    split at h <;> cases h
    · refine ⟨?_, save_readings hstate hd _⟩
      simp only [CursorAllocator.confirmReservation]
      split
      · split
        · rintro _ ⟨⟩
          exact hneeded
        · exact hr
      · rintro _ ⟨⟩
        exact hneeded
    · exact ⟨hr, save_readings hstate hd _⟩

end Durable
end Raft
