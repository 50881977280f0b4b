import NmosReference.Library.Transition
import NmosReference.Raft.Durable

namespace Raft.CursorRuns

open Registry TransitionSystem

-- A cursor that a member returned from `allocate_cursor`.
structure Issue (n : Nat) where
  member : Fin n
  type   : ResourceType
  cursor : TaiCursor

structure World (n : Nat) where
  store   : Fin n → TermStore
  -- The running process of each member, if it is running.
  process : Fin n → Option Durable
  -- Every cursor handed out so far, by any incarnation, oldest first.
  issued  : List (Issue n)

inductive Action (n : Nat)
  | start    (i : Fin n) (o : SaveOutcome)
  | crash    (i : Fin n)
  | allocate (i : Fin n) (t : ResourceType) (now : TaiCursor) (o : SaveOutcome)
  | observe  (i : Fin n) (t : ResourceType) (cursor : TaiCursor)
  -- A term or vote save, whatever made the member change its term and vote.
  | persist  (i : Fin n) (term : Nat) (votedFor : Option Nat) (o : SaveOutcome)

variable {n : Nat}

namespace World

def init (n : Nat) : World n where
  store _   := none
  process _ := none
  issued    := []

def set (w : World n) (i : Fin n) (store : TermStore) (process : Option Durable) : World n where
  store   := Function.update w.store i store
  process := Function.update w.process i process
  issued  := w.issued

def issue (w : World n) (i : Fin n) (t : ResourceType) (cursor : Option TaiCursor) : World n :=
  { w with issued := w.issued ++ cursor.toList.map (⟨i, t, ·⟩) }

-- What member `i` has handed out.
def Issued (w : World n) (i : Fin n) (t : ResourceType) (c : TaiCursor) : Prop :=
  ⟨i, t, c⟩ ∈ w.issued

variable {w : World n} {i j : Fin n} {t t' : ResourceType}

@[simp] theorem set_issued {store : TermStore} {process : Option Durable} :
    (w.set i store process).Issued j = w.Issued j := rfl

theorem set_self {store : TermStore} {process : Option Durable} :
    (w.set i store process).store i = store ∧ (w.set i store process).process i = process := by
  simp [set]

theorem set_other {store : TermStore} {process : Option Durable} (h : j ≠ i) :
    (w.set i store process).store j = w.store j ∧
    (w.set i store process).process j = w.process j := by
  simp [set, h]

@[simp] theorem issue_store {cursor : Option TaiCursor} :
    (w.issue i t cursor).store = w.store := rfl

@[simp] theorem issue_process {cursor : Option TaiCursor} :
    (w.issue i t cursor).process = w.process := rfl

theorem issue_issued {cursor : Option TaiCursor} {c : TaiCursor} :
    (w.issue i t cursor).Issued j t' c ↔ w.Issued j t' c ∨ j = i ∧ t' = t ∧ c ∈ cursor := by
  cases cursor <;> simp [issue, Issued, eq_comm]

end World

-- The owner index of a member is its position in the canonical member order.
def ownerIndex (hn : n ≤ MAX_OWNERS) (i : Fin n) : Fin MAX_OWNERS :=
  i.castLE hn

def step (hn : n ≤ MAX_OWNERS) (w : World n) : Action n → Option (World n)
  | .start i o =>
    match w.process i, (w.store i).load with
    | none, some loaded =>
      -- A member whose load cannot save the bumped incarnation does not come up.
      let process := if o = .saved then some (Durable.start (ownerIndex hn i) loaded) else none
      w.set i ((w.store i).save loaded o) process
    | _, _ => none
  | .crash i => some <| w.set i (w.store i) none
  | .allocate i t now o => do
    let d ← w.process i
    let (cursor, d, store) := d.allocateCursor t now (w.store i) o
    (w.set i store (some d)).issue i t cursor
  | .observe i t cursor => do
    let d ← w.process i
    w.set i (w.store i) (some { d with cursors := d.cursors.observe t cursor })
  | .persist i term votedFor o => do
    let d ← w.process i
    let d := { d with term, votedFor }
    w.set i (d.persist (w.store i) o) (some d)

def system (hn : n ≤ MAX_OWNERS) : TransitionSystem (World n) (Action n) where
  init := .init n
  step := step hn

-- What a member's state file and its running process know of the cursors `P` that this member and
-- its earlier incarnations handed out.
structure MemberInv (owner : Fin MAX_OWNERS) (store : TermStore) (process : Option Durable)
    (P : ResourceType → TaiCursor → Prop) : Prop where
  -- All of them are in the member's lane,
  lane     : ∀ t c, P t c → ownerOf c = owner
  -- and under the reservation on disk,
  durable  : ∀ t c, P t c → Covers (store.bind (·.cursorReservation)) c
  -- and under the one a term save would write over it, which the one on disk never falls below,
  reserved : ∀ d ∈ process, ∀ t c, P t c → Covers d.cursors.reserved c
  backed   : ∀ d ∈ process, ∀ r ∈ d.cursors.reserved, Covers (store.bind (·.cursorReservation)) r
  -- and under the mark the next allocation exceeds.
  mark     : ∀ d ∈ process, ∀ t c, P t c → Covers (d.cursors.previous t) c
  owner    : ∀ d ∈ process, d.cursors.owner = owner

namespace MemberInv

theorem congr {owner : Fin MAX_OWNERS} {store : TermStore} {process : Option Durable}
    {P Q : ResourceType → TaiCursor → Prop} (h : MemberInv owner store process P)
    (hq : ∀ t c, Q t c ↔ P t c) : MemberInv owner store process Q :=
  (funext₂ fun t c => propext (hq t c) : Q = P) ▸ h

variable {owner : Fin MAX_OWNERS} {store store' : TermStore} {d d' : Durable}
variable {P : ResourceType → TaiCursor → Prop} {t : ResourceType} {c now : TaiCursor}
variable {o : SaveOutcome} {cursor : Option TaiCursor}

theorem crash {process : Option Durable} (h : MemberInv owner store process P) :
    MemberInv owner store none P where
  lane     := h.lane
  durable  := h.durable
  reserved := by simp
  backed   := by simp
  mark     := by simp
  owner    := by simp

theorem start {loaded : PersistentState} (h : MemberInv owner store none P)
    (hl : store.load = some loaded) :
    MemberInv owner (store.save loaded o)
      (if o = .saved then some (Durable.start owner loaded) else none) P := by
  have hr : ∀ t c, P t c → Covers loaded.cursorReservation c := by
    intro t c hp
    have hc := h.durable t c hp
    cases store with
    | none   => simp [Covers] at hc
    | some s => simpa [TermStore.load_some hl] using hc
  refine ⟨h.lane, fun t c hp => ?_, ?_, ?_, ?_, ?_⟩
  · cases TermStore.save_cases loaded store o with
    | inl e => simpa [e] using hr t c hp
    | inr e => simpa [e] using h.durable t c hp
  all_goals
    intro d hd
    split at hd <;> simp only [Option.mem_def, Option.some.injEq, reduceCtorEq] at hd
    subst hd
  · exact hr
  · simp_all only [TermStore.save, Option.bind_some]
    exact fun r hr => ⟨r, hr, le_refl r⟩
  · exact fun t c hp => CursorAllocator.covers_previous.mpr <| .inl (hr t c hp)
  · rfl

theorem observe (h : MemberInv owner store (some d) P) :
    MemberInv owner store (some { d with cursors := d.cursors.observe t c }) P where
  lane     := h.lane
  durable  := h.durable
  reserved := by simpa using h.reserved
  backed   := by simpa using h.backed
  mark     := by simpa using fun t c hp => CursorAllocator.observe_previous (h.mark d rfl t c hp)
  owner    := by simpa using h.owner

-- A term save never carries an older reservation over one that something was handed out under.
theorem persist {term : Nat} {votedFor : Option Nat} (h : MemberInv owner store (some d) P) :
    MemberInv owner (Durable.persist { d with term, votedFor } store o)
      (some { d with term, votedFor }) P where
  lane     := h.lane
  durable  := by
    intro t c hp
    cases TermStore.save_cases (Durable.state { d with term, votedFor } d.cursors.reserved) store o with
    | inl e => simpa [Durable.persist, e] using h.reserved d rfl t c hp
    | inr e => simpa [Durable.persist, e] using h.durable t c hp
  reserved := by simpa using h.reserved
  backed   := by
    rintro _ ⟨⟩ r hr
    cases TermStore.save_cases (Durable.state { d with term, votedFor } d.cursors.reserved) store o with
    | inl e => exact ⟨r, by simpa [Durable.persist, e] using hr, le_refl r⟩
    | inr e => simpa [Durable.persist, e] using h.backed d rfl r hr
  mark     := by simpa using h.mark
  owner    := by simpa using h.owner

-- The allocator has moved past a cursor; whether it is returned is not said yet.
theorem allocated {cursors : CursorAllocator} (h : MemberInv owner store (some d) P)
    (ha : d.cursors.allocate t now = (c, cursors)) :
    MemberInv owner store (some { d with cursors }) P := by
  have e : cursors = (d.cursors.allocate t now).2 := by rw [ha]
  subst e
  exact {
    lane     := h.lane
    durable  := h.durable
    reserved := by simpa [CursorAllocator.allocate] using h.reserved
    backed   := by simpa [CursorAllocator.allocate] using h.backed
    mark     := by
      rintro _ ⟨⟩ t' c' hp
      exact CursorAllocator.allocate_previous <| h.mark d rfl t' c' hp
    owner    := by simpa [CursorAllocator.allocate] using h.owner }

-- A higher bound may replace the one on disk, and then the one in memory.
theorem raise {s : PersistentState} {needed : TaiCursor} (h : MemberInv owner store (some d) P)
    (hs : s.cursorReservation = some needed) (hn : ∀ r ∈ d.cursors.reserved, r < needed) :
    MemberInv owner (some s) (some d) P where
  lane       := h.lane
  durable t c hp :=
    have ⟨r, hr, hc⟩ := h.reserved d rfl t c hp
    ⟨needed, hs, hc.trans (hn r hr).le⟩
  reserved   := h.reserved
  backed     := by
    rintro _ ⟨⟩ r hr
    exact ⟨needed, hs, (hn r hr).le⟩
  mark       := h.mark
  owner      := h.owner

theorem confirm {s : PersistentState} {needed : TaiCursor} (h : MemberInv owner (some s) (some d) P)
    (hs : s.cursorReservation = some needed) (hn : ∀ r ∈ d.cursors.reserved, r < needed) :
    MemberInv owner (some s)
      (some { d with cursors := d.cursors.confirmReservation needed }) P where
  lane       := h.lane
  durable    := h.durable
  reserved   := by
    rintro _ ⟨⟩ t c hp
    have ⟨r, hr, hc⟩ := h.reserved d rfl t c hp
    exact ⟨needed, CursorAllocator.confirmReservation_reserved hn, hc.trans (hn r hr).le⟩
  backed     := by
    rintro _ ⟨⟩ r hr
    rw [CursorAllocator.confirmReservation_reserved hn] at hr
    exact ⟨needed, hs, by simp_all⟩
  mark       := by
    rintro _ ⟨⟩ t c hp
    have := h.mark d rfl t c hp
    rw [CursorAllocator.covers_previous] at this ⊢
    simpa using this
  owner      := by simpa using h.owner

-- A cursor in the lane, under the reservation in memory and under the mark may be handed out.
theorem handOut (h : MemberInv owner store (some d) P) (hl : ownerOf c = owner)
    (hr : Covers d.cursors.reserved c) (hm : Covers (d.cursors.previous t) c) :
    MemberInv owner store (some d) (fun t' c' => P t' c' ∨ t' = t ∧ c' = c) where
  lane     := by rintro t' c' (hp | ⟨rfl, rfl⟩); exacts [h.lane t' c' hp, hl]
  durable  := by
    rintro t' c' (hp | ⟨rfl, rfl⟩)
    · exact h.durable t' c' hp
    · have ⟨r, hr, hc⟩ := hr
      exact (h.backed d rfl r hr).of_le hc
  reserved := by rintro _ ⟨⟩ t' c' (hp | ⟨rfl, rfl⟩); exacts [h.reserved d rfl t' c' hp, hr]
  backed   := h.backed
  mark     := by rintro _ ⟨⟩ t' c' (hp | ⟨rfl, rfl⟩); exacts [h.mark d rfl t' c' hp, hm]
  owner    := h.owner

theorem allocate (h : MemberInv owner store (some d) P)
    (e : d.allocateCursor t now store o = (cursor, d', store')) :
    MemberInv owner store' (some d') (fun t' c => P t' c ∨ t' = t ∧ c ∈ cursor) := by
  obtain ⟨c, cursors, ha⟩ : ∃ c cursors, d.cursors.allocate t now = (c, cursors) := ⟨_, _, rfl⟩
  have ha' := h.allocated ha
  have hl : ownerOf c = owner := by
    rw [← h.owner d rfl, ← CursorAllocator.ownerOf_candidate t now]
    simp [CursorAllocator.allocate] at ha
    rw [ha.1]
  have hm : Covers (cursors.previous t) c := by
    have := CursorAllocator.allocate_previous_self d.cursors t now
    rwa [ha] at this
  obtain ⟨hc, rfl, rfl, rfl⟩ | ⟨needed, hc, hr, h'⟩ := Durable.allocateCursor_cases ha e
  · exact (ha'.handOut hl hc hm).congr (by simp [eq_comm])
  obtain ⟨rfl, rfl, rfl⟩ | ⟨rfl, rfl, rfl | rfl⟩ := h'
  · have hi := (ha'.raise (s := d.state needed) rfl hr).confirm rfl hr
    refine (hi.handOut (t := t) hl ?_ ?_).congr (by simp [eq_comm])
    · exact ⟨needed, CursorAllocator.confirmReservation_reserved hr, hc.le⟩
    · rw [CursorAllocator.covers_previous] at hm ⊢
      simpa using hm
  · exact (ha'.raise (s := d.state needed) rfl hr).congr (by simp)
  · exact ha'.congr (by simp)

-- What is returned is above everything the member handed out of the type.
theorem allocate_lt (h : MemberInv owner store (some d) P) {c' : TaiCursor}
    (e : d.allocateCursor t now store o = (some c, d', store')) (hp : P t c') : c' < c := by
  have hlt := CursorAllocator.lt_candidate now <| h.mark d rfl t c' hp
  obtain ⟨_, hc, _⟩ | ⟨_, _, _, ⟨hc, _⟩ | ⟨hc, _⟩⟩ := Durable.allocateCursor_cases rfl e <;> cases hc
  all_goals exact hlt

end MemberInv

-- Every member's file and process cover what it handed out, and each member went only upwards.
structure Inv (hn : n ≤ MAX_OWNERS) (w : World n) : Prop where
  member     : ∀ i, MemberInv (ownerIndex hn i) (w.store i) (w.process i) (w.Issued i)
  increasing : w.issued.Pairwise fun x y =>
    x.member = y.member → x.type = y.type → x.cursor < y.cursor

namespace Inv

variable {hn : n ≤ MAX_OWNERS} {w w' : World n} {i : Fin n}

-- A step of one member changes nothing for the others.
theorem set {store : TermStore} {process : Option Durable} (h : Inv hn w)
    (hi : MemberInv (ownerIndex hn i) store process (w.Issued i)) :
    Inv hn (w.set i store process) where
  member j := by
    by_cases hj : j = i
    · subst hj
      simpa [World.set_self] using hi
    · simpa [World.set_other hj] using h.member j
  increasing := h.increasing

theorem issue {t : ResourceType} {store : TermStore} {d : Durable} {cursor : Option TaiCursor}
    (h : Inv hn w)
    (hi : MemberInv (ownerIndex hn i) store (some d)
      (fun t' c => w.Issued i t' c ∨ t' = t ∧ c ∈ cursor))
    (hc : ∀ c ∈ cursor, ∀ c', w.Issued i t c' → c' < c) :
    Inv hn ((w.set i store (some d)).issue i t cursor) where
  member j := by
    by_cases hj : j = i
    · subst hj
      refine MemberInv.congr ?_ fun t' c => World.issue_issued
      simpa [World.set_self] using hi
    · refine MemberInv.congr ?_ fun t' c => World.issue_issued
      simpa [World.set_other hj, hj] using h.member j
  increasing := by
    refine List.pairwise_append.mpr ⟨h.increasing, ?_, ?_⟩
    · cases cursor <;> simp
    · rintro ⟨j, t', c'⟩ hx y hy rfl rfl
      simp only [List.mem_map, Option.mem_toList] at hy
      obtain ⟨c, hc', rfl⟩ := hy
      exact hc c hc' c' hx

theorem step (h : Inv hn w) {a : Action n} (e : step hn w a = some w') : Inv hn w' := by
  cases a with
  | start i o =>
    simp only [CursorRuns.step] at e
    split at e
    case h_1 loaded hp hl =>
      cases e
      exact h.set <| (hp ▸ h.member i).start hl
    case h_2 => cases e
  | crash i =>
    cases e
    exact h.set (h.member i).crash
  | allocate i t now o =>
    obtain ⟨d, hd, e⟩ := Option.bind_eq_some_iff.mp e
    obtain ⟨cursor, d', store, ha⟩ : ∃ cursor d' store,
      d.allocateCursor t now (w.store i) o = (cursor, d', store) := ⟨_, _, _, rfl⟩
    simp only [ha] at e
    cases e
    have hm := hd ▸ h.member i
    exact h.issue (hm.allocate ha) fun c hc c' hp => hm.allocate_lt (hc ▸ ha) hp
  | observe i t c =>
    obtain ⟨d, hd, e⟩ := Option.bind_eq_some_iff.mp e
    cases e
    exact h.set (hd ▸ h.member i).observe
  | persist i term votedFor o =>
    obtain ⟨d, hd, e⟩ := Option.bind_eq_some_iff.mp e
    cases e
    exact h.set (hd ▸ h.member i).persist

end Inv

theorem inv_of_reachable {hn : n ≤ MAX_OWNERS} {w : World n} (h : (system hn).Reachable w) :
    Inv hn w := by
  refine h.induct ?_ fun _ _ _ _ hi _ e => hi.step e
  exact {
    member _ := ⟨by simp [World.Issued, system, World.init], by simp [World.Issued, system, World.init],
      by simp [system, World.init], by simp [system, World.init], by simp [system, World.init],
      by simp [system, World.init]⟩
    increasing := .nil }

-- No cursor is handed out twice for a type, by whichever members and incarnations, and what each
-- member hands out for a type strictly increases.
theorem cursors_unique {n : Nat} (hn : n ≤ MAX_OWNERS) (w : World n)
    (h : (system hn).Reachable w) :
    w.issued.Pairwise (fun x y => x.type = y.type → x.cursor ≠ y.cursor) ∧
    w.issued.Pairwise (fun x y => x.member = y.member → x.type = y.type → x.cursor < y.cursor) := by
  have hi := inv_of_reachable h
  refine ⟨hi.increasing.imp_of_mem ?_, hi.increasing⟩
  rintro ⟨i, t, c⟩ ⟨j, _, c'⟩ hx hy hlt rfl rfl
  have e : (ownerIndex hn i : Int) = ownerIndex hn j :=
    (hi.member i).lane t c hx ▸ (hi.member j).lane t c hy
  have hij : i = j := Fin.ext <| Int.ofNat_inj.mp e
  exact lt_irrefl c (hlt hij rfl)

-- Two members whose clocks are frozen at one instant; the first restarts, and a reservation fails.
def frozenClock : List (Action 2) :=
  let now : TaiCursor := ⟨100, 16⟩
  [.start 0 .saved, .start 1 .saved, .allocate 0 .node now .saved, .allocate 1 .node now .saved,
    .allocate 0 .node now .saved, .crash 0, .start 0 .saved, .allocate 0 .node now .failedAfter,
    .persist 0 7 none .saved, .allocate 0 .node now .saved]

theorem cursors_unique_frozenClock : ∃ w, (system (n := 2) (by decide)).run (.init 2) frozenClock =
      some w ∧ w.issued.map (·.cursor) = [⟨100, 16⟩, ⟨100, 17⟩, ⟨100, 24⟩, ⟨101, 32⟩] ∧
    w.issued.Pairwise (fun x y => x.type = y.type → x.cursor ≠ y.cursor) ∧
    w.issued.Pairwise (fun x y => x.member = y.member → x.type = y.type → x.cursor < y.cursor) :=
  ⟨_, rfl, by decide, cursors_unique (by decide) _ (.of_run frozenClock rfl)⟩

end Raft.CursorRuns
