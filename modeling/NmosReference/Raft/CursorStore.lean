import NmosReference.Library.Transition
import NmosReference.Raft.CursorMarks
import NmosReference.Raft.SnapshotPinned
import NmosReference.Registry.StoreOrder

-- One member, its store, and the cursors that it allocates.
namespace Raft

open Registry RegistryStore TransitionSystem

-- A running member. The allocator is the one of its state machine.
structure MemberProcess where
  term        : Nat
  votedFor    : Option Nat
  incarnation : Nat
  machine     : StateMachine

namespace MemberProcess

def durable (p : MemberProcess) : Durable where
  term        := p.term
  votedFor    := p.votedFor
  incarnation := p.incarnation
  cursors     := p.machine.cursors

def withDurable (p : MemberProcess) (d : Durable) : MemberProcess where
  term        := d.term
  votedFor    := d.votedFor
  incarnation := d.incarnation
  machine     := { p.machine with cursors := d.cursors }

-- A member comes up with an empty store.
def start (owner : Fin MAX_OWNERS) (gcInterval forgetInterval : Rat) (loaded : PersistentState) :
    MemberProcess :=
  let d := Durable.start owner loaded
  { term        := d.term
    votedFor    := d.votedFor
    incarnation := d.incarnation
    machine     := .new (.new gcInterval forgetInterval) d.cursors }

end MemberProcess

structure Member where
  disk    : TermStore
  process : Option MemberProcess

inductive MemberOp
  | start    (o : SaveOutcome)
  | crash
  -- A term or vote save.
  | persist  (term : Nat) (votedFor : Option Nat) (o : SaveOutcome)
  | apply    (entry : Entry RegistryOperation) (now : TaiCursor)
  | install  (snapshot : Snapshot) (now : TaiCursor)
  | allocate (t : ResourceType) (now : TaiCursor) (o : SaveOutcome)

-- The cursor that a proposer put into an operation was allocated from a clock.
def RegistryOperation.Dated : RegistryOperation → Prop
  | .register op => IsReading op.updated
  | _            => True

instance {op : RegistryOperation} : Decidable op.Dated :=
  match op with
  | .register op => inferInstanceAs <| Decidable (IsReading op.updated)
  | .noop _ | .unregister .. | .expire .. | .forget .. => .isTrue trivial
  | .claimOwnership .. | .releaseOwnership .. | .memberDown .. => .isTrue trivial

namespace Member

variable [Python]

def step (owner : Fin MAX_OWNERS) (gcInterval forgetInterval : Rat) (m : Member) :
    MemberOp → Option Member
  | .start o =>
    match m.process, m.disk.load with
    | none, some loaded => some
      { disk    := m.disk.save loaded o
        process := if o = .saved then some (.start owner gcInterval forgetInterval loaded) else none }
    | _, _              => none
  | .crash => some { m with process := none }
  | .persist term votedFor o => do
    let p ← m.process
    let d := { p.durable with term, votedFor }
    some { disk := d.persist m.disk o, process := some (p.withDurable d) }
  | .apply entry now => do
    let p ← m.process
    if entry.value.Dated then
      some { m with process := some { p with machine := (p.machine.applyEntry now entry).2.2 } }
    else
      none
  | .install snapshot now => do
    let p ← m.process
    let machine ← p.machine.installPayload snapshot now
    some { m with process := some { p with machine } }
  | .allocate t now o => do
    let p ← m.process
    if IsReading now then
      let (_, d, disk) := p.durable.allocateCursor t now m.disk o
      some { disk, process := some (p.withDurable d) }
    else
      none

def system (owner : Fin MAX_OWNERS) (gcInterval forgetInterval : Rat) :
    TransitionSystem Member MemberOp where
  init := { disk := none, process := none }
  step := step owner gcInterval forgetInterval

-- Whatever the clock reads and however the save ends, a cursor that the member hands out for a type is
-- above the cursors of all resources of the type in its store.
def Above (m : Member) : Prop :=
  ∀ p ∈ m.process, ∀ t id r, p.machine.store.record t id = some r → ∀ now o c d disk, IsReading now →
    p.durable.allocateCursor t now m.disk o = (some c, d, disk) → r.created < c ∧ r.updated < c

-- The cursors of a store lie below what the allocator can still hand out.
def Marked (store : RegistryStore) (cursors : CursorAllocator) : Prop :=
  ∀ t id r, store.record t id = some r → ∀ o, cursors.Below t (cursorOf r o)

instance {store : RegistryStore} {cursors : CursorAllocator} : Decidable (Marked store cursors) :=
  decidable_of_iff (∀ t ∈ ResourceType.all, ∀ r ∈ (store.byType t).values,
      cursors.Below t r.created ∧ cursors.Below t r.updated) <| by
    constructor
    · intro h t id r hr o
      have hb := h t (ResourceType.mem_all t) r (Dict.mem_values.mpr ⟨id, hr⟩)
      cases o
      · exact hb.1
      · exact hb.2
    · intro h t _ r hr
      obtain ⟨id, hr⟩ := Dict.mem_values.mp hr
      exact ⟨h t id r hr .create, h t id r hr .update⟩

-- A snapshot that is installed restores a store whose cursors the member's marks cover already.
def Covered (m : Member) : MemberOp → Prop
  | .install snapshot now => ∀ p ∈ m.process, ∀ machine ∈ p.machine.installPayload snapshot now,
    Marked machine.store p.machine.cursors
  | _                     => True

instance {m : Member} {a : MemberOp} : Decidable (m.Covered a) :=
  match a with
  | .install _ _ => inferInstanceAs <| Decidable (∀ _ ∈ _, ∀ _ ∈ _, Marked _ _)
  | .start _ | .crash | .persist .. | .apply .. | .allocate .. => .isTrue trivial

end Member

section Apply

variable [Python] {m m' : StateMachine} {now : TaiCursor} {index : Nat} {owner : Fin MAX_OWNERS}

-- What applying an entry does to the marks and to the cursors of the records: each is as it was, or
-- has been observed.
structure Observes (m m' : StateMachine) : Prop where
  rises    : m.cursors.Rises m'.cursors
  proper   : m.cursors.Proper → m'.cursors.Proper
  reserved : m'.cursors.reserved = m.cursors.reserved
  record   : ∀ t id r, m'.store.record t id = some r → ∀ o,
    (∃ r₀, m.store.record t id = some r₀ ∧ cursorOf r o = cursorOf r₀ o) ∨
      Covers (m'.cursors.previous t) (cursorOf r o)

omit [Python] in
theorem Observes.of_record (hc : m'.cursors = m.cursors)
    (h : ∀ t id r, m'.store.record t id = some r →
      ∃ r₀, m.store.record t id = some r₀ ∧ ∀ o, cursorOf r o = cursorOf r₀ o) : Observes m m' where
  rises         := hc ▸ .refl
  proper hp     := hc ▸ hp
  reserved      := hc ▸ rfl
  record t id r e o :=
    have ⟨r₀, h₀, hr⟩ := h t id r e
    .inl ⟨r₀, h₀, hr o⟩

omit [Python] in
theorem Observes.of_store (hc : m'.cursors = m.cursors) (hs : m'.store = m.store) : Observes m m' :=
  .of_record hc fun _ _ r e => ⟨r, hs ▸ e, fun _ => rfl⟩

omit [Python] in
theorem Observes.of_sameCursors (hc : m'.cursors = m.cursors) (hs : m.store.SameCursors m'.store) :
    Observes m m' :=
  .of_record hc fun t id r e => by
    have hr := hs.record t id
    rw [e] at hr
    obtain ⟨r₀, h₀, h⟩ := Option.map_eq_some_iff.mp hr.symm
    refine ⟨r₀, h₀, fun o => ?_⟩
    cases o
    · exact (congrArg (·.2.2.1) h).symm
    · exact (congrArg (·.2.2.2) h).symm

omit [Python] in
theorem forgetAll_record (victims : List ResourceKey) (n : Nat) {store : RegistryStore} {t : ResourceType}
    {id : String} {r : RegisteredResource} (hw : store.WellFormed)
    (h : (victims.foldl StateMachine.forgetOne (n, store)).2.record t id = some r) :
    store.record t id = some r := by
  induction victims generalizing n store with
  | nil => exact h
  | cons v victims hi =>
    have hf := forget_spec v.1 v.2 hw
    have hr := hi _ hf.1 h
    rw [hf.2.2.1] at hr
    split at hr
    · cases hr
    · exact hr

-- A registration observes the cursor that it files, and a creation files it for both orders.
theorem observes_acceptRegister {op : RegisterOp} {p : PreparedRegistration}
    (hw : m.store.WellFormed) (hd : IsReading op.updated)
    (ha : m.store.Accepts op.resourceType (Body.data ⟨op.bodyText⟩) p) :
    Observes m (m.acceptRegister now op p index).2.2 := by
  have hc : (m.acceptRegister now op p index).2.2.cursors = m.cursors.observe op.resourceType op.updated := by
    simp only [StateMachine.acceptRegister, StateMachine.captureBeforeMutating, StateMachine.fuseClaim]
    split <;> rfl
  have hs : (m.acceptRegister now op p index).2.2.store = (m.store.applyCommitted p ⟨op.bodyText⟩
      (some (if p.creates then op.updated else op.created)) op.updated op.health now).2 := by
    simp [StateMachine.acceptRegister, StateMachine.captureBeforeMutating]
  refine ⟨hc ▸ CursorAllocator.rises_observe, fun hp => hc ▸ hp.observe hd,
    hc ▸ CursorAllocator.observe_reserved, fun t id r e o => ?_⟩
  rw [hs] at e
  have hreg := (applyCommitted_registered ⟨op.bodyText⟩
    (some (if p.creates then op.updated else op.created)) op.updated op.health now hw ha rfl).1
  rw [hreg.record] at e
  split at e
  case isFalse => exact .inl ⟨r, e, rfl⟩
  case isTrue hk =>
    cases e
    obtain ⟨rfl, rfl⟩ := hk
    have hcov : Covers ((m.acceptRegister now op p index).2.2.cursors.previous p.resourceType) op.updated := by
      rw [hc, ha.type]
      exact CursorAllocator.observe_covers
    cases o with
    | update => exact .inr hcov
    | create =>
      cases hg : m.store.get p.resourceType p.resourceId with
      | some r₀ => exact .inl ⟨r₀, (get_eq_some.mp hg).1, by simp [cursorOf, committed, hg]⟩
      | none    =>
        have hcr : p.creates = true := by
          rw [ha.creates, ha.reviving, ← ha.type]
          cases hrec : m.store.record p.resourceType p.resourceId with
          | none    => rfl
          | some r₀ =>
            have hx : r₀.extant = false := by simpa [RegistryStore.get, hrec] using hg
            simp [hx]
        exact .inr (by simpa [cursorOf, committed, hg, hcr] using hcov)

theorem observes_applyEntry {entry : Entry RegistryOperation} (hs : m.store.Sound)
    (hd : entry.value.Dated) : Observes m (m.applyEntry now entry).2.2 := by
  unfold StateMachine.applyEntry
  split
  · exact .of_store rfl rfl
  suffices h : Observes m (m.applyOne now entry.index entry.value).2.2 from
    ⟨h.rises, h.proper, h.reserved, h.record⟩
  have hw := hs.wellFormed
  cases e : entry.value with
  | noop _ | claimOwnership _ _ _ | releaseOwnership _ _ | memberDown _ _ => exact .of_store rfl rfl
  | register op =>
    rw [e] at hd
    simp only [StateMachine.applyOne, StateMachine.applyRegister]
    split
    · exact .of_store rfl rfl
    case h_2 p hp => exact observes_acceptRegister hw hd (prepare_eq_ok.mp hp)
  | unregister _ t x =>
    simp only [StateMachine.applyOne, StateMachine.applyUnregister_machine]
    exact .of_sameCursors rfl (.delete t x now.seconds hw.keyed)
  | expire _ nodeId =>
    simp only [StateMachine.applyOne, StateMachine.applyExpire_machine]
    exact .of_sameCursors rfl (.delete .node nodeId now.seconds hw.keyed)
  | forget _ victims =>
    simp only [StateMachine.applyOne, StateMachine.applyForget]
    obtain ⟨capture, he⟩ := StateMachine.captureVictims_eq m victims
    rw [he]
    exact .of_record rfl fun t id r e => ⟨r, forgetAll_record victims 0 hw e, fun _ => rfl⟩

-- An install leaves the allocator alone.
theorem installPayload_cursors {snapshot : Snapshot} (h : m.installPayload snapshot now = some m') :
    m'.cursors = m.cursors := by
  obtain ⟨_, _, h⟩ := Option.bind_eq_some_iff.mp h
  obtain ⟨_, _, h⟩ := Option.bind_eq_some_iff.mp h
  cases h
  rfl

end Apply

namespace Member

variable [Python] {owner : Fin MAX_OWNERS} {gc forget : Rat} {m m' : Member}

-- A running member whose cursors are in order.
structure Orderly (p : MemberProcess) : Prop where
  sound  : p.machine.store.Sound
  proper : p.machine.cursors.Proper
  saved  : ∀ c ∈ p.machine.cursors.reserved, IsReading c
  marked : Marked p.machine.store p.machine.cursors

structure Inv (m : Member) : Prop where
  disk    : m.disk.Readings
  process : ∀ p ∈ m.process, Orderly p

omit [Python] in
-- Handing out a cursor above all of them and lying below the next place is the same thing.
theorem above_iff (hp : ∀ p ∈ m.process, p.machine.cursors.Proper) :
    m.Above ↔ ∀ p ∈ m.process, Marked p.machine.store p.machine.cursors := by
  constructor
  · intro h p hm t id r hr o
    rw [← CursorAllocator.lt_candidate_iff (hp p hm)]
    intro now hn
    obtain ⟨d, disk, e⟩ := Durable.allocateCursor_saved p.durable t now m.disk
    have ⟨hc, hu⟩ := h p hm t id r hr now _ _ d disk hn e
    cases o <;> assumption
  · intro h p hm t id r hr now o c d disk hn e
    have hc := Durable.allocateCursor_some e
    have hlt : ∀ o, cursorOf r o < c := fun o => by
      rw [hc]
      exact (CursorAllocator.lt_candidate_iff (hp p hm) t _).mpr (h p hm t id r hr o) now hn
    exact ⟨hlt .create, hlt .update⟩

theorem inv_init : (system owner gc forget).init.Inv where
  disk    := by simp [system, TermStore.Readings]
  process := by simp [system]

omit [Python] in
theorem Marked.observes {a a' : StateMachine} (h : Marked a.store a.cursors) (ho : Observes a a')
    (hp : a.cursors.Proper) : Marked a'.store a'.cursors := by
  intro t id r e o
  obtain ⟨r₀, h₀, hc⟩ | hc := ho.record t id r e o
  · rw [hc]
    exact (h t id r₀ h₀ o).mono hp (ho.proper hp) ho.rises
  · exact .of_covers hc

theorem Orderly.start {loaded : PersistentState} (h : ∀ c ∈ loaded.cursorReservation, IsReading c) :
    Orderly (.start owner gc forget loaded) where
  sound  := .new
  proper := ⟨by simp [MemberProcess.start, Durable.start, StateMachine.new, CursorAllocator.new,
    CursorAllocator.resume], h⟩
  saved  := h
  marked t id r e := by simp [MemberProcess.start, StateMachine.new, RegistryStore.new, record] at e

omit [Python] in
theorem load_readings {store : TermStore} {loaded : PersistentState} (h : store.Readings)
    (e : store.load = some loaded) : ∀ c ∈ loaded.cursorReservation, IsReading c := by
  cases store with
  | none       => simp [TermStore.load_none e]
  | some state =>
    rw [TermStore.load_some e]
    exact h state rfl

theorem Inv.step {a : MemberOp} (h : m.Inv) (hok : m.Covered a) (e : m.step owner gc forget a = some m') :
    m'.Inv := by
  cases a with
  | start o =>
    simp only [Member.step] at e
    split at e <;> cases e
    case h_1 loaded _ hl =>
    have hr := load_readings h.disk hl
    refine ⟨Durable.save_readings hr h.disk o, fun p hp => ?_⟩
    split at hp <;> cases hp
    exact .start hr
  | crash =>
    cases e
    exact ⟨h.disk, by simp⟩
  | persist term votedFor o =>
    obtain ⟨p, hp, e⟩ := Option.bind_eq_some_iff.mp e
    cases e
    have hi := h.process p hp
    refine ⟨Durable.save_readings hi.saved h.disk o, ?_⟩
    rintro _ ⟨⟩
    exact ⟨hi.sound, hi.proper, hi.saved, hi.marked⟩
  | apply entry now =>
    obtain ⟨p, hp, e⟩ := Option.bind_eq_some_iff.mp e
    simp only [Option.ite_none_right_eq_some] at e
    obtain ⟨hd, e⟩ := e
    cases e
    have hi := h.process p hp
    have ho : Observes p.machine (p.machine.applyEntry now entry).2.2 :=
      observes_applyEntry hi.sound hd
    refine ⟨h.disk, ?_⟩
    rintro _ ⟨⟩
    exact ⟨StateMachine.applyEntry_sound hi.sound entry, ho.proper hi.proper, ho.reserved ▸ hi.saved,
      hi.marked.observes ho hi.proper⟩
  | install snapshot now =>
    obtain ⟨p, hp, e⟩ := Option.bind_eq_some_iff.mp e
    obtain ⟨machine, hm, e⟩ := Option.bind_eq_some_iff.mp e
    cases e
    have hi := h.process p hp
    have hc := installPayload_cursors hm
    refine ⟨h.disk, ?_⟩
    rintro _ ⟨⟩
    exact ⟨(StateMachine.installPayload_spec hm).1, hc ▸ hi.proper, hc ▸ hi.saved, hc ▸ hok p hp machine hm⟩
  | allocate t now o =>
    obtain ⟨p, hp, e⟩ := Option.bind_eq_some_iff.mp e
    simp only [Option.ite_none_right_eq_some] at e
    obtain ⟨hn, e⟩ := e
    have hi := h.process p hp
    obtain ⟨⟨cursor, d, disk⟩, ha⟩ : ∃ x, p.durable.allocateCursor t now m.disk o = x := ⟨_, rfl⟩
    rw [ha] at e
    cases e
    have hp : p.durable.cursors.Proper := hi.proper
    obtain ⟨hrises, hproper⟩ := Durable.allocateCursor_rises hp hn ha
    obtain ⟨hsaved, hdisk⟩ := Durable.allocateCursor_readings hp hn hi.saved h.disk ha
    refine ⟨hdisk, ?_⟩
    rintro _ ⟨⟩
    exact ⟨hi.sound, hproper, hsaved, fun t id r e o => (hi.marked t id r e o).mono hp hproper hrises⟩

theorem inv_of_reaches (h : (system owner gc forget).Reaches Covered m) : m.Inv :=
  h.induct inv_init fun _ _ _ _ hi hok e => hi.step hok e

-- While every snapshot that is installed is covered by the marks of the member, whatever it hands out is
-- above its store; and an install that is not covered is followed by a state that is not.
theorem allocations_above (owner : Fin MAX_OWNERS) (gc forget : Rat) (m : Member)
    (h : (system owner gc forget).Reaches Covered m) :
    m.Above ∧ ∀ snapshot now m', m.step owner gc forget (.install snapshot now) = some m' →
      (m'.Above ↔ m.Covered (.install snapshot now)) := by
  have hi := inv_of_reaches h
  refine ⟨(above_iff fun p hp => (hi.process p hp).proper).mpr fun p hp => (hi.process p hp).marked, ?_⟩
  intro snapshot now m' e
  obtain ⟨p, hp, e⟩ := Option.bind_eq_some_iff.mp e
  obtain ⟨machine, hm, e⟩ := Option.bind_eq_some_iff.mp e
  cases e
  have hc := installPayload_cursors hm
  rw [above_iff (by rintro _ ⟨⟩; exact hc ▸ (hi.process p hp).proper)]
  constructor
  · intro ha p' hp' machine' hm'
    obtain rfl : p = p' := Option.some.inj (hp.symm.trans hp')
    obtain rfl : machine = machine' := Option.some.inj (hm.symm.trans hm')
    exact hc ▸ ha _ rfl
  · rintro hcov _ ⟨⟩
    exact hc ▸ hcov p hp machine hm

end Member

-- A member whose clock is behind the cursors of the snapshot that it is sent.
namespace Late

def text : String := "\x7b\"id\": \"n\", \"version\": \"1:0\"\x7d"

local instance python : Python := .ofTable [(text, [("id", "n"), ("version", "1:0")])]

def register : RegisterOp where
  proposal      := ⟨1, 1⟩
  resourceType  := .node
  resourceId    := "n"
  nodeId        := "n"
  bodyText      := text
  created       := ⟨10, 0⟩
  updated       := ⟨10, 0⟩
  health        := 10
  expectCreated := true
  claimOwner    := none

def snapshot : Snapshot where
  lastIndex := 1
  lastTerm  := 1
  count     := 1
  ownership := []
  records   := [⟨"node", "n", "1:0", ⟨10, 0⟩, ⟨10, 0⟩, true, 10, "", text⟩]

def member : TransitionSystem Member MemberOp :=
  Member.system ⟨1, one_lt_maxOwners⟩ 12 3600

-- A member that has applied the registration keeps above it, also when it is sent it once more.
theorem allocations_above_applied : ∃ m, member.runWhile Member.Covered member.init
      [.start .saved, .apply ⟨1, 1, .register register⟩ ⟨10, 0⟩, .install snapshot ⟨5, 0⟩] = some m ∧
    m.Above ∧ ∃ p ∈ m.process, (p.machine.store.record .node "n").isSome ∧
      (p.durable.allocateCursor .node ⟨5, 0⟩ m.disk .saved).1 = some ⟨10, 9⟩ :=
  have ⟨h, _⟩ := Member.allocations_above ⟨1, one_lt_maxOwners⟩ 12 3600 _
    (Run.of_runWhile [.start .saved, .apply ⟨1, 1, .register register⟩ ⟨10, 0⟩, .install snapshot ⟨5, 0⟩] rfl)
  ⟨_, rfl, h, _, rfl, by decide, by decide⟩

-- One that starts from the snapshot does not.
theorem install_unobserved : ∃ m, member.run member.init [.start .saved, .install snapshot ⟨5, 0⟩] = some m ∧
    ∃ p ∈ m.process, ∃ r, p.machine.store.record .node "n" = some r ∧
      ∃ c d disk, IsReading ⟨5, 0⟩ ∧ p.durable.allocateCursor .node ⟨5, 0⟩ m.disk .saved = (some c, d, disk) ∧
        c < r.created ∧ c < r.updated :=
  ⟨_, rfl, _, rfl, _, rfl, _, _, _, by decide, rfl, by decide, by decide⟩

end Late
end Raft
