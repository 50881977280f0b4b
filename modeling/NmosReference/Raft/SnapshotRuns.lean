import NmosReference.Raft.SnapshotPinned

namespace Raft

open Registry RegistryStore TransitionSystem

section Runs

variable [Python] {m m₀ : StateMachine} {s s₁ : Serialising} {a : CaptureStep} {snap : Snapshot}
variable {as : List CaptureStep} {index term : Nat} {s₀ : RegistryStore}

-- What is applied came out of the log, so it was proposed.
def CaptureStep.WellFormed : CaptureStep → Prop
  | .resume        => True
  | .apply _ entry => entry.value.WellFormed

-- What is applied while the capture is open disturbs no tombstone of the pinned state.
def Spares (s₀ : RegistryStore) (s : Serialising) : CaptureStep → Prop
  | .resume        => True
  | .apply _ entry =>
    s.machine.lastApplied < entry.index → ∀ k, Tombstone s₀ k → ¬Disturbs s.machine k entry.value

-- The invariant of a capture that is still open.
structure Open (m₀ : StateMachine) (s₀ : RegistryStore) (as : List CaptureStep) (c : SnapshotCapture)
    (s : Serialising) : Prop where
  result  : s.result = none
  capture : s.machine.capture = some c
  sound   : s.machine.store.Sound
  inv     : CaptureInv s₀ s.machine.store c
  walked  : Walked s₀ c s.walk
  spared  : (∀ k, Tombstone s₀ k → ¬c.Touched k) ↔
    (serialising m₀).Along (Spares s₀) (serialising m₀).init as

namespace Open

variable {c : SnapshotCapture}

theorem start (hs : m.store.Sound) (h : m.beginCapture index term = some m₀) :
    Open m₀ m.store [] (.new index term m.ownership) (serialising m₀).init := by
  unfold StateMachine.beginCapture at h
  split at h <;> cases h
  exact {
    result  := rfl
    capture := rfl
    sound   := hs
    inv     := .start
    walked  := .start
    spared  := by simp [SnapshotCapture.new, SnapshotCapture.Touched, Dict.contains, Along] }

theorem apply {now : TaiCursor} {entry : Entry RegistryOperation} (h : Open m₀ s₀ as c s)
    (hrun : (serialising m₀).run (serialising m₀).init as = some s) (ha : entry.value.WellFormed)
    (e : s.step (.apply now entry) = some s₁) :
    ∃ c', Open m₀ s₀ (as ++ [.apply now entry]) c' s₁ := by
  simp only [Serialising.step, h.result, Option.isNone_none, ↓reduceIte, Option.some.injEq] at e
  subst e
  obtain ⟨c', hc, hi, ht, hk⟩ := applyEntry_captured now h.capture h.inv h.sound ha
  refine ⟨c', rfl, hc, StateMachine.applyEntry_sound h.sound entry, hi, h.walked.touch ht, ?_⟩
  rw [along_concat hrun, ← h.spared]
  constructor
  · intro hn
    exact ⟨fun k hk' => hn k hk' ∘ ht k, fun hl k hk' hd => hn k hk' ((hk k hk').mpr (.inr ⟨hl, hd⟩))⟩
  · rintro ⟨hn, hsp⟩ k hk' htouch
    obtain htouch | ⟨hl, hd⟩ := (hk k hk').mp htouch
    · exact hn k hk' htouch
    · exact hsp hl k hk' hd

theorem resume (h : Open m₀ s₀ as c s) (hw : s₀.WellFormed)
    (hrun : (serialising m₀).run (serialising m₀).init as = some s)
    (e : s.step .resume = some s₁) :
    Open m₀ s₀ (as ++ [.resume]) c s₁ ∨ ∃ recs walk, s₁.result = some (c.finish walk) ∧
      Pinned s₀ (fun k => (∃ r, s₀.get k.1 k.2 = some r) ∨ c.Touched k) (c.finish walk).records recs := by
  obtain ⟨hwalk, hend⟩ := h.walked.resume h.inv hw h.sound.wellFormed
  simp only [Serialising.step, h.result, h.capture] at e
  split at e
  case h_1 walk he =>
    cases e
    rw [he] at hwalk
    refine .inl ⟨rfl, h.capture, h.sound, h.inv, hwalk, ?_⟩
    rw [along_concat hrun, h.spared]
    simp [Spares]
  case h_2 walk he =>
    cases e
    rw [he] at hwalk hend
    obtain ⟨hts, hcur⟩ := hend rfl
    obtain ⟨recs, hp⟩ := hwalk.finish h.inv hw hts hcur
    exact .inr ⟨recs, walk, rfl, hp⟩

end Open

-- While there is no snapshot, the capture is open; once there is one, nothing more is done.
theorem serialising_inv (hs : m.store.Sound) (hb : m.beginCapture index term = some m₀)
    (hops : ∀ a ∈ as, a.WellFormed)
    (hrun : (serialising m₀).run (serialising m₀).init as = some s) :
    (∃ c, Open m₀ m.store as c s) ∨ ∃ (c : SnapshotCapture) (recs : List RegisteredResource) (walk : Walk),
      s.result = some (c.finish walk) ∧ Pinned m.store (fun k => (∃ r, m.store.get k.1 k.2 = some r) ∨ c.Touched k)
        (c.finish walk).records recs ∧
      ((∀ k, Tombstone m.store k → ¬c.Touched k) ↔
        (serialising m₀).Along (Spares m.store) (serialising m₀).init as) := by
  induction as using List.reverseRecOn generalizing s with
  | nil =>
    cases hrun
    exact .inl ⟨_, .start hs hb⟩
  | append_singleton as a hi =>
    obtain ⟨s₁, hrun₁, e⟩ := run_concat hrun
    have e : s₁.step a = some s := e
    obtain ⟨c, ho⟩ | ⟨c, recs, walk, hr, _⟩ := hi (fun a ha => hops a (by simp [ha])) hrun₁
    · cases a with
      | apply now entry =>
        exact .inl <| ho.apply hrun₁ (hops (.apply now entry) (by simp)) e
      | resume =>
        obtain ho' | ⟨recs, walk, hr, hp⟩ := ho.resume hs.wellFormed hrun₁ e
        · exact .inl ⟨c, ho'⟩
        · refine .inr ⟨c, recs, walk, hr, hp, ?_⟩
          rw [along_concat hrun₁, ho.spared]
          simp [Spares]
    · cases a <;> simp [Serialising.step, hr] at e

-- The finished snapshot is the pinned image exactly if no tombstone was disturbed meanwhile.
theorem snapshot_faithful_iff (hm : m.Reached) (hb : m.beginCapture index term = some m₀)
    (hops : ∀ a ∈ as, a.WellFormed)
    (hrun : (serialising m₀).run (serialising m₀).init as = some s) (hr : s.result = some snap) :
    Faithful m.store snap ↔
      (serialising m₀).Along (Spares m.store) (serialising m₀).init as := by
  obtain ⟨c, ho⟩ | ⟨c, recs, walk, hr', hp, hsp⟩ := serialising_inv hm.sound hb hops hrun
  · simp [ho.result] at hr
  · obtain rfl := Option.some.inj (hr'.symm.trans hr)
    rw [hp.faithful_iff hm.sound rfl, hsp]

end Runs

-- A Node that is deleted, and registered again while a snapshot is being serialised.
namespace Revival

def text : String :=
  "\x7b\"id\": \"n\", \"version\": \"1:0\"\x7d"

local instance python : Python :=
  .ofTable [(text, [("id", "n"), ("version", "1:0")])]

def register : RegisterOp where
  proposal      := ⟨1, 1⟩
  resourceType  := .node
  resourceId    := "n"
  nodeId        := "n"
  bodyText      := text
  created       := ⟨1, 0⟩
  updated       := ⟨1, 0⟩
  health        := 1
  expectCreated := true
  claimOwner    := none

def machine : StateMachine :=
  let m := StateMachine.new (.new 12 3600) (.new ⟨1, one_lt_maxOwners⟩)
  let m := (m.applyEntry ⟨1, 0⟩ ⟨1, 1, .register register⟩).2.2
  (m.applyEntry ⟨2, 0⟩ ⟨1, 2, .unregister ⟨1, 2⟩ .node "n"⟩).2.2

def pinned : StateMachine :=
  { machine with capture := some <| .new 2 1 machine.ownership }

def revive : List CaptureStep :=
  [.apply ⟨3, 0⟩ ⟨1, 3, .register register⟩, .resume]

-- The tombstone, photographed as it was before it was replaced.
def snapshot : Snapshot where
  lastIndex := 2
  lastTerm  := 1
  count     := 1
  ownership := []
  records   := [⟨"node", "n", "1:0", ⟨1, 0⟩, ⟨1, 0⟩, false, 2, "", text⟩]

theorem machine_reached : machine.Reached :=
  .apply <| .apply .new

theorem revive_wellFormed : ∀ a ∈ revive, a.WellFormed := by
  simp only [revive, List.forall_mem_cons]
  exact ⟨rfl, trivial, by simp⟩

theorem run_revive : ((serialising pinned).run (serialising pinned).init revive).bind (·.result) =
    some snapshot := by
  decide

theorem snapshot_faithful_iff_revive :
    Faithful machine.store snapshot ↔
      (serialising pinned).Along (Spares machine.store) (serialising pinned).init revive :=
  have ⟨_, hrun, hr⟩ := Option.bind_eq_some_iff.mp run_revive
  snapshot_faithful_iff machine_reached rfl revive_wellFormed hrun hr

-- Installing the snapshot brings the deleted Node back.
theorem snapshot_revives :
    ∃ (s : Serialising), machine.Reached ∧ machine.beginCapture 2 1 = some pinned ∧
      (∀ a ∈ revive, a.WellFormed) ∧
      (serialising pinned).run (serialising pinned).init revive = some s ∧
      s.result = some snapshot ∧ ¬Faithful machine.store snapshot := by
  have ⟨s, hrun, hr⟩ := Option.bind_eq_some_iff.mp run_revive
  refine ⟨s, machine_reached, rfl, revive_wellFormed, hrun, hr, fun ⟨_, records, hd, _, h⟩ => ?_⟩
  have ⟨store, hi, hv⟩ := h 12 3600 ⟨4, 0⟩
  have hn : machine.store.get .node "n" = none := by decide
  have hx : ((decodeSnapshot snapshot).bind fun p => install p.2 12 3600 ⟨4, 0⟩).all
      (fun store => (store.get .node "n").isSome) = true := by decide
  have hnone := hv .node "n"
  rw [hn, Option.map_none, Option.map_eq_none_iff] at hnone
  simp [hd, hi, hnone] at hx

end Revival
end Raft
