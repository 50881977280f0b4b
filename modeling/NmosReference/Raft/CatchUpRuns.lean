import NmosReference.Raft.CatchUp

namespace Raft

open Registry RegistryStore TransitionSystem

section

variable [Python] {A R S m m₀ : StateMachine} {s : Serialising} {c : SnapshotCapture}
variable {as : List CaptureStep} {snap : Snapshot} {index term : Nat} {now : TaiCursor}
variable {clock clock' : Nat → TaiCursor} {log : List (Entry RegistryOperation)}

namespace StateMachine

-- A member applying a stretch of the log, entry after entry, at the clock readings it has then.
def applyLog (m : StateMachine) (clock : Nat → TaiCursor) (log : List (Entry RegistryOperation)) :
    List (ProposalId × Outcome) × List ResourceEvent × StateMachine :=
  m.apply <| log.map fun entry => (clock entry.index, entry)

-- The member after it.
def follow (m : StateMachine) (clock : Nat → TaiCursor) :
    List (Entry RegistryOperation) → StateMachine
  | []           => m
  | entry :: log => follow (m.applyEntry (clock entry.index) entry).2.2 clock log

-- What it answered for each entry.
def outcomes (m : StateMachine) (clock : Nat → TaiCursor) :
    List (Entry RegistryOperation) → List (Option Outcome)
  | []           => []
  | entry :: log =>
    let (outcome, _, m) := m.applyEntry (clock entry.index) entry
    outcome :: outcomes m clock log

theorem applyLog_eq : ∃ events, m.applyLog clock log =
    (((m.outcomes clock log).zip log).flatMap fun p => p.1.toList.map (p.2.value.proposal, ·), events,
      m.follow clock log) := by
  suffices h : ∀ out es m, ∃ events, (log.map fun e => (clock e.index, e)).foldl applyNext (out, es, m) =
      (out ++ ((m.outcomes clock log).zip log).flatMap
        fun p => p.1.toList.map (p.2.value.proposal, ·), events, m.follow clock log) by
    simpa [applyLog, apply_eq_foldl] using h [] [] m
  induction log with
  | nil => exact fun out es m => ⟨es, by simp [outcomes, follow]⟩
  | cons entry log hi =>
    intro out es m
    obtain ⟨events, h⟩ := hi (out ++ (m.applyEntry (clock entry.index) entry).1.toList.map
      (entry.value.proposal, ·)) (es ++ (m.applyEntry (clock entry.index) entry).2.1)
      (m.applyEntry (clock entry.index) entry).2.2
    exact ⟨events, by simpa [outcomes, follow, applyNext] using h⟩

end StateMachine

-- As two members apply the log, no id is registered under another type than that of a tombstone that
-- only the first member holds.
def NoClashes (R S : StateMachine) (clock clock' : Nat → TaiCursor) :
    List (Entry RegistryOperation) → Prop
  | []           => True
  | entry :: log => NoClash R S entry.value ∧
    NoClashes (R.applyEntry (clock entry.index) entry).2.2
      (S.applyEntry (clock' entry.index) entry).2.2 clock clock' log

instance decidableNoClashes (clock clock' : Nat → TaiCursor) : (R S : StateMachine) →
    (log : List (Entry RegistryOperation)) → Decidable (NoClashes R S clock clock' log)
  | _, _, []           => .isTrue trivial
  | R, S, entry :: log =>
    have := decidableNoClashes clock clock' (R.applyEntry (clock entry.index) entry).2.2
      (S.applyEntry (clock' entry.index) entry).2.2 log
    inferInstanceAs <| Decidable (_ ∧ _)

-- The answers of two members, compared entry by entry.
def verdicts (log : List (Entry RegistryOperation)) (outcomes : List (Option Outcome)) :
    List (Option Outcome) :=
  List.zipWith (fun entry outcome => entry.value.verdict outcome) log outcomes

namespace Follows

theorem refl (h : m.store.Sound) : Follows m m :=
  ⟨.refl h, fun _ => rfl, rfl⟩

theorem trans (h₁ : Follows R A) (h₂ : Follows A S) : Follows R S where
  store       := {
    sound  := h₁.store.sound
    sound' := h₂.store.sound'
    get    := fun t x => (h₂.store.get t x).trans (h₁.store.get t x)
    within := fun t x => h₁.store.within t x ∘ h₂.store.within t x }
  ownership   := fun x => (h₂.ownership x).trans (h₁.ownership x)
  lastApplied := h₂.lastApplied.trans h₁.lastApplied

theorem applyLog (h : Follows R S) (hn : NoClashes R S clock clock' log) :
    verdicts log (S.outcomes clock' log) = verdicts log (R.outcomes clock log) ∧
      Follows (R.follow clock log) (S.follow clock' log) := by
  induction log generalizing R S with
  | nil => exact ⟨rfl, h⟩
  | cons entry log hi =>
    have ⟨e, h'⟩ := h.applyEntry (clock entry.index) (clock' entry.index) hn.1
    have ⟨es, hf⟩ := hi h' hn.2
    refine ⟨?_, hf⟩
    simp only [verdicts, StateMachine.outcomes, List.zipWith_cons_cons]
    exact List.cons_eq_cons.mpr ⟨e, es⟩

-- Members that hold the same tombstones never clash.
theorem noClash (h : Follows S R) (op : RegistryOperation) : NoClash R S op := by
  cases op with
  | register op => exact fun _ _ _ ht _ => h.store.typeOf ht
  | _ => trivial

-- Two members that apply the same log from empty agree on everything, tombstones included.
theorem replicas (clock clock' : Nat → TaiCursor) (log : List (Entry RegistryOperation))
    (h₁ : Follows R A) (h₂ : Follows A R) :
    Follows (R.follow clock log) (A.follow clock' log) ∧
      Follows (A.follow clock' log) (R.follow clock log) := by
  induction log generalizing R A with
  | nil => exact ⟨h₁, h₂⟩
  | cons entry log hi => exact hi (h₁.applyEntry _ _ (h₂.noClash _)).2 (h₂.applyEntry _ _ (h₁.noClash _)).2

end Follows

-- A walk that nothing interrupts ends with the capture it began with.
theorem resumes_finish (hc : m₀.capture = some c) (has : ∀ a ∈ as, a = .resume)
    (hrun : (serialising m₀).run (serialising m₀).init as = some s) :
    (s.result = none ∧ s.machine = m₀) ∨ ∃ walk, s.result = some (c.finish walk) := by
  induction as using List.reverseRecOn generalizing s with
  | nil =>
    cases hrun
    exact .inl ⟨rfl, rfl⟩
  | append_singleton as a hi =>
    obtain ⟨s₁, hrun₁, e⟩ := run_concat hrun
    obtain rfl := has a (by simp)
    have e : s₁.step .resume = some s := e
    obtain ⟨hr, hm⟩ | ⟨walk, hr⟩ := hi (fun a ha => has a (by simp [ha])) hrun₁
    · simp only [Serialising.step, hr, hm, hc] at e
      split at e <;> cases e
      · exact .inl ⟨rfl, rfl⟩
      · exact .inr ⟨_, rfl⟩
    · simp [Serialising.step, hr] at e

theorem resumes_spare {s₀ : RegistryStore} (has : ∀ a ∈ as, a = .resume) :
    (serialising m₀).Along (Spares s₀) s as := by
  induction as generalizing s with
  | nil => trivial
  | cons a as hi =>
    obtain rfl := has a (by simp)
    exact ⟨trivial, fun _ _ => hi fun a ha => has a (by simp [ha])⟩

-- Installing a snapshot that was captured without interruption succeeds, and the member follows the
-- one that captured it.
theorem installPayload_follows (m : StateMachine) (now : TaiCursor) (hs : A.store.Sound) (hb : A.beginCapture A.lastApplied term = some m₀)
    (has : ∀ a ∈ as, a = .resume)
    (hrun : (serialising m₀).run (serialising m₀).init as = some s) (hr : s.result = some snap) :
    ∃ S, m.installPayload snap now = some S ∧ Follows A S := by
  have hops : ∀ a ∈ as, a.WellFormed := fun a ha => by
    rw [has a ha]
    trivial
  have hc : m₀.capture = some (.new A.lastApplied term A.ownership) := by
    unfold StateMachine.beginCapture at hb
    split at hb <;> cases hb
    rfl
  obtain ⟨_, ho⟩ | ⟨c, recs, walk, hr', hp, hsp⟩ := serialising_inv hs hb hops hrun
  · simp [ho.result] at hr
  obtain rfl := Option.some.inj (hr'.symm.trans hr)
  have ⟨walk', hf⟩ : ∃ walk', c.finish walk =
      (SnapshotCapture.new A.lastApplied term A.ownership).finish walk' := by
    obtain ⟨hn, _⟩ | ⟨walk', hw⟩ := resumes_finish hc has hrun
    · simp [hn] at hr
    · exact ⟨walk', Option.some.inj (hr.symm.trans hw)⟩
  have htomb := hsp.mpr (resumes_spare has)
  have ⟨store, hi, hsnd, hget, hext⟩ := hp.restores m.store.gcInterval
    m.store.forgetInterval now hs fun r hr => by
      simp only [keyOf, RegistryStore.get, hr, Option.filter_some]
      cases he : r.extant with
      | true  => simp
      | false => simpa using htomb _ ⟨r, hr, he⟩
  refine ⟨m.installSnapshot store (.decode (c.finish walk).ownership) (c.finish walk).lastIndex, ?_,
    ⟨hs, hsnd, hget, fun t x hx => ?_⟩, ?_, ?_⟩
  · simp [StateMachine.installPayload, hp.decodes hs rfl, hi]
  · obtain ⟨r, hr⟩ : ∃ r, store.record t x = some r := Option.isSome_iff_exists.mp hx
    have hx := congrArg Option.isSome (hget t x)
    rw [get_eq_some.mpr ⟨hr, hext _ _ _ hr⟩, Option.isSome_map, Option.isSome_map] at hx
    obtain ⟨q, hq⟩ := Option.isSome_iff_exists.mp hx.symm
    simp [(get_eq_some.mp hq).1]
  · rw [hf]
    exact OwnershipTable.same_decode_encode
  · rw [hf]
    rfl

-- Catching up by a snapshot is as good as replaying the whole log, as long as no id is registered
-- under another type than that of a tombstone that the snapshot left out.
theorem catchUp_replay (gc forget gc' forget' : Rat) (cursors cursors' : CursorAllocator)
    (clockA clockR clockS : Nat → TaiCursor) (pre post : List (Entry RegistryOperation))
    (hA : A = (StateMachine.new (.new gc forget) cursors).follow clockA pre)
    (hR : R = (StateMachine.new (.new gc' forget') cursors').follow clockR pre)
    (hb : A.beginCapture A.lastApplied term = some m₀) (has : ∀ a ∈ as, a = .resume)
    (hrun : (serialising m₀).run (serialising m₀).init as = some s) (hr : s.result = some snap) :
    ∃ S, m.installPayload snap now = some S ∧ (NoClashes R S clockR clockS post →
      verdicts post (S.outcomes clockS post) = verdicts post (R.outcomes clockR post) ∧
      (∀ t x, ((S.follow clockS post).store.get t x).map view =
        ((R.follow clockR post).store.get t x).map view) ∧
      (R.follow clockR post).ownership.Same (S.follow clockS post).ownership) := by
  have hnew : ∀ gc forget gc' forget' cursors cursors',
      Follows (.new (.new gc forget) cursors) (.new (.new gc' forget') cursors') :=
    fun _ _ _ _ _ _ => ⟨⟨.new, .new, fun _ _ => rfl, fun _ _ h => h⟩, fun _ => rfl, rfl⟩
  have ⟨hRA, _⟩ := Follows.replicas clockR clockA pre
    (hnew gc' forget' gc forget cursors' cursors) (hnew _ _ _ _ _ _)
  rw [← hA, ← hR] at hRA
  have ⟨S, hS, hAS⟩ := installPayload_follows m now hRA.store.sound' hb has hrun hr
  refine ⟨S, hS, fun hn => ?_⟩
  have ⟨hv, hf⟩ := (hRA.trans hAS).applyLog hn
  exact ⟨hv, hf.store.get, hf.ownership⟩

end

-- A Node that is deleted before the snapshot, and whose id is registered as a device after it.
namespace Retyped

def parentText : String :=
  "\x7b\"id\": \"n\", \"version\": \"1:0\"\x7d"

def nodeText : String :=
  "\x7b\"id\": \"x\", \"version\": \"1:0\"\x7d"

def deviceText : String :=
  "\x7b\"id\": \"x\", \"version\": \"1:0\", \"node_id\": \"n\"\x7d"

local instance python : Python :=
  .ofTable [(parentText, [("id", "n"), ("version", "1:0")]),
    (nodeText, [("id", "x"), ("version", "1:0")]),
    (deviceText, [("id", "x"), ("version", "1:0"), ("node_id", "n")])]

def register (t : ResourceType) (id text : String) (at' : Int) : RegistryOperation :=
  .register {
    proposal      := ⟨1, at'.toNat⟩
    resourceType  := t
    resourceId    := id
    nodeId        := "n"
    bodyText      := text
    created       := ⟨at', 0⟩
    updated       := ⟨at', 0⟩
    health        := at'
    expectCreated := true
    claimOwner    := none }

def clock (index : Nat) : TaiCursor :=
  ⟨index, 0⟩

def pre : List (Entry RegistryOperation) :=
  [⟨1, 1, register .node "n" parentText 1⟩, ⟨1, 2, register .node "x" nodeText 2⟩,
    ⟨1, 3, .unregister ⟨1, 3⟩ .node "x"⟩]

def cursors : CursorAllocator :=
  .new ⟨1, one_lt_maxOwners⟩

def fresh : StateMachine :=
  .new (.new 12 3600) cursors

def replaying : StateMachine :=
  fresh.follow clock pre

def capturing : StateMachine :=
  { replaying with capture := some <| .new 3 1 replaying.ownership }

def snapshot : Snapshot where
  lastIndex := 3
  lastTerm  := 1
  count     := 1
  ownership := []
  records   := [⟨"node", "n", "1:0", ⟨1, 0⟩, ⟨1, 0⟩, true, 1, "", parentText⟩]

theorem run_capturing : ((serialising capturing).run (serialising capturing).init [.resume]).bind
    (·.result) = some snapshot := by
  decide

-- The other Node is updated, and the id is registered again as what it was.
def update : List (Entry RegistryOperation) :=
  [⟨1, 4, register .node "n" parentText 4⟩, ⟨1, 5, register .node "x" nodeText 5⟩]

theorem noClashes_update : (fresh.installPayload snapshot ⟨9, 0⟩).any fun S =>
    decide (NoClashes replaying S clock clock update) := by
  decide +kernel

-- The member that caught up goes on as the one that replayed.
theorem catchUp_replay_update : ∃ S, fresh.installPayload snapshot ⟨9, 0⟩ = some S ∧
    verdicts update (S.outcomes clock update) = verdicts update (replaying.outcomes clock update) ∧
    (∀ t x, ((S.follow clock update).store.get t x).map view =
      ((replaying.follow clock update).store.get t x).map view) ∧
    (replaying.follow clock update).ownership.Same (S.follow clock update).ownership := by
  obtain ⟨s, hrun, hr⟩ := Option.bind_eq_some_iff.mp run_capturing
  have hb : replaying.beginCapture replaying.lastApplied 1 = some capturing := rfl
  obtain ⟨S, hS, h⟩ := catchUp_replay 12 3600 12 3600 cursors cursors clock clock clock pre update rfl rfl hb (by simp)
    hrun hr
  have hn := noClashes_update
  rw [hS] at hn
  exact ⟨S, hS, h <| of_decide_eq_true hn⟩

def retype : List (Entry RegistryOperation) :=
  [⟨1, 4, register .device "x" deviceText 4⟩]

-- The member that replayed refuses what the member that caught up accepts.
theorem catchUp_diverges : ∃ s S, (serialising capturing).run (serialising capturing).init [.resume] =
      some s ∧ s.result = some snapshot ∧ fresh.installPayload snapshot ⟨9, 0⟩ = some S ∧
      verdicts retype (S.outcomes clock retype) ≠ verdicts retype (replaying.outcomes clock retype) ∧
      ((S.follow clock retype).store.get .device "x").map view ≠
        ((replaying.follow clock retype).store.get .device "x").map view := by
  have ⟨s, hrun, hr⟩ := Option.bind_eq_some_iff.mp run_capturing
  have hx : ((fresh.installPayload snapshot ⟨9, 0⟩).any fun S => decide <|
      verdicts retype (S.outcomes clock retype) ≠ verdicts retype (replaying.outcomes clock retype) ∧
        ((S.follow clock retype).store.get .device "x").map view ≠
          ((replaying.follow clock retype).store.get .device "x").map view) = true := by
    decide
  obtain ⟨S, hS, hx⟩ := (Option.any_eq_true _ _).mp hx
  exact ⟨s, S, hrun, hr, hS, of_decide_eq_true hx⟩

end Retyped
end Raft
