import NmosReference.Raft.Agreement

open Protobuf Registry Ancestry

namespace Raft

-- Whatever may happen, but a campaign that cannot be saved.
def Faults.saving : Faults :=
  ⟨False, True, True⟩

-- No process starts again, and no snapshot is installed, either.
def Faults.lasting : Faults :=
  ⟨False, False, False⟩

namespace Parties

variable {members : List Nat} {s s' : Parties} {i j k n : Nat} {e e' f f' : LogEntry RegistryOperation}

-- What two members hold behind an entry that they have in common is the same.
theorem Matching.same_behind (hs : s.Matching members) (he : (s.party i).log.entryAt? k = some e)
    (he' : (s.party j).log.entryAt? k = some e') (ht : e.term = e'.term) (hf : (s.party i).log.entryAt? n = some f)
    (hf' : (s.party j).log.entryAt? n = some f') (hn : n ≤ k) : f.term = f'.term ∧ f.payload = f'.payload := by
  have hl := hs.linked i
  have hl' := hs.linked j
  have hle := hl.rooted.le hl.wf (RaftLog.termAt_entry hf) (RaftLog.termAt_entry he) hn
  have hle' := hl'.rooted.le hl'.wf (RaftLog.termAt_entry hf') (RaftLog.termAt_entry he') hn
  exact hl.rooted.agree hl'.rooted (ht ▸ hle) hle' hf hf'

namespace Complete

-- What is committed at an index is settled.
theorem settled (hs : s.Complete members) (hk : k ≤ (s.party i).commitIndex) (he : (s.party i).log.entryAt? k = some e) :
    s.history.Settled members (s.party i).term ⟨k, e.term⟩ := by
  have hl := hs.linked i
  have hpos := RaftLog.entryAt?_lt he
  rcases (hs.steady i).commits with h0 | ⟨t, ht, u, n, hu, hc, hle⟩
  case inl => omega
  case inr => exact ⟨u, n, hu, hc, (hl.rooted.le hl.wf (RaftLog.termAt_entry he) ht hk).trans hle⟩

-- Entries of one place are the same, whenever they are held.
theorem payload_eq (hs : s.Complete members) (hs' : s'.Complete members) (hh : s.history.Later s'.history)
    (he : (s.party i).log.entryAt? k = some e) (he' : (s'.party j).log.entryAt? k = some e') (ht : e.term = e'.term) :
    e.payload = e'.payload := by
  obtain ⟨p, hx⟩ := (hs.linked i).rooted.written he
  obtain ⟨p', hx'⟩ := (hs'.linked j).rooted.written he'
  rw [← ht, hh.entry _ _ _ hx] at hx'
  exact congrArg Prod.snd (Option.some.inj hx')

theorem agree (hs : s.Complete members) (hs' : s'.Complete members) (hh : s.history.Later s'.history)
    (hk : k ≤ (s.party i).commitIndex) (he : (s.party i).log.entryAt? k = some e)
    (hk' : k ≤ (s'.party j).commitIndex) (he' : (s'.party j).log.entryAt? k = some e') :
    e.term = e'.term ∧ e.payload = e'.payload := by
  have ht : e.term = e'.term :=
    congrArg Position.term (hs'.lawful.settled_eq (hh.settled (hs.settled hk he)) (hs'.settled hk' he') rfl)
  exact ⟨ht, hs.payload_eq hs' hh he he' ht⟩

-- A leader that comes later has what was committed.
theorem inherited (hs : s.Complete members) (hs' : s'.Complete members) (hh : s.history.Later s'.history)
    (hk : k ≤ (s.party i).commitIndex) (he : (s.party i).log.entryAt? k = some e) (hr : (s'.party j).role = .leader)
    (ht : (s.party i).term ≤ (s'.party j).term) :
    k ≤ (s'.party j).log.lastIndex ∧
      ∀ e', (s'.party j).log.entryAt? k = some e' → e.term = e'.term ∧ e.payload = e'.payload := by
  have hl := hs'.linked j
  have hled : s'.history.leader (s'.party j).term ≠ none := by rw [(hs'.stands j).led hr]; exact nofun
  have hon := hs'.lawful.settled_on (hh.settled (hs.settled hk he)) hled ht
  have ⟨hlast, hbase⟩ := (hs'.steady j).leads hr
  have hi : k ≤ (s'.party j).log.lastIndex := by
    rcases hon with hle | ⟨_, x, hx⟩
    case inl => exact hle.index_le.trans hbase
    case inr => exact hl.newest hr k x hx
  refine ⟨hi, fun e' he' => ?_⟩
  have hle : Le s'.history.entry ⟨k, e.term⟩ (s'.party j).log.last := Grown.On.le hs'.lawful.grown hon hlast hi
  have hterm := hl.rooted.eq_of_le_last hl.wf (RaftLog.termAt_entry he') hle
  exact ⟨hterm, hs.payload_eq hs' hh he he' hterm⟩

end Complete
end Parties

namespace Cluster

-- Two rounds of a cluster of three. Its disks do not fail.
namespace Rounds

variable {c c' : Cluster}

scoped instance python : Python :=
  .ofTable []

def env (now : Nat) : Env where
  now             := now
  electionTimeout := 1
  bulk            := fun _ => none
  save            := fun _ => .saved
  clock           := fun index => ⟨index, 0⟩

def timing : RaftTiming where
  electionMin         := 1
  electionMax         := 8
  maxEntriesPerAppend := 8
  maxAppendBytes      := 1024
  maxApplyBatch       := 8
  compactionThreshold := 16
  maxLogEntries       := 64
  snapshotChunk       := 4

def three : ClusterLayout where
  members  := [0, 1, 2]
  nodup    := by decide
  timing   := timing
  compacts := false
  store    := fun _ => .new 12 3600
  cursors  := fun _ => .new ⟨1, one_lt_maxOwners⟩

-- When something happens, and what, given what was sent.
abbrev Cue :=
  Nat × (Cluster → ClusterEvent)

def sent (now k : Nat) : Cue :=
  (now, fun c => match c.network[k]? with
    | some (source, target, m) => .deliver source target m
    | none                     => .crash 0)

def calm (c : Cluster) : ClusterEvent → Bool
  | .deliver _ _ (.installSnapshot _) => false
  | .start member o                   => (c.node member).file.isNone && o = .saved
  | _                                 => true

def play : List Cue → Cluster → Option Cluster
  | [],          c => some c
  | cue :: cues, c =>
    if calm c (cue.2 c) then (step three c (env cue.1, cue.2 c)).bind (play cues) else none

def played (cues : List Cue) (c : Cluster) : Cluster :=
  (play cues c).getD c

theorem within_calm {faults : Faults} {now : Nat} {event : ClusterEvent} (h : calm c event = true) :
    Within faults c (env now, event) := by
  cases event
  case deliver source target m =>
    refine ⟨fun _ _ ht => absurd rfl ht.save, ?_⟩
    rintro chunk rfl
    cases h
  case own      => exact fun ht => absurd rfl ht.save
  case allocate => exact trivial
  case crash    => exact trivial
  case start member o =>
    have ⟨hf, ho⟩ := Bool.and_eq_true_iff.mp h
    rintro (hn | rfl)
    case inl => exact absurd (Option.isNone_iff_eq_none.mp hf) hn
    case inr => cases of_decide_eq_true ho

theorem run_play {faults : Faults} {cues : List Cue} (h : play cues c = some c') :
    (system three).Run (Within faults) c c' := by
  induction cues generalizing c with
  | nil => cases h; exact .refl
  | cons cue cues ih =>
    unfold play at h
    split at h
    case isFalse   => cases h
    case isTrue hc =>
      obtain ⟨c₁, hs, h⟩ := Option.bind_eq_some_iff.mp h
      exact .trans (.single (within_calm hc) hs) (ih h)

theorem run_played {faults : Faults} {cues : List Cue} (h : (play cues c).isSome = true) :
    (system three).Run (Within faults) c (played cues c) := by
  obtain ⟨c', hc⟩ := Option.isSome_iff_exists.mp h
  rw [played, hc]
  exact run_play hc

-- Member 0 asks for votes.
def canvass : List Cue :=
  [(4, fun _ => .start 0 .saved), (4, fun _ => .start 1 .saved), (4, fun _ => .start 2 .saved),
    (4, fun _ => .own 0 (.peerState 1 true 1)), (4, fun _ => .own 0 .tick), sent 4 0, sent 4 1, sent 4 2, sent 4 4]

-- It leads, and commits its first entry.
def first : List Cue :=
  canvass ++ [sent 4 5, sent 4 7, sent 4 8, sent 4 9]

-- Member 1 hears of that, and leads after it.
def second : List Cue :=
  [sent 4 10, (8, fun _ => .own 1 (.peerState 0 true 1)), (8, fun _ => .own 1 .tick), sent 8 13, sent 8 14, sent 8 15,
    sent 8 17, sent 8 18]

def committed : Cluster :=
  played first (init three)

def succeeded : Cluster :=
  played second committed

-- Member 1 is asked for its vote a second time.
def asked : Cluster :=
  played (canvass ++ [sent 4 4]) (init three)

-- What the runs come to, evaluated at once.
theorem ends :
    ((play first (init three)).isSome = true ∧ (play second committed).isSome = true ∧
      (play (canvass ++ [sent 4 4]) (init three)).isSome = true ∧ (play [sent 4 10] committed).isSome = true) ∧
    (asked.network[6]? = some (1, 0, .requestVoteReply ⟨1, true, true, false⟩) ∧
      asked.network[7]? = some (1, 0, .requestVoteReply ⟨1, true, true, false⟩)) ∧
    ((committed.node 0).role = .leader ∧ ((played [sent 4 10] committed).node 0).role = .leader ∧
      (succeeded.node 1).role = .leader ∧ (committed.node 0).term = ((played [sent 4 10] committed).node 0).term ∧
      (committed.node 0).term ≤ (succeeded.node 1).term) ∧
    (1 ≤ (committed.node 0).commitIndex ∧ 1 ≤ (succeeded.node 1).commitIndex) ∧
    ((committed.node 0).log.entryAt? 1).map (·.term) = some 1 ∧
      ((succeeded.node 0).log.entryAt? 1).map (·.term) = some 1 ∧ ((succeeded.node 1).log.entryAt? 1).map (·.term) = some 1 ∧
      ((succeeded.node 0).log.entryAt? 2).map (·.term) = some 2 ∧ ((succeeded.node 1).log.entryAt? 2).map (·.term) = some 2 := by
  decide +kernel

theorem committed_run {faults : Faults} : (system three).Reaches (Within faults) committed :=
  run_played ends.1.1

theorem succeeded_run {faults : Faults} : (system three).Run (Within faults) committed succeeded :=
  run_played ends.1.2.1

theorem asked_reachable : (system three).Reachable asked := by
  have r : (system three).Run (Within .saving) (init three) asked := run_played ends.1.2.2.1
  exact r.mono fun _ _ _ => trivial

end Rounds

open Rounds

variable {layout : ClusterLayout} {c c' : Cluster} {i j k n : Nat} {e e' f f' : LogEntry RegistryOperation}

theorem Reachable.shows [Python] (r : (system layout).Reachable c) :
    ∃ s, Parties.Reaches layout.members ⟨True, True, True⟩ s ∧ c.Shows s ∧ c.Sane layout := by
  refine Reaches.shows (TransitionSystem.Run.mono (fun c a _ => ?_) r)
  obtain ⟨env, event⟩ := a
  cases event
  case deliver => exact ⟨fun _ _ _ => trivial, fun _ _ _ _ => trivial⟩
  case own     => exact fun _ => trivial
  case start   => exact fun _ => trivial
  all_goals exact trivial

-- A member votes for one candidate a term, counting all of its processes, whatever fails.
theorem grant_unique [Python] (r : (system layout).Reachable c) {v q q' : Nat} {g g' : RequestVoteReply}
    (h : (v, q, .requestVoteReply g) ∈ c.network) (h' : (v, q', .requestVoteReply g') ∈ c.network)
    (hg : g.granted = true ∧ g.preVote = false) (hg' : g'.granted = true ∧ g'.preVote = false) (ht : g.term = g'.term) :
    q = q' := by
  obtain ⟨s, hr, hs, _⟩ := Reachable.shows r
  have hv := Parties.Reaches.voting hr
  rw [← hs.network] at h h'
  have hq := hv.granted v q g h hg.1 hg.2
  rw [ht, hv.granted v q' g' h' hg'.1 hg'.2] at hq
  exact (Option.some.inj hq).symm

theorem grant_unique_asked : ∃ q q' g g', (1, q, .requestVoteReply g) ∈ asked.network ∧
    (1, q', .requestVoteReply g') ∈ asked.network ∧ g.granted = true ∧ q = q' := by
  obtain ⟨-, ⟨h, h'⟩, -⟩ := ends
  exact ⟨0, 0, _, _, List.mem_of_getElem? h, List.mem_of_getElem? h', rfl,
    grant_unique asked_reachable (List.mem_of_getElem? h) (List.mem_of_getElem? h') ⟨rfl, rfl⟩ ⟨rfl, rfl⟩ rfl⟩

-- A term has one leader, if the candidates save their terms.
theorem leader_unique [Python] (r : (system layout).Reaches (Within .saving) c) (r' : (system layout).Run (Within .saving) c c')
    (hi : (c.node i).role = .leader) (hj : (c'.node j).role = .leader) (ht : (c.node i).term = (c'.node j).term) :
    i = j := by
  obtain ⟨s, hr, hs, hsane⟩ := Reaches.shows r
  obtain ⟨s', hr', hs', _⟩ := hs.run hsane r'
  have hp := Parties.Reaches.polled (fun h => h) hr
  have ⟨hkept, hp'⟩ := hp.run (fun h => h) hr'
  have party {m : Nat} : s.party m = (c.node m).party := hs.party m
  have party' {m : Nat} : s'.party m = (c'.node m).party := hs'.party m
  have hled := (hp.stands i).led (by rw [party]; exact hi)
  have hled' := (hp'.stands j).led (by rw [party']; exact hj)
  rw [party] at hled
  rw [party'] at hled'
  have ht : (c.node i).party.term = (c'.node j).party.term := ht
  have hled := hkept _ _ hled
  rw [ht, hled'] at hled
  exact (Option.some.inj hled).symm

theorem leader_unique_played : ∃ i j, (committed.node i).role = .leader ∧
    ((played [sent 4 10] committed).node j).role = .leader ∧ i = j := by
  obtain ⟨⟨-, -, -, hplay⟩, -, ⟨h, h', -, ht, -⟩, -⟩ := ends
  exact ⟨0, 0, h, h', leader_unique committed_run (run_played hplay) h h' ht⟩

-- Two logs are the same behind an entry of one term at one index, with processes that start again and snapshots.
theorem logs_match [Python] (r : (system layout).Reaches (Within .saving) c) (he : (c.node i).log.entryAt? k = some e)
    (he' : (c.node j).log.entryAt? k = some e') (ht : e.term = e'.term) (hf : (c.node i).log.entryAt? n = some f)
    (hf' : (c.node j).log.entryAt? n = some f') (hn : n ≤ k) : f.term = f'.term ∧ f.payload = f'.payload := by
  obtain ⟨s, hr, hs, _⟩ := Reaches.shows r
  have party {m : Nat} : (s.party m).log = (c.node m).log := congrArg Party.log (hs.party m)
  rw [← party] at he he' hf hf'
  exact (Parties.Reaches.matching (fun h => h) hr).same_behind he he' ht hf hf' hn

theorem logs_match_succeeded : ∃ f f', (succeeded.node 0).log.entryAt? 1 = some f ∧ (succeeded.node 1).log.entryAt? 1 = some f' ∧
    f.term = f'.term ∧ f.payload = f'.payload := by
  obtain ⟨-, -, -, -, -, hf, hf', he, he'⟩ := ends
  obtain ⟨e, he, ht⟩ := Option.map_eq_some_iff.mp he
  obtain ⟨e', he', ht'⟩ := Option.map_eq_some_iff.mp he'
  obtain ⟨f, hf, _⟩ := Option.map_eq_some_iff.mp hf
  obtain ⟨f', hf', _⟩ := Option.map_eq_some_iff.mp hf'
  have r : (system three).Reaches (Within .saving) succeeded := TransitionSystem.Run.trans committed_run succeeded_run
  exact ⟨f, f', hf, hf', logs_match r he he' (ht.trans ht'.symm) hf hf' (by decide)⟩

-- Without restarts and installed snapshots, the members are complete, and go on to be.
theorem Reaches.complete [Python] (r : (system layout).Reaches (Within .lasting) c) (r' : (system layout).Run (Within .lasting) c c') :
    ∃ s s' : Parties, s.Complete layout.members ∧ s'.Complete layout.members ∧ s.history.Later s'.history ∧
      (∀ m, s.party m = (c.node m).party) ∧ ∀ m, s'.party m = (c'.node m).party := by
  obtain ⟨s, hr, hs, hsane⟩ := Reaches.shows r
  obtain ⟨s', hr', hs', _⟩ := hs.run hsane r'
  have hc := (Parties.Complete.init.run (fun h => h) (fun h => h) (fun h => h) hr).2
  obtain ⟨hh, hc'⟩ := hc.run (fun h => h) (fun h => h) (fun h => h) hr'
  exact ⟨s, s', hc, hc', hh, hs.party, hs'.party⟩

-- What is committed at an index is the same everywhere and for good.
theorem commits_agree [Python] (r : (system layout).Reaches (Within .lasting) c) (r' : (system layout).Run (Within .lasting) c c')
    (hk : k ≤ (c.node i).commitIndex) (he : (c.node i).log.entryAt? k = some e)
    (hk' : k ≤ (c'.node j).commitIndex) (he' : (c'.node j).log.entryAt? k = some e') :
    e.term = e'.term ∧ e.payload = e'.payload := by
  obtain ⟨s, s', hc, hc', hh, party, party'⟩ := Reaches.complete r r'
  have hk : k ≤ (s.party i).commitIndex := by rw [party]; exact hk
  have he : (s.party i).log.entryAt? k = some e := by rw [party]; exact he
  have hk' : k ≤ (s'.party j).commitIndex := by rw [party']; exact hk'
  have he' : (s'.party j).log.entryAt? k = some e' := by rw [party']; exact he'
  exact hc.agree hc' hh hk he hk' he'

theorem commits_agree_succeeded : ∃ e e', (committed.node 0).log.entryAt? 1 = some e ∧ (succeeded.node 1).log.entryAt? 1 = some e' ∧
    e.term = e'.term ∧ e.payload = e'.payload := by
  obtain ⟨-, -, -, ⟨hk, hk'⟩, he, -, he', -⟩ := ends
  obtain ⟨e, he, -⟩ := Option.map_eq_some_iff.mp he
  obtain ⟨e', he', -⟩ := Option.map_eq_some_iff.mp he'
  exact ⟨e, e', he, he', commits_agree committed_run succeeded_run hk he hk' he'⟩

-- Whoever leads later has what was committed, as an entry or behind the boundary of its log.
theorem leader_complete [Python] (r : (system layout).Reaches (Within .lasting) c) (r' : (system layout).Run (Within .lasting) c c')
    (hk : k ≤ (c.node i).commitIndex) (he : (c.node i).log.entryAt? k = some e) (hj : (c'.node j).role = .leader)
    (ht : (c.node i).term ≤ (c'.node j).term) :
    k ≤ (c'.node j).log.snapshotIndex ∨
      ∃ e', (c'.node j).log.entryAt? k = some e' ∧ e'.term = e.term ∧ e'.payload = e.payload := by
  obtain ⟨s, s', hc, hc', hh, party, party'⟩ := Reaches.complete r r'
  have hk : k ≤ (s.party i).commitIndex := by rw [party]; exact hk
  have he : (s.party i).log.entryAt? k = some e := by rw [party]; exact he
  have hj : (s'.party j).role = .leader := by rw [party']; exact hj
  have ht : (s.party i).term ≤ (s'.party j).term := by rw [party, party']; exact ht
  have hwf := (hc'.linked j).wf
  have ⟨hlast, hsame⟩ := hc.inherited hc' hh hk he hj ht
  rw [party'] at hwf hlast hsame
  rcases Nat.lt_or_ge (c'.node j).log.snapshotIndex k with hlt | hge
  case inr => exact .inl hge
  case inl =>
    obtain ⟨e', he'⟩ := hwf.entryAt?_isSome hlt hlast
    have ⟨hterm, hpayload⟩ := hsame e' he'
    exact .inr ⟨e', he', hterm.symm, hpayload.symm⟩

theorem leader_complete_succeeded : ∃ e, (committed.node 0).log.entryAt? 1 = some e ∧
    (1 ≤ (succeeded.node 1).log.snapshotIndex ∨
      ∃ e', (succeeded.node 1).log.entryAt? 1 = some e' ∧ e'.term = e.term ∧ e'.payload = e.payload) := by
  obtain ⟨-, -, ⟨-, -, hj, -, ht⟩, ⟨hk, -⟩, he, -⟩ := ends
  obtain ⟨e, he, -⟩ := Option.map_eq_some_iff.mp he
  exact ⟨e, he, leader_complete committed_run succeeded_run hk he hj ht⟩

end Cluster
end Raft
