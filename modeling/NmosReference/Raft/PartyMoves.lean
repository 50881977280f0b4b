import NmosReference.Raft.Party

open Protobuf Registry

namespace Raft

namespace RaftLog

variable {α : Type} {log : RaftLog α} {e : LogEntry α} {es : List (LogEntry α)} {start maxEntries maxBytes i : Nat}

-- What a window shows is what the log holds from there on.
theorem entryAt?_window (h : log.window start maxEntries maxBytes = .ok es) (hi : es[i]? = some e) :
    log.entryAt? (start + i) = some e := by
  unfold window slice at h
  split at h
  case isTrue =>
    cases h
    simp [fitting] at hi
  case isFalse =>
    simp only [bind, Except.bind, pure, Except.pure] at h
    split at h
    case h_1 => cases h
    case h_2 entries hs =>
      split at hs
      case h_1 => cases hs
      case h_2 first hp =>
        cases hs
        cases h
        have ⟨hlt, hf⟩ := position_ok hp
        rw [List.getElem?_take] at hi
        split at hi
        case isFalse => cases hi
        case isTrue  =>
          rw [List.getElem?_take] at hi
          split at hi
          case isFalse => cases hi
          case isTrue  =>
            rw [List.getElem?_drop] at hi
            rw [entryAt?, if_neg (by omega), ← hi]
            congr 1
            simp only [firstIndex] at hf ⊢
            omega

end RaftLog

namespace RaftNode

variable {env : Env} {e : NodeEvent} {n n' n₁ n₂ : RaftNode} {peer : Nat} {state : PeerState}

-- No more is noted of the peer than what is known already.
def Known (n : RaftNode) (peer : Nat) (state : PeerState) : Prop :=
  ∃ held, n.peers.get? peer = some held ∧ state.matchIndex ≤ held.matchIndex

-- What a part of a handler does is a succession of moves.
structure Acts (e : NodeEvent) (n n' : RaftNode) : Prop where
  moves : Party.Moves e n.party n'.party

namespace Acts

theorem refl : Acts e n n :=
  ⟨.refl⟩

theorem trans (h : Acts e n n₁) (h' : Acts e n₁ n₂) : Acts e n n₂ :=
  ⟨h.moves.trans h'.moves⟩

theorem same (h : n'.party = n.party) : Acts e n n' :=
  ⟨h ▸ .refl⟩

theorem after (h : Acts e n₁ n') (hp : n₁.party = n.party) : Acts e n n' :=
  trans (same hp) h

theorem single (h : Party.Move e n.party n'.party) : Acts e n n' :=
  ⟨.single h⟩

theorem of_eq {p : Party} (h : Party.Move e n.party p) (hp : n'.party = p) : Acts e n n' :=
  single (hp ▸ h)

theorem of_quiet {p : Party} (h : Party.Quiet e n.party p) (hp : n'.party = p) : Acts e n n' :=
  of_eq (.quiet h) hp

-- One part of a handler after the other, unless the first raises.
theorem seq {α β : Type} {m : NodeM α} {f : α → NodeM β} (hm : Acts e n (m.leaves n))
    (hf : ∀ a, Acts e (m.leaves n) ((f a).leaves (m.leaves n))) : Acts e n ((m >>= f).leaves n) := by
  unfold Handler.leaves at *
  rw [Handler.run_bind]
  generalize m.run n = r at hm hf
  rcases r with ⟨a | a, n₁⟩
  case ok    => exact hm.trans (hf a)
  case error => exact hm

theorem lift {r : Except NodeFault RaftNode} (h : ∀ n', r = .ok n' → Acts e n n') : Acts e n (lift r n).2 := by
  cases r with
  | ok n'   => exact h n' rfl
  | error _ => exact refl

theorem relinquish : Acts e n (n.relinquish env) := by
  unfold RaftNode.relinquish
  split
  case isTrue =>
    have hc : Acts e n n.clearTallies := of_quiet .clear rfl
    have hr : Party.Quiet e n.clearTallies.party { n.clearTallies.party with role := .follower } :=
      .rest _ nofun nofun
    exact hc.trans (of_quiet hr rfl)
  case isFalse => exact refl

theorem fail {failure : MemberFailure} : Acts e n (n.fail env failure) := by
  unfold RaftNode.fail
  split
  case isTrue  => exact refl
  case isFalse => exact after relinquish rfl

theorem settle {α : Type} {r : Except NodeFault α × RaftNode} (h : Acts e n r.2) : Acts e n (settle env r) := by
  rcases r with ⟨a | a, n'⟩
  case ok => exact h
  case error =>
    cases a
    case osError => exact h
    all_goals exact h.trans fail

theorem saved_persist (env : Env) (n : RaftNode) : ((RaftNode.persist env).leaves n).party.saved =
    (n.file.save n.persistentState (env.save n.persistentState)).map fun s => (s.term, s.votedFor) :=
  rfl

theorem persist : Acts e n ((persist env).leaves n) := by
  have hp : ((RaftNode.persist env).leaves n).party =
      { n.party with saved := ((RaftNode.persist env).leaves n).party.saved } :=
    rfl
  rcases TermStore.save_cases n.persistentState n.file (env.save n.persistentState) with hs | hs
  case inl => exact of_eq .save (by rw [hp, saved_persist, hs]; rfl)
  case inr => exact same (by rw [hp, saved_persist, hs]; rfl)

theorem stepDown {term : Nat} (h : n.term < term) : Acts e n ((stepDown env term).leaves n) := by
  have ha : Acts e n { n.clearTallies with term, installing := ∅, votedFor := none, role := .follower, leader := none } :=
    of_quiet (.adopt term h) rfl
  exact ha.trans persist

theorem adoptTerm {term : Nat} : Acts e n ((adoptTerm env term).leaves n) := by
  unfold RaftNode.adoptTerm Handler.leaves Handler.run
  simp only
  split
  case isTrue h => exact stepDown h
  case isFalse  => exact refl

theorem rest (role : Role) (hc : role ≠ .candidate) (hl : role ≠ .leader) (h : n'.party = { n.party with role }) :
    Acts e n n' :=
  of_quiet (.rest role hc hl) h

-- Sending

theorem party_setPeer : (n.setPeer peer state).party =
    { n.party with matched := n.party.matched.set peer state.matchIndex } := by
  unfold RaftNode.party RaftNode.setPeer
  simp only [Dict.map_set]

theorem get?_matched : n.party.matched.get? peer = (n.peers.get? peer).map (·.matchIndex) :=
  Dict.get?_map

theorem mem_matched (h : n.Known peer state) : peer ∈ n.party.matched.keys := by
  obtain ⟨held, hh, _⟩ := h
  exact Dict.mem_keys.mpr ⟨held.matchIndex, by rw [get?_matched, hh]; rfl⟩

theorem setPeer (h : n.Known peer state) : Acts e n (n.setPeer peer state) := by
  have hk := mem_matched h
  obtain ⟨held, hh, hle⟩ := h
  exact of_quiet (.hear peer state.matchIndex hk (.inl ⟨held.matchIndex, by rw [get?_matched, hh]; rfl, hle⟩)) party_setPeer

theorem known_setPeer : (n.setPeer peer state).Known peer state :=
  ⟨state, Dict.get?_set_self, le_rfl⟩

theorem send {m : Message} {s : Stream} (h : n.party.Outgoing m) : Acts e n (n.send peer m s) := by
  refine of_quiet (.post peer m h) ?_
  simp [RaftNode.party, RaftNode.send]

-- What is sent is numbered, and the peer's record notes it.
theorem numbered {requestId : Nat} {m : Message} {s : Stream} (hk : n.Known peer state) (hm : n.party.Outgoing m) :
    Acts e n (({ n with appendSequence := requestId }.setPeer peer state).send peer m s) := by
  have hs : Acts e n ({ n with appendSequence := requestId }.setPeer peer state) := after (setPeer hk) rfl
  refine hs.trans (send ?_)
  rw [party_setPeer]
  exact hm

theorem outgoing_keepalive {requestId : Nat} (hr : n.role = .leader) : n.party.Outgoing (.appendEntries {
    term := n.term, leader := n.layout.self, prevLogIndex := 0, prevLogTerm := 0, leaderCommit := 0, requestId
    entries := [] }) :=
  ⟨hr, rfl, Nat.zero_le _, .inl ⟨rfl, rfl⟩, nofun⟩

theorem sendKeepalive (hr : n.role = .leader) (hk : n.Known peer state) : Acts e n (n.sendKeepalive peer state) :=
  numbered hk (outgoing_keepalive hr)

theorem sendSnapshot (hr : n.role = .leader) (hk : n.Known peer state) : Acts e n (n.sendSnapshot env peer state) := by
  unfold RaftNode.sendSnapshot
  split
  case h_1 => exact sendKeepalive hr hk
  case h_2 =>
    split
    case isTrue  => exact sendKeepalive hr hk
    case isFalse =>
      split
      case h_1 => exact sendKeepalive hr hk
      case h_2 =>
        split
        case isTrue  => exact sendKeepalive hr hk
        case isFalse => exact numbered hk rfl

theorem outgoing_entries {prevTerm requestId : Nat} {entries : List (LogEntry RegistryOperation)} (h : n.log.WellFormed)
    (hr : n.role = .leader) (ht : n.log.termAt (state.nextIndex - 1) = .ok prevTerm)
    (he : ∀ i (e : LogEntry RegistryOperation), entries[i]? = some e → n.log.entryAt? (state.nextIndex - 1 + 1 + i) = some e) :
    n.party.Outgoing (.appendEntries {
      term := n.term, leader := n.layout.self, prevLogIndex := state.nextIndex - 1, prevLogTerm := prevTerm
      leaderCommit := n.commitIndex, requestId
      entries := entries.map fun e => { term := e.term, index := e.index, payload := e.payload } }) := by
  refine ⟨hr, rfl, le_rfl, .inr ht, fun i w hi => ?_⟩
  simp only [List.getElem?_map, Option.map_eq_some_iff] at hi
  obtain ⟨entry, hi, rfl⟩ := hi
  have hat := he i entry hi
  have hx := h.entryAt?_index hat
  exact ⟨hx, entry, hx ▸ hat, rfl, rfl⟩

theorem sendEntries {prevTerm : Nat} {entries : List (LogEntry RegistryOperation)} (h : n.log.WellFormed)
    (hr : n.role = .leader) (hk : n.Known peer state) (ht : n.log.termAt (state.nextIndex - 1) = .ok prevTerm)
    (he : ∀ i (e : LogEntry RegistryOperation), entries[i]? = some e → n.log.entryAt? (state.nextIndex - 1 + 1 + i) = some e) :
    Acts e n (n.sendEntries env peer state prevTerm entries) := by
  unfold RaftNode.sendEntries
  simp only
  refine numbered ?_ (outgoing_entries h hr ht he)
  split <;> exact hk

theorem carryingEntries_matchIndex (env : Env) (n : RaftNode) (state : PeerState) :
    (n.carryingEntriesWouldRepeatThem env state).2.matchIndex = state.matchIndex ∧
      (n.carryingEntriesWouldRepeatThem env state).2.nextIndex = state.nextIndex := by
  unfold carryingEntriesWouldRepeatThem
  repeat' split
  all_goals exact ⟨rfl, rfl⟩

theorem sendAppend (h : n.log.WellFormed) (hr : n.role = .leader) (hs : n.Tracks state) (hk : n.Known peer state) :
    Acts e n (n.sendAppend env peer state) := by
  have ⟨hlt, hle⟩ := hs
  have hn : state.nextIndex - 1 + 1 = state.nextIndex := by omega
  have hl : state.nextIndex - 1 ≤ n.log.lastIndex := by omega
  unfold RaftNode.sendAppend
  rcases h.window_cases hl n.timing.maxEntriesPerAppend n.timing.maxAppendBytes with
    ⟨term, entries, ht, hwin⟩ | ⟨index, snapshotIndex, ht⟩
  case inl =>
    have ⟨hmatch, hnext⟩ := carryingEntries_matchIndex env n state
    have he : ∀ i (e : LogEntry RegistryOperation), entries[i]? = some e → n.log.entryAt? (state.nextIndex - 1 + 1 + i) = some e :=
      fun i e hi => RaftLog.entryAt?_window hwin hi
    rw [hn] at hwin
    simp only [ht, hwin, bind, Except.bind, pure, Except.pure]
    refine sendEntries h hr ?_ (by rw [hnext]; exact ht) (by rw [hnext]; split <;> first | exact he | exact nofun)
    unfold Known
    rw [hmatch]
    exact hk
  case inr =>
    simp only [ht, bind, Except.bind]
    exact sendSnapshot hr hk

theorem replicateTo (h : n.log.WellFormed) (hr : n.role = .leader) (ht : n.Tracked) :
    Acts e n (RaftNode.replicateTo env n peer) := by
  unfold RaftNode.replicateTo
  split
  case h_1 state hp =>
    split
    case isTrue  => exact sendAppend h hr (ht peer state hp) ⟨state, hp, le_rfl⟩
    case isFalse => exact refl
  case h_2 => exact refl

theorem replicate (h : n.log.WellFormed) (hr : n.role = .leader) (ht : n.Tracked) : Acts e n (n.replicate env) := by
  suffices hs : ∀ (peers : List Nat) (n : RaftNode), n.log.WellFormed → n.role = .leader → n.Tracked →
      Acts e n (peers.foldl (RaftNode.replicateTo env) n) from hs _ n h hr ht
  intro peers
  induction peers with
  | nil => exact fun _ _ _ _ => refl
  | cons peer _ ih =>
    intro n h hr ht
    have hs : Sends n (RaftNode.replicateTo env n peer) := .replicateTo h ht
    exact (replicateTo h hr ht).trans (ih _ (hs.log ▸ h) (hs.role.trans hr) hs.tracked)

theorem broadcast {m : Message} (h : n.party.Outgoing m) : Acts e n (n.broadcast m) := by
  suffices hs : ∀ (peers : List Nat) (n : RaftNode), n.party.Outgoing m →
      Acts e n (peers.foldl (fun n peer => n.send peer m .control) n) from hs _ n h
  intro peers
  induction peers with
  | nil          => exact fun _ _ => refl
  | cons _ _ ih =>
    intro n h
    refine (send h).trans (ih _ ?_)
    cases m <;> exact h

end Acts
end RaftNode
end Raft
