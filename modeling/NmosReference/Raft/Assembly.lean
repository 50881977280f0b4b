import NmosReference.Raft.NodeGrowth

open Protobuf Registry

namespace Raft

-- A chunk of a byte string, marked as the last one only if it reaches the end of it.
structure InstallSnapshot.Slice (m : InstallSnapshot) (bytes : Bytes) : Prop where
  data : m.data <+: bytes.drop m.offset
  done : m.done = true → bytes.length ≤ m.offset + m.data.length

variable {bytes : Identity → Bytes} {m : InstallSnapshot}

theorem isPrefix_append {held chunk whole : Bytes} (h : held <+: whole) (hc : chunk <+: whole.drop held.length) :
    held ++ chunk <+: whole := by
  obtain ⟨rest, rfl⟩ := h
  rw [List.drop_left] at hc
  exact List.prefix_append_right_inj held |>.mpr hc

-- What is assembled from slices is a prefix, and all of it once the last slice is there.
theorem assemble_slice {assembly : Option Assembly} {a : Assembly} (hm : m.Slice (bytes (identityOf m)))
    (h : ∀ a, assembly = some a → a.data <+: bytes a.identity) (e : assemble assembly m = .extended a) :
    a.identity = identityOf m ∧ a.data <+: bytes (identityOf m) ∧ (m.done = true → a.data = bytes (identityOf m)) := by
  unfold assemble at e
  split at e
  case isTrue h0 =>
    cases e
    have hp : m.data <+: bytes (identityOf m) := by simpa [h0] using hm.data
    exact ⟨rfl, hp, fun hd => hp.eq_of_length_le (by simpa [h0] using hm.done hd)⟩
  case isFalse =>
    split at e
    case h_1           => cases e
    case h_2 assembled =>
      split at e
      case isTrue  => cases e
      case isFalse =>
        split at e
        case isTrue      => cases e
        case isFalse hno =>
          cases e
          simp only [not_or, ne_eq, Decidable.not_not] at hno
          obtain ⟨hid, hoff⟩ := hno
          have hp : assembled.data ++ m.data <+: bytes (identityOf m) :=
            isPrefix_append (hid ▸ h assembled rfl) (hoff ▸ hm.data)
          exact ⟨hid, hp, fun hd => hp.eq_of_length_le (by simpa [← hoff] using hm.done hd)⟩

namespace RaftNode

variable {env : Env} {n n' n₁ n₂ : RaftNode} {peer : Nat} {state : PeerState}

-- The sender's chunks are slices of the snapshot that it pinned.
theorem sendChunk_slice {carrier : Nat} {current : SnapshotMeta × Bytes} : ∃ sent payload m,
    (n.sendChunk peer state carrier current).sent = n.sent ++ [⟨peer, .bulk, .installSnapshot m⟩] ∧
      ((n.sendChunk peer state carrier current).peers.get? peer).bind (·.sending) = some (sent, payload) ∧
        (m.lastIndex, m.lastTerm) = (sent.lastIndex, sent.lastTerm) ∧ m.Slice payload := by
  unfold sendChunk
  simp only
  generalize (if state.snapshotOffset = 0 ∨ state.sending.isNone then current else state.sending.getD current) = pinned
  obtain ⟨sent, payload⟩ := pinned
  refine ⟨sent, payload, _, rfl, ?_, rfl, List.take_prefix _ _, fun hd => of_decide_eq_true hd⟩
  simp [send, setPeer]

namespace Forgets

theorem installing (h : n'.installing = n.installing) : Forgets n n' :=
  fun _ _ hp => h ▸ hp

theorem settle {α : Type} {r : Except NodeFault α × RaftNode} (h : Forgets n r.2) : Forgets n (settle env r) := by
  rcases r with ⟨a | a, n'⟩
  case ok => exact h
  case error =>
    cases a
    case osError => exact h
    all_goals exact h.trans (same kept_fail)

theorem finishCompaction {payload : Option Bytes} : Forgets n (n.finishCompaction env payload) := by
  unfold RaftNode.finishCompaction
  simp only
  repeat' split
  all_goals first
    | exact installing rfl
    | exact same kept_fail

end Forgets

section

variable [Python]

namespace Forgets

theorem extendLog {m : AppendEntries} : Forgets n (n.extendLog env m).2 := by
  unfold RaftNode.extendLog commitThrough
  repeat' split
  all_goals simp only
  all_goals repeat' split
  all_goals first
    | exact installing rfl
    | exact installing (congrArg Prod.fst kept_fail)

theorem answerAppend {m : AppendEntries} : Forgets n (n.answerAppend env m).2 := by
  unfold RaftNode.answerAppend
  repeat' split
  all_goals first
    | exact refl
    | exact same kept_fail
    | exact extendLog

theorem onAppendEntries {m : AppendEntries} : Forgets n ((onAppendEntries env m).run n).2 := by
  obtain ⟨n₁, hf, -, -, ⟨r, hr, -⟩ | ⟨-, hr⟩⟩ := onAppendEntries_cases env n m
  case inl => exact hr ▸ hf
  case inr => exact hr ▸ hf.trans answerAppend

-- Everything but a chunk of a snapshot.
theorem step {e : NodeEvent} (hi : ∀ peer m, e ≠ .installSnapshot peer m) : Forgets n (n.step env e) := by
  by_cases ha : ∃ m, e = .appendEntries m
  case pos =>
    obtain ⟨m, rfl⟩ := ha
    exact settle onAppendEntries
  case neg =>
    by_cases hc : ∃ payload, e = .compacted payload
    case pos =>
      obtain ⟨payload, rfl⟩ := hc
      exact finishCompaction
    case neg => exact Grows.forgets <| .step (fun m he => ha ⟨m, he⟩) hi fun payload he => hc ⟨payload, he⟩

end Forgets

-- The bytes that a chunk makes the member decode, once the term of the chunk is its own.
def decodes (n : RaftNode) (peer : Nat) (m : InstallSnapshot) : Option Bytes :=
  if (n.contradictsSnapshot m).isSome ∨ m.lastIndex ≤ n.commitIndex then
    none
  else
    match assemble (n.installing.get? peer) m with
    | .extended a => if m.done then some a.data else none
    | _           => none

-- The bytes that the handler of a chunk decodes.
def decoded (env : Env) (n : RaftNode) (peer : Nat) (m : InstallSnapshot) : Option Bytes :=
  if m.term < n.term then
    none
  else
    match (adoptTerm env m.term).run n with
    | (.ok _, n)    => (n.followLeader env m.leader).decodes peer m
    | (.error _, _) => none

theorem installing_installAssembled {buffer : Bytes} :
    (n.installAssembled env peer buffer m).2.installing = n.installing.erase peer := by
  unfold installAssembled
  repeat' split
  all_goals rfl

theorem installAssembled_done {buffer : Bytes} (h : (n.installAssembled env peer buffer m).1.done = true) :
    (n.installAssembled env peer buffer m).2.snapshot = buffer ∧ ∃ current ownership records,
      decodeSnapshotPayload buffer = .ok (current, ownership, records) ∧
        (n.installAssembled env peer buffer m).2.snapshotMeta = some current ∧
          current.lastIndex = m.lastIndex ∧ current.lastTerm = m.lastTerm := by
  unfold installAssembled at h ⊢
  split at h
  case h_1 => cases h
  case h_2 current machine e =>
    simp only
    split at h
    case isTrue     => cases h
    case isFalse hi =>
      rw [if_neg hi]
      simp only [isImpossible, Bool.or_eq_true, decide_eq_true_eq, not_or, ne_eq, Decidable.not_not,
        Prod.mk.injEq] at hi
      unfold restore at e
      split at e
      case h_1 => cases e
      case h_2 current' ownership records hd =>
        simp only at e
        split at e
        case h_1 => cases e
        case h_2 =>
          cases e
          exact ⟨rfl, current, ownership, records, hd, rfl, hi.1⟩

-- A snapshot is decoded to be installed, and nothing is installed that was not decoded.
theorem receiveChunk_decodes (env : Env) (n : RaftNode) (peer : Nat) (m : InstallSnapshot) :
    match n.decodes peer m with
    | some buffer => ∃ n₁ : RaftNode, n.receiveChunk env peer m = n₁.installAssembled env peer buffer m
    | none        => (n.receiveChunk env peer m).1.done = false := by
  unfold decodes receiveChunk
  by_cases hc : (n.contradictsSnapshot m).isSome ∨ m.lastIndex ≤ n.commitIndex
  case pos =>
    rw [if_pos hc]
    cases hn : n.contradictsSnapshot m
    case some => rfl
    case none =>
      rw [hn] at hc
      simp only [if_pos (hc.resolve_left Bool.false_ne_true)]
      rfl
  case neg =>
    obtain ⟨hn, hl⟩ := not_or.mp hc
    rw [if_neg hc, Option.not_isSome_iff_eq_none.mp hn]
    simp only [if_neg hl]
    generalize assemble (n.installing.get? peer) m = chunk
    cases chunk
    case copy       => rfl
    case mismatch   => rfl
    case extended a =>
      cases m.done
      case false => rfl
      case true  => exact ⟨_, rfl⟩

theorem receiveChunk_installing {p : Nat} {a : Assembly}
    (h : (n.receiveChunk env peer m).2.installing.get? p = some a) :
    n.installing.get? p = some a ∨ assemble (n.installing.get? peer) m = .extended a := by
  unfold receiveChunk at h
  split at h
  case h_1 =>
    exact .inl (Forgets.dropAssembly p a (Forgets.same kept_fail p a h))
  case h_2 =>
    split at h
    case isTrue  => exact .inl (Forgets.dropAssembly p a h)
    case isFalse =>
      split at h
      case h_1       => exact .inl h
      case h_2       => exact .inl (Forgets.dropAssembly p a h)
      case h_3 a' e  =>
        have hs : (n.installing.set peer a').get? p = some a →
            n.installing.get? p = some a ∨ assemble (n.installing.get? peer) m = .extended a := by
          intro h
          rw [Dict.get?_set] at h
          split at h
          case isTrue  => cases h; exact .inr e
          case isFalse => exact .inl h
        simp only at h
        split at h
        case isFalse => exact hs h
        case isTrue  =>
          rw [installing_installAssembled, Dict.get?_erase] at h
          split at h
          case isTrue  => cases h
          case isFalse => exact hs h

-- The handler decodes the snapshot that is assembled once the term of the chunk is adopted, and installs it.
theorem onInstallSnapshot_decoded {reply : InstallSnapshotReply}
    (h : ((onInstallSnapshot env peer m).run n).1 = .ok reply) (hd : reply.done = true) :
    ∃ buffer, n.decoded env peer m = some buffer ∧
      ((onInstallSnapshot env peer m).leaves n).snapshot = buffer ∧ ∃ current ownership records,
        decodeSnapshotPayload buffer = .ok (current, ownership, records) ∧
          ((onInstallSnapshot env peer m).leaves n).snapshotMeta = some current ∧
            current.lastIndex = m.lastIndex ∧ current.lastTerm = m.lastTerm := by
  unfold decoded Handler.leaves
  by_cases hlt : m.term < n.term
  case pos =>
    have e : (onInstallSnapshot env peer m).run n = (.ok (n.chunkAnswer 0 false m), n) := if_pos hlt
    rw [e] at h
    cases h
    cases hd
  case neg =>
    have e : (onInstallSnapshot env peer m).run n = (adoptTerm env m.term >>= fun _ =>
      modifyGet fun n => (n.followLeader env m.leader).receiveChunk env peer m).run n := if_neg hlt
    rw [e, Handler.run_bind] at h ⊢
    rw [if_neg hlt]
    generalize (adoptTerm env m.term).run n = r at h
    rcases r with ⟨a | a, n₁⟩
    case error => cases h
    case ok =>
      cases h
      change ((n₁.followLeader env m.leader).receiveChunk env peer m).1.done = true at hd
      change ∃ buffer, (n₁.followLeader env m.leader).decodes peer m = some buffer ∧
        ((n₁.followLeader env m.leader).receiveChunk env peer m).2.snapshot = buffer ∧ ∃ current ownership records,
          decodeSnapshotPayload buffer = .ok (current, ownership, records) ∧
            ((n₁.followLeader env m.leader).receiveChunk env peer m).2.snapshotMeta = some current ∧
              current.lastIndex = m.lastIndex ∧ current.lastTerm = m.lastTerm
      have hr := receiveChunk_decodes env (n₁.followLeader env m.leader) peer m
      cases hb : (n₁.followLeader env m.leader).decodes peer m
      case none        => simp [hb, hd] at hr
      case some buffer =>
        simp only [hb] at hr
        obtain ⟨n₂, hr⟩ := hr
        rw [hr] at hd ⊢
        exact ⟨buffer, rfl, installAssembled_done hd⟩

-- Everything that is being received is a prefix of what it is a part of.
def Assembled (bytes : Identity → Bytes) (n : RaftNode) : Prop :=
  ∀ p a, n.installing.get? p = some a → a.data <+: bytes a.identity

-- All chunks of one snapshot are slices of one byte string.
def Slices (bytes : Identity → Bytes) (_ : RaftNode) (a : Env × NodeEvent) : Prop :=
  ∀ peer m, a.2 = .installSnapshot peer m → m.Slice (bytes (identityOf m))

namespace Assembled

omit [Python] in
theorem forgets (h : n.Assembled bytes) (hf : Forgets n n') : n'.Assembled bytes :=
  fun p a hp => h p a (hf p a hp)

omit [Python] in
theorem adoptTerm (h : n.Assembled bytes) {term : Nat} : ((adoptTerm env term).leaves n).Assembled bytes :=
  h.forgets Grows.adoptTerm.forgets

theorem receiveChunk (h : n.Assembled bytes) (hm : m.Slice (bytes (identityOf m))) :
    (n.receiveChunk env peer m).2.Assembled bytes := by
  intro p a hp
  rcases receiveChunk_installing hp with hp | e
  case inl => exact h p a hp
  case inr =>
    have ⟨hi, ha, _⟩ := assemble_slice hm (h peer) e
    exact hi ▸ ha

omit [Python] in
theorem decodes {buffer : Bytes} (h : n.Assembled bytes) (hm : m.Slice (bytes (identityOf m)))
    (hb : n.decodes peer m = some buffer) : buffer = bytes (identityOf m) := by
  unfold RaftNode.decodes at hb
  split at hb
  case isTrue  => cases hb
  case isFalse =>
    split at hb
    case h_1 a e =>
      split at hb
      case isTrue hd =>
        cases hb
        exact (assemble_slice hm (h peer) e).2.2 hd
      case isFalse   => cases hb
    case h_2 => cases hb

theorem onInstallSnapshot (h : n.Assembled bytes) (hm : m.Slice (bytes (identityOf m))) :
    ((onInstallSnapshot env peer m).leaves n).Assembled bytes := by
  have ha : ((RaftNode.adoptTerm env m.term).leaves n).Assembled bytes := h.adoptTerm
  unfold RaftNode.onInstallSnapshot Handler.leaves Handler.run
  simp only
  split
  case isTrue  => exact h
  case isFalse =>
    change (Handler.run _ n).2.Assembled bytes
    rw [Handler.run_bind]
    unfold Handler.leaves at ha
    generalize (RaftNode.adoptTerm env m.term).run n = r at ha
    rcases r with ⟨a | a, n₁⟩
    case error => exact ha
    case ok    => exact receiveChunk (forgets ha (.same rfl) : (n₁.followLeader env m.leader).Assembled bytes) hm

theorem step {a : Env × NodeEvent} (h : n.Assembled bytes) (hs : Slices bytes n a) : (n.step a.1 a.2).Assembled bytes := by
  by_cases hn : ∃ peer m, a.2 = .installSnapshot peer m
  case neg => exact h.forgets (.step fun peer m he => hn ⟨peer, m, he⟩)
  case pos =>
    obtain ⟨peer, m, he⟩ := hn
    rw [he]
    exact (h.onInstallSnapshot (hs peer m he)).forgets (.settle .refl)

end Assembled

-- In every run of a member, whatever chunks it received, in whatever order: what it decodes is the whole of the
-- snapshot whose last chunk it answers as installed.
theorem decoded_whole {layout : RaftLayout} {timing : RaftTiming} {compacts : Bool} {loaded : PersistentState}
    {store : RegistryStore} {cursors : CursorAllocator}
    (r : (member (start layout timing compacts loaded store cursors)).Reaches (Slices bytes) n)
    (hm : m.Slice (bytes (identityOf m))) :
    (∀ buffer, n.decoded env peer m = some buffer → buffer = bytes (identityOf m)) ∧
      ∀ reply, ((onInstallSnapshot env peer m).run n).1 = .ok reply → reply.done = true →
        n.decoded env peer m = some (bytes (identityOf m)) ∧
          ((onInstallSnapshot env peer m).leaves n).snapshot = bytes (identityOf m) ∧
            ∃ current, ((onInstallSnapshot env peer m).leaves n).snapshotMeta = some current ∧
              current.lastIndex = (identityOf m).lastIndex ∧ current.lastTerm = (identityOf m).lastTerm := by
  have h : n.Assembled bytes := r.preserves (fun _ _ _ h hs e => by cases e; exact h.step hs) fun p a hp => by cases hp
  have whole : ∀ buffer, n.decoded env peer m = some buffer → buffer = bytes (identityOf m) := by
    intro buffer hb
    have ha : ((adoptTerm env m.term).leaves n).Assembled bytes := h.adoptTerm
    unfold decoded at hb
    unfold Handler.leaves at ha
    split at hb
    case isTrue  => cases hb
    case isFalse =>
      generalize (adoptTerm env m.term).run n = r at ha hb
      rcases r with ⟨a | a, n₁⟩
      case error => cases hb
      case ok    => exact Assembled.decodes (ha.forgets (.same rfl)) hm hb
  refine ⟨whole, fun reply hr hd => ?_⟩
  obtain ⟨buffer, hb, hs, current, _, _, _, hc, hi⟩ := onInstallSnapshot_decoded hr hd
  have hw := whole buffer hb
  exact ⟨hw ▸ hb, hs.trans hw, current, hc, hi⟩

end
end RaftNode

-- A transfer that another snapshot interrupts, and that starts over with chunks of another size.
namespace Transfer

open RaftNode

local instance python : Python :=
  .ofTable []

def env : Env where
  now             := 0
  electionTimeout := 1
  bulk            := fun _ => none
  save            := fun _ => .saved
  clock           := fun index => ⟨index, 0⟩

def timing : RaftTiming where
  electionMin         := 1
  electionMax         := 2
  maxEntriesPerAppend := 8
  maxAppendBytes      := 1024
  maxApplyBatch       := 8
  compactionThreshold := 16
  maxLogEntries       := 64
  snapshotChunk       := 4

def loaded : PersistentState where
  term              := 1
  votedFor          := none
  incarnation       := 1
  cursorReservation := none

def fresh : RaftNode :=
  start ⟨[1, 2, 3], 2⟩ timing false loaded (.new 12 3600) (.new ⟨1, one_lt_maxOwners⟩)

def payload (identity : Identity) : Bytes :=
  [8, 1, 16, if identity.lastIndex = 5 then 5 else 7, 24, 1]

def chunk (lastIndex offset size : Nat) : InstallSnapshot where
  term      := 1
  leader    := 1
  lastIndex := lastIndex
  lastTerm  := 1
  offset    := offset
  data      := (payload ⟨1, 1, lastIndex, 1⟩).drop offset |>.take size
  done      := 6 ≤ offset + size
  ownership := []
  requestId := 0

def received (n : RaftNode) (m : InstallSnapshot) : RaftNode :=
  n.step env (.installSnapshot 1 m)

def interrupted : RaftNode :=
  received (received (received fresh (chunk 5 0 2)) (chunk 7 0 3)) (chunk 5 0 4)

theorem chunk_slice (lastIndex offset size : Nat) :
    (chunk lastIndex offset size).Slice (payload (identityOf (chunk lastIndex offset size))) := by
  refine ⟨List.take_prefix _ _, fun hd => ?_⟩
  have := of_decide_eq_true hd
  simp only [chunk, identityOf, payload, List.length_take, List.length_drop, List.length_cons, List.length_nil] at this ⊢
  omega

theorem received_reaches {n : RaftNode} (lastIndex offset size : Nat) (r : (member fresh).Reaches (Slices payload) n) :
    (member fresh).Reaches (Slices payload) (received n (chunk lastIndex offset size)) := by
  refine .tail (a := (env, .installSnapshot 1 (chunk lastIndex offset size))) r (fun peer m he => ?_) rfl
  cases he
  exact chunk_slice _ _ _

theorem interrupted_reaches : (member fresh).Reaches (Slices payload) interrupted :=
  received_reaches _ _ _ <| received_reaches _ _ _ <| received_reaches _ _ _ .refl

theorem decoded_whole_interrupted : interrupted.decoded env 1 (chunk 5 4 2) = some [8, 1, 16, 5, 24, 1] :=
  (decoded_whole interrupted_reaches (chunk_slice 5 4 2)).2
    { term := 1, bytesReceived := 6, done := true, commitIndex := 5, requestId := 0 } (by decide +kernel) rfl |>.1

end Transfer
end Raft
