import NmosReference.Raft.Messages

namespace Raft

open Protobuf

namespace Message

-- The decoder of each kind of message, for what it skips.
def Pads (entries : List Bytes) (payload : Bytes) : Message → Prop
  | hello m                => Padded Hello.decoder m.fields payload
  | helloAck m             => Padded HelloAck.decoder m.fields payload
  | requestVote m          => Padded RequestVote.decoder m.fields payload
  | requestVoteReply m     => Padded RequestVoteReply.decoder m.fields payload
  | appendEntries m        => Padded AppendEntries.decoder (m.fields entries) payload
  | appendEntriesReply m   => Padded AppendEntriesReply.decoder m.fields payload
  | installSnapshot m      => Padded InstallSnapshot.decoder m.fields payload
  | installSnapshotReply m => Padded InstallSnapshotReply.decoder m.fields payload
  | promote m              => Padded Promote.decoder m.fields payload
  | readIndex m            => Padded ReadIndex.decoder m.fields payload
  | readIndexReply m       => Padded ReadIndexReply.decoder m.fields payload
  | propose m              => Padded Propose.decoder m.fields payload
  | proposeReply m         => Padded ProposeReply.decoder m.fields payload
  | forward m              => Padded Forward.decoder m.fields payload
  | forwardReply m         => Padded ForwardReply.decoder m.fields payload
  | ping m                 => Padded Ping.decoder m.fields payload
  | pong m                 => Padded Pong.decoder m.fields payload

-- `payload` encodes the message, with unknown fields anywhere: around its own fields, and around the
-- fields of the entries it nests.
def Encodes (m : Message) (payload : Bytes) : Prop :=
  ∃ entries, List.Forall₂ (fun e entry => Padded WireEntry.decoder e.fields entry) m.entries entries ∧
    m.Pads entries payload

-- The integers of a message fit 64 bits.
def Fits (m : Message) : Prop :=
  (∀ f ∈ m.fields [], f.Fits) ∧ ∀ e ∈ m.entries, ∀ f ∈ e.fields, f.Fits

instance {m : Message} : Decidable m.Fits :=
  inferInstanceAs <| Decidable (_ ∧ _)

end Message

theorem Message.encodes_encode {m : Message} : m.Encodes m.encode := by
  refine ⟨m.entries.map fun e => Protobuf.encode e.fields, ?_, ?_⟩
  · rw [List.forall₂_map_right_iff, List.forall₂_same]
    exact fun _ _ => .encode
  · cases m <;> exact .encode

section RoundTrip

variable {payload : Bytes} (hl : payload.length < 2 ^ 64)
include hl

theorem Hello.decode_padded {m : Hello} (h : Padded decoder m.fields payload)
    (hf : ∀ f ∈ m.fields, f.Fits) : decode payload = .ok m := by
  refine h.decode hf hl ?_
  obtain ⟨_, _, _, _, _, _, stream⟩ := m
  cases stream <;> rfl

theorem WireEntry.decode_padded {e : WireEntry} (h : Padded decoder e.fields payload)
    (hf : ∀ f ∈ e.fields, f.Fits) : decode payload = .ok e :=
  h.decode hf hl rfl

-- The fields of the list are read one by one onto the end of what was read before.
theorem Propose.decode_padded {m : Propose} (h : Padded decoder m.fields payload)
    (hf : ∀ f ∈ m.fields, f.Fits) : decode payload = .ok m := by
  have hp : List.Forall₂ (fun (f : Protobuf.Field) p => ∀ acc,
      f.feed decoder { m with proposals := acc } = .ok { m with proposals := acc ++ [p] })
      (m.proposals.map (Field.bytes 2)) m.proposals := by
    rw [List.forall₂_map_left_iff, List.forall₂_same]
    exact fun _ _ _ => rfl
  refine h.decode hf hl ?_
  exact feed_repeated (g := fun proposals => { m with proposals }) hp

theorem AppendEntries.decode_padded {m : AppendEntries} {entries : List Bytes}
    (he : List.Forall₂ (fun e entry => Padded WireEntry.decoder e.fields entry) m.entries entries)
    (h : Padded decoder (m.fields entries) payload) (hf : ∀ f ∈ m.fields [], f.Fits)
    (hf' : ∀ e ∈ m.entries, ∀ f ∈ e.fields, f.Fits) : decode payload = .ok m := by
  have hb : ∀ entry ∈ entries, entry.length < 2 ^ 64 := fun entry hm =>
    (h.length_bytes_le (List.mem_append_right _ (List.mem_map_of_mem hm))).trans_lt hl
  have hp : List.Forall₂ (fun (f : Protobuf.Field) e => ∀ acc,
      f.feed decoder { m with entries := acc } = .ok { m with entries := acc ++ [e] })
      (entries.map (Field.bytes 7)) m.entries := by
    rw [List.forall₂_map_left_iff]
    refine (forall₂_imp_mem he fun e hm entry hm' he => ?_).flip
    intro acc
    simp only [Field.feed, decoder, WireEntry.decode_padded (hb entry hm') he (hf' e hm)]
    rfl
  have hf : ∀ f ∈ m.fields entries, f.Fits := by
    intro f hm
    rcases List.mem_append.mp hm with hm | hm
    · exact hf f (List.mem_append_left _ hm)
    · obtain ⟨_, -, rfl⟩ := List.mem_map.mp hm
      exact Nat.lt_of_lt_of_le (by decide : 7 < 2 ^ 29) le_rfl
  refine h.decode hf hl ?_
  refine (feed_append (t := { m with entries := [] }) rfl).trans ?_
  exact feed_repeated (g := fun entries => { m with entries }) hp

theorem ProposeReply.decode_padded {m : ProposeReply} (h : Padded decoder m.fields payload)
    (hf : ∀ f ∈ m.fields, f.Fits) : decode payload = .ok m := by
  refine h.decode hf hl ?_
  obtain ⟨_, _, _, _, _, leader⟩ := m
  cases leader <;> rfl

theorem ForwardReply.decode_padded {m : ForwardReply} (h : Padded decoder m.fields payload)
    (hf : ∀ f ∈ m.fields, f.Fits) : decode payload = .ok m := by
  refine h.decode hf hl ?_
  obtain ⟨_, _, _, _, _, _, _, owner⟩ := m
  cases owner <;> rfl

-- The messages whose fields are read back just as they are.
theorem Message.decode_encodes {m : Message} (h : m.Encodes payload) (hf : m.Fits) :
    decodeMessage m.type payload = .ok m := by
  obtain ⟨entries, he, h⟩ := h
  obtain ⟨hf, hf'⟩ := hf
  cases m with
  | hello m => exact congrArg (Functor.map hello) (Hello.decode_padded hl h hf)
  | appendEntries m => exact congrArg (Functor.map appendEntries) (AppendEntries.decode_padded hl he h hf hf')
  | propose m => exact congrArg (Functor.map propose) (Propose.decode_padded hl h hf)
  | proposeReply m => exact congrArg (Functor.map proposeReply) (ProposeReply.decode_padded hl h hf)
  | forwardReply m => exact congrArg (Functor.map forwardReply) (ForwardReply.decode_padded hl h hf)
  | helloAck m =>
    have hd : HelloAck.decode payload = .ok m := h.decode hf hl rfl
    exact congrArg (Functor.map helloAck) hd
  | requestVote m =>
    have hd : RequestVote.decode payload = .ok m := h.decode hf hl rfl
    exact congrArg (Functor.map requestVote) hd
  | requestVoteReply m =>
    have hd : RequestVoteReply.decode payload = .ok m := h.decode hf hl rfl
    exact congrArg (Functor.map requestVoteReply) hd
  | appendEntriesReply m =>
    have hd : AppendEntriesReply.decode payload = .ok m := h.decode hf hl rfl
    exact congrArg (Functor.map appendEntriesReply) hd
  | installSnapshot m =>
    have hd : InstallSnapshot.decode payload = .ok m := h.decode hf hl rfl
    exact congrArg (Functor.map installSnapshot) hd
  | installSnapshotReply m =>
    have hd : InstallSnapshotReply.decode payload = .ok m := h.decode hf hl rfl
    exact congrArg (Functor.map installSnapshotReply) hd
  | promote m =>
    have hd : Promote.decode payload = .ok m := h.decode hf hl rfl
    exact congrArg (Functor.map promote) hd
  | readIndex m =>
    have hd : ReadIndex.decode payload = .ok m := h.decode hf hl rfl
    exact congrArg (Functor.map readIndex) hd
  | readIndexReply m =>
    have hd : ReadIndexReply.decode payload = .ok m := h.decode hf hl rfl
    exact congrArg (Functor.map readIndexReply) hd
  | forward m =>
    have hd : Forward.decode payload = .ok m := h.decode hf hl rfl
    exact congrArg (Functor.map forward) hd
  | ping m =>
    have hd : Ping.decode payload = .ok m := h.decode hf hl rfl
    exact congrArg (Functor.map ping) hd
  | pong m =>
    have hd : Pong.decode payload = .ok m := h.decode hf hl rfl
    exact congrArg (Functor.map pong) hd

end RoundTrip
end Raft
