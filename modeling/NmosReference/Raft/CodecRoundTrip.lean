import NmosReference.Raft.MessageRoundTrip
import NmosReference.Raft.SnapshotCodec

namespace Raft

open Protobuf Registry

-- What is written is an encoding, and every encoding is read as the value: for a message, for an
-- operation, for an ownership table and for a record of a snapshot whose parent, if any, has an id.
theorem codec_round_trip [Python] :
    (∀ m : Message, m.Fits → m.Encodes m.encode ∧
      ∀ payload, payload.length < 2 ^ 64 → m.Encodes payload → decodeMessage m.type payload = .ok m) ∧
    (∀ op : RegistryOperation, op.Fits →
      (∃ payload, encodeOperation op = .ok payload ∧ op.Encodes payload) ∧
      ∀ payload, payload.length < 2 ^ 64 → op.Encodes payload → decodeOperation payload = .ok op) ∧
    (∀ table : OwnershipTable, table.Fits → table.Encodes table.write ∧
      ∀ payload, payload.length < 2 ^ 64 → table.Encodes payload →
        ∃ table', OwnershipTable.read payload = .ok table' ∧ table.Same table') ∧
    ∀ r : RegisteredResource, Record.Fits r → r.parentId ≠ some "" →
      (∃ payload, Record.write r = .ok payload ∧ Record.Encodes r payload) ∧
      ∀ payload, payload.length < 2 ^ 64 → Record.Encodes r payload → Record.read payload = .ok r := by
  refine ⟨fun m hf => ⟨m.encodes_encode, fun _ hl h => Message.decode_encodes hl h hf⟩,
    fun op hf => ⟨op.encodeOperation_encodes hf, fun _ hl h => op.decodeOperation_encodes hl h hf⟩,
    fun table hf => ⟨table.encodes_write, fun _ hl h => table.read_encodes hl h hf⟩,
    fun r hf hp => ⟨Record.write_encodes hf, fun _ hl h => ?_⟩⟩
  have hid : r.parentId.filter (· ≠ "") = r.parentId := by
    cases hr : r.parentId
    case none => rfl
    case some id =>
      have : id ≠ "" := fun he => hp (hr.trans (congrArg some he))
      simp [Option.filter, this]
  rw [Record.read_encodes hl h hf, hid]

namespace Exchange

local instance python : Python := .ofTable []

def ping : Message :=
  .ping { nonce := 300 }

-- A first registration, which claims its Node for member 0.
def registration : RegisterOp where
  proposal      := { member := 1, sequence := 2 ^ 32 }
  resourceType  := .node
  resourceId    := "n"
  nodeId        := "n"
  bodyText      := "é"
  created       := { seconds := 10, nanoseconds := 1 }
  updated       := { seconds := 10, nanoseconds := 1 }
  health        := 10
  expectCreated := true
  claimOwner    := some 0

def table : OwnershipTable :=
  .decode [("n", { owner := 0, epoch := 7 })]

def device : RegisteredResource where
  resourceType := .device
  id           := "d"
  body         := ⟨"d"⟩
  version      := "1:0"
  created      := { seconds := 10, nanoseconds := 1 }
  updated      := { seconds := 10, nanoseconds := 1 }
  parentId     := some "n"

-- Field 15 is unknown to a ping.
theorem ping_padded : ping.Encodes ([0x78, 0x05] ++ ping.encode) :=
  ⟨[], .nil, .unknown (.varint (t := [0x78]) (v := [0x05]) (.last (by decide)) (by decide) rfl (fun _ => rfl)
    (.last (by decide)) (by decide)) .encode⟩

theorem short_exchange : ((encodeOperation (.register registration)).toOption.all fun payload => payload.length < 2 ^ 64) ∧
    (Record.write device).toOption.all fun payload => payload.length < 2 ^ 64 := by
  decide +kernel

theorem codec_round_trip_exchange :
    decodeMessage .ping ([0x78, 0x05] ++ ping.encode) = .ok ping ∧
    (∃ payload, encodeOperation (.register registration) = .ok payload ∧
      decodeOperation payload = .ok (.register registration)) ∧
    (∃ table', OwnershipTable.read table.write = .ok table' ∧ table.Same table') ∧
    ∃ payload, Record.write device = .ok payload ∧ Record.read payload = .ok device := by
  obtain ⟨hm, ho, ht, hr⟩ := codec_round_trip
  obtain ⟨hop, hrecord⟩ := short_exchange
  refine ⟨(hm ping (by decide)).2 _ (by decide) ping_padded, ?_, ?_, ?_⟩
  · have ⟨⟨payload, he, h⟩, hd⟩ := ho (.register registration) (by decide)
    rw [he] at hop
    exact ⟨payload, he, hd payload (of_decide_eq_true hop) h⟩
  · have ⟨h, hd⟩ := ht table (by decide)
    exact hd _ (by decide) h
  · have ⟨⟨payload, he, h⟩, hd⟩ := hr device (by decide) (by decide)
    rw [he] at hrecord
    exact ⟨payload, he, hd payload (of_decide_eq_true hrecord) h⟩

-- An empty parent id comes back as none; a negative integer has no varint; and there is no skipping of
-- a fixed-width field.
theorem empty_parent_lost :
    (Record.write { device with parentId := some "" } >>= Record.read) =
      .ok { device with parentId := none } ∧
    encodeOperation (.register { registration with health := -1 }) = .error "varint cannot encode -1" ∧
    decodeMessage .ping (ping.encode ++ [0x7d, 0, 0, 0, 0]) = .error "unsupported wire type 5" := by
  decide +kernel

end Exchange
end Raft
