import NmosReference.Raft.CatchUp
import NmosReference.Raft.OperationRoundTrip

-- The bytes of an ownership table, and of one record of a snapshot.
namespace Raft

open Protobuf Protobuf.Field Registry

namespace OwnershipEntry

def fields (entry : String × Ownership) : List Protobuf.Field :=
  [.string 1 entry.1, .uint 2 entry.2.owner, .uint 3 entry.2.epoch]

def decoder : Decoder (String × Ownership)
  | (_, held), 1      => .string fun nodeId => .ok (nodeId, held)
  | (nodeId, held), 2 => .uint fun owner => .ok (nodeId, { held with owner })
  | (nodeId, held), 3 => .uint fun epoch => .ok (nodeId, { held with epoch })
  | _, _              => .skip

def read : Bytes → Except String (String × Ownership) :=
  Protobuf.decode decoder ("", { owner := 0, epoch := 0 })

end OwnershipEntry

namespace OwnershipTable

def fields (entries : List Bytes) : List Protobuf.Field :=
  entries.map (.bytes 1)

def write (table : OwnershipTable) : Bytes :=
  Protobuf.encode (fields (table.encode.map fun entry => Protobuf.encode (OwnershipEntry.fields entry)))

def decoder : Decoder OwnershipTable
  | table, 1 => .bytes fun payload => do
    let (nodeId, held) ← OwnershipEntry.read payload
    .ok (table.set nodeId held)
  | _, _     => .skip

def read : Bytes → Except String OwnershipTable :=
  Protobuf.decode decoder ∅

-- The integers of a table fit 64 bits.
def Fits (table : OwnershipTable) : Prop :=
  ∀ p ∈ table.items, p.2.owner < 2 ^ 64 ∧ p.2.epoch < 2 ^ 64

instance {table : OwnershipTable} : Decidable table.Fits :=
  inferInstanceAs <| Decidable (∀ p ∈ table.items, _)

def Encodes (table : OwnershipTable) (payload : Bytes) : Prop :=
  ∃ entries, List.Forall₂ (fun p entry => Padded OwnershipEntry.decoder (OwnershipEntry.fields p) entry)
      table.encode entries ∧
    Padded decoder (fields entries) payload

variable {table : OwnershipTable} {payload : Bytes}

theorem encodes_write : table.Encodes table.write := by
  refine ⟨_, ?_, .encode⟩
  rw [List.forall₂_map_right_iff, List.forall₂_same]
  exact fun _ _ => .encode

-- What is read is the same table, filled in the order of the entries.
theorem read_encodes (hl : payload.length < 2 ^ 64) (h : table.Encodes payload) (hf : table.Fits) :
    ∃ table', read payload = .ok table' ∧ Same table table' := by
  obtain ⟨entries, he, h⟩ := h
  have hp : List.Forall₂ (fun f p => ∀ acc,
      Field.feed decoder (OwnershipTable.decode acc) f = .ok (OwnershipTable.decode (acc ++ [p])))
      (fields entries) table.encode := by
    rw [fields, List.forall₂_map_left_iff]
    refine (forall₂_imp_mem he fun p hp entry hm hpad => ?_).flip
    intro acc
    have hi : p ∈ table.items := SortBy.perm.mem_iff.mp hp
    have hle : entry.length < 2 ^ 64 := (h.length_bytes_le (n := 1) (by simpa [fields])).trans_lt hl
    have hr : OwnershipEntry.read entry = .ok p :=
      hpad.decode (by simpa [OwnershipEntry.fields] using hf p hi) hle rfl
    simp only [Field.feed, decoder, hr, bind, Except.bind, OwnershipTable.decode, List.foldl_append,
      List.foldl_cons, List.foldl_nil]
  refine ⟨_, h.decode (by simp [fields]) hl ?_, same_decode_encode⟩
  have hd : (fields entries).foldlM (Field.feed decoder) (OwnershipTable.decode []) =
      .ok (OwnershipTable.decode ([] ++ table.encode)) := feed_repeated hp
  exact hd

end OwnershipTable

namespace Image

-- The fields of a record, given its cursors as they are written.
def fields (image : Image) (createdS createdNs updatedS updatedNs : Nat) : List Protobuf.Field :=
  [.string 1 image.typeName, .string 2 image.resourceId, .string 3 image.version, .uint 4 createdS,
    .uint 5 createdNs, .uint 6 updatedS, .uint 7 updatedNs, .bool 8 image.extant, .uint 9 image.health,
    .string 10 image.parentId, .string 11 image.bodyText]

def absent : Image where
  typeName   := ""
  resourceId := ""
  version    := ""
  created    := { seconds := 0, nanoseconds := 0 }
  updated    := { seconds := 0, nanoseconds := 0 }
  extant     := true
  health     := 0
  parentId   := ""
  bodyText   := ""

def decoder : Decoder Image
  | image, 1  => .string fun typeName => .ok { image with typeName }
  | image, 2  => .string fun resourceId => .ok { image with resourceId }
  | image, 3  => .string fun version => .ok { image with version }
  | image, 4  => .uint fun n => .ok { image with created := { image.created with seconds := n } }
  | image, 5  => .uint fun n => .ok { image with created := { image.created with nanoseconds := n } }
  | image, 6  => .uint fun n => .ok { image with updated := { image.updated with seconds := n } }
  | image, 7  => .uint fun n => .ok { image with updated := { image.updated with nanoseconds := n } }
  | image, 8  => .bool fun extant => .ok { image with extant }
  | image, 9  => .uint fun health => .ok { image with health }
  | image, 10 => .string fun parentId => .ok { image with parentId }
  | image, 11 => .string fun bodyText => .ok { image with bodyText }
  | _, _      => .skip

end Image

namespace Record

-- `_encode_resource`, down to the bytes.
def write (r : RegisteredResource) : Except String Bytes := do
  let image := encodeResource r
  .ok <| encode <| image.fields (← varint image.created.seconds) (← varint image.created.nanoseconds)
    (← varint image.updated.seconds) (← varint image.updated.nanoseconds)

-- `_decode_resource`, from the bytes.
def read [Python] (payload : Bytes) : Except String RegisteredResource := do
  let image ← decode Image.decoder .absent payload
  match decodeResource image with
  | some r => .ok r
  | none   => .error s!"snapshot names unknown resource type {Python.repr image.typeName}"

def integers (r : RegisteredResource) : List Int :=
  [r.created.seconds, r.created.nanoseconds, r.updated.seconds, r.updated.nanoseconds, r.health]

-- The integers of a record fit 64 bits.
def Fits (r : RegisteredResource) : Prop :=
  ∀ i ∈ integers r, 0 ≤ i ∧ i < 2 ^ 64

instance {r : RegisteredResource} : Decidable (Fits r) :=
  inferInstanceAs <| Decidable (∀ i ∈ integers r, _)

def Encodes (r : RegisteredResource) (payload : Bytes) : Prop :=
  Padded Image.decoder ((encodeResource r).fields r.created.seconds.toNat r.created.nanoseconds.toNat
    r.updated.seconds.toNat r.updated.nanoseconds.toNat) payload

variable {r : RegisteredResource} {payload : Bytes}

theorem write_encodes (hf : Fits r) : ∃ payload, write r = .ok payload ∧ Encodes r payload := by
  simp only [Fits, integers, List.forall_mem_cons] at hf
  obtain ⟨hs, hns, hs', hns', -⟩ := hf
  refine ⟨_, ?_, .encode⟩
  simp only [write, encodeResource, varint_of_nonneg hs.1, varint_of_nonneg hns.1, varint_of_nonneg hs'.1,
    varint_of_nonneg hns'.1, bind, Except.bind]

theorem decode_encodes (hl : payload.length < 2 ^ 64) (h : Encodes r payload) (hf : Fits r) :
    decode Image.decoder .absent payload = .ok (encodeResource r) := by
  simp only [Fits, integers, List.forall_mem_cons] at hf
  obtain ⟨hs, hns, hs', hns', hh, -⟩ := hf
  have hd : decode Image.decoder .absent payload = .ok {
      encodeResource r with
      created := ⟨r.created.seconds.toNat, r.created.nanoseconds.toNat⟩
      updated := ⟨r.updated.seconds.toNat, r.updated.nanoseconds.toNat⟩ } := by
    refine h.decode ?_ hl rfl
    have hn : (encodeResource r).health < 2 ^ 64 := by
      simp only [encodeResource]
      omega
    simp [Image.fields]
    omega
  rw [hd, Int.toNat_of_nonneg hs.1, Int.toNat_of_nonneg hns.1, Int.toNat_of_nonneg hs'.1,
    Int.toNat_of_nonneg hns'.1]
  rfl

variable [Python]

-- `parent_id or ""` on the way out and `parent_id or None` on the way in: no parent and an empty one
-- are written alike.
theorem read_encodes (hl : payload.length < 2 ^ 64) (h : Encodes r payload) (hf : Fits r) :
    read payload = .ok { r with parentId := r.parentId.filter (· ≠ "") } := by
  have he : encodeResource r = encodeResource { r with parentId := r.parentId.filter (· ≠ "") } := by
    have hp : r.parentId.getD "" = (r.parentId.filter (· ≠ "")).getD "" := by
      cases r.parentId
      case none => rfl
      case some id => by_cases hid : id = "" <;> simp [hid, Option.filter]
    simp only [encodeResource, hp]
  have hh : max 0 r.health = r.health := max_eq_right (hf r.health (by simp [integers])).1
  have hd := decode_encodeResource (r := { r with parentId := r.parentId.filter (· ≠ "") }) (by
    simp [Option.filter_eq_some_iff])
  simp only [read, decode_encodes hl h hf, he, hd, hh, bind, Except.bind]

end Record
end Raft
