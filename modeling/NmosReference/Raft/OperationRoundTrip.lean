import NmosReference.Raft.OperationCodec

namespace Raft

open Protobuf Protobuf.Field Registry

theorem mapM_ok {α β ε : Type} {f : α → Except ε β} {g : α → β} {l : List α}
    (h : ∀ a ∈ l, f a = .ok (g a)) : l.mapM f = .ok (l.map g) := by
  induction l with
  | nil => rfl
  | cons a l ih =>
    have ⟨ha, h⟩ := List.forall_mem_cons.mp h
    simp only [List.mapM_cons, ha, ih h, bind, Except.bind, List.map_cons, pure, Except.pure]

namespace RegistryOperation

-- The member that an operation names besides its proposer.
def owner : RegistryOperation → Option Nat
  | register op           => op.claimOwner
  | claimOwnership _ _ id => some id
  | memberDown _ member   => some member
  | _                     => none

def integers (op : RegistryOperation) : List Int :=
  [(op.proposal.member : Int), (op.proposal.sequence : Int), op.health] ++
    op.cursors.flatMap (fun c => [c.seconds, c.nanoseconds]) ++ (op.owner.map Nat.cast).toList

-- The integers of an operation fit 64 bits.
def Fits (op : RegistryOperation) : Prop :=
  ∀ i ∈ op.integers, 0 ≤ i ∧ i < 2 ^ 64

instance {op : RegistryOperation} : Decidable op.Fits :=
  inferInstanceAs <| Decidable (∀ i ∈ op.integers, _)

-- `payload` encodes the operation, with unknown fields anywhere: around the kind and the body, in the
-- body, and in what the body nests.
def Encodes [Python] (op : RegistryOperation) (payload : Bytes) : Prop :=
  ∃ proposal cursors victims body,
    Padded ProposalId.decoder op.proposal.fields proposal ∧
    List.Forall₂ (fun c cursor => Padded Cursor.decoder
      (Cursor.fields c.seconds.toNat c.nanoseconds.toNat) cursor) op.cursors cursors ∧
    List.Forall₂ (fun v victim => Padded Victim.decoder (Victim.fields v) victim) op.victims victims ∧
    Padded (OperationBody.decoder op.kind) (op.fields proposal cursors victims op.health.toNat) body ∧
    Padded OperationHead.decoder [.uint 1 op.kind.value, .bytes 2 body] payload

-- What the fields of the body give.
def body : RegistryOperation → OperationBody
  | noop proposal                  => { OperationBody.empty with proposal }
  | register op                    => {
    OperationBody.empty with
    proposal         := op.proposal
    resourceTypeName := op.resourceType.value
    resourceId       := op.resourceId
    nodeId           := op.nodeId
    bodyText         := op.bodyText
    created          := op.created
    updated          := op.updated
    health           := op.health.toNat
    expectCreated    := op.expectCreated
    claimOwner       := op.claimOwner }
  | unregister proposal t resourceId =>
    { OperationBody.empty with proposal, resourceTypeName := t.value, resourceId }
  | expire proposal nodeId           => { OperationBody.empty with proposal, nodeId }
  | forget proposal victims          => { OperationBody.empty with proposal, victims }
  | claimOwnership proposal nodeId owner =>
    { OperationBody.empty with proposal, nodeId, claimOwner := owner }
  | releaseOwnership proposal nodeId => { OperationBody.empty with proposal, nodeId }
  | memberDown proposal member       => { OperationBody.empty with proposal, member }

namespace Fits

variable {op : RegistryOperation} {c : TaiCursor} {member : Nat}

theorem proposal (h : op.Fits) : ∀ f ∈ op.proposal.fields, f.Fits := by
  have hm := h op.proposal.member (by simp [integers])
  have hs := h op.proposal.sequence (by simp [integers])
  simp [ProposalId.fields]
  omega

theorem health (h : op.Fits) : 0 ≤ op.health ∧ op.health < 2 ^ 64 :=
  h op.health (by simp [integers])

theorem cursor (h : op.Fits) (hc : c ∈ op.cursors) : (0 ≤ c.seconds ∧ c.seconds < 2 ^ 64) ∧
    0 ≤ c.nanoseconds ∧ c.nanoseconds < 2 ^ 64 := by
  have hm (i : Int) (hi : i ∈ [c.seconds, c.nanoseconds]) : i ∈ op.integers :=
    List.mem_append_left _ <| List.mem_append_right _ <| List.mem_flatMap.mpr ⟨c, hc, hi⟩
  exact ⟨h _ (hm _ (by simp)), h _ (hm _ (by simp))⟩

theorem owner (h : op.Fits) (hm : op.owner = some member) : member < 2 ^ 64 := by
  have := h member (by simp [integers, hm])
  omega

theorem fields (h : op.Fits) (proposal : Bytes) (cursors victims : List Bytes) :
    ∀ f ∈ op.fields proposal cursors victims op.health.toNat, f.Fits := by
  have hh := h.health
  cases op with
  | register op =>
    have hz : ∀ f ∈ List.zipWith Field.bytes [6, 7] cursors, f.Fits := by
      rcases cursors with _ | ⟨c, _ | ⟨c', cursors⟩⟩ <;> simp
    have ho : ∀ f ∈ (op.claimOwner.map (Field.uint 10)).toList, f.Fits := by
      cases hc : op.claimOwner with
      | none       => simp
      | some owner => simpa using h.owner hc
    simp only [RegistryOperation.fields, List.forall_mem_append, List.forall_mem_cons, fits_bytes, fits_string,
      fits_uint, fits_bool]
    have hn : (RegistryOperation.register op).health.toNat < 2 ^ 64 := by omega
    exact ⟨⟨⟨⟨by decide, by decide, by decide, by decide, by decide, by simp⟩, hz⟩, ⟨by decide, hn⟩,
      by decide, by simp⟩, ho⟩
  | claimOwnership _ _ owner => simpa [RegistryOperation.fields] using h.owner rfl
  | memberDown _ member      => simpa [RegistryOperation.fields] using h.owner rfl
  | forget _ victims'        => simp [RegistryOperation.fields]
  | noop _ | unregister _ _ _ | expire _ _ | releaseOwnership _ _ => simp [RegistryOperation.fields]

end Fits

variable [Python] {op : RegistryOperation} {payload proposal : Bytes} {cursors victims : List Bytes}

theorem operation_body (h : op.Fits) : op.body.operation op.kind = .ok op := by
  have hh := h.health
  cases op with
  | register op =>
    have hn : (op.health.toNat : Int) = op.health := Int.toNat_of_nonneg hh.1
    simp only [body, kind, OperationBody.operation, resourceType_value, bind, Except.bind, hn]
  | unregister _ _ _ => simp only [body, kind, OperationBody.operation, resourceType_value, bind, Except.bind]
  | _ => rfl

theorem feed_fields (hp : ProposalId.read proposal = .ok op.proposal)
    (hc : List.Forall₂ (fun c cursor => Cursor.read cursor = .ok c) op.cursors cursors)
    (hv : List.Forall₂ (fun v victim => Victim.read victim = .ok v) op.victims victims) :
    (op.fields proposal cursors victims op.health.toNat).foldlM (Field.feed (OperationBody.decoder op.kind))
      .empty = .ok op.body := by
  cases op with
  | register op =>
    obtain ⟨created, _, hcr, hc₁, rfl⟩ := List.forall₂_cons_left_iff.mp hc
    obtain ⟨updated, _, hup, hc₂, rfl⟩ := List.forall₂_cons_left_iff.mp hc₁
    obtain rfl := List.forall₂_nil_left_iff.mp hc₂
    cases ho : op.claimOwner
    all_goals
      simp only [fields, kind, List.zipWith, ho, List.cons_append, List.nil_append, List.foldlM_cons, Field.feed,
        OperationBody.decoder, hp, hcr, hup, bind, Except.bind]
      simp only [body, ho]
      rfl
  | forget p victims' =>
    have hf : List.Forall₂ (fun (f : Protobuf.Field) v => ∀ acc,
        f.feed (OperationBody.decoder .forget) { OperationBody.empty with proposal := p, victims := acc } =
          .ok { OperationBody.empty with proposal := p, victims := acc ++ [v] })
        (victims.map (Field.bytes 2)) victims' := by
      rw [List.forall₂_map_left_iff]
      refine hv.flip.imp fun victim v hv acc => ?_
      simp only [Field.feed, OperationBody.decoder, hv, bind, Except.bind]
    have hp : [Field.bytes 1 proposal].foldlM (Field.feed (OperationBody.decoder .forget)) .empty =
        .ok { OperationBody.empty with proposal := p } := by
      simp only [List.foldlM_cons, Field.feed, OperationBody.decoder, hp, bind, Except.bind]
      rfl
    refine (feed_append hp).trans ?_
    exact feed_repeated (g := fun victims => { OperationBody.empty with proposal := p, victims }) hf
  | _ =>
    simp only [fields, kind, List.foldlM_cons, Field.feed, OperationBody.decoder, hp, bind, Except.bind]
    rfl

omit [Python] in
theorem proposal_mem {health : Nat} : bytes 1 proposal ∈ op.fields proposal cursors victims health := by
  cases op <;> simp [fields]

omit [Python] in
theorem cursors_mem {health : Nat} (h : op.cursors.length = cursors.length) :
    ∀ cursor ∈ cursors, ∃ number, bytes number cursor ∈ op.fields proposal cursors victims health := by
  cases op with
  | register op =>
    obtain ⟨created, updated, rfl⟩ := List.length_eq_two.mp h.symm
    simp only [List.forall_mem_cons]
    exact ⟨⟨6, by simp [fields]⟩, ⟨7, by simp [fields]⟩, by simp⟩
  | _ =>
    obtain rfl := List.length_eq_zero_iff.mp h.symm
    simp

omit [Python] in
theorem victims_mem {health : Nat} (h : op.victims.length = victims.length) :
    ∀ victim ∈ victims, bytes 2 victim ∈ op.fields proposal cursors victims health := by
  cases op with
  | forget _ _ => simp [fields]
  | _ =>
    obtain rfl := List.length_eq_zero_iff.mp h.symm
    simp

omit [Python] in
theorem read_cursor {c : TaiCursor} {cursor : Bytes} (hf : op.Fits) (hc : c ∈ op.cursors)
    (h : Padded Cursor.decoder (Cursor.fields c.seconds.toNat c.nanoseconds.toNat) cursor)
    (hl : cursor.length < 2 ^ 64) : Cursor.read cursor = .ok c := by
  have ⟨hs, hns⟩ := hf.cursor hc
  have hn : ∀ f ∈ Cursor.fields c.seconds.toNat c.nanoseconds.toNat, f.Fits := by
    simp [Cursor.fields]
    omega
  have hd : Cursor.read cursor = .ok ⟨c.seconds.toNat, c.nanoseconds.toNat⟩ := h.decode hn hl rfl
  rw [hd, Int.toNat_of_nonneg hs.1, Int.toNat_of_nonneg hns.1]

theorem read_victim {v : ResourceType × String} {victim : Bytes}
    (h : Padded Victim.decoder (Victim.fields v) victim) (hl : victim.length < 2 ^ 64) :
    Victim.read victim = .ok v := by
  have hd : decode Victim.decoder ("", "") victim = .ok (v.1.value, v.2) :=
    h.decode (by simp [Victim.fields]) hl rfl
  simp only [Victim.read, hd, resourceType_value, bind, Except.bind]

-- What nests in a payload is no longer than the payload, so all the lengths fit 64 bits.
theorem decodeOperation_encodes (hl : payload.length < 2 ^ 64) (h : op.Encodes payload) (hf : op.Fits) :
    decodeOperation payload = .ok op := by
  obtain ⟨proposal, cursors, victims, body, hp, hc, hv, hb, hh⟩ := h
  have hlb : body.length < 2 ^ 64 := (hh.length_bytes_le (n := 2) (by simp)).trans_lt hl
  have hnest {number : Nat} {nested : Bytes}
      (hm : bytes number nested ∈ op.fields proposal cursors victims op.health.toNat) :
      nested.length < 2 ^ 64 := (hb.length_bytes_le hm).trans_lt hlb
  have hhead : decode OperationHead.decoder { kindValue := none, body := [] } payload =
      .ok { kindValue := op.kind.value, body } := by
    refine hh.decode ?_ hl rfl
    have : op.kind.value < 2 ^ 64 := by cases op.kind <;> decide
    simpa using this
  have hrp : ProposalId.read proposal = .ok op.proposal := hp.decode hf.proposal (hnest proposal_mem) rfl
  have hrc : List.Forall₂ (fun c cursor => Cursor.read cursor = .ok c) op.cursors cursors :=
    forall₂_imp_mem hc fun c hm cursor hm' h =>
      have ⟨_, hm'⟩ := cursors_mem hc.length_eq cursor hm'
      read_cursor hf hm h (hnest hm')
  have hrv : List.Forall₂ (fun v victim => Victim.read victim = .ok v) op.victims victims :=
    forall₂_imp_mem hv fun _ _ victim hm h => read_victim h (hnest (victims_mem hv.length_eq victim hm))
  have hbody : decode (OperationBody.decoder op.kind) .empty body = .ok op.body :=
    hb.decode (hf.fields _ _ _) hlb (feed_fields hrp hrc hrv)
  simp only [decodeOperation, hhead, OpKind.ofValue_value, hbody, operation_body hf, bind, Except.bind]

-- The encoder writes one of the encodings, the one without any unknown field.
theorem encodeOperation_encodes (hf : op.Fits) :
    ∃ payload, encodeOperation op = .ok payload ∧ op.Encodes payload := by
  have hc : op.cursors.mapM Cursor.encode =
      .ok (op.cursors.map fun c => encode (Cursor.fields c.seconds.toNat c.nanoseconds.toNat)) := by
    refine mapM_ok fun c hm => ?_
    have ⟨hs, hns⟩ := hf.cursor hm
    simp only [Cursor.encode, varint_of_nonneg hs.1, varint_of_nonneg hns.1, bind, Except.bind]
  have hp : List.Forall₂ (fun c cursor => Padded Cursor.decoder
      (Cursor.fields c.seconds.toNat c.nanoseconds.toNat) cursor) op.cursors
      (op.cursors.map fun c => encode (Cursor.fields c.seconds.toNat c.nanoseconds.toNat)) := by
    rw [List.forall₂_map_right_iff, List.forall₂_same]
    exact fun _ _ => .encode
  have hv : List.Forall₂ (fun v victim => Padded Victim.decoder (Victim.fields v) victim) op.victims
      (op.victims.map fun v => encode (Victim.fields v)) := by
    rw [List.forall₂_map_right_iff, List.forall₂_same]
    exact fun _ _ => .encode
  refine ⟨_, ?_, _, _, _, _, .encode, hp, hv, .encode, .encode⟩
  simp only [encodeOperation, hc, varint_of_nonneg hf.health.1, bind, Except.bind]

end RegistryOperation
end Raft
