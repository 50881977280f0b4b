import NmosReference.Raft.Capture
import NmosReference.Raft.Cursors
import NmosReference.Raft.Operations

namespace Raft

open Registry

-- What one applied operation produced for whoever proposed it.
inductive Outcome
  | registration (result : RegistrationResult)
  | flag (result : Bool)
  | count (result : Nat)
  deriving DecidableEq, Repr

structure Entry (α : Type*) where
  term  : Nat
  index : Nat
  value : α
  deriving DecidableEq, Repr

-- Applies committed operations to the registry.
structure StateMachine where
  store       : RegistryStore
  ownership   : OwnershipTable
  cursors     : CursorAllocator
  lastApplied : Nat
  -- The open snapshot capture, if any.
  capture     : Option SnapshotCapture

namespace StateMachine

variable (m : StateMachine)

def new (store : RegistryStore) (cursors : CursorAllocator) : StateMachine where
  store       := store
  ownership   := ∅
  cursors     := cursors
  lastApplied := 0
  capture     := none

-- Replaces the whole local state with a snapshot's, abandoning an open capture.
def installSnapshot (store : RegistryStore) (ownership : OwnershipTable) (index : Nat) :
    StateMachine :=
  { m with store, ownership, lastApplied := index, capture := none }

-- Hands the snapshot a pre-image of what is about to change.
def captureBeforeMutating (t : ResourceType) (id : String) : StateMachine :=
  { m with capture := m.capture.map fun c =>
      match m.store.record t id with
      | some existing => c.capture existing
      | none          => c.captureCreated t id }

-- Photographs a whole cascade before it is erased.
def captureSubtree (t : ResourceType) (id : String) : StateMachine :=
  { m with capture := m.capture.map fun c => (m.store.subtree t id).foldl .capture c }

-- Removal events in a total order: deepest first, then by type name and id.
def ordered (events : List ResourceEvent) : List ResourceEvent :=
  events |> sortBy fun e =>
    toLex (OrderDual.toDual e.resourceType.depth, toLex (e.resourceType.value, e.resourceId))

variable (now : TaiCursor)

-- A Node's first registration may take ownership in the same entry.
def fuseClaim (op : RegisterOp) (index : Nat) : StateMachine :=
  match op.claimOwner with
  | some owner => { m with ownership := (m.ownership.claim op.nodeId owner index).2 }
  | none       => m

@[simp] theorem fuseClaim_store {op : RegisterOp} {index : Nat} :
    (m.fuseClaim op index).store = m.store := by
  unfold fuseClaim; split <;> rfl

@[simp] theorem fuseClaim_capture {op : RegisterOp} {index : Nat} :
    (m.fuseClaim op index).capture = m.capture := by
  unfold fuseClaim; split <;> rfl

-- The rest of `_apply_register` once `prepare` has accepted.
def acceptRegister (op : RegisterOp) (prepared : PreparedRegistration) (index : Nat) :
    Outcome × List ResourceEvent × StateMachine :=
  let m := (m.fuseClaim op index).captureBeforeMutating op.resourceType op.resourceId
  -- A resource this entry creates was created at this entry, whatever the proposer predicted.
  let created := if prepared.creates then op.updated else op.created
  let (result, store) :=
    m.store.applyCommitted prepared ⟨op.bodyText⟩ created op.updated op.health now
  let cursors := m.cursors.observe op.resourceType op.updated
  (.registration result, result.events, { m with store, cursors })

def applyRegister [Python] (op : RegisterOp) (index : Nat) :
    Outcome × List ResourceEvent × StateMachine :=
  match m.store.prepare op.resourceType (Body.data ⟨op.bodyText⟩) with
  | .error failure => (.registration failure, [], m)
  | .ok prepared   => m.acceptRegister now op prepared index

-- A delete with its cascade photographed first, as unregistering and expiring do it.
def applyDelete (t : ResourceType) (id : String) : Option (List ResourceEvent) × StateMachine :=
  let m := m.captureSubtree t id
  let (removed, store) := m.store.delete t id now.seconds
  (removed, { m with store })

def applyUnregister (t : ResourceType) (id : String) :
    Outcome × List ResourceEvent × StateMachine :=
  match m.applyDelete now t id with
  | (some removed, m) => (.flag true, ordered removed, m)
  | (none, m)         => (.flag false, [], m)

def applyExpire (nodeId : String) : Outcome × List ResourceEvent × StateMachine :=
  match m.applyDelete now .node nodeId with
  | (some removed, m) => (.count removed.length, ordered removed, m)
  | (none, m)         => (.count 0, [], m)

@[simp] theorem applyUnregister_machine {t : ResourceType} {id : String} :
    (m.applyUnregister now t id).2.2 = (m.applyDelete now t id).2 := by
  unfold applyUnregister; split <;> simp_all

@[simp] theorem applyExpire_machine {id : String} :
    (m.applyExpire now id).2.2 = (m.applyDelete now .node id).2 := by
  unfold applyExpire; split <;> simp_all

@[simp] theorem captureSubtree_store {t : ResourceType} {id : String} :
    (m.captureSubtree t id).store = m.store := rfl

-- One victim of a forget.
def forgetOne (acc : Nat × RegistryStore) (v : ResourceKey) : Nat × RegistryStore :=
  let (forgotten, store) := acc.2.forget v.1 v.2
  (if forgotten then acc.1 + 1 else acc.1, store)

def applyForget (victims : List ResourceKey) : Outcome × StateMachine :=
  let m := victims.foldl (fun m v => m.captureBeforeMutating v.1 v.2) m
  let (forgotten, store) := victims.foldl forgetOne (0, m.store)
  (.count forgotten, { m with store })

def applyOne [Python] (index : Nat) :
    RegistryOperation → Option Outcome × List ResourceEvent × StateMachine
  | .noop _            => (none, [], m)
  | .register op       =>
    let (outcome, events, m) := m.applyRegister now op index
    (outcome, events, m)
  | .unregister _ t id =>
    let (outcome, events, m) := m.applyUnregister now t id
    (outcome, events, m)
  | .expire _ nodeId   =>
    let (outcome, events, m) := m.applyExpire now nodeId
    (outcome, events, m)
  | .forget _ victims  =>
    let (outcome, m) := m.applyForget victims
    (outcome, [], m)
  | .claimOwnership _ nodeId owner =>
    (some (.flag true), [], { m with ownership := (m.ownership.claim nodeId owner index).2 })
  | .releaseOwnership _ nodeId =>
    (some (.flag true), [], { m with ownership := (m.ownership.release nodeId index).2 })
  | .memberDown _ member =>
    let (released, ownership) := m.ownership.memberDown member index
    (some (.count released.length), [], { m with ownership })

-- One entry of a run; an entry that was applied already is skipped.
def applyEntry [Python] (entry : Entry RegistryOperation) :
    Option Outcome × List ResourceEvent × StateMachine :=
  if entry.index ≤ m.lastApplied then
    (none, [], m)
  else
    let (outcome, events, m) := m.applyOne now entry.index entry.value
    (outcome, events, { m with lastApplied := entry.index })

-- A bounded run of entries, each applied at a clock reading of its own, with the outcomes by proposal
-- and the events of the whole run.
def apply [Python] (entries : List (TaiCursor × Entry RegistryOperation)) :
    List (ProposalId × Outcome) × List ResourceEvent × StateMachine :=
  entries.foldl (fun (outcomes, events, m) (now, entry) =>
    let (outcome, es, m) := m.applyEntry now entry
    (outcomes ++ outcome.toList.map (entry.value.proposal, ·), events ++ es, m)) ([], [], m)

-- One entry of the run.
def applyNext [Python] (acc : List (ProposalId × Outcome) × List ResourceEvent × StateMachine)
    (p : TaiCursor × Entry RegistryOperation) : List (ProposalId × Outcome) × List ResourceEvent × StateMachine :=
  let (outcome, es, m) := acc.2.2.applyEntry p.1 p.2
  (acc.1 ++ outcome.toList.map (p.2.value.proposal, ·), acc.2.1 ++ es, m)

theorem apply_eq_foldl [Python] {entries : List (TaiCursor × Entry RegistryOperation)} :
    m.apply entries = entries.foldl applyNext ([], [], m) :=
  rfl

end StateMachine
end Raft
