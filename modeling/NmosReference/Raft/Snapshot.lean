import NmosReference.Raft.Machine

namespace Raft

open Registry

-- How many resources are serialised between yields.
def CHUNK_RESOURCES : Nat := 256

-- A snapshot as it is stored and transferred.
structure Snapshot where
  lastIndex : Nat
  lastTerm  : Nat
  count     : Nat
  ownership : List (String × Ownership)
  records   : List Image
  deriving DecidableEq, Repr

namespace StateMachine

-- `SnapshotStore.begin`; `none` if a capture is already open.
def beginCapture (m : StateMachine) (index term : Nat) : Option StateMachine :=
  match m.capture with
  | some _ => none
  | none   => some { m with capture := some <| .new index term m.ownership }

end StateMachine

-- Where the serialisation stands between two yields.
structure Walk where
  -- What is left of the type being walked. The list was sorted when the walk came to that type; it
  -- holds the records themselves, so a later change in place shows through.
  current : List RegisteredResource
  types   : List ResourceType
  live    : List ResourceKey
  records : List Image
  seen    : Nat

namespace Walk

def start : Walk where
  current := []
  types   := ResourceType.all
  live    := []
  records := []
  seen    := 0

def sortedExtant (store : RegistryStore) (t : ResourceType) : List RegisteredResource :=
  sortBy (·.id) (store.iterExtant t)

-- The record as it is now: its own object if it was not replaced or dropped since.
def now (store : RegistryStore) (r : RegisteredResource) : RegisteredResource :=
  (store.record r.resourceType r.id).getD r

-- One turn of the loop of `finish`.
def visit (store : RegistryStore) (capture : SnapshotCapture) (r : RegisteredResource) (w : Walk) :
    Walk :=
  let r := now store r
  { w with
    live := (r.resourceType, r.id) :: w.live
    records := w.records ++ (capture.imageOf r).toList
    seen := w.seen + 1 }

-- Visits the records of a list up to the next yield; what is left of the list says where it stopped.
def visitList (store : RegistryStore) (capture : SnapshotCapture) :
    List RegisteredResource → Walk → Bool × Walk
  | [], w      => (false, { w with current := [] })
  | r :: rs, w =>
    let w := visit store capture r w
    if w.seen % CHUNK_RESOURCES = 0 then (true, { w with current := rs })
    else visitList store capture rs w

-- Walks on, type by type, up to the next yield; `false` if the walk came to its end.
def visitTypes (store : RegistryStore) (capture : SnapshotCapture) :
    List ResourceType → Walk → Bool × Walk
  | [], w      => (false, { w with types := [] })
  | t :: ts, w =>
    match visitList store capture (sortedExtant store t) w with
    | (true, w)  => (true, { w with types := ts })
    | (false, w) => visitTypes store capture ts w

def resume (store : RegistryStore) (capture : SnapshotCapture) (w : Walk) : Bool × Walk :=
  match visitList store capture w.current w with
  | (true, w)  => (true, w)
  | (false, w) => visitTypes store capture w.types w

end Walk

-- The snapshot written once the walk is at its end: what was walked, and then the pre-images of what
-- was deleted while the capture was open.
def SnapshotCapture.finish (c : SnapshotCapture) (w : Walk) : Snapshot :=
  let records := w.records ++ c.orphans w.live
  { lastIndex := c.index, lastTerm := c.term, count := records.length, ownership := c.ownership,
    records }

-- `none` for a snapshot that is malformed.
def decodeSnapshot (s : Snapshot) : Option (OwnershipTable × List RegisteredResource) := do
  let records ← s.records.mapM decodeResource
  if s.count = records.length then some (.decode s.ownership, records) else none

-- Restores one record through `prepare` and `apply_committed`; a refused one fails the install.
def installRecord [Python] (now : TaiCursor) (store : RegistryStore) (r : RegisteredResource) :
    Option RegistryStore :=
  match store.prepare r.resourceType r.raw with
  | .error _     => none
  | .ok prepared => some (store.applyCommitted prepared r.body r.created r.updated r.health now).2

def depthOrder (records : List RegisteredResource) : List RegisteredResource :=
  sortBy (fun r => toLex (r.resourceType.depth, r.id)) records

-- Builds a fresh store from a snapshot's records, parents first.
def install [Python] (records : List RegisteredResource) (gcInterval forgetInterval : Rat)
    (now : TaiCursor) : Option RegistryStore :=
  (depthOrder records).foldlM (installRecord now) (.new gcInterval forgetInterval)

-- What a member does with a snapshot it has received in full.
def StateMachine.installPayload [Python] (m : StateMachine) (s : Snapshot) (now : TaiCursor) :
    Option StateMachine := do
  let (ownership, records) ← decodeSnapshot s
  let store ← install records m.store.gcInterval m.store.forgetInterval now
  some <| m.installSnapshot store ownership s.lastIndex

end Raft
