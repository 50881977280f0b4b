import NmosReference.Library.Dict
import NmosReference.Library.Sort
import NmosReference.Registry.Types
import Mathlib

namespace Registry

-- `int` of a number of seconds, which truncates towards zero.
def wholeSeconds (q : Rat) : Int :=
  if 0 ≤ q then q.floor else -(-q).floor

-- The two paging orders.
inductive Order
  | create | update
  deriving DecidableEq, Repr

-- The cascades recurse on the store; this is where the interpreter would stop them.
def RECURSION_LIMIT : Nat := 1000

-- The registry's resource database.
structure RegistryStore where
  -- Both extant and non-extant records, bucketed by type.
  byType         : ResourceType → Dict String RegisteredResource
  typeOf         : String → Option ResourceType
  -- A set of child ids for each parent id, read in sorted order only.
  children       : String → List String
  lastCursor     : ResourceType → Option TaiCursor
  -- Resource ids in ascending cursor order, unless the index is dirty.
  order          : ResourceType → Order → Dict String Unit
  orderDirty     : ResourceType → Order → Bool
  gcInterval     : Rat
  forgetInterval : Rat

namespace RegistryStore

variable (s : RegistryStore)

def new (gcInterval forgetInterval : Rat) : RegistryStore where
  byType _       := ∅
  typeOf _       := none
  children _     := []
  lastCursor _   := none
  order _ _      := ∅
  orderDirty _ _ := false
  gcInterval     := gcInterval
  forgetInterval := forgetInterval

-- Primitive updates of the dictionaries.

def setRecord (r : RegisteredResource) : RegistryStore :=
  { s with byType := Function.update s.byType r.resourceType <|
      (s.byType r.resourceType).set r.id r }

def eraseRecord (t : ResourceType) (id : String) : RegistryStore :=
  { s with byType := Function.update s.byType t <| (s.byType t).erase id }

def setType (id : String) (t : Option ResourceType) : RegistryStore :=
  { s with typeOf := Function.update s.typeOf id t }

def addChild (parent id : String) : RegistryStore :=
  { s with children := Function.update s.children parent <| (s.children parent).insert id }

def discardChild (parent id : String) : RegistryStore :=
  { s with children := Function.update s.children parent <| (s.children parent).filter (· ≠ id) }

def popChildren (parent : String) : RegistryStore :=
  { s with children := Function.update s.children parent [] }

-- Cursor-ordered indexes.

def cursorOf (r : RegisteredResource) : Order → TaiCursor
  | .create => r.created
  | .update => r.updated

-- Moves a resource to the end of one index, and marks the index dirty if that is not its place.
def touchOrder (t : ResourceType) (o : Order) (id : String) (cursor : TaiCursor) : RegistryStore :=
  let index := (s.order t o).erase id
  let misplaced := index.keys.getLast?.any fun lastId =>
    ((s.byType t).get? lastId).any fun last =>
      decide (toLex (cursor, id) < toLex (cursorOf last o, lastId))
  { s with
    order := Function.update s.order t <| Function.update (s.order t) o <| index.set id ()
    orderDirty := Function.update s.orderDirty t <|
      Function.update (s.orderDirty t) o (s.orderDirty t o || misplaced) }

def dropFromOrder (t : ResourceType) (id : String) : RegistryStore :=
  { s with order := Function.update s.order t fun o => (s.order t o).erase id }

-- Lookup.

-- The record of an id in one bucket, extant or not.
def record (t : ResourceType) (id : String) : Option RegisteredResource :=
  (s.byType t).get? id

def get (t : ResourceType) (id : String) : Option RegisteredResource :=
  (s.record t id).filter (·.extant)

def findAny (id : String) : Option RegisteredResource :=
  (s.typeOf id).bind (s.get · id)

def iterExtant (t : ResourceType) : List RegisteredResource :=
  (s.byType t).values.filter (·.extant)

-- What an index is sorted by: the cursor, and the id where cursors tie.
def orderKey (t : ResourceType) (o : Order) (id : String) : TaiCursor ×ₗ String :=
  toLex ((s.record t id).elim .min (cursorOf · o), id)

-- Sorts a dirty index.
def resort (t : ResourceType) (o : Order) : RegistryStore :=
  if s.orderDirty t o then
    let ordered := sortBy (s.orderKey t o) <|
      (s.order t o).keys.filter fun id => (s.record t id).isSome
    { s with
      order := Function.update s.order t <| Function.update (s.order t) o <|
        ordered.foldl (fun index id => index.set id ()) ∅
      orderDirty := Function.update s.orderDirty t <| Function.update (s.orderDirty t) o false }
  else
    s

-- Extant resources of one type, ascending by cursor. Reading a dirty index leaves it sorted.
def iterOrdered (t : ResourceType) (o : Order) : List RegisteredResource × RegistryStore :=
  let s := s.resort t o
  ((s.order t o).keys.filterMap (s.get t), s)

def childIds (id : String) : List String :=
  sortBy (fun x => x) (s.children id)

-- Registration.

section Prepare

variable [Python]

def parentIdOf (t : ResourceType) (raw : Python.Json) : Option String :=
  t.parentKey.bind (Python.getStr raw)

-- Referential integrity: the parent must be registered and of the right type.
def checkParent (t : ResourceType) (parentId : Option String) : Option RegistrationResult :=
  match t.parentType, t.parentKey, parentId with
  | some _, some key, none => some <| .failure .schema s!"{t.value} is missing its '{key}' attribute"
  | some expected, some key, some parentId =>
    match (s.typeOf parentId).filter fun actual => (s.get actual parentId).isSome with
    | none        =>
      some <| .failure .parentMissing s!"parent {expected.value} {parentId} is not registered"
    | some actual =>
      if actual ≠ expected then
        some <| .failure .parentMissing
          s!"{key} {parentId} names a {actual.value}, expected a {expected.value}"
      else
        none
  | _, _, _ => none

-- The two conditions on updates: the version must not go backwards, and the parent must not change.
def checkUpdate (previous : RegisteredResource) (version : String) (parentId : Option String) :
    Option RegistrationResult :=
  match TaiCursor.parse version with
  | none           =>
    some <| .failure .schema s!"version {Python.repr version} is not '<seconds>:<nanoseconds>'"
  | some newCursor =>
    if previous.versionCursor.any (newCursor < ·) then
      some <| .failure .versionRegression
        s!"version {version} is earlier than the registered version {previous.version}"
    else if previous.parentId.isSome ∧ parentId ≠ previous.parentId then
      let key := previous.resourceType.parentKey.getD "None"
      let old := previous.parentId.getD "None"
      let new := parentId.getD "None"
      some <| .failure .parentChanged s!"{key} cannot be modified by an update ({old} -> {new})"
    else
      none

-- The checks once the id and the version are read and the id is known not to name another type.
def prepareTyped (t : ResourceType) (id version : String) (parentId : Option String) :
    Except RegistrationResult PreparedRegistration :=
  match s.checkParent t parentId with
  | some failure => .error failure
  | none         =>
    -- A non-extant record counts as absent: registering its id again is a create.
    match (s.get t id).bind (checkUpdate · version parentId) with
    | some failure => .error failure
    | none         =>
      let reviving := (s.record t id).any (!·.extant)
      .ok { resourceType := t, resourceId := id, version, parentId,
            creates := (s.record t id).isNone || reviving, reviving }

-- Validates a registration against the current state without mutating it.
def prepare (t : ResourceType) (raw : Python.Json) :
    Except RegistrationResult PreparedRegistration :=
  match (Python.getStr raw "id").filter (· ≠ ""), Python.getStr raw "version" with
  | none, _               => .error <| .failure .schema "resource has no 'id' attribute"
  | some _, none          => .error <| .failure .schema "resource has no 'version' attribute"
  | some id, some version =>
    match (s.typeOf id).filter (· ≠ t) with
    | some existing =>
      .error <| .failure .idTypeConflict
        s!"id {id} is already registered as a {existing.value}, cannot re-register as a {t.value}"
    | none          => s.prepareTyped t id version (parentIdOf t raw)

end Prepare

def nextCursor (t : ResourceType) (now : TaiCursor) : TaiCursor × RegistryStore :=
  let cursor := match s.lastCursor t with
    | some previous => if now ≤ previous then previous.next else now
    | none          => now
  (cursor, { s with lastCursor := Function.update s.lastCursor t cursor })

-- Keeps the per-type mark ahead of a cursor that was not allocated here.
def raiseLastCursor (t : ResourceType) (cursor : TaiCursor) : RegistryStore :=
  match s.lastCursor t with
  | some previous =>
    if cursor > previous then { s with lastCursor := Function.update s.lastCursor t cursor } else s
  | none          => { s with lastCursor := Function.update s.lastCursor t cursor }

def reparent (id : String) (preParent newParent : Option String) : RegistryStore :=
  let s := preParent.elim s (s.discardChild · id)
  newParent.elim s (s.addChild · id)

-- The update cursor of a registration: the authoritative one, or else this registry's own.
def commitCursor (t : ResourceType) (updated : Option TaiCursor) (now : TaiCursor) :
    TaiCursor × RegistryStore :=
  let (cursor, s) := updated.elim (s.nextCursor t now) (·, s)
  (cursor, s.raiseLastCursor t cursor)

-- The branch of `apply_committed` that updates a record in place.
def commitUpdate (previous : RegisteredResource) (prepared : PreparedRegistration) (body : Body)
    (cursor : TaiCursor) (health : Int) : RegistrationResult × RegistryStore :=
  let resource := { previous with
    body, version := prepared.version, updated := cursor, parentId := prepared.parentId, health }
  let s := s.setRecord resource
  let s := s.reparent prepared.resourceId previous.parentId prepared.parentId
  let s := s.touchOrder prepared.resourceType .update prepared.resourceId cursor
  ({ created := false, events := [.modified previous.body resource] }, s)

-- The branch that creates a record, or replaces a tombstone by a fresh one.
def commitCreate (preParent : Option String) (prepared : PreparedRegistration) (body : Body)
    (created cursor : TaiCursor) (health : Int) : RegistrationResult × RegistryStore :=
  let id := prepared.resourceId
  let t := prepared.resourceType
  let resource :=
    { resourceType := t, id, body, version := prepared.version, created, updated := cursor,
      parentId := prepared.parentId, extant := true, health }
  let s := s.setRecord resource
  let s := s.setType id t
  let s := s.reparent id preParent prepared.parentId
  -- The fresh record does not inherit the resources that were erased alongside the old one.
  let s := if prepared.reviving then s.popChildren id else s
  let s := s.touchOrder t .create id created
  let s := s.touchOrder t .update id cursor
  ({ created := true, events := [.added resource] }, s)

-- Applies a registration that has been validated and committed. The cursors and the health are the
-- authoritative ones, or else this registry's own at the clock reading `now`.
def applyCommitted (prepared : PreparedRegistration) (body : Body)
    (created updated : Option TaiCursor) (health : Option Int) (now : TaiCursor) :
    RegistrationResult × RegistryStore :=
  let health := health.getD now.seconds
  let (cursor, s) := s.commitCursor prepared.resourceType updated now
  match s.record prepared.resourceType prepared.resourceId with
  | some previous =>
    if prepared.reviving then
      s.commitCreate previous.parentId prepared body (created.getD cursor) cursor health
    else
      s.commitUpdate previous prepared body cursor health
  | none          => s.commitCreate none prepared body (created.getD cursor) cursor health

def insertOrUpdate [Python] (t : ResourceType) (body : Body) (now : TaiCursor) :
    RegistrationResult × RegistryStore :=
  match s.prepare t body.data with
  | .error failure => (failure, s)
  | .ok prepared   => s.applyCommitted prepared body none none none now

-- Deletion.

-- `resource.extant = False`, with the moment it happened as its health.
def retire (r : RegisteredResource) (now : Int) : RegistryStore :=
  s.setRecord { r with extant := false, health := now }

-- One turn of the loop over the children, given how a child is erased.
def eraseChild (erase : RegisteredResource → RegistryStore → List ResourceEvent × RegistryStore)
    (acc : List ResourceEvent × RegistryStore) (childId : String) :
    List ResourceEvent × RegistryStore :=
  match acc.2.findAny childId with
  | some child => (acc.1 ++ (erase child acc.2).1, (erase child acc.2).2)
  | none       => acc

-- Marks a resource and its descendants non-extant, children before their parent.
def eraseSubtree (now : Int) :
    Nat → RegisteredResource → RegistryStore → List ResourceEvent × RegistryStore
  | 0, _, s         => ([], s)
  | limit + 1, r, s =>
    let (events, s) := (s.childIds r.id).foldl (eraseChild <| eraseSubtree now limit) ([], s)
    (events ++ [.removed r], s.retire r now)

def delete (t : ResourceType) (id : String) (now : Int) :
    Option (List ResourceEvent) × RegistryStore :=
  match s.get t id with
  | some r =>
    let (events, s) := eraseSubtree now RECURSION_LIMIT r s
    (some events, s)
  | none   => (none, s)

-- Marks a single resource non-extant without cascading to its children.
def removeOne (t : ResourceType) (id : String) (now : Int) :
    Option ResourceEvent × RegistryStore :=
  match s.get t id with
  | some r => (some (.removed r), s.retire r now)
  | none   => (none, s)

-- A resource and its descendants, in the order `eraseSubtree` takes them.
def subtreeOf : Nat → RegisteredResource → List RegisteredResource
  | 0, _         => []
  | limit + 1, r =>
    (s.childIds r.id).flatMap (fun c => (s.findAny c).elim [] (subtreeOf limit)) ++ [r]

def subtree (t : ResourceType) (id : String) : List RegisteredResource :=
  (s.get t id).elim [] (s.subtreeOf RECURSION_LIMIT)

-- Drops a record entirely; only then is its id free for reuse.
def dropRecord (r : RegisteredResource) : RegistryStore :=
  let s := s.eraseRecord r.resourceType r.id
  let s := s.dropFromOrder r.resourceType r.id
  let s := if s.typeOf r.id = some r.resourceType then s.setType r.id none else s
  let s := s.popChildren r.id
  r.parentId.elim s (s.discardChild · r.id)

-- Drops one tombstone; an extant resource is refused.
def forget (t : ResourceType) (id : String) : Bool × RegistryStore :=
  match (s.record t id).filter (!·.extant) with
  | some r => (true, s.dropRecord r)
  | none   => (false, s)

-- Which tombstones have outlived the forget interval, sorted by type and id.
def forgettable (now : Int) : List (ResourceType × String) :=
  let victims := ResourceType.all.flatMap fun t =>
    (s.byType t).values.filter (fun r => !r.extant ∧ r.health < now - wholeSeconds s.forgetInterval)
      |>.map fun r => (r.resourceType, r.id)
  sortBy (fun v => toLex (v.1.value, v.2)) victims

-- Health and garbage collection.

-- The resource and all of its descendants.
def setHealthRecursive (health : Int) : Nat → RegisteredResource → RegistryStore → RegistryStore
  | 0, _, s         => s
  | limit + 1, r, s =>
    let s := (s.children r.id).foldl (fun s c =>
      (s.findAny c).elim s (setHealthRecursive health limit · s)) s
    s.setRecord { r with health }

def heartbeat (nodeId : String) (now : Int) : Option Int × RegistryStore :=
  match s.get .node nodeId with
  | some node => (some now, setHealthRecursive now RECURSION_LIMIT node s)
  | none      => (none, s)

def nodeHealth (nodeId : String) : Option Int :=
  (s.get .node nodeId).map (·.health)

-- One turn of the loop over the Nodes: one that has been silent too long is erased.
def collectNode (now : Int) (acc : List ResourceEvent × RegistryStore) (node : RegisteredResource) :
    List ResourceEvent × RegistryStore :=
  match (acc.2.record .node node.id).filter (·.health < now - wholeSeconds acc.2.gcInterval) with
  | some node =>
    let (erased, s) := eraseSubtree now RECURSION_LIMIT node acc.2
    (acc.1 ++ erased, s)
  | none      => acc

-- Expires silent Nodes and forgets long-dead records.
def collectGarbage (now : Int) : List ResourceEvent × RegistryStore :=
  let (events, s) := (s.iterExtant .node).foldl (collectNode now) ([], s)
  (events, (s.forgettable now).foldl (fun s v => (s.forget v.1 v.2).2) s)

end RegistryStore
end Registry
