import NmosReference.Raft.Ownership
import NmosReference.Registry.Store

namespace Raft

open Registry

-- One record of a snapshot: the fields as they are written, with `body.text` verbatim.
structure Image where
  typeName   : String
  resourceId : String
  version    : String
  created    : TaiCursor
  updated    : TaiCursor
  extant     : Bool
  health     : Nat
  parentId   : String
  bodyText   : String
  deriving DecidableEq, Repr

def encodeResource (r : RegisteredResource) : Image where
  typeName   := r.resourceType.value
  resourceId := r.id
  version    := r.version
  created    := r.created
  updated    := r.updated
  extant     := r.extant
  -- `max(0, health)`
  health     := r.health.toNat
  parentId   := r.parentId.getD ""
  bodyText   := r.body.text

-- `none` for an unknown type name.
def decodeResource (image : Image) : Option RegisteredResource := do
  let resourceType ← ResourceType.all.find? (·.value = image.typeName)
  some {
    resourceType
    id       := image.resourceId
    body     := ⟨image.bodyText⟩
    version  := image.version
    created  := image.created
    updated  := image.updated
    parentId := if image.parentId = "" then none else image.parentId
    extant   := image.extant
    health   := image.health }

abbrev ResourceKey := ResourceType × String

-- Pre-images of the records mutated since the capture opened.
structure SnapshotCapture where
  index     : Nat
  term      : Nat
  ownership : List (String × Ownership)
  pre       : Dict ResourceKey Image
  -- Resources that did not exist at the pinned index.
  gone      : List ResourceKey

namespace SnapshotCapture

variable (c : SnapshotCapture)

def new (index term : Nat) (ownership : OwnershipTable) : SnapshotCapture where
  index     := index
  term      := term
  ownership := ownership.encode
  pre       := ∅
  gone      := []

-- Records a pre-image, if this resource has not been captured yet.
def capture (r : RegisteredResource) : SnapshotCapture :=
  let key := (r.resourceType, r.id)
  if c.pre.contains key ∨ key ∈ c.gone then c else { c with pre := c.pre.set key (encodeResource r) }

-- Notes a resource that did not exist when the capture opened.
def captureCreated (t : ResourceType) (id : String) : SnapshotCapture :=
  if c.pre.contains (t, id) then c else { c with gone := c.gone.insert (t, id) }

-- What this resource was at the pinned index, or `none` to skip it.
def imageOf (r : RegisteredResource) : Option Image :=
  let key := (r.resourceType, r.id)
  if key ∈ c.gone then none else some <| (c.pre.get? key).getD (encodeResource r)

-- Captured pre-images whose resource the live walk did not reach, in the order of type name and id.
def orphans (live : List ResourceKey) : List Image :=
  sortBy (fun p => toLex (p.1.1.value, p.1.2)) (c.pre.items.filter (·.1 ∉ live))
    |>.map Prod.snd

end SnapshotCapture
end Raft
