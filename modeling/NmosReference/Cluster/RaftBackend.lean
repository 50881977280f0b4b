import NmosReference.Library.Transition
import NmosReference.Raft.SnapshotPinned

-- The registries of a Raft cluster: how each routes a request to the owner of its Node, beats, sweeps
-- and proposes. Of consensus there is the committed log, and what was proposed and may be committed.
namespace Cluster

open Registry Raft

-- What is asked of a registry on behalf of a client.
inductive Request
  | register (t : ResourceType) (body : Body)
  | heartbeat (nodeId : String)
  deriving DecidableEq, Repr

-- The owner's answer.
structure ForwardReply where
  ok           : Bool
  appliedIndex : Int := 0
  notOwner     : Bool
  owner        : Option Nat := none
  deriving DecidableEq, Repr

-- A request that one member handed to another.
structure Forward where
  origin     : Nat
  target     : Nat
  request    : Request
  -- Whether it may be routed once more if the Node moved.
  routeAgain : Bool
  -- The answer on its way back, and when it was given.
  reply      : Option (ForwardReply × Rat) := none
  deriving DecidableEq, Repr

-- A pass of the garbage collector, between two of its awaits.
structure Pass where
  threshold : Int
  -- The store that is swept, once the member has replaced it by another.
  replaced  : Option RegistryStore := none
  -- The Nodes still to look at. One that is not extant any more keeps the health it was left with: the
  -- list holds the objects, and the store may have another of that id by now.
  remaining : List (String × Option Int)
  -- Whether the outcome of a proposed expiry is awaited.
  waiting   : Bool := false

namespace Pass

variable (pass : Pass) (store : RegistryStore)

def swept : RegistryStore :=
  pass.replaced.getD store

def health (object : String × Option Int) : Int :=
  object.2.getD (((pass.swept store).record .node object.1).elim 0 (·.health))

-- Lets go of the objects that an entry retired.
def follow : Pass :=
  if pass.replaced.isSome then pass else
    { pass with remaining := pass.remaining.map fun (id, left) =>
        (id, left <|> if (store.get .node id).isSome then none else
          (store.record .node id).map (·.health)) }

end Pass

structure Member where
  machine   : StateMachine
  -- Peers with a healthy link.
  livePeers : Nat → Bool := fun _ => false
  -- A leader is known and a quorum is in reach.
  ready     : Bool := false
  leader    : Bool := false
  -- The snapshot being serialised, and the sweep under way.
  walk      : Option Walk := none
  pass      : Option Pass := none

namespace Member

variable (m : Member)

def store : RegistryStore :=
  m.machine.store

def setMachine (machine : StateMachine) : Member :=
  { m with machine }

-- Who owns this Node, or `none` when it is free to claim: a Node whose owner is out of reach is.
def ownerFor (index : Nat) (nodeId : String) : Option Nat :=
  match m.machine.ownership.ownerOf nodeId with
  | none      => none
  | some held =>
    if held.owner = index then some index
    else if m.livePeers held.owner then some held.owner
    else none

def owns (index : Nat) (nodeId : String) : Bool :=
  m.ownerFor index nodeId = some index

-- Which Node's subtree a resource belongs to.
def resolveNode [Python] (t : ResourceType) (raw : Python.Json) : Except RegistrationResult String :=
  match t with
  | .node   =>
    match Python.getStr raw "id" with
    | none    => .error <| .failure .schema "node has no id"
    | some id => .ok id
  | .device =>
    match Python.getStr raw "node_id" with
    | none    => .error <| .failure .schema "device has no node_id"
    | some id => .ok id
  | _       =>
    match Python.getStr raw "device_id" with
    | none          => .error <| .failure .schema s!"{t.value} has no device_id"
    | some deviceId =>
      match m.store.get .device deviceId with
      | none        => .error <| .failure .parentMissing s!"device {deviceId} is not registered"
      | some device => .ok (device.parentId.getD "")

-- `(created, updated)`, and the allocator they came from. An update keeps the creation cursor.
def cursorsFor (t : ResourceType) (id : String) (now : TaiCursor) :
    TaiCursor × TaiCursor × CursorAllocator :=
  let (updated, cursors) := m.machine.cursors.allocate t now
  let created := match m.store.record t id with
    | some existing => if existing.extant then existing.created else updated
    | none          => updated
  (created, updated, cursors)

-- What a member that restarts comes back with: nothing, but the bound of its cursors on disk.
def restarted (gcInterval forgetInterval : Rat) : Member where
  machine := .new (.new gcInterval forgetInterval)
    (.resume m.machine.cursors.reserved (.new m.machine.cursors.owner))

end Member

structure RaftCluster where
  time           : Rat
  -- How far the clock of each member is ahead of it.
  skew           : Nat → Rat := fun _ => 0
  gcInterval     : Rat
  forgetInterval : Rat
  members        : Nat → Member
  log            : List (Entry RegistryOperation) := []
  -- What was proposed and is not committed; it may never be.
  proposed       : List RegistryOperation := []
  forwards       : List Forward := []
  -- Snapshots that were taken, for members that lag behind.
  snapshots      : List Snapshot := []
  -- The last heartbeat of each Node that was answered with a 200.
  beats          : String → Option Rat := fun _ => none

inductive ClusterAction
  -- Time passes, clocks are set, links come and go, leaders change, members restart.
  | tick (time : Rat)
  | adjust (i : Nat) (skew : Rat)
  | link (i j : Nat) (up : Bool)
  | lead (i : Nat) (ready leader : Bool)
  | restart (i : Nat)
  -- Consensus.
  | noop (i : Nat)
  | commit (k term : Nat)
  | apply (i : Nat)
  | beginSnapshot (i : Nat)
  | walkSnapshot (i : Nat)
  | install (i k : Nat)
  -- The Registration API.
  | register (i : Nat) (t : ResourceType) (body : Body)
  | unregister (i : Nat) (t : ResourceType) (id : String)
  | heartbeat (i : Nat) (nodeId : String)
  -- Requests handed to another member: it serves one, the answer arrives, or the link ends first.
  | serve (k : Nat)
  | answer (k : Nat)
  | lose (k : Nat)
  -- The garbage collector: a pass begins, looks at one Node, learns the outcome of an expiry, ends.
  | collect (i : Nat)
  | consider (i : Nat)
  | settle (i : Nat) (committed : Bool)
  | finish (i : Nat)

namespace RaftCluster

variable (w : RaftCluster)

-- `time.time`, `TaiCursor.now` and `health_now` at a member.

def now (i : Nat) : Rat :=
  w.time + w.skew i

def clock (i : Nat) : TaiCursor :=
  ⟨⌊w.now i⌋, ⌊(w.now i - ⌊w.now i⌋) * 1000000000⌋⟩

def healthNow (i : Nat) : Int :=
  ⌊w.now i⌋

def modify (i : Nat) (f : Member → Member) : RaftCluster :=
  { w with members := Function.update w.members i (f (w.members i)) }

def propose (op : RegistryOperation) : RaftCluster :=
  { w with proposed := w.proposed ++ [op] }

def forward (f : Forward) : RaftCluster :=
  { w with forwards := w.forwards ++ [f] }

-- A 200: the member that holds the Node took the heartbeat at this time.
def accept (nodeId : String) (time : Rat) : RaftCluster :=
  { w with beats := Function.update w.beats nodeId (some <| (w.beats nodeId).elim time (max time)) }

-- Refreshes a Node the member takes to be its own; `none` if it does not hold it.
def beatHere (i : Nat) (nodeId : String) : Option Int × RaftCluster :=
  let (health, store) := (w.members i).store.heartbeat nodeId (w.healthNow i)
  (health, w.modify i fun m => m.setMachine { m.machine with store })

-- A heartbeat that finds no Node asks for a read barrier and is routed and tried again; until then it
-- has changed nothing, so what is modelled is its last try.
def heartbeatAt (i : Nat) (nodeId : String) (routeAgain : Bool) : RaftCluster :=
  match ((w.members i).ownerFor i nodeId).filter (· ≠ i) with
  | some owner =>
    w.forward { origin := i, target := owner, request := .heartbeat nodeId, routeAgain }
  | none       =>
    match w.beatHere i nodeId with
    | (some _, w) => w.accept nodeId w.time
    | (none, w)   => w

section Register

variable [Python]

-- `_register_as_owner`, up to the proposal.
def registerAsOwner (i : Nat) (t : ResourceType) (body : Body) (nodeId : String) (claim : Bool) :
    RaftCluster :=
  match (w.members i).store.prepare t body.data with
  | .error _     => w
  | .ok prepared =>
    let (created, updated, cursors) := (w.members i).cursorsFor t prepared.resourceId (w.clock i)
    let w := w.modify i fun m => m.setMachine { m.machine with cursors }
    w.propose <| .register {
      proposal      := ⟨i, 0⟩
      resourceType  := t
      resourceId    := prepared.resourceId
      nodeId        := nodeId
      bodyText      := body.text
      created       := created
      updated       := updated
      health        := w.healthNow i
      expectCreated := prepared.creates
      claimOwner    := if claim then some i else none }

def registerAt (i : Nat) (t : ResourceType) (body : Body) (routeAgain : Bool) : RaftCluster :=
  match (w.members i).resolveNode t body.data with
  | .error _   => w
  | .ok nodeId =>
    match (w.members i).ownerFor i nodeId with
    | none       => w.registerAsOwner i t body nodeId true
    | some owner =>
      if owner = i then w.registerAsOwner i t body nodeId false
      else w.forward { origin := i, target := owner, request := .register t body, routeAgain }

-- `_on_forward`. It answers, or it has taken the request over and what the client is told in the end
-- changes nothing here.
def onForward (i : Nat) : Request → Option ForwardReply × RaftCluster
  | .heartbeat nodeId =>
    match ((w.members i).ownerFor i nodeId).filter (· ≠ i) with
    | some owner => (some { ok := false, notOwner := true, owner }, w)
    | none       =>
      let (health, w) := w.beatHere i nodeId
      (some { ok := health.isSome, appliedIndex := health.getD 0, notOwner := false }, w)
  | .register t body  =>
    match (w.members i).resolveNode t body.data with
    | .error _   => (none, w)
    | .ok nodeId =>
      match (w.members i).ownerFor i nodeId with
      | none       => (none, w.registerAsOwner i t body nodeId true)
      | some owner =>
        if owner = i then (none, w.registerAsOwner i t body nodeId false)
        else (some { ok := false, notOwner := true, owner }, w)

-- Routes a request once more, or gives up with a 503.
def reroute (f : Forward) : RaftCluster :=
  if f.routeAgain then
    match f.request with
    | .heartbeat nodeId => w.heartbeatAt f.origin nodeId false
    | .register t body  => w.registerAt f.origin t body false
  else w

def receive (f : Forward) (reply : ForwardReply) (time : Rat) : RaftCluster :=
  if reply.notOwner then w.reroute f else
    match f.request with
    | .heartbeat nodeId => if reply.ok then w.accept nodeId time else w
    | .register _ _     => w

end Register

-- `_erase`, before it is known whether there is anything to delete.
def unregisterAt (i : Nat) (t : ResourceType) (id : String) : RaftCluster :=
  if ((w.members i).store.get t id).isSome then w.propose (.unregister ⟨i, 0⟩ t id) else w

-- One turn of the loop over the Nodes.
def considerAt (i : Nat) (pass : Pass) (object : String × Option Int)
    (remaining : List (String × Option Int)) : RaftCluster :=
  let m := w.members i
  if pass.health m.store object ≥ pass.threshold ∨ ¬m.owns i object.1 then
    w.modify i ({ · with pass := some { pass with remaining } })
  else
    let w := w.modify i ({ · with pass := some { pass with remaining, waiting := true } })
    w.propose (.expire ⟨i, 0⟩ object.1)

-- Stage two: the leader has the old tombstones forgotten.
def finishAt (i : Nat) (pass : Pass) : RaftCluster :=
  let victims := (pass.swept (w.members i).store).forgettable (w.healthNow i)
  let w := w.modify i ({ · with pass := none })
  if victims ≠ [] ∧ (w.members i).leader then w.propose (.forget ⟨i, 0⟩ victims) else w

-- The last entry that a member has applied.
def lastEntry (i : Nat) : Option (Entry RegistryOperation) :=
  let index := (w.members i).machine.lastApplied
  if index = 0 then none else w.log[index - 1]?

def step [Python] : ClusterAction → Option RaftCluster
  | .tick time          => if w.time ≤ time then some { w with time } else none
  | .adjust i skew      => some { w with skew := Function.update w.skew i skew }
  | .link i j up        =>
    some <| w.modify i fun m => { m with livePeers := Function.update m.livePeers j up }
  | .lead i ready leader => some <| w.modify i ({ · with ready, leader })
  | .restart i          =>
    let w := w.modify i (·.restarted w.gcInterval w.forgetInterval)
    -- An answer it gave may still arrive.
    some { w with forwards := w.forwards.filter fun f =>
      f.origin ≠ i ∧ (f.target ≠ i ∨ f.reply.isSome) }
  | .noop i             => some <| w.propose (.noop ⟨i, 0⟩)
  | .commit k term      => do
    let op ← w.proposed[k]?
    some { w with
      proposed := w.proposed.eraseIdx k
      log      := w.log ++ [⟨term, w.log.length + 1, op⟩] }
  | .apply i            => do
    let m := w.members i
    let entry ← w.log[m.machine.lastApplied]?
    let machine := (m.machine.applyEntry (w.clock i) entry).2.2
    some <| w.modify i fun m => { m with machine, pass := m.pass.map (·.follow machine.store) }
  | .beginSnapshot i    => do
    let m := w.members i
    let entry ← w.lastEntry i
    let machine ← m.machine.beginCapture m.machine.lastApplied entry.term
    some <| w.modify i ({ · with machine, walk := some .start })
  | .walkSnapshot i     => do
    let m := w.members i
    let capture ← m.machine.capture
    match (← m.walk).resume m.store capture with
    | (true, walk)  => some <| w.modify i ({ · with walk := some walk })
    | (false, walk) =>
      let w := w.modify i fun m => { m with machine := { m.machine with capture := none }, walk := none }
      some { w with snapshots := w.snapshots ++ [capture.finish walk] }
  | .install i k        => do
    let m := w.members i
    let snapshot ← w.snapshots[k]?
    if m.machine.lastApplied < snapshot.lastIndex then
      let machine ← m.machine.installPayload snapshot (w.clock i)
      some <| w.modify i fun m => { m with
        machine, walk := none,
        pass := m.pass.map fun pass => { pass with replaced := pass.swept m.store } }
    else none
  | .register i t body  => some <| w.registerAt i t body true
  | .unregister i t id  => some <| w.unregisterAt i t id
  | .heartbeat i nodeId => some <| w.heartbeatAt i nodeId true
  | .serve k            => do
    let f ← w.forwards[k]?
    if f.reply.isNone then
      let (reply, w) := w.onForward f.target f.request
      match reply with
      | some reply => some { w with
          forwards := w.forwards.set k { f with reply := some (reply, w.time) } }
      | none       => some { w with forwards := w.forwards.eraseIdx k }
    else none
  | .answer k           => do
    let f ← w.forwards[k]?
    let (reply, time) ← f.reply
    some <| { w with forwards := w.forwards.eraseIdx k }.receive f reply time
  | .lose k             => some { w with forwards := w.forwards.eraseIdx k }
  | .collect i          =>
    let m := w.members i
    if m.pass.isNone ∧ m.ready then
      some <| w.modify i ({ · with pass := some {
        threshold := w.healthNow i - wholeSeconds m.store.gcInterval
        remaining := (m.store.iterExtant .node).map fun node => (node.id, none) } })
    else none
  | .consider i         => do
    let pass ← (w.members i).pass
    match pass.waiting, pass.remaining with
    | false, object :: remaining => some <| w.considerAt i pass object remaining
    | _, _                       => none
  | .settle i committed => do
    let pass ← (w.members i).pass
    if pass.waiting then
      let remaining := if committed then pass.remaining else []
      some <| w.modify i ({ · with pass := some { pass with waiting := false, remaining } })
    else none
  | .finish i           => do
    let pass ← (w.members i).pass
    if pass.waiting ∨ pass.remaining ≠ [] then none else some <| w.finishAt i pass

-- A cluster that is about to form.
def start (gcInterval forgetInterval : Rat) (time : Rat) : RaftCluster where
  time           := time
  gcInterval     := gcInterval
  forgetInterval := forgetInterval
  -- There are at most `MAX_OWNERS` of them.
  members i      := {
    machine := .new (.new gcInterval forgetInterval) (.new ⟨i % MAX_OWNERS, Nat.mod_lt _ (by decide)⟩) }

end RaftCluster

def clusterSystem [Python] (gcInterval forgetInterval : Rat) (time : Rat) :
    TransitionSystem RaftCluster ClusterAction where
  init := .start gcInterval forgetInterval time
  step := fun w => w.step

end Cluster
