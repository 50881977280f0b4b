import NmosReference.Library.Transition
import NmosReference.Query.Subscriptions
import NmosReference.Raft.SnapshotPinned
import NmosReference.Registry.EtcdView

-- One registry instance: its store, the ways in which the store changes, and the subscriptions that
-- follow it.
namespace Query

open Registry Raft

-- Where the authoritative state of an instance lives.
inductive Backend
  | standalone | raft | etcd
  deriving DecidableEq, Repr

structure Instance where
  backend : Backend
  -- The store, and with a Raft backend the rest of the replicated state.
  machine : StateMachine
  manager : SubscriptionManager
  -- Subscriptions that were looked up for a WebSocket whose handshake is under way.
  opening : List Subscription

inductive InstanceAction
  -- The Query API.
  | createOrMatch (request : Subscription)
  | delete (id : String)
  | accept (id : String)
  | connect (n : Nat)
  | disconnect (id : String) (n : Nat)
  | deliver (id : String) (n : Nat)
  -- The Registration API and the garbage collector, without a cluster.
  | register (t : ResourceType) (body : Body) (now : TaiCursor)
  | unregister (t : ResourceType) (id : String) (now : TaiCursor)
  | collectGarbage (now : TaiCursor)
  | heartbeat (nodeId : String) (now : TaiCursor)
  -- Raft.
  | apply (entries : List (TaiCursor × Entry RegistryOperation))
  | install (snapshot : Snapshot) (now : TaiCursor)
  -- etcd.
  | applyBatch (batch : List WatchEvent) (now : TaiCursor)
  | resnapshot (kvs : List (ParsedKey × Envelope)) (now : TaiCursor)
  | forgetTombstones (now : TaiCursor)

namespace Instance

variable [Python] [QueryFilter] (w : Instance)

def store : RegistryStore :=
  w.machine.store

def setStore (store : RegistryStore) : Instance :=
  { w with machine := { w.machine with store } }

-- A mutation of the store and the publication of its events, in one uninterrupted step.
def publishing (change : List ResourceEvent × RegistryStore) : Instance :=
  { w.setStore change.2 with manager := w.manager.publish change.1 }

def step : InstanceAction → Option Instance
  | .createOrMatch request => do
    let (_, manager) ← w.manager.createOrMatch request
    some { w with manager }
  | .delete id             => some { w with manager := w.manager.delete id }
  | .accept id             => do
    let sub ← w.manager.subscriptions.get? id
    some { w with opening := w.opening ++ [sub] }
  | .connect n             => do
    let sub ← w.opening[n]?
    some { w with manager := w.manager.connect sub w.store, opening := w.opening.eraseIdx n }
  | .disconnect id n       => some { w with manager := w.manager.disconnect id n }
  | .deliver id n          => some { w with manager := w.manager.deliver id n }
  | .register t body now   =>
    if w.backend = .standalone then
      let (result, store) := w.store.insertOrUpdate t body now
      some <| w.publishing (if result.ok then result.events else [], store)
    else none
  | .unregister t id now   =>
    if w.backend = .standalone then
      let (events, store) := w.store.delete t id now.seconds
      some <| w.publishing (events.getD [], store)
    else none
  | .collectGarbage now    =>
    if w.backend = .standalone then some <| w.publishing (w.store.collectGarbage now.seconds) else none
  | .heartbeat nodeId now  => some <| w.setStore (w.store.heartbeat nodeId now.seconds).2
  | .apply entries         =>
    if w.backend = .raft then
      let (_, events, machine) := w.machine.apply entries
      some { w with machine, manager := w.manager.publish events }
    else none
  | .install snapshot now  =>
    if w.backend = .raft then do
      let machine ← w.machine.installPayload snapshot now
      some { w with machine }
    else none
  | .applyBatch batch now  =>
    if w.backend = .etcd then some <| w.publishing (w.store.applyBatch batch now) else none
  | .resnapshot kvs now    =>
    if w.backend = .etcd then do
      let store ← RegistryStore.readSnapshot kvs w.store.gcInterval w.store.forgetInterval now
      some <| w.publishing (w.store.diffStores store, store)
    else none
  | .forgetTombstones now  =>
    if w.backend = .etcd then some <| w.setStore (w.store.forgetTombstones now.seconds) else none

-- An instance that has just started: nobody is subscribed yet, and a member of a cluster has restored
-- what it holds locally or in etcd.
structure Started : Prop where
  manager : w.manager = .empty
  opening : w.opening = []
  store   : match w.backend with
    | .standalone => ∃ gc forget, w.store = .new gc forget
    | .raft       => w.machine.Reached
    | .etcd       => ∃ kvs gc forget now, RegistryStore.readSnapshot kvs gc forget now = some w.store

end Instance

def instanceSystem [Python] [QueryFilter] (w₀ : Instance) : TransitionSystem Instance InstanceAction where
  init := w₀
  step := Instance.step

end Query
