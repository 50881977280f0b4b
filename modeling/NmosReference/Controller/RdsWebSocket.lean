import NmosReference.Library.Transition
import NmosReference.Controller.CacheStores

-- How the cache follows the registry that is selected, for one of the resource kinds: the subscriber of that
-- kind, the registries it can be connected to, and what happens when another one is selected.
namespace Controller

-- Which registry the clients use. The registries are numbered.
structure RegistrySelector where
  targets  : Nat
  index    : Nat
  failures : Nat

namespace RegistrySelector

variable (s : RegistrySelector)

abbrev current : Nat :=
  s.index

-- Does nothing unless `target` is still the current one, and there is another.
def fail (target : Nat) : RegistrySelector :=
  if target ≠ s.current ∨ s.targets ≤ 1 then s
  else { s with index := (s.index + 1) % s.targets, failures := s.failures + 1 }

end RegistrySelector

-- One entry of a grain.
structure Change (J : Type) where
  path : String
  pre  : Option J
  post : Option J

-- The registry coalesces changes to one resource until it drains them.
def Change.merge {J : Type} (e newer : Change J) : Change J :=
  { e with post := newer.post }

-- A subscription at the registry, and at its other end the grains and the entries to be handled.
structure Connection (J : Type) where
  serial   : Nat
  registry : Nat
  epoch    : Nat
  isOpen   : Bool := true
  pending  : Dict String (Change J)
  sent     : List (List (Change J)) := []
  handling : List (Change J) := []

inductive Subscriber (J : Type)
  | starting
  | idle
  | connecting (registry epoch : Nat)
  | connected (c : Connection J)

-- How far the reaction to a move of the selection has come. A reply is a page of what the registry held when the
-- GET found it.
inductive Resync (J : Type)
  | clear (kinds : List ResourceKind)
  | dropSockets
  | close (serial : Option Nat)
  | reload
  | fetch (registry : Nat)
  | install (reply : Dict String J)
  | finished

def Resync.isFinished {J : Type} : Resync J → Bool
  | .finished => true
  | _         => false

def DEFAULT_PAGING_LIMIT : Nat :=
  10

structure Follower (J P : Type) where
  -- The resources of each registry in the order of their updates, and how many of them are in a page.
  registries : Nat → Dict String J := fun _ => ∅
  pageLimit  : Nat → Nat := fun _ => DEFAULT_PAGING_LIMIT
  selector   : RegistrySelector
  resynced   : Int := -1
  resyncs    : List (Resync J) := [.fetch 0]
  subscriber : Subscriber J := .starting
  connects   : Nat := 0
  cache      : ResourceCache J P := {}

inductive FollowerAction (J : Type)
  -- Of a registry: a resource is registered or updated, or removed; and its changes are drained into a grain.
  | put (registry : Nat) (id : String) (body : J)
  | delete (registry : Nat) (id : String)
  | drain
  -- Of the subscriber, in the order of its loop.
  | start
  | attempt
  | refused
  | connect
  | take
  | handle
  | broken
  | lost
  -- A subscriber of some kind gives up on a registry.
  | fail (target : Nat)
  | resync (i : Nat)
  | fetchFails (i : Nat)
  -- What the other kinds do to the cache.
  | other (call : Call J)

def allKinds : List ResourceKind :=
  [.node, .device, .source, .sender, .receiver, .flow]

variable {J P : Type}

-- A page that is asked for without parameters: the resources that were updated last, the last one first.
def firstPage (limit : Nat) (resources : Dict String J) : Dict String J where
  items := resources.items.reverse.take limit
  nodup := by
    rw [List.map_take, List.map_reverse]
    exact (List.nodup_reverse.mpr resources.nodup).sublist (List.take_sublist _ _)

theorem get?_firstPage {limit : Nat} {resources : Dict String J} {id : String} {body : J}
    (h : (firstPage limit resources).get? id = some body) : resources.get? id = some body := by
  have hm := List.mem_of_mem_take (Dict.get?_eq_some.mp h)
  exact Dict.get?_eq_some.mpr (List.mem_reverse.mp hm)

namespace Connection

def enqueue (c : Connection J) (e : Change J) : Connection J :=
  match c.pending.get? e.path with
  | none          => { c with pending := c.pending.set e.path e }
  | some existing => { c with pending := c.pending.set e.path (existing.merge e) }

-- A new connection, with its synchronisation burst.
def sync (serial registry epoch : Nat) (resources : Dict String J) : Connection J where
  serial   := serial
  registry := registry
  epoch    := epoch
  pending  := resources.map fun id body => ⟨id, some body, some body⟩

end Connection

variable [Json J] [FlowMatcher J P] [DecidableEq P]

-- One entry of `_handle_text`.
def handleEntry (kind : ResourceKind) (e : Change J) : Mutation J P PUnit := do
  match e.post.filter Json.isDict, e.pre.filter Json.isDict with
  | some post, _       =>
    let _ ← ResourceCache.upsert kind post
  | none,      some pre =>
    match (Json.get pre "id").filter Json.truthy with
    | some id =>
      if let some id := Json.str id then
        let _ ← ResourceCache.remove kind id
    | none    =>
      if e.path ≠ "" then
        let _ ← ResourceCache.remove kind e.path
  | none,      none     => return

namespace Follower

variable (kind : ResourceKind) (s : Follower J P)

-- A registry queues a change for the connection, if that is one of its own.
def publish (registry : Nat) (e : Change J) : Follower J P :=
  match s.subscriber with
  | .connected c =>
    if c.registry = registry ∧ c.isOpen then { s with subscriber := .connected (c.enqueue e) } else s
  | _            => s

def setRegistry (registry : Nat) (resources : Dict String J) : Follower J P :=
  { s with registries := Function.update s.registries registry resources }

-- Once for each generation of the selection.
def onSelectionMoved : Follower J P :=
  let generation := s.selector.failures
  if (generation : Int) ≤ s.resynced then s
  else { s with resynced := generation, resyncs := s.resyncs ++ [.clear allKinds] }

-- The next step of a reaction.
def advance (i : Nat) (r : Resync J) : Option (Follower J P) :=
  let next (r : Resync J) (s : Follower J P) : Follower J P := { s with resyncs := s.resyncs.set i r }
  match r with
  | .clear []              => some (next .dropSockets s)
  | .clear (k :: ks)       =>
    match (ResourceCache.replaceAll k []).run s.cache with
    | (.ok _, cache)    => some (next (.clear ks) { s with cache })
    | (.error _, cache) => some (next .finished { s with cache })
  | .dropSockets           =>
    match s.subscriber with
    | .connected c => some (next (.close (if c.isOpen then some c.serial else none)) s)
    | _            => some (next (.close none) s)
  | .close serial          =>
    match s.subscriber with
    | .connected c =>
      if serial = some c.serial then
        some (next .reload { s with subscriber := .connected { c with isOpen := false } })
      else some (next .reload s)
    | _            => some (next .reload s)
  | .reload                => some (next (.fetch s.selector.current) s)
  | .fetch registry        => some (next (.install (firstPage (s.pageLimit registry) (s.registries registry))) s)
  | .install reply         =>
    some (next .finished { s with cache := (ResourceCache.replaceAll kind reply.values).leaves s.cache })
  | .finished              => none

-- A registry has checked the body of a resource, which is a dictionary and has the id of the resource.
def Valid (id : String) (body : J) : Prop :=
  Json.isDict body ∧ ResourceCache.resourceId body = some id

instance {id : String} {body : J} : Decidable (Valid id body) :=
  inferInstanceAs (Decidable (_ ∧ _))

def step (s : Follower J P) : FollowerAction J → Option (Follower J P)
  | .put registry id body =>
    if Valid id body then
      let resources := s.registries registry
      let updated := (resources.erase id).set id body
      some ((s.setRegistry registry updated).publish registry ⟨id, resources.get? id, some body⟩)
    else none
  | .delete registry id   => do
    let resources := s.registries registry
    let body ← resources.get? id
    some ((s.setRegistry registry (resources.erase id)).publish registry ⟨id, some body, none⟩)
  | .drain                =>
    match s.subscriber with
    | .connected c =>
      if c.isOpen ∧ c.pending.items ≠ [] then
        some { s with subscriber := .connected { c with pending := ∅, sent := c.sent ++ [c.pending.values] } }
      else none
    | _            => none
  | .start                =>
    match s.subscriber with
    | .starting => if s.resyncs.all (·.isFinished) then some { s with subscriber := .idle } else none
    | _         => none
  | .attempt              =>
    match s.subscriber with
    | .idle => some { s with subscriber := .connecting s.selector.current s.selector.failures }
    | _     => none
  | .refused              =>
    match s.subscriber with
    | .connecting _ _ => some { s with subscriber := .idle }
    | _               => none
  | .connect              =>
    match s.subscriber with
    | .connecting registry epoch =>
      let c := Connection.sync s.connects registry epoch (s.registries registry)
      some { s with subscriber := .connected c, connects := s.connects + 1 }
    | _                          => none
  | .take                 =>
    match s.subscriber with
    | .connected c =>
      match c.isOpen, c.handling, c.sent with
      | true, [], grain :: sent =>
        if s.selector.failures ≠ c.epoch then some { s with subscriber := .idle }
        else some { s with subscriber := .connected { c with sent, handling := grain } }
      | _,    _,  _             => none
    | _            => none
  | .handle               =>
    match s.subscriber with
    | .connected c =>
      match c.handling with
      | []      => none
      | e :: es =>
        match (handleEntry kind e).run s.cache with
        | (.ok _, cache)    => some { s with cache, subscriber := .connected { c with handling := es } }
        | (.error _, cache) => some { s with cache, subscriber := .idle }
    | _            => none
  | .broken               =>
    match s.subscriber with
    | .connected c => some { s with subscriber := .connected { c with isOpen := false } }
    | _            => none
  | .lost                 =>
    match s.subscriber with
    | .connected c => if !c.isOpen ∧ c.handling.isEmpty then some { s with subscriber := .idle } else none
    | _            => none
  | .fail target          =>
    match s.subscriber with
    | .starting => none
    | _         =>
      let s' := { s with selector := s.selector.fail target }
      some (if s'.selector.current ≠ target then s'.onSelectionMoved else s')
  | .resync i             => do
    let r ← s.resyncs[i]?
    s.advance kind i r
  | .fetchFails i         =>
    match s.resyncs[i]? with
    | some (.fetch _) => some { s with resyncs := s.resyncs.set i .finished }
    | _               => none
  | .other call           =>
    if call.kind = kind then none
    else some { s with cache := (ResourceCache.call call).leaves s.cache }

end Follower
end Controller
