import NmosReference.Registry.Store

-- The subscriptions of the Query API, and the clients that follow them.
namespace Query

open Registry

-- The matcher of the basic query filters. Any predicate on a parsed body and a list of filters will do.
class QueryFilter [Python] where
  satisfies : Python.Json → List (String × String) → Bool

-- One entry in `/subscriptions`.
structure Subscription where
  id              : String
  resourcePath    : String
  resourceType    : ResourceType
  params          : Dict String String
  maxUpdateRateMs : Nat
  persist         : Bool
  secure          : Bool
  authorization   : Bool
  host            : String

-- One coalesced change awaiting delivery to a connection.
structure PendingEvent where
  path : String
  pre  : Option Body
  post : Option Body
  deriving DecidableEq, Repr

-- `pre` is the state before the first change, and `post` the state after the last one.
def PendingEvent.merge (e newer : PendingEvent) : PendingEvent :=
  { e with post := newer.post }

-- What a client makes of one event.
def receive (view : Dict String String) (e : PendingEvent) : Dict String String :=
  match e.pre, e.post with
  | none, some post   => view.set e.path post.text
  | some _, some post => view.set e.path post.text
  | _, none           => view.erase e.path

-- One connected WebSocket with the buffer feeding it, and at its other end what the client has made of
-- all it was sent.
structure SubscriptionConnection where
  subscription : Subscription
  pending      : Dict String PendingEvent
  view         : Dict String String

namespace SubscriptionConnection

variable (c : SubscriptionConnection)

-- Buffers one event, coalescing with any pending change to the same id.
def enqueue (e : PendingEvent) : SubscriptionConnection :=
  match c.pending.get? e.path with
  | none          => { c with pending := c.pending.set e.path e }
  | some existing => { c with pending := c.pending.set e.path (existing.merge e) }

-- Sends everything buffered, leaving the buffer empty.
def drain : SubscriptionConnection :=
  { c with pending := ∅, view := c.pending.values.foldl receive c.view }

end SubscriptionConnection

structure SubscriptionManager where
  subscriptions : Dict String Subscription
  connections   : Dict String (List SubscriptionConnection)

def plural (t : ResourceType) : String :=
  t.value ++ "s"

-- `resource_path.strip("/")`, and then the type whose plural it is.
def resourceTypeOf (path : String) : Option ResourceType :=
  let stripped := ((path.toList.dropWhile (· = '/')).reverse.dropWhile (· = '/')).reverse
  ResourceType.all.find? fun t => (plural t).toList = stripped

namespace Subscription

variable [Python] [QueryFilter] (sub : Subscription)

def filters : List (String × String) :=
  sub.params.items

def accepts (raw : Option Python.Json) : Bool :=
  raw.any fun raw => QueryFilter.satisfies raw sub.filters

-- What this subscription should see for one change.
def classify (e : ResourceEvent) : Option PendingEvent :=
  let preMatches := sub.accepts (e.pre.map Body.data)
  let postMatches := sub.accepts (e.post.map Body.data)
  if postMatches && preMatches then some ⟨e.resourceId, e.pre, e.post⟩
  else if postMatches then some ⟨e.resourceId, none, e.post⟩
  else if preMatches then some ⟨e.resourceId, e.pre, none⟩
  else none

end Subscription

namespace SubscriptionManager

variable (m : SubscriptionManager)

def empty : SubscriptionManager where
  subscriptions := ∅
  connections   := ∅

-- An existing subscription with the same attributes, if any.
def matching (request : Subscription) : Option Subscription :=
  m.subscriptions.values.find? fun existing =>
    existing.resourcePath = request.resourcePath ∧
    existing.params.items.Perm request.params.items ∧
    existing.maxUpdateRateMs = request.maxUpdateRateMs ∧
    existing.persist = request.persist ∧
    existing.secure = request.secure ∧
    existing.authorization = request.authorization ∧
    existing.host = request.host

-- Returns an existing matching subscription, or creates a new one, under the id drawn for it; `none`
-- for an invalid path.
def createOrMatch (request : Subscription) : Option (Subscription × SubscriptionManager) := do
  let resourceType ← resourceTypeOf request.resourcePath
  match m.matching request with
  | some existing => some (existing, m)
  | none          =>
    let sub := { request with resourceType }
    some (sub, { subscriptions := m.subscriptions.set sub.id sub
                 connections   := m.connections.set sub.id [] })

-- `DELETE` of a subscription, which closes its clients.
def delete (id : String) : SubscriptionManager where
  subscriptions := m.subscriptions.erase id
  connections   := m.connections.erase id

-- Detaches a WebSocket, reaping the subscription if it was transient.
def disconnect (id : String) (n : Nat) : SubscriptionManager :=
  match m.connections.get? id with
  | none             => m
  | some connections =>
    let left := connections.eraseIdx n
    if left.isEmpty ∧ (connections[n]?).any (!·.subscription.persist) then m.delete id
    else { m with connections := m.connections.set id left }

def modify (id : String) (f : SubscriptionConnection → SubscriptionConnection) :
    SubscriptionManager :=
  match m.connections.get? id with
  | none             => m
  | some connections => { m with connections := m.connections.set id (connections.map f) }

-- A drained grain is sent on one connection.
def deliver (id : String) (n : Nat) : SubscriptionManager :=
  match m.connections.get? id with
  | none             => m
  | some connections => { m with connections := m.connections.set id (connections.modify n .drain) }

variable [Python] [QueryFilter]

-- Attaches a WebSocket and queues its synchronisation burst.
def connect (sub : Subscription) (store : RegistryStore) : SubscriptionManager :=
  let sync := (store.iterExtant sub.resourceType).filter fun r => sub.accepts (some r.raw)
  let connection : SubscriptionConnection := { subscription := sub, pending := ∅, view := ∅ }
  let connection := sync.foldl (fun c r => c.enqueue ⟨r.id, r.body, r.body⟩) connection
  { m with connections :=
      m.connections.set sub.id (((m.connections.get? sub.id).getD []) ++ [connection]) }

-- Routes one change to the connections of one subscription.
def route (e : ResourceEvent) (m : SubscriptionManager) (sub : Subscription) : SubscriptionManager :=
  if sub.resourceType ≠ e.resourceType then m else
    match sub.classify e with
    | none         => m
    | some pending => m.modify sub.id (·.enqueue pending)

def publishOne (e : ResourceEvent) : SubscriptionManager :=
  m.subscriptions.values.foldl (route e) m

-- Routes resource changes to every interested connection.
def publish (events : List ResourceEvent) : SubscriptionManager :=
  events.foldl (fun m e => m.publishOne e) m

end SubscriptionManager

variable {view : Dict String String} {e : PendingEvent} {x : String} {es : List PendingEvent}

theorem get?_receive : (receive view e).get? x = if x = e.path then e.post.map (·.text) else view.get? x := by
  obtain ⟨path, pre, post⟩ := e
  cases pre <;> cases post <;> simp [receive, Dict.get?_set, Dict.get?_erase]

-- A grain holds one event for each of its paths, so each path becomes what its event says.
theorem get?_foldl_receive (hn : (es.map (·.path)).Nodup) :
    (es.foldl receive view).get? x =
      match es.find? (·.path = x) with
      | some e => e.post.map (·.text)
      | none   => view.get? x := by
  induction es generalizing view with
  | nil => rfl
  | cons e es hi =>
    have hn := List.nodup_cons.mp hn
    rw [List.foldl_cons, hi hn.2]
    by_cases hx : e.path = x
    · have hno : es.find? (·.path = x) = none := by
        simp only [List.find?_eq_none, decide_eq_true_eq]
        exact fun e' he' hx' => hn.1 <| List.mem_map.mpr ⟨e', he', hx'.trans hx.symm⟩
      simp [hno, hx, get?_receive]
    · simp only [List.find?_cons, hx, decide_false]
      cases es.find? (·.path = x) with
      | some e' => rfl
      | none    => simp [get?_receive, eq_comm (a := x), hx]

namespace SubscriptionConnection

variable {c : SubscriptionConnection}

-- Pending events are filed under their paths.
def Filed (c : SubscriptionConnection) : Prop :=
  ∀ x e, c.pending.get? x = some e → e.path = x

-- What the client will hold once everything buffered has reached it.
def upcoming (c : SubscriptionConnection) (x : String) : Option String :=
  match c.pending.get? x with
  | some e => e.post.map (·.text)
  | none   => c.view.get? x

theorem enqueue_cases : ∃ e', c.enqueue e = { c with pending := c.pending.set e.path e' } ∧
    e'.post = e.post ∧ (c.Filed → e'.path = e.path) := by
  unfold enqueue
  cases hg : c.pending.get? e.path with
  | none          => exact ⟨e, rfl, rfl, fun _ => rfl⟩
  | some existing => exact ⟨existing.merge e, rfl, rfl, fun h => show existing.path = _ from h _ _ hg⟩

@[simp] theorem enqueue_subscription : (c.enqueue e).subscription = c.subscription := by
  have ⟨_, he, _⟩ := enqueue_cases (c := c) (e := e)
  rw [he]

theorem filed_enqueue (h : c.Filed) : (c.enqueue e).Filed := by
  have ⟨e', he, _, hp⟩ := enqueue_cases (c := c) (e := e)
  intro x q hq
  rw [he] at hq
  simp only [Dict.get?_set] at hq
  split at hq
  case isTrue hx =>
    cases hq
    exact (hp h).trans hx.symm
  case isFalse => exact h _ _ hq

-- Coalescing does not change what the client will come to hold.
theorem upcoming_enqueue :
    (c.enqueue e).upcoming x = if x = e.path then e.post.map (·.text) else c.upcoming x := by
  have ⟨e', he, hpost, _⟩ := enqueue_cases (c := c) (e := e)
  rw [he]
  simp only [upcoming, Dict.get?_set]
  by_cases hx : x = e.path
  · simp [hx, hpost]
  · simp [hx]

@[simp] theorem drain_subscription : c.drain.subscription = c.subscription := rfl

theorem filed_drain : c.drain.Filed := by
  simp [Filed, drain]

-- Sending what is buffered brings the client there.
theorem upcoming_drain (h : c.Filed) : c.drain.upcoming x = c.upcoming x := by
  have hpath : ∀ p ∈ c.pending.items, p.2.path = p.1 := fun p hp => h _ _ (Dict.get?_eq_some.mpr hp)
  have hn : (c.pending.values.map (·.path)).Nodup := by
    rw [Dict.values, List.map_map, show c.pending.items.map ((·.path) ∘ Prod.snd) =
      c.pending.items.map Prod.fst from List.map_congr_left hpath]
    exact c.pending.nodup
  have hf : c.pending.values.find? (·.path = x) = c.pending.get? x := by
    refine Option.ext fun e => ?_
    constructor
    · intro he
      obtain ⟨k, hk⟩ := Dict.mem_values.mp (List.mem_of_find?_eq_some he)
      have hx : e.path = x := by simpa using List.find?_some he
      rw [← hx, h _ _ hk]
      exact hk
    · intro he
      obtain ⟨e', he'⟩ : ∃ e', c.pending.values.find? (·.path = x) = some e' :=
        Option.isSome_iff_exists.mp <| List.find?_isSome.mpr
          ⟨e, Dict.mem_values.mpr ⟨x, he⟩, by simpa using h _ _ he⟩
      obtain ⟨k, hk⟩ := Dict.mem_values.mp (List.mem_of_find?_eq_some he')
      have hx : e'.path = x := by simpa using List.find?_some he'
      rw [← h _ _ hk, hx, he] at hk
      rw [he', hk]
  simp only [drain, upcoming, Dict.get?_empty, get?_foldl_receive hn, hf]

end SubscriptionConnection
end Query
