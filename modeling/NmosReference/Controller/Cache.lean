import NmosReference.Library.Dict
import NmosReference.Library.Handler

-- The in-process cache of IS-04 resources, and the status it keeps of senders and receivers.
namespace Controller

-- What Python raises.
inductive PyError
  | attributeError | typeError | valueError | overflowError
  deriving DecidableEq, Repr

-- Decoded JSON, up to the equality of Python.
class Json (J : Type) where
  decEq    : DecidableEq J
  -- What `get` finds under a key of a dictionary, if that is not `None`.
  get      : J → String → Option J
  isDict   : J → Bool
  truthy   : J → Bool
  hashable : J → Bool
  -- The value itself, if it is a string, and its elements, if it is a list.
  str      : J → Option String
  list     : J → Option (List J)
  -- `int(value)`, which an infinite float overflows.
  int      : J → Except PyError Int
  hashable_of_str : ∀ v s, str v = some s → hashable v

instance {J : Type} [Json J] : DecidableEq J :=
  Json.decEq

inductive ResourceKind
  | node | device | flow | sender | receiver | source
  deriving DecidableEq, Repr

-- The kinds that have a status.
inductive StatusKind
  | sender | receiver
  deriving DecidableEq, Repr

def StatusKind.kind : StatusKind → ResourceKind
  | sender   => .sender
  | receiver => .receiver

inductive StatusFacet
  | overall | link | sync | conn | media
  deriving DecidableEq, Repr

def STATUS_INACTIVE : String := "inactive"
def STATUS_NOT_USED : String := "not-used"

def statusZero : StatusFacet → String
  | .sync => STATUS_NOT_USED
  | _     => STATUS_INACTIVE

def statusNonzero : Int → Option String
  | 1 => "healthy"
  | 2 => "partially-healthy"
  | 3 => "unhealthy"
  | _ => none

structure Facets where
  overall : String
  link    : String
  sync    : String
  conn    : String
  media   : String
  deriving DecidableEq, Repr

structure MonitorState where
  facets         : Facets
  overallMessage : Option String
  deriving DecidableEq, Repr

structure ResourceStatus (J : Type) where
  active         : Bool
  peerId         : Option J
  monitored      : Bool
  facets         : Facets
  overallMessage : Option String

section Status

variable {J : Type} [Json J]

instance : DecidableEq (ResourceStatus J) := fun a b =>
  decidable_of_iff (a.active = b.active ∧ a.peerId = b.peerId ∧ a.monitored = b.monitored ∧
    a.facets = b.facets ∧ a.overallMessage = b.overallMessage) (by
      cases a
      cases b
      simp)

-- A value that is no integer counts as zero, but `OverflowError` is not caught.
def decodeStatusCode (code : Option J) (facet : StatusFacet) : Except PyError String :=
  match code with
  | none   => .ok <| statusZero facet
  | some v =>
    match Json.int v with
    | .ok 0               => .ok <| statusZero facet
    | .ok i               => .ok <| (statusNonzero i).getD (statusZero facet)
    | .error .typeError
    | .error .valueError  => .ok <| statusZero facet
    | .error e            => .error e

def facetAttr : StatusKind → StatusFacet → String
  | _,         .overall => "overall_status"
  | _,         .link    => "link_status"
  | _,         .sync    => "synchronization_status"
  | .sender,   .conn    => "transmission_status"
  | .sender,   .media   => "essence_status"
  | .receiver, .conn    => "connection_status"
  | .receiver, .media   => "stream_status"

def getStr (r : J) (key : String) : Option String :=
  (Json.get r key).bind Json.str

-- `monitor_type`, of a Source that may be a monitor.
def monitorType (source : J) : Option StatusKind :=
  if !Json.isDict source ∨ getStr source "format" ≠ some "urn:x-nmos:format:data" then none
  else if getStr source "monitor_type" = some "sender" then some .sender
  else if getStr source "monitor_type" = some "receiver" then some .receiver
  else none

def monitorSiblingOf (source : J) : Option (String × StatusKind) := do
  let kind ← monitorType source
  let sib ← getStr source "monitor_sibling_id"
  if sib ≠ "" then some (sib, kind) else none

def extractMonitorState (monitorSource : J) : Except PyError (Option MonitorState) :=
  match monitorType monitorSource with
  | none      => .ok none
  | some kind =>
    let state := (Json.get monitorSource "monitor_state").filter Json.truthy
    if state.any (!Json.isDict ·) then .ok none
    else do
      let facet (f : StatusFacet) := decodeStatusCode (state.bind (Json.get · (facetAttr kind f))) f
      let overall ← facet .overall
      let link ← facet .link
      let sync ← facet .sync
      let conn ← facet .conn
      let media ← facet .media
      let message (key : String) := (state.bind (getStr · key)).filter (· ≠ "")
      .ok <| some {
        facets         := ⟨overall, link, sync, conn, media⟩
        overallMessage := (message "overall_message").or (message "overall_status_message") }

def monitorStateOf : Option J → Except PyError (Option MonitorState)
  | some source => extractMonitorState source
  | none        => .ok none

-- The subscription of a resource, empty if there is none.
def subscription (r : J) : Except PyError (Option J) :=
  match (Json.get r "subscription").filter Json.truthy with
  | none   => .ok none
  | some s => if Json.isDict s then .ok (some s) else .error .attributeError

def peerKey : StatusKind → String
  | .sender   => "receiver_id"
  | .receiver => "sender_id"

def extractStatus (kind : StatusKind) (resource : J) (monitorSource : Option J) :
    Except PyError (ResourceStatus J) := do
  let sub ← subscription resource
  let active := (sub.bind (Json.get · "active")).any Json.truthy
  let peerId := sub.bind (Json.get · (peerKey kind))
  match ← monitorStateOf monitorSource with
  | some state =>
    .ok { active, peerId, monitored := true, facets := state.facets, overallMessage := state.overallMessage }
  | none       =>
    let facets := ⟨STATUS_NOT_USED, STATUS_NOT_USED, STATUS_NOT_USED, STATUS_NOT_USED, STATUS_NOT_USED⟩
    .ok { active, peerId, monitored := false, facets, overallMessage := none }

end Status

-- What the conversions make of a flow and of a declared constraint set. What they raise is caught.
class FlowMatcher (J P : Type) where
  CapSet     : Type
  -- Of a flow, its source, and the node whose clocks it uses.
  flowCaps   : J → Option J → Option J → Option CapSet
  declared   : J → Option CapSet
  part       : CapSet → String
  -- Whether there is a set of constraints for it.
  hasConset  : CapSet → Bool
  included   : CapSet → CapSet → Bool
  valueCount : CapSet → Nat
  -- The indices of the constraint sets, and what the values of each part are taken from.
  payload    : List Nat → List (String × CapSet) → P

-- The status is `none` where it is the empty dictionary.
structure StatusChanged (J P : Type) where
  kind       : StatusKind
  resourceId : String
  status     : Option (ResourceStatus J)
  flowMatch  : Option P

structure ResourceCache (J P : Type) where
  nodes     : Dict String J := ∅
  devices   : Dict String J := ∅
  senders   : Dict String J := ∅
  receivers : Dict String J := ∅
  flows     : Dict String J := ∅
  sources   : Dict String J := ∅
  status    : Dict String (ResourceStatus J) := ∅
  flowMatch : Dict String P := ∅

-- What a call did to the cache stays done if it raises; the events are only fired if it does not.
abbrev Mutation (J P α : Type) :=
  Handler (ResourceCache J P) PyError α

inductive Call (J : Type)
  | upsert (kind : ResourceKind) (resource : J)
  | remove (kind : ResourceKind) (resourceId : String)
  | replaceAll (kind : ResourceKind) (resources : List J)

def Call.kind {J : Type} : Call J → ResourceKind
  | .upsert kind _     => kind
  | .remove kind _     => kind
  | .replaceAll kind _ => kind

namespace ResourceCache

variable {J P : Type}

def storeFor (c : ResourceCache J P) : ResourceKind → Dict String J
  | .node     => c.nodes
  | .device   => c.devices
  | .sender   => c.senders
  | .receiver => c.receivers
  | .flow     => c.flows
  | .source   => c.sources

def setStore (c : ResourceCache J P) (d : Dict String J) : ResourceKind → ResourceCache J P
  | .node     => { c with nodes := d }
  | .device   => { c with devices := d }
  | .sender   => { c with senders := d }
  | .receiver => { c with receivers := d }
  | .flow     => { c with flows := d }
  | .source   => { c with sources := d }

def setStatus (c : ResourceCache J P) (id : String) (s : ResourceStatus J) : ResourceCache J P :=
  { c with status := c.status.set id s }

variable [Json J]

def findMonitorSource (c : ResourceCache J P) (resourceId : String) : Option J :=
  c.sources.values.find? fun src => (monitorSiblingOf src).any (·.1 = resourceId)

-- `d.get(r.get(key, "") or "")`; no resource has the empty id.
def lookup (d : Dict String J) (r : J) (key : String) : Except PyError (Option J) :=
  match (Json.get r key).filter Json.truthy with
  | none   => .ok none
  | some k => if Json.hashable k then .ok ((Json.str k).bind d.get?) else .error .typeError

section FlowMatch

variable [FlowMatcher J P] (c : ResourceCache J P)

-- The node of a source. What is raised on the way to it is caught.
def clockNode (source : Option J) : Option J := do
  let source ← source.filter Json.isDict
  let device ← (lookup c.devices source "device_id").toOption.join.filter Json.isDict
  (lookup c.nodes device "node_id").toOption.join.filter Json.isDict

-- The operating point of a sub-flow, if there is one. `pid` is one of the `parents`.
def subFlowCaps (node : Option J) (pid : J) : Except PyError (Option (FlowMatcher.CapSet J P)) :=
  if !Json.truthy pid then .ok none
  else if !Json.hashable pid then .error .typeError
  else
    match ((Json.str pid).bind c.flows.get?).filter Json.isDict with
    | none         => .ok none
    | some subFlow => do
      let source ← lookup c.sources subFlow "source_id"
      .ok <| FlowMatcher.flowCaps subFlow source node

def addPart (ops : Dict String (FlowMatcher.CapSet J P)) (caps : Option (FlowMatcher.CapSet J P)) :
    Dict String (FlowMatcher.CapSet J P) :=
  match caps with
  | some caps => ops.set (FlowMatcher.part caps) caps
  | none      => ops

def addSubFlows (node : Option J) (ops : Dict String (FlowMatcher.CapSet J P)) :
    List J → Except PyError (Dict String (FlowMatcher.CapSet J P))
  | []          => .ok ops
  | pid :: pids => do
    let caps ← c.subFlowCaps node pid
    addSubFlows node (addPart ops caps) pids

-- The sub-flows of a flow, if it is a multiplexed one.
def parents (flow : J) : List J :=
  ((Json.get flow "parents").bind Json.list).getD []

-- By parts: the trunk, and each sub-flow.
def operatingCapsets (flow source : Option J) : Except PyError (Dict String (FlowMatcher.CapSet J P)) :=
  let node := c.clockNode source
  match flow.filter Json.isDict with
  | none      => .ok ∅
  | some flow => c.addSubFlows node (addPart ∅ (FlowMatcher.flowCaps flow source node)) (parents flow)

-- `int(preference or 0)`
def preference (constraintSet : J) : Except PyError Int :=
  match (Json.get constraintSet "urn:x-nmos:cap:meta:preference").filter Json.truthy with
  | none       => .ok 0
  | some value => Json.int value

structure Rank where
  preference : Int
  valueCount : Nat
  index      : Nat

-- Preferred, or as preferred and narrower, or as narrow and earlier.
def Rank.outranks (r s : Rank) : Bool :=
  s.preference < r.preference ∨ s.preference = r.preference ∧
    (r.valueCount < s.valueCount ∨ r.valueCount = s.valueCount ∧ r.index < s.index)

-- The constraint set that the operating point of its part is in, if it is in it.
def matched (ops : Dict String (FlowMatcher.CapSet J P)) (constraintSet : J) : Option (FlowMatcher.CapSet J P) := do
  let declared ← if Json.isDict constraintSet then FlowMatcher.declared constraintSet else none
  let op ← (ops.get? (FlowMatcher.part declared)).filter FlowMatcher.hasConset
  if FlowMatcher.included op declared then some declared else none

-- The best constraint set of each part.
def rankSets (ops : Dict String (FlowMatcher.CapSet J P)) :
    List (J × Nat) → Dict String Rank → Except PyError (Dict String Rank)
  | [],                         best => .ok best
  | (constraintSet, i) :: sets, best =>
    match matched ops constraintSet with
    | none          => rankSets ops sets best
    | some declared => do
      let rank := ⟨← preference constraintSet, FlowMatcher.valueCount declared, i⟩
      let part := FlowMatcher.part declared
      rankSets ops sets (if (best.get? part).all rank.outranks then best.set part rank else best)

def flowMatchForSender (flow source : Option J) (constraintSets : J) : Except PyError P :=
  match (Json.list constraintSets).getD [] with
  | []   => .ok <| FlowMatcher.payload (J := J) [] []
  | sets => do
    let ops ← c.operatingCapsets flow source
    if ops.items.isEmpty then .ok <| FlowMatcher.payload (J := J) [] []
    else
      let best ← rankSets ops sets.zipIdx ∅
      .ok <| FlowMatcher.payload ((best.values.map Rank.index).mergeSort (· ≤ ·))
        (ops.items.filter fun p => FlowMatcher.hasConset p.2)

end FlowMatch

def constraintSets (sender : J) : Option J := do
  let caps ← (Json.get sender "caps").filter Json.isDict
  (Json.get caps "constraint_sets").filter Json.truthy

variable [FlowMatcher J P] [DecidableEq P]

-- Returns the payload, and whether it is another than the last time.
def recomputeSenderFlowMatch (sid : String) : Mutation J P (Option P × Bool) := do
  let c ← get
  let sets := do
    let sender ← c.senders.get? sid
    let sets ← constraintSets sender
    some (sender, sets)
  match sets with
  | none                => return (none, false)
  | some (sender, sets) =>
    let flow ← Handler.ofExcept (lookup c.flows sender "flow_id")
    let source ← match flow.filter Json.isDict with
      | some flow => Handler.ofExcept (lookup c.sources flow "source_id")
      | none      => pure none
    let payload ← Handler.ofExcept (c.flowMatchForSender flow source sets)
    set { c with flowMatch := c.flowMatch.set sid payload }
    return (some payload, decide (c.flowMatch.get? sid ≠ some payload))

-- Runs a part of a call for each of a list of things, and collects the events.
def collect {α : Type} (f : α → Mutation J P (List (StatusChanged J P))) :
    List α → Mutation J P (List (StatusChanged J P))
  | []      => pure []
  | x :: xs => do
    let events ← f x
    let more ← collect f xs
    return events ++ more

-- Mirrors a sender's flow match onto the receivers that are subscribed to it.
def receiverFlowMatchEvents (senderId : String) : Option P → Mutation J P (List (StatusChanged J P))
  | none         => pure []
  | some payload => do
    let c ← get
    collect (fun (p : String × J) => do
      let sub ← Handler.ofExcept (subscription p.2)
      if sub.bind (getStr · "sender_id") ≠ some senderId then return []
      else
        let c ← get
        set { c with flowMatch := c.flowMatch.set p.1 payload }
        return [⟨.receiver, p.1, c.status.get? p.1, some payload⟩]) c.receivers.items

def senderFlowMatchEvents (force : Bool) (sid : String) : Mutation J P (List (StatusChanged J P)) := do
  let (payload, changed) ← recomputeSenderFlowMatch sid
  match payload with
  | none         => return []
  | some payload =>
    if changed || force then
      let c ← get
      let events ← receiverFlowMatchEvents sid (some payload)
      return ⟨.sender, sid, c.status.get? sid, some payload⟩ :: events
    else return []

def flowMatchEventsForFlow (flowId : String) (force : Bool) : Mutation J P (List (StatusChanged J P)) := do
  let c ← get
  collect (fun (p : String × J) =>
    if getStr p.2 "flow_id" ≠ some flowId then pure [] else senderFlowMatchEvents force p.1) c.senders.items

def flowMatchEventsForSource (sourceId : String) (force : Bool) :
    Mutation J P (List (StatusChanged J P)) := do
  let c ← get
  collect (fun (p : String × J) => do
    let c ← get
    let flow ← Handler.ofExcept (lookup c.flows p.2 "flow_id")
    if (flow.filter Json.isDict).bind (getStr · "source_id") ≠ some sourceId then return []
    else senderFlowMatchEvents force p.1) c.senders.items

-- Derives the status of a resource again. Returns it, and whether it is another than what is recorded.
def derive (kind : StatusKind) (id : String) (resource : J) (monitor : Option J) :
    Mutation J P (ResourceStatus J × Bool) := do
  let newStatus ← Handler.ofExcept (extractStatus kind resource monitor)
  let c ← get
  if c.status.get? id ≠ some newStatus then
    set (c.setStatus id newStatus)
    return (newStatus, true)
  else return (newStatus, false)

def deriveEvents (kind : StatusKind) (id : String) (resource : J) (monitor : Option J) :
    Mutation J P (List (StatusChanged J P)) := do
  let (newStatus, changed) ← derive kind id resource monitor
  return if changed then [⟨kind, id, some newStatus, none⟩] else []

-- The id of a resource, if it has one.
def resourceId (resource : J) : Option String :=
  (getStr resource "id").filter (· ≠ "")

def upsertStatusKind (kind : StatusKind) (rid : String) (resource : J) (prev : Option J) :
    Mutation J P (List (StatusChanged J P)) := do
  let c ← get
  let (newStatus, statusChanged) ← derive kind rid resource (c.findMonitorSource rid)
  match kind with
  | .sender   =>
    let flowIdChanged := prev.bind (Json.get · "flow_id") ≠ Json.get resource "flow_id"
    let (payload, changed) ← recomputeSenderFlowMatch rid
    let fire := changed || flowIdChanged
    let event := ⟨kind, rid, some newStatus, if fire then payload else none⟩
    let events ← if fire then receiverFlowMatchEvents rid payload else pure []
    return (if statusChanged || fire then [event] else []) ++ events
  | .receiver => return if statusChanged then [⟨kind, rid, some newStatus, none⟩] else []

-- The version of a resource changed, or there was no such resource.
def changed (prev : Option J) (resource : J) : Bool :=
  prev = none ∨ prev.bind (Json.get · "version") ≠ Json.get resource "version"

-- The resource that a Source monitors, if it is in the cache.
def siblingOf (c : ResourceCache J P) (source : J) : Option (StatusKind × String × J) := do
  let (id, kind) ← monitorSiblingOf source
  let sibling ← (c.storeFor kind.kind).get? id
  some (kind, id, sibling)

def siblingEvents (source : J) (monitor : Option J) : Mutation J P (List (StatusChanged J P)) := do
  let c ← get
  match c.siblingOf source with
  | some (kind, id, sibling) => deriveEvents kind id sibling monitor
  | none                     => pure []

def upsertSource (rid : String) (resource : J) (prev : Option J) :
    Mutation J P (List (StatusChanged J P)) := do
  let events ← siblingEvents resource (some resource)
  let more ← flowMatchEventsForSource rid (changed prev resource)
  return events ++ more

def upsert (kind : ResourceKind) (resource : J) : Mutation J P (List (StatusChanged J P)) := do
  match resourceId resource with
  | none     => return []
  | some rid =>
    let c ← get
    let prev := (c.storeFor kind).get? rid
    set (c.setStore ((c.storeFor kind).set rid resource) kind)
    match kind with
    | .sender        => upsertStatusKind .sender rid resource prev
    | .receiver      => upsertStatusKind .receiver rid resource prev
    | .source        => upsertSource rid resource prev
    | .flow          =>
      tryCatch (flowMatchEventsForFlow rid (changed prev resource)) fun _ => pure []
    | .node | .device => return []

def remove (kind : ResourceKind) (resourceId : String) : Mutation J P (List (StatusChanged J P)) := do
  let c ← get
  let removed := (c.storeFor kind).get? resourceId
  let c := c.setStore ((c.storeFor kind).erase resourceId) kind
  match kind with
  | .sender | .receiver =>
    set { c with status := c.status.erase resourceId }
    return []
  | .source             =>
    set c
    match removed with
    | some source => siblingEvents source none
    | none        => return []
  | _                   =>
    set c
    return []

-- Takes the status of what is gone out. The store has been cleared by then.
def purge (c : ResourceCache J P) (kind : ResourceKind) (newIds : List J) : ResourceCache J P :=
  c.status.keys.foldl (fun c sid =>
    if newIds.any (Json.str · = some sid) = false ∧ (c.storeFor kind).contains sid then
      { c with status := c.status.erase sid }
    else c) c

-- Derives the status of every resource of a kind again.
def deriveAll (kind : StatusKind) : Mutation J P (List (StatusChanged J P)) := do
  let c ← get
  collect (fun (p : String × J) => do
    let c ← get
    deriveEvents kind p.1 p.2 (c.findMonitorSource p.1)) (c.storeFor kind.kind).items

def statusKindOf : ResourceKind → Option StatusKind
  | .sender   => some .sender
  | .receiver => some .receiver
  | _         => none

def install (kind : ResourceKind) (resource : J) : Mutation J P (List (StatusChanged J P)) := do
  match resourceId resource with
  | none     => return []
  | some rid =>
    let c ← get
    let c := c.setStore ((c.storeFor kind).set rid resource) kind
    set c
    match statusKindOf kind with
    | some k => deriveEvents k rid resource (c.findMonitorSource rid)
    | none   => return []

def purgeMissing (kind : ResourceKind) (resources : List J) : Mutation J P PUnit :=
  let newIds := resources.filterMap fun r => (Json.get r "id").filter Json.truthy
  if newIds.all Json.hashable then modify (·.purge kind newIds) else throw .typeError

def replaceAll (kind : ResourceKind) (resources : List J) : Mutation J P (List (StatusChanged J P)) := do
  modify (·.setStore ∅ kind)
  if (statusKindOf kind).isSome then purgeMissing kind resources
  let events ← collect (install kind) resources
  if kind = .source then
    let senders ← deriveAll .sender
    let receivers ← deriveAll .receiver
    return events ++ senders ++ receivers
  else return events

def call : Call J → Mutation J P (List (StatusChanged J P))
  | .upsert kind resource      => upsert kind resource
  | .remove kind resourceId    => remove kind resourceId
  | .replaceAll kind resources => replaceAll kind resources

end ResourceCache
end Controller
