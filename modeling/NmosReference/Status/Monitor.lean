import NmosReference.Library.Rounding
import NmosReference.Library.Text
import Mathlib

namespace Status

open Text

inductive NcStatus
  | inactive | healthy | partiallyHealthy | unhealthy
  deriving DecidableEq, Repr

def NcStatus.value : NcStatus → Nat
  | inactive         => 0
  | healthy          => 1
  | partiallyHealthy => 2
  | unhealthy        => 3

theorem NcStatus.value_injective : Function.Injective NcStatus.value := by
  intro a b h
  cases a <;> cases b <;> first | rfl | cases h

instance : LinearOrder NcStatus :=
  .lift' NcStatus.value NcStatus.value_injective

def STATUS_REPORTING_DELAY : Rat := 3

def PREVIOUSLY_PREFIX : List Char := "Previously: ".toList

def MAX_STATUS_MESSAGE_LEN : Nat := 200

def clipStatusMessage (msg : List Char) : List Char :=
  if msg.length ≤ MAX_STATUS_MESSAGE_LEN then msg
  else rstrip (msg.take (MAX_STATUS_MESSAGE_LEN - 3)) ++ "...".toList

def isStatusBreadcrumb (msg : List Char) : Bool :=
  PREVIOUSLY_PREFIX.isPrefixOf msg

inductive AlertDomain
  | link | transport | essence | application | clock | vendor | vendorLink | vendorTransport | vendorEssence
  | vendorApplication | vendorClock
  deriving DecidableEq, Repr

inductive AlertScope
  | device
  | sender | senderVideo | senderAudio | senderData | senderMux
  | receiver | receiverVideo | receiverAudio | receiverData | receiverMux
  | input | output
  deriving DecidableEq, Repr

inductive EventId
  | link | transport | essence | application | clock
  | vendor | vendorLink | vendorTransportBase | vendorEssenceBase | vendorClock
  | linkDown | linkOk
  | transportPacketLost | transportPacketLate | transportPacketRecovered | transportStreamError | transportOk
  | essenceStreamError | essenceOk
  | applicationOk
  | clockSourceChange | clockUnlock | clockOk
  | vendorTemperature
  | vendorTransportActivate | vendorTransportDeactivate
  | vendorEssenceStart | vendorEssenceStop
  | vendorEssenceConstraintViolated | vendorEssenceConstraintOk | vendorEssenceConstraintPartial
  deriving DecidableEq, Repr

structure EngineEvent where
  domain : AlertDomain
  scope  : AlertScope
  event  : EventId
  info   : List Char
  deriving DecidableEq, Repr

-- The status an event stands for in each domain, `none` if it is none of the domain's.

def getLinkNewState (e : EngineEvent) : Option NcStatus :=
  match e.event with
  | .link | .linkDown | .vendorLink => some .unhealthy
  | .linkOk                         => some .healthy
  | _                               => none

def getTransmissionNewState (e : EngineEvent) : Option NcStatus :=
  match e.event with
  | .transport | .transportPacketLate | .transportPacketLost | .transportStreamError
  | .vendorTransportBase       => some .unhealthy
  | .transportPacketRecovered  => some .partiallyHealthy
  | .transportOk               => some .healthy
  | .vendorTransportActivate   => some .healthy
  | .vendorTransportDeactivate => some .inactive
  | _                          => none

def getConnectionNewState (e : EngineEvent) : Option NcStatus :=
  getTransmissionNewState e

def getEssenceNewState (e : EngineEvent) : Option NcStatus :=
  match e.event with
  | .essence | .essenceStreamError | .vendorEssenceBase
  | .vendorEssenceConstraintViolated                            => some .unhealthy
  | .vendorEssenceStop                                          => some .inactive
  | .vendorEssenceConstraintPartial                             => some .partiallyHealthy
  | .essenceOk | .vendorEssenceStart | .vendorEssenceConstraintOk => some .healthy
  | _                                                           => none

def getStreamNewState (e : EngineEvent) : Option NcStatus :=
  getEssenceNewState e

def getSynchronizationNewState (e : EngineEvent) : Option NcStatus :=
  match e.event with
  | .clock | .clockUnlock | .vendorClock => some .unhealthy
  | .clockSourceChange                   => some .partiallyHealthy
  | .clockOk                             => some .healthy
  | _                                    => none

structure DomainState where
  status         : NcStatus := .inactive
  internalStatus : NcStatus := .inactive
  internalTime   : Rat
  activationTime : Rat := 0
  counter        : Nat := 0
  lastEventInfo  : List Char := []
  deriving DecidableEq, Repr

namespace DomainState

-- The message of an event that reports a worse status, for when that is published.
def note (s : DomainState) (newState : NcStatus) (e : EngineEvent) : DomainState :=
  if s.status < newState ∧ newState ≠ .inactive then { s with lastEventInfo := e.info } else s

-- What an event reports goes to the internal status at once.
def report (s : DomainState) (newStatus : NcStatus) (now : Rat) : DomainState :=
  let s' :=
    if newStatus ≠ s.internalStatus ∨ newStatus = .inactive ∨ s.internalStatus = .inactive
    then { s with internalStatus := newStatus, internalTime := now }
    else s
  if newStatus ≠ s.status ∧ s.status = .inactive then { s' with activationTime := now } else s'

-- To and from Inactive it is published at once; a worse status waits since the activation, a better one since
-- it was reported. The sum with the delay is rounded. Returns whether the status was updated, and whether that was
-- for the worse.
def publish (s : DomainState) (now delay : Rat) : DomainState × Bool × Bool :=
  if s.internalStatus = .inactive ∨ s.status = .inactive then
    if s.status ≠ s.internalStatus then ({ s with status := s.internalStatus }, true, false)
    else (s, false, false)
  else if s.status < s.internalStatus then
    if Rounding.add s.activationTime delay ≤ now then
      ({ s with status := s.internalStatus, counter := s.counter + 1 }, true, true)
    else (s, false, false)
  else if Rounding.add s.internalTime delay ≤ now ∧ s.status ≠ s.internalStatus then
    ({ s with status := s.internalStatus }, true, false)
  else (s, false, false)

end DomainState

def processOneDomain (s : DomainState) (newStatus : Option NcStatus) (now : Rat)
    (delay : Rat := STATUS_REPORTING_DELAY) : DomainState × Bool × Bool :=
  match newStatus with
  | some newStatus => (s.report newStatus now).publish now delay
  | none           => s.publish now delay

def computeOverallStatus (link transport essence sync : NcStatus) : NcStatus :=
  if transport = .inactive then .inactive else max (max (max link transport) essence) sync

inductive Domain
  | link | transport | essence | sync
  deriving DecidableEq, Repr

-- The clock readings of one step: one for each domain it processes, and one for a reset.
structure Readings where
  first  : Rat
  last   : Rat
  reset  : Rat
  routed : Domain → Rat
  within : ∀ d, first ≤ routed d ∧ routed d ≤ last
  resets : first ≤ reset ∧ reset ≤ last

structure ResourceMonitor where
  isSender       : Bool
  link           : DomainState
  transport      : DomainState
  essence        : DomainState
  sync           : DomainState
  -- One for all domains.
  activationTime : Rat := 0
  overallStatus  : NcStatus := .inactive
  overallMessage : List Char := []
  active         : Bool := false
  deriving DecidableEq, Repr

namespace ResourceMonitor

def new (isSender : Bool) (now : Readings) : ResourceMonitor where
  isSender  := isSender
  link      := { status := .healthy, internalStatus := .healthy, internalTime := now.routed .link }
  transport := { internalTime := now.routed .transport }
  essence   := { internalTime := now.routed .essence }
  sync      := { internalTime := now.routed .sync }

variable (m : ResourceMonitor)

def domain : Domain → DomainState
  | .link      => m.link
  | .transport => m.transport
  | .essence   => m.essence
  | .sync      => m.sync

def setDomain (s : DomainState) : Domain → ResourceMonitor
  | .link      => { m with link := s }
  | .transport => { m with transport := s }
  | .essence   => { m with essence := s }
  | .sync      => { m with sync := s }

def onWorse (info : List Char) : ResourceMonitor :=
  if info ≠ [] ∧ (m.overallMessage = [] ∨ isStatusBreadcrumb m.overallMessage) then
    { m with overallMessage := clipStatusMessage info }
  else m

-- The shared activation time goes to the domain for the call, and comes back from it.
def processDomain (d : Domain) (s : DomainState) (newStatus : Option NcStatus) (now : Rat) :
    ResourceMonitor × Bool × Bool :=
  let (s, u, w) := processOneDomain { s with activationTime := m.activationTime } newStatus now
  ({ m.setDomain s d with activationTime := s.activationTime }, u, w)

def routeToDomain (d : Domain) (newState : NcStatus) (e : EngineEvent) (now : Rat) : ResourceMonitor × Bool :=
  let (m, u, w) := m.processDomain d ((m.domain d).note newState e) (some newState) now
  (if w then m.onWorse e.info else m, u)

-- Nothing is routed for an event that is none of the domain's.
def routeIfKnown (d : Domain) (newState : Option NcStatus) (e : EngineEvent) (now : Rat) :
    ResourceMonitor × Bool :=
  match newState with
  | some newState => m.routeToDomain d newState e now
  | none          => (m, false)

def tickDomain (d : Domain) (now : Rat) : ResourceMonitor × Bool :=
  let (m, u, w) := m.processDomain d (m.domain d) none now
  (if w then m.onWorse (m.domain d).lastEventInfo else m, u)

def recomputeOverall : ResourceMonitor × Bool :=
  let newOverall := computeOverallStatus m.link.status m.transport.status m.essence.status m.sync.status
  if newOverall ≠ m.overallStatus then
    let m' := { m with overallStatus := newOverall }
    if .healthy < m.overallStatus ∧ newOverall = .healthy then
      if m.overallMessage ≠ [] ∧ ¬isStatusBreadcrumb m.overallMessage then
        ({ m' with overallMessage := clipStatusMessage (PREVIOUSLY_PREFIX ++ m.overallMessage) }, true)
      else (m', true)
    else if .healthy < m.overallStatus ∧ newOverall = .inactive then ({ m' with overallMessage := [] }, true)
    else (m', true)
  else (m, false)

def handleActivationReset (now : Rat) : ResourceMonitor :=
  { m with
    link           := { m.link with counter := 0 }
    transport      := { internalTime := now }
    essence        := { internalTime := now }
    sync           := { m.sync with counter := 0 }
    overallMessage := [] }

def finish (changed : Bool) : ResourceMonitor × Bool :=
  if changed then (m.recomputeOverall.1, true) else (m, false)

def processTransportEvent (e : EngineEvent) (now : Readings) : ResourceMonitor × Bool :=
  if ¬m.active ∧ e.event ≠ .vendorTransportActivate then (m, false)
  else
    let newState := if m.isSender then getTransmissionNewState e else getConnectionNewState e
    if e.event = .vendorTransportActivate then
      let m := { m with active := true }.handleActivationReset now.reset
      let (m, _) := m.routeIfKnown .transport newState e (now.routed .transport)
      let (m, _) := m.routeToDomain .essence .healthy e (now.routed .essence)
      m.finish true
    else if e.event = .vendorTransportDeactivate then
      let (m, u) := m.routeIfKnown .transport newState e (now.routed .transport)
      let (m, u') := m.routeToDomain .essence .inactive e (now.routed .essence)
      { m with active := false }.finish (u || u')
    else
      let (m, u) := m.routeIfKnown .transport newState e (now.routed .transport)
      m.finish u

def processEssenceEvent (e : EngineEvent) (now : Readings) : ResourceMonitor × Bool :=
  if ¬m.active then (m, false)
  else
    let newState := if m.isSender then getEssenceNewState e else getStreamNewState e
    let (m, u) := m.routeIfKnown .essence newState e (now.routed .essence)
    -- A receiver's connection starts and stops with its stream.
    let injected :=
      if m.isSender then none
      else if e.event = .vendorEssenceStop then some .inactive
      else if e.event = .vendorEssenceStart then some .healthy
      else none
    let (m, u') := m.routeIfKnown .transport injected e (now.routed .transport)
    m.finish (u || u')

def processEvent (e : EngineEvent) (now : Readings) : ResourceMonitor × Bool :=
  if e.scope ≠ (if m.isSender then .sender else .receiver) then (m, false)
  else
    match e.domain with
    | .link =>
      let (m, u) := m.routeIfKnown .link (getLinkNewState e) e (now.routed .link)
      m.finish u
    | .transport | .vendorTransport => m.processTransportEvent e now
    | .essence | .vendorEssence     => m.processEssenceEvent e now
    | .clock =>
      let (m, u) := m.routeIfKnown .sync (getSynchronizationNewState e) e (now.routed .sync)
      m.finish u
    | _ => (m, false)

def tick (now : Readings) : ResourceMonitor × Bool :=
  let (m, u₁) := m.tickDomain .link (now.routed .link)
  let (m, u₂) := m.tickDomain .transport (now.routed .transport)
  let (m, u₃) := m.tickDomain .essence (now.routed .essence)
  let (m, u₄) := m.tickDomain .sync (now.routed .sync)
  m.finish (u₁ || u₂ || u₃ || u₄)

end ResourceMonitor
end Status
