import NmosReference.Connection.Activation

-- When the activations of one Sender or Receiver are carried out: the PATCH of `/staged`, and the timers.
namespace Connection

open Registry

-- Seconds, as the floats of Python.
class Seconds (T : Type) where
  zero         : T
  taiUtcOffset : T
  add          : T → T → T
  sub          : T → T → T
  isPositive   : T → Bool
  -- `int(text)`, unless that raises.
  int          : String → Option Int
  -- `sec + nsec / 1_000_000_000`, unless that overflows.
  ofParts      : Int → Int → Option T
  -- `int(t)` and `int(round((t - int(t)) * 1_000_000_000))`.
  parts        : T → Int × Int
  -- What `datetime.fromtimestamp(t)` stands for, unless that raises.
  datetime     : T → Option T
  -- What `timedelta(seconds=t)` stands for.
  timedelta    : T → T

inductive ActivationState
  | none | immediate | pending | error
  deriving DecidableEq, Repr

inductive ActivationMode
  | none | immediate | relative | absolute
  deriving DecidableEq, Repr

-- The modes that a request can name. The decoder lets no other string pass.
inductive RequestedMode
  | immediate | relative | absolute
  deriving DecidableEq, Repr

def RequestedMode.value : RequestedMode → String
  | immediate => "activate_immediate"
  | relative  => "activate_scheduled_relative"
  | absolute  => "activate_scheduled_absolute"

-- The activation object of a staged state. A field that is not defined is shown as null.
structure NActivation where
  mode           : Option RequestedMode := none
  requestedTime  : Option String := none
  activationTime : Option String := none
  deriving DecidableEq, Repr

-- The activation object of a request, where the mode is a required member. The other fields may not be defined.
structure NActivationPatch where
  mode           : Option RequestedMode
  requestedTime  : Option (Option String) := none
  activationTime : Option (Option String) := none

-- `update_staged_params`, for the activation object.
def NActivation.update (staged : NActivation) (patch : NActivationPatch) : NActivation where
  mode           := patch.mode
  requestedTime  := patch.requestedTime.getD staged.requestedTime
  activationTime := patch.activationTime.getD staged.activationTime

-- The timing of the runtime activation.
structure Timing (T : Type) where
  state               : ActivationState := .none
  mode                : ActivationMode := .none
  time                : Option T := none
  requestedTime       : Option T := none
  requestedDeltaTime  : Option T := none
  activationTimeTai   : String := ""
  requestedTimeString : String := ""

structure ActivationResponse (T : Type) where
  immediateActivation : Bool := false
  delayedActivation   : Bool := false
  activationTime      : Option T := none

-- A timer, with the arguments that it has captured. The requests are numbered, and a timer is known by the one
-- that armed it. What the activation is to be reported as is recorded, but not read by the code.
structure PendingActivation where
  request : Nat
  call    : Call
  report  : NActivation

-- An activation that has been carried out, by or for a request.
structure Carried where
  request : Nat
  report  : NActivation
  deriving DecidableEq

structure Runtime (T Sdp Side : Type) where
  inner   : State Sdp Side
  staged  : NActivation := {}
  timing  : Timing T := {}
  -- Of `dg_pending_activation`, what is under the ids of this resource.
  pending : Dict String PendingActivation := ∅
  carried : List Carried := []

-- A PATCH request. What the handler checks before it stages anything is given by its outcome, and so are the
-- fields that are staged before and after the activation object.
structure Patch (T : Type) where
  resourceId : String
  isSender   : Bool
  resolver   : Option Resolver
  refusal    : Option (Nat × String)
  activation : Option NActivationPatch
  check      : Activation → Option (Nat × String)
  stageFirst : Handler (List Slot × (Nat → StateObject)) Error Unit
  stageRest  : Handler (List Slot × (Nat → StateObject)) Error Unit
  -- What `time.time()` gives, when the request is processed and when a target is missing.
  now        : T
  later      : T
  cursor     : TaiCursor

inductive Reply
  | refused (status : Nat) (text : String)
  | done (status : Nat) (view : NActivation)

-- What the handler does once the activation has been processed. Each may raise.
structure Answering (Sdp Side : Type) where
  -- `emit_clock_locked`
  emitClock : State Sdp Side → Handler Side Error Unit
  -- The encoding of the view, and `node.publish()`.
  answer    : State Sdp Side → Handler Side Error Unit

variable {T Sdp Side : Type} [Seconds T]

section Format

-- The nanoseconds may be rounded up to the next second.
def formatDuration (seconds : T) : String :=
  let (sec, nsec) := Seconds.parts seconds
  if nsec ≥ 1000000000 then s!"{sec + 1}:{nsec - 1000000000}" else s!"{sec}:{nsec}"

def formatTai (posixSeconds : T) : String :=
  formatDuration (Seconds.add posixSeconds (Seconds.taiUtcOffset : T))

def parseTaiTimeString (s : String) : Except Error T :=
  match (s.toList.splitOn ':').map String.ofList with
  | [sec, nsec] =>
    match (Seconds.int T sec), (Seconds.int T nsec) with
    | some sec, some nsec =>
      match Seconds.ofParts sec nsec with
      | some t => .ok t
      | none   => .error ⟨.overflowError, "int too large to convert to float"⟩
    | _, _ => .error ⟨.invalidData, s!"invalid activation time: {s}"⟩
  | _           => .error ⟨.invalidData, s!"invalid activation time format: {s}"⟩

end Format

namespace Runtime

variable (s : Runtime T Sdp Side)

-- `_activation_mode_of(activation.staged_state)`, and `_get_activation_mode`.
def stagedMode : Option RequestedMode :=
  if s.inner.activation.stagedState.isNone then none else s.staged.mode

-- `_get_master_enable`
def masterEnable : Bool :=
  ((s.inner.activation.staged?.bind (·.masterEnable)).bind id).getD false

def resetStagedActivation : Runtime T Sdp Side :=
  if s.inner.activation.stagedState.isNone then s
  else { s with staged := {} }

def setTiming (f : Timing T → Timing T) : Runtime T Sdp Side :=
  { s with timing := f s.timing }

-- `_fill_activation_fields`: what there is to describe, if anything.
def fillActivationFields : Option NActivation :=
  let t := s.timing
  let mode := match t.mode with
    | .none      => none
    | .immediate => some RequestedMode.immediate
    | .relative  => some .relative
    | .absolute  => some .absolute
  match mode with
  | none      => none
  | some mode =>
    if t.activationTimeTai = "" then none
    else
      let requestedTime :=
        match mode with
        | .immediate => none
        | .relative  =>
          if t.requestedTimeString ≠ "" then some t.requestedTimeString else t.requestedDeltaTime.map formatDuration
        | .absolute  =>
          if t.requestedTimeString ≠ "" then some t.requestedTimeString else t.requestedTime.map formatTai
      some { mode := some mode, requestedTime, activationTime := some t.activationTimeTai }

-- The activation object of `/active`.
def activeView : NActivation :=
  if s.inner.activation.activeState.isNone then {} else s.fillActivationFields.getD {}

end Runtime

abbrev Scheduling (T Sdp Side α : Type) :=
  Handler (Runtime T Sdp Side) Error α

def fromTimestamp (t : T) : Scheduling T Sdp Side T :=
  Handler.ofExcept <| match Seconds.datetime t with
    | some d => .ok d
    | none   => .error ⟨.valueError, "year is out of range"⟩

def onNodeSide (m : State Sdp Side → Handler Side Error Unit) : Scheduling T Sdp Side Unit := do
  let s ← get
  (onSide (m s.inner)).on (·.inner) fun s inner => { s with inner }

-- Carries an activation out, on behalf of a request.
def carryOut (S : Subsystems Sdp Side) (call : Call) (request : Nat) (report : NActivation) :
    Scheduling T Sdp Side Unit := do
  (doActivation S call).on (·.inner) fun s inner => { s with inner }
  modify fun s => { s with carried := s.carried ++ [⟨request, report⟩] }

def cancelPendingActivation (resourceId : String) : Scheduling T Sdp Side Unit :=
  modify fun s => { s with pending := s.pending.erase resourceId }

def cancelPending (resourceId : String) : Scheduling T Sdp Side Unit := do
  cancelPendingActivation resourceId
  modify (·.setTiming fun _ => {})

def schedulePendingActivation (resourceId : String) (timer : PendingActivation) : Scheduling T Sdp Side Unit := do
  cancelPendingActivation resourceId
  modify fun s => { s with pending := s.pending.set resourceId timer }

-- An activation that is asked for now.
def activateImmediate (S : Subsystems Sdp Side) (p : Patch T) (call : Call) (request : Nat) :
    Scheduling T Sdp Side (ActivationResponse T) := do
  modify (·.setTiming ({ · with state := .immediate, mode := .immediate }))
  let now ← fromTimestamp p.now
  modify (·.setTiming ({ · with
    time := some now, requestedTime := some now, activationTimeTai := formatTai p.now }))
  carryOut S call request { mode := some .immediate, activationTime := some (formatTai p.now) }
  return { immediateActivation := true, activationTime := some p.now }

-- A scheduled activation that is due already. The mode stays.
def activatePastDue (S : Subsystems Sdp Side) (p : Patch T) (call : Call) (request : Nat) (mode : RequestedMode)
    (requested : Option String) : Scheduling T Sdp Side (ActivationResponse T) := do
  modify (·.setTiming ({ · with state := .immediate }))
  let now ← fromTimestamp p.now
  modify (·.setTiming ({ · with time := some now, activationTimeTai := formatTai p.now }))
  carryOut S call request { mode := some mode, requestedTime := requested, activationTime := some (formatTai p.now) }
  return { immediateActivation := true, activationTime := some p.now }

def scheduleRelative (S : Subsystems Sdp Side) (p : Patch T) (call : Call) (request : Nat)
    (requested : Option String) : Scheduling T Sdp Side (ActivationResponse T) := do
  modify (·.setTiming ({ · with
    state := .pending, mode := .relative, requestedTimeString := requested.getD "" }))
  let delay ← Handler.ofExcept (match requested with
    | none   => .ok Seconds.zero
    | some s => parseTaiTimeString s)
  if Seconds.isPositive delay then
    let target := Seconds.add p.now delay
    let time ← fromTimestamp target
    let tai := formatTai target
    modify (·.setTiming ({ · with
      time := some time, requestedTime := some time, requestedDeltaTime := some (Seconds.timedelta delay),
      activationTimeTai := tai }))
    let report := { mode := some .relative, requestedTime := requested, activationTime := some tai }
    schedulePendingActivation p.resourceId { request, call, report }
    return { delayedActivation := true, activationTime := some p.now }
  else activatePastDue S p call request .relative requested

def scheduleAbsolute (S : Subsystems Sdp Side) (p : Patch T) (call : Call) (request : Nat)
    (requested : Option String) : Scheduling T Sdp Side (ActivationResponse T) := do
  modify (·.setTiming ({ · with
    state := .pending, mode := .absolute, requestedTimeString := requested.getD "" }))
  let target ← Handler.ofExcept (match requested with
    | none   => .ok p.later
    | some s => (parseTaiTimeString s).map (Seconds.sub · Seconds.taiUtcOffset))
  if Seconds.isPositive (Seconds.sub target p.now) then
    let time ← fromTimestamp target
    let tai := if requested.getD "" ≠ "" then requested.getD "" else formatTai target
    modify (·.setTiming ({ · with
      time := some time, requestedTime := some time, activationTimeTai := tai }))
    let report := { mode := some .absolute, requestedTime := requested, activationTime := some tai }
    schedulePendingActivation p.resourceId { request, call, report }
    return { delayedActivation := true, activationTime := some p.now }
  else activatePastDue S p call request .absolute requested

def processActivation (S : Subsystems Sdp Side) (p : Patch T) (request : Nat) :
    Scheduling T Sdp Side (ActivationResponse T) := do
  let s ← get
  if s.inner.activation.stagedState.isNone then return {}
  else
    match s.stagedMode with
    | none      =>
      cancelPending p.resourceId
      return {}
    | some mode =>
      let call : Call := {
        resourceId := p.resourceId, masterEnable := s.masterEnable, isSender := p.isSender, hasSdp := p.isSender,
        resolver := p.resolver, now := p.cursor }
      if mode ≠ .immediate ∧ s.pending.contains p.resourceId then return {}
      else
        match mode with
        | .immediate => activateImmediate S p call request
        | .relative  => scheduleRelative S p call request s.staged.requestedTime
        | .absolute  => scheduleAbsolute S p call request s.staged.requestedTime

def onStaged (m : Handler (List Slot × (Nat → StateObject)) Error Unit) : Scheduling T Sdp Side Unit :=
  m.on (fun s => (s.inner.activation.slots, s.inner.activation.objects)) fun s staged =>
    { s with inner := { s.inner with activation := { s.inner.activation with slots := staged.1, objects := staged.2 } } }

-- `_apply_patch_state_to_activation`
def stage (p : Patch T) : Scheduling T Sdp Side Unit := do
  onStaged p.stageFirst
  modify fun s => { s with staged := p.activation.elim s.staged s.staged.update }
  onStaged p.stageRest

-- `_set_activation_on_response`, on the view of the staged activation.
def setActivationOnResponse (response : ActivationResponse T) : Scheduling T Sdp Side NActivation := do
  let s ← get
  if response.delayedActivation then return s.fillActivationFields.getD s.staged
  else if !response.immediateActivation then return s.staged
  else
    set s.resetStagedActivation
    return if s.timing.mode = .immediate then s.fillActivationFields.getD s.staged else {}

abbrev Endpoint (T Sdp Side α : Type) :=
  Handler (Runtime T Sdp Side) Reply α

-- The handler from where it begins to stage what was asked for.
def stageAndProcess (S : Subsystems Sdp Side) (A : Answering Sdp Side) (p : Patch T) (request : Nat) :
    Endpoint T Sdp Side Reply := do
  (stage p).mapError fun e => .refused 400 s!"invalid staged patch: {e.text}"
  let response ← (processActivation S p request).mapError fun e => .refused 400 s!"activation failed: {e.text}"
  let view ← (show Scheduling T Sdp Side NActivation from do
    onNodeSide A.emitClock
    let view ← setActivationOnResponse response
    onNodeSide A.answer
    return view).mapError fun _ => .refused 500 "500 Internal Server Error"
  return .done (if response.delayedActivation then 202 else 200) view

def pendingActivationConflict (p : Patch T) (s : Runtime T Sdp Side) : Bool :=
  s.stagedMode.isSome ∧ (p.activation.bind (·.mode)).isSome

-- What answers the request before anything is staged, if anything does.
def refuse (p : Patch T) (s : Runtime T Sdp Side) : Option (Nat × String) :=
  match p.refusal with
  | some r => some r
  | none   =>
    if s.inner.activation.stagedState.isNone then some (400, "invalid staged patch")
    else if pendingActivationConflict p s then some (423, "pending activation")
    else p.check s.inner.activation

def handlePatchStaged (S : Subsystems Sdp Side) (A : Answering Sdp Side) (p : Patch T) (request : Nat) :
    Endpoint T Sdp Side Reply := do
  match refuse p (← get) with
  | some (status, text) => return .refused status text
  | none                => stageAndProcess S A p request

-- A timer that comes due and is still the one that is registered. It is logged if the activation fails.
def pendingActivationTask (S : Subsystems Sdp Side) (resourceId : String) (timer : PendingActivation)
    (cursor : TaiCursor) : Scheduling T Sdp Side Unit := do
  tryCatch
    (do
      carryOut S { timer.call with now := cursor } timer.request timer.report
      modify Runtime.resetStagedActivation)
    fun _ => pure ()
  modify fun s => { s with pending := s.pending.erase resourceId }

end Connection
