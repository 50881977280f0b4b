import NmosReference.Connection.Flip
import Mathlib

namespace Connection

open Registry

structure TransportFile where
  data : Option (Option String)
  type : Option (Option String)
  deriving DecidableEq

-- What an IS-05 activation says beside the transport parameters. The outer options are the attributes
-- that a class lacks, the next ones the fields that are undefined.
structure StateObject where
  masterEnable  : Option (Option Bool)
  senderId      : Option (Option (Option String))
  receiverId    : Option (Option (Option String))
  transportFile : Option (Option TransportFile)
  deriving DecidableEq

-- The state objects are shared by reference, and changed in place.
structure Activation where
  senderIndex   : Nat
  receiverIndex : Nat
  slots         : List Slot
  objects       : Nat → StateObject
  stagedState   : Option Nat
  activeState   : Option Nat
  xcl           : List UInt8

-- The IS-04 subscription of a Sender (towards a Receiver) or of a Receiver (towards a Sender).
structure Subscription where
  active : Option Bool
  peerId : Option (Option String)
  deriving DecidableEq

structure Resource where
  subscription : Option Subscription
  version      : TaiCursor
  deriving DecidableEq

-- `update_resource_unique_id(any_id, 0)`.
def toStaticId (anyId : String) : String :=
  .ofList (List.replicate 8 '0' ++ anyId.toList.drop 8)

@[simp] theorem toStaticId_toStaticId (id : String) : toStaticId (toStaticId id) = toStaticId id := by
  simp only [toStaticId, String.toList_ofList, List.drop_left' List.length_replicate]

example : toStaticId "1f2e3d4c-5b6a" = "00000000-5b6a" := by decide

attribute [irreducible] toStaticId

abbrev ResourceStore (α : Type) :=
  Dict String α

namespace ResourceStore

variable {α : Type}

def get (d : ResourceStore α) (anyId : String) : Option α :=
  d.get? (toStaticId anyId)

def put (d : ResourceStore α) (staticId : String) (item : α) : ResourceStore α :=
  d.set staticId item

def remove (d : ResourceStore α) (anyId : String) : ResourceStore α :=
  d.erase (toStaticId anyId)

end ResourceStore

-- The part of a Node that activations read and change. What the privacy parameters, the streaming
-- engine and the compatibility checks keep is a state of its own, which they alone see.
structure Node (Sdp Side : Type) where
  legs             : List Leg
  serialNumber     : String
  senders          : ResourceStore Resource
  receivers        : ResourceStore Resource
  sdp              : ResourceStore Sdp
  exclusiveSession : Bool
  privacyEnabled   : Bool
  side             : Side

structure State (Sdp Side : Type) where
  node       : Node Sdp Side
  activation : Activation

-- The arguments of one activation, and the time that stamps the updated resource.
structure Call where
  resourceId   : String
  masterEnable : Bool
  isSender     : Bool
  hasSdp       : Bool
  resolver     : Option Resolver
  now          : TaiCursor

-- The subsystems that an activation calls. Each may raise wherever it likes, and after any change to
-- the state of its own.
structure Subsystems (Sdp Side : Type) where
  -- `_generate_sdp_from_params`
  generateSdp : State Sdp Side → String → Handler Side Error (Option String)
  -- `MatroxSdp.decode`
  decode      : String → Except String Sdp
  -- `set_sender_compatibility_state`, `set_receiver_compatibility_state`
  recheck     : State Sdp Side → Handler Side Error Unit
  -- `_sync_privacy_from_active_params`
  syncPrivacy : Activation → Handler Side Error Unit
  -- `exclusive_session.get_key`
  getKey      : Handler Side Error (List UInt8)
  -- `_manage_engine_lifecycle`
  engine      : State Sdp Side → Call → Handler Side Error Unit
  -- `generate_ecdh_sender_key`, `generate_ecdh_receiver_key`: the public key in hexadecimal.
  generateKey : Bool → Handler Side Error String

def Call.staticId (c : Call) : String :=
  toStaticId c.resourceId

variable {Sdp Side : Type}

abbrev Program (Sdp Side α : Type) :=
  Handler (State Sdp Side) Error α

def State.putSdp (s : State Sdp Side) (sdp : ResourceStore Sdp) : State Sdp Side :=
  { s with node := { s.node with sdp } }

def State.putSlots (s : State Sdp Side) (slots : List Slot) : State Sdp Side :=
  { s with activation := { s.activation with slots } }

def State.putSide (s : State Sdp Side) (side : Side) : State Sdp Side :=
  { s with node := { s.node with side } }

def onSlots (m : Handler (List Slot) Error Unit) : Program Sdp Side Unit :=
  m.on (·.activation.slots) State.putSlots

def onSide {α : Type} (m : Handler Side Error α) : Program Sdp Side α :=
  m.on (·.node.side) State.putSide

namespace Activation

def staged? (a : Activation) : Option StateObject :=
  a.stagedState.map a.objects

def active? (a : Activation) : Option StateObject :=
  a.activeState.map a.objects

end Activation

-- A staged field that is there and defined replaces an active field that is there.
def copyField {α : Type} : Option (Option α) → Option (Option α) → Option (Option α)
  | some (some v), some _ => some (some v)
  | _,             dst    => dst

def StateObject.copyInto (staged : StateObject) (masterEnable : Bool) (active : StateObject) :
    StateObject where
  masterEnable  := active.masterEnable.map fun _ => masterEnable
  senderId      := copyField staged.senderId active.senderId
  receiverId    := copyField staged.receiverId active.receiverId
  transportFile := copyField staged.transportFile active.transportFile

-- The metadata, from staged to active. `masterEnable` comes from the caller.
def Activation.copyMetadata (a : Activation) (masterEnable : Bool) : Activation :=
  match a.staged?, a.activeState with
  | some staged, some r =>
    { a with objects := Function.update a.objects r (staged.copyInto masterEnable (a.objects r)) }
  | _,           _      => a

-- The peer of the subscription: null unless active.
def activePeerId (staged : Option StateObject) (field : StateObject → Option (Option (Option String)))
    (masterEnable : Bool) : Option String :=
  if masterEnable then ((staged.bind field).bind id).bind id else none

def receiverTransportFileSdp (a : Activation) : Option String :=
  ((((a.active?.bind (·.transportFile)).bind id).bind (·.data)).bind id)

def storeParsedSdp (S : Subsystems Sdp Side) (staticId sdpText : String) : Program Sdp Side Unit :=
  match S.decode sdpText with
  | .ok sdp    => modify fun s => s.putSdp (s.node.sdp.put staticId sdp)
  | .error err => throw ⟨.unexpectedError, s!"SDP parse failed: {err}"⟩

def removeSdp (staticId : String) : Program Sdp Side Unit :=
  modify fun s => s.putSdp (s.node.sdp.remove staticId)

-- Nothing that a compatibility check raises gets out.
def recheckCompatibility (S : Subsystems Sdp Side) : Program Sdp Side Unit :=
  tryCatch (do onSide (S.recheck (← get))) fun _ => pure ()

def replaceSdp (S : Subsystems Sdp Side) (staticId : String) (sdpText : Option String) :
    Program Sdp Side Unit := do
  removeSdp staticId
  match sdpText with
  | some sdpText => if sdpText ≠ "" then storeParsedSdp S staticId sdpText
  | none         => pure ()

-- A Receiver caches the SDP of its transport file. One that does not parse leaves nothing cached.
def cacheSdp (S : Subsystems Sdp Side) (c : Call) : Program Sdp Side Unit :=
  tryCatch
    (if c.masterEnable then do
      replaceSdp S c.staticId (receiverTransportFileSdp (← get).activation)
    else
      removeSdp c.staticId)
    fun _ => removeSdp c.staticId

-- The SDP: generated by a Sender, or taken from the transport file by a Receiver.
def prepareSdp (S : Subsystems Sdp Side) (c : Call) : Program Sdp Side Unit := do
  if c.isSender && c.hasSdp && c.masterEnable then
    let s ← get
    if (s.node.senders.get c.staticId).isSome then
      match ← onSide (S.generateSdp s c.resourceId) with
      | some sdpText => storeParsedSdp S c.staticId sdpText
      | none         => pure ()
  else if c.isSender && c.hasSdp && !c.masterEnable then
    removeSdp c.staticId
  else if !c.isSender then
    cacheSdp S c
    recheckCompatibility S

-- The resource store of the call's kind of resource.
def Call.resources (c : Call) (node : Node Sdp Side) : ResourceStore Resource :=
  if c.isSender then node.senders else node.receivers

def Call.putResources (c : Call) (s : State Sdp Side) (d : ResourceStore Resource) : State Sdp Side :=
  if c.isSender then
    { s with node := { s.node with senders := d } }
  else
    { s with node := { s.node with receivers := d } }

def Call.peerId (c : Call) (a : Activation) : Option String :=
  activePeerId a.staged? (if c.isSender then (·.receiverId) else (·.senderId)) c.masterEnable

-- `update_sender` and `update_receiver`, as an activation calls them: a subscription that is not
-- defined stays so.
def Resource.update (r : Resource) (active : Bool) (peerId : Option String) (now : TaiCursor) :
    Resource where
  subscription := r.subscription.map fun _ => { active := some active, peerId := some peerId }
  version      := now

def updateSubscription (c : Call) : Program Sdp Side Unit := do
  let s ← get
  match (c.resources s.node).get c.resourceId with
  | none   => throw ⟨.notFound, s!"resource not found: {c.resourceId}"⟩
  | some r =>
    set (c.putResources s
      ((c.resources s.node).put c.staticId (r.update c.masterEnable (c.peerId s.activation) c.now)))

def syncPrivacy (S : Subsystems Sdp Side) (c : Call) : Program Sdp Side Unit := do
  let activation := (← get).activation
  if c.masterEnable && !activation.slots.isEmpty then
    onSide (S.syncPrivacy activation)

-- The key of an exclusive session is mixed in while one is active, and is empty otherwise.
def setExclusiveKey (S : Subsystems Sdp Side) (c : Call) : Program Sdp Side Unit := do
  let put (xcl : List UInt8) : Program Sdp Side Unit :=
    modify fun s => { s with activation := { s.activation with xcl } }
  if (← get).node.exclusiveSession then
    let xclKey ← onSide S.getKey
    put (if c.masterEnable then xclKey else [])
  else if c.masterEnable then
    put []

-- The public key of one leg, staged and active, in the fields that the class has.
def publishKey (field : String) (pub : String) : Handler Slot Error Unit := do
  let put (m : Handler Params Error Unit) : Handler Slot Error Unit :=
    m.on (·.staged) fun slot staged => { slot with staged }
  if (← get).staged.contains field then
    put (Params.assign field (.str pub))
  if (← get).active.contains field then
    onActive (Params.assign field (.str pub))

def regenerateKey (S : Subsystems Sdp Side) (c : Call) : Program Sdp Side Unit := do
  let s ← get
  if !c.masterEnable && s.node.privacyEnabled then
    let pub ← onSide (S.generateKey c.isSender)
    let field := if c.isSender then "ExtPrivacyEcdhSenderPublicKey" else "ExtPrivacyEcdhReceiverPublicKey"
    onSlots (.each (fun _ => publishKey field pub) s.activation.slots)

-- What comes after the subscription: privacy, the engine, and the key of the next activation.
def startEngine (S : Subsystems Sdp Side) (c : Call) : Program Sdp Side Unit := do
  syncPrivacy S c
  setExclusiveKey S c
  onSide (S.engine (← get) c)
  regenerateKey S c
  recheckCompatibility S

def flip (c : Call) : Program Sdp Side Unit := do
  let s ← get
  tryCatch
    (onSlots (flipActivation c.resolver s.node.legs s.activation.senderIndex s.activation.receiverIndex
      s.node.serialNumber))
    fun exc => throw ⟨.unexpectedError, s!"cannot flip staged to active: {exc.text}"⟩

-- The rollback. What it restores of the active state is the reference.
def rollback (c : Call) (activeStateBackup : Option Nat) (sdpBackup : Option Sdp) :
    Program Sdp Side Unit := do
  modify fun s => { s with activation := { s.activation with activeState := activeStateBackup } }
  match sdpBackup with
  | some sdp => modify fun s => s.putSdp (s.node.sdp.put c.staticId sdp)
  | none     => if c.hasSdp && c.isSender then removeSdp c.staticId

-- The body of the `try`, in which what is raised is followed by a rollback.
def attempt (S : Subsystems Sdp Side) (c : Call) : Program Sdp Side Unit := do
  prepareSdp S c
  updateSubscription c
  startEngine S c

def doActivation (S : Subsystems Sdp Side) (c : Call) : Program Sdp Side Unit := do
  let s ← get
  let activeStateBackup := s.activation.activeState
  let sdpBackup := s.node.sdp.get c.staticId
  flip c
  modify fun s => { s with activation := s.activation.copyMetadata c.masterEnable }
  tryCatch (attempt S c) fun e => do
    rollback c activeStateBackup sdpBackup
    throw e

end Connection
