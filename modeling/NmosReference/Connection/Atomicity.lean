import NmosReference.Connection.EngineWrites

namespace Connection

open Handler

variable {Sdp Side : Type} {S : Subsystems Sdp Side} {c : Call} {s s' : State Sdp Side}

def State.params (s : State Sdp Side) : List Params :=
  s.activation.slots.map (·.active)

-- What an activation that failed must not have changed.
@[ext]
structure View (Sdp : Type) where
  params       : List Params
  state        : Option StateObject
  sdp          : Option Sdp
  subscription : Option (Option Subscription)

def view (c : Call) (s : State Sdp Side) : View Sdp where
  params       := s.params
  state        := s.activation.active?
  sdp          := s.node.sdp.get c.staticId
  subscription := ((c.resources s.node).get c.resourceId).map (·.subscription)

-- The flip of the staged parameters, with the legs and the indices of the state it starts from.
def flipOf (c : Call) (s : State Sdp Side) : Handler (List Slot) Error Unit :=
  flipActivation c.resolver s.node.legs s.activation.senderIndex s.activation.receiverIndex
    s.node.serialNumber

-- What the resolver is given for a leg.
def resolving (s : State Sdp Side) (leg : Leg) : Resolving where
  senderIndex   := s.activation.senderIndex
  receiverIndex := s.activation.receiverIndex
  leg           := leg
  serialNumber  := s.node.serialNumber

-- Some leg raises, and what the legs take up to there is what they have.
def FlipFails (c : Call) (s : State Sdp Side) : Prop :=
  LegsRaise c.resolver (resolving s) s.node.legs s.activation.slots

def FlipCurrent (c : Call) (s : State Sdp Side) : Prop :=
  LegsKeep c.resolver (resolving s) s.node.legs s.activation.slots

-- The states after the flip, and after the metadata.
def flipped (c : Call) (s : State Sdp Side) : State Sdp Side :=
  s.putSlots ((flipOf c s).leaves s.activation.slots)

def copied (c : Call) (s : State Sdp Side) : State Sdp Side :=
  { flipped c s with activation := (flipped c s).activation.copyMetadata c.masterEnable }

section Steps

theorem flipped_params : (flipped c s).params = s.params ↔ FlipCurrent c s :=
  flipLegs_spec.2.2

theorem flipped_slots (h : FlipCurrent c s) : (flipped c s).activation.slots = s.activation.slots := by
  have hstaged : (flipped c s).activation.slots.map (·.staged) = s.activation.slots.map (·.staged) := flipLegs_spec.2.1
  have hactive : (flipped c s).activation.slots.map (·.active) = s.activation.slots.map (·.active) := flipped_params.mpr h
  have hinj : Function.Injective fun slot : Slot => (slot.staged, slot.active) := fun a b e => by
    cases a
    cases b
    cases e
    rfl
  refine List.map_injective_iff.mpr hinj ?_
  have hzip (slots : List Slot) : slots.map (fun slot => (slot.staged, slot.active)) =
      (slots.map (·.staged)).zip (slots.map (·.active)) := by
    rw [List.zip_map']
  rw [hzip, hzip, hstaged, hactive]

theorem leaves_flip : (flip c).leaves s = flipped c s := by
  by_cases h : (flipOf c s).Raises s.activation.slots
  case neg => exact leaves_tryCatch h
  case pos =>
    obtain ⟨e, h⟩ := raises_iff.mp h
    exact leaves_tryCatch_of_raises (congrArg (fun r => (r.1, s.putSlots r.2)) h)

-- The `try` with its rollback, for a state that the activation started from.
def guarded (S : Subsystems Sdp Side) (c : Call) (s : State Sdp Side) : Program Sdp Side Unit :=
  tryCatch (attempt S c) fun e => do
    rollback c s.activation.activeState (s.node.sdp.get c.staticId)
    throw e

theorem doActivation_eq : (doActivation S c).run s = (do
    flip c
    modify fun s => { s with activation := s.activation.copyMetadata c.masterEnable }
    guarded S c s : Program Sdp Side Unit).run s := rfl

-- A Receiver's transport file is cached.
def Caches (S : Subsystems Sdp Side) (c : Call) (a : Activation) : Prop :=
  c.masterEnable ∧ ∃ text ∈ receiverTransportFileSdp a, text ≠ "" ∧ ∃ sdp, S.decode text = .ok sdp

@[simp] theorem not_raises_recheck : ¬(recheckCompatibility S).Raises s :=
  not_raises_tryCatch fun _ _ => not_raises_pure

variable {β : Type} {f : State Sdp Side → β}

theorem recheck_keeps (hx : ∀ s x, f (s.putSide x) = f s) :
    (recheckCompatibility S).Keeps f :=
  (keeps_get.bind fun _ => keeps_on hx).tryCatch fun _ => keeps_pure

theorem storeParsedSdp_keeps {id text : String} (hd : ∀ s d, f (s.putSdp d) = f s) :
    (storeParsedSdp S id text).Keeps f := by
  unfold storeParsedSdp
  cases S.decode text
  case error => exact keeps_throw
  case ok => exact keeps_modify fun s => hd s _

-- Preparing the SDP touches the SDP store and the subsystems only.
theorem prepareSdp_keeps (hd : ∀ s d, f (s.putSdp d) = f s)
    (hx : ∀ s x, f (s.putSide x) = f s) : (prepareSdp S c).Keeps f := by
  have hr : (removeSdp c.staticId).Keeps f := keeps_modify fun s => hd s _
  refine .ite (keeps_get.bind fun s => .ite ?_ keeps_pure) (.ite hr (.ite ?_ keeps_pure))
  · refine (keeps_on hx).bind fun text => ?_
    cases text
    case none => exact keeps_pure
    case some => exact storeParsedSdp_keeps hd
  · refine Keeps.bind (.tryCatch (.ite ?_ hr) fun _ => hr) fun _ => recheck_keeps hx
    refine keeps_get.bind fun s => hr.bind fun _ => ?_
    cases receiverTransportFileSdp s.activation
    case none => exact keeps_pure
    case some => exact .ite (storeParsedSdp_keeps hd) keeps_pure

-- What the engine's part of an activation touches: the subsystems, the exclusive key and, when the key
-- of the next activation is published, the parameters.
theorem startEngine_keeps (hx : ∀ s x, f (s.putSide x) = f s)
    (hl : ∀ s slots, f (s.putSlots slots) = f s)
    (hk : ∀ s xcl, f { s with activation := { s.activation with xcl } } = f s) :
    (startEngine S c).Keeps f := by
  have hput : ∀ xcl, Keeps (modify fun s => { s with activation := { s.activation with xcl } } :
    Program Sdp Side Unit) f := fun xcl => keeps_modify fun s => hk s xcl
  refine Keeps.bind ?_ fun _ => .bind ?_ fun _ => keeps_get.bind fun s => (keeps_on hx).bind fun _ =>
    .bind ?_ fun _ => recheck_keeps hx
  · exact keeps_get.bind fun s => .ite (keeps_on hx) keeps_pure
  · exact keeps_get.bind fun s => .ite ((keeps_on hx).bind fun _ => hput _) (.ite (hput _) keeps_pure)
  · exact keeps_get.bind fun s => .ite ((keeps_on hx).bind fun _ => keeps_on hl) keeps_pure

-- A staged field that is copied is what the active one is.
def FieldCurrent {α : Type} (staged active : Option (Option α)) : Prop :=
  ∀ v, staged = some (some v) → active.isSome → active = some (some v)

structure StateObject.Current (staged : StateObject) (masterEnable : Bool) (active : StateObject) : Prop where
  masterEnable  : active.masterEnable = none ∨ active.masterEnable = some (some masterEnable)
  senderId      : FieldCurrent staged.senderId active.senderId
  receiverId    : FieldCurrent staged.receiverId active.receiverId
  transportFile : FieldCurrent staged.transportFile active.transportFile

def MetadataCurrent (c : Call) (s : State Sdp Side) : Prop :=
  ∀ staged ∈ s.activation.staged?, ∀ active ∈ s.activation.active?, staged.Current c.masterEnable active

-- The rollback restores the SDP of a Sender, and of a Receiver that had one. There is nothing to restore of a Receiver
-- that has no transport file to cache.
def SdpKept (c : Call) (s : State Sdp Side) : Prop :=
  c.isSender ∨ (s.node.sdp.get c.staticId).isSome ∨
    ¬(c.masterEnable ∧ ∃ text ∈ receiverTransportFileSdp s.activation, text ≠ "")

def Missing (c : Call) (s : State Sdp Side) : Prop :=
  (c.resources s.node).get c.resourceId = none

def SubscriptionCurrent (c : Call) (s : State Sdp Side) : Prop :=
  ∀ r ∈ (c.resources s.node).get c.resourceId, ∀ subscription ∈ r.subscription,
    subscription = { active := some c.masterEnable, peerId := some (c.peerId s.activation) }

-- When an activation that fails changes nothing, wherever it fails: what it would write up to there is what there is.
structure AtomicWhen (c : Call) (s : State Sdp Side) : Prop where
  flip         : FlipCurrent c s
  metadata     : ¬FlipFails c s → MetadataCurrent c s
  sdp          : ¬FlipFails c s → SdpKept c s
  subscription : ¬FlipFails c s → SubscriptionCurrent c s
  keys         : ¬FlipFails c s → ¬Missing c s → c.masterEnable = false → s.node.privacyEnabled = true →
    KeysKeep c.keyName s.activation.slots

-- The parameters are what they were, the metadata was current, and the rollback finds the SDP.
structure Settled (S : Subsystems Sdp Side) (c : Call) (s s' : State Sdp Side) : Prop where
  params   : s'.params = s.params
  metadata : MetadataCurrent c s
  sdp      : c.isSender ∨ (s.node.sdp.get c.staticId).isSome ∨ ¬Caches S c s.activation

-- The state that the engine is started from.
def updated (S : Subsystems Sdp Side) (c : Call) (s : State Sdp Side) : State Sdp Side :=
  (updateSubscription c).leaves ((prepareSdp S c).leaves (copied c s))

theorem Caches.congr {a a' : Activation} (h : a.active? = a'.active?) :
    Caches S c a ↔ Caches S c a' := by
  unfold Caches receiverTransportFileSdp
  rw [h]

theorem copyMetadata_activeState {a : Activation} {m : Bool} :
    (a.copyMetadata m).activeState = a.activeState := by
  unfold Activation.copyMetadata
  split <;> rfl

theorem updateSubscription_some {r : Resource} (h : (c.resources s.node).get c.resourceId = some r) :
    (updateSubscription c).leaves s = c.putResources s ((c.resources s.node).put c.staticId
      (r.update c.masterEnable (c.peerId s.activation) c.now)) := by
  unfold Handler.leaves updateSubscription
  rw [Handler.run_bind_ok Handler.run_get, h]
  rfl

theorem updateSubscription_none (h : (c.resources s.node).get c.resourceId = none) :
    (updateSubscription c).leaves s = s := by
  unfold Handler.leaves updateSubscription
  rw [Handler.run_bind_ok Handler.run_get, h]
  rfl

theorem putResources_activation {d : ResourceStore Resource} :
    (c.putResources s d).activation = s.activation := by
  unfold Call.putResources
  split <;> rfl

theorem updateSubscription_keeps (h : ∀ s d, f (c.putResources s d) = f s) :
    (updateSubscription c).Keeps f := by
  intro s
  cases hr : (c.resources s.node).get c.resourceId
  case none => rw [updateSubscription_none hr]
  case some => rw [updateSubscription_some hr, h]

theorem updated_keyed : keyed (updated S c s) = keyed (flipped c s) := by
  have hu : (updateSubscription c).Keeps (keyed : State Sdp Side → _) := by
    refine updateSubscription_keeps fun _ _ => ?_
    unfold Call.putResources
    split <;> rfl
  have hp : (prepareSdp S c).Keeps keyed := prepareSdp_keeps (fun _ _ => rfl) fun _ _ => rfl
  refine (hu _).trans ((hp _).trans ?_)
  simp only [keyed, copied, Activation.copyMetadata]
  split <;> rfl

theorem SdpKept.settled (h : SdpKept c s) :
    c.isSender ∨ (s.node.sdp.get c.staticId).isSome ∨ ¬Caches S c s.activation := by
  refine h.imp_right (.imp_right fun hno hc => hno ?_)
  obtain ⟨hm, text, ht, hne, -⟩ := hc
  exact ⟨hm, text, ht, hne⟩

theorem AtomicWhen.settled (h : AtomicWhen c s) (hf : ¬FlipFails c s) : Settled S c s (flipped c s) :=
  ⟨flipped_params.mpr h.flip, h.metadata hf, (h.sdp hf).settled⟩

theorem AtomicWhen.engine (h : AtomicWhen c s) (hf : ¬FlipFails c s) (hm : ¬Missing c s)
    (hr : (startEngine S c).Raises (updated S c s)) : Settled S c s ((startEngine S c).leaves (updated S c s)) := by
  have hslots : (updated S c s).activation.slots = s.activation.slots :=
    (congrArg Prod.fst updated_keyed).trans (flipped_slots h.flip)
  have henabled : (updated S c s).node.privacyEnabled = s.node.privacyEnabled := congrArg Prod.snd updated_keyed
  refine ⟨?_, h.metadata hf, (h.sdp hf).settled⟩
  have hcases := startEngine_raises hr
  rw [hslots, henabled] at hcases
  obtain hsame | ⟨⟨hme, hp⟩, pub, hraises, hleaves⟩ := hcases
  · exact congrArg (List.map (·.active)) hsame
  · rw [State.params, hleaves]
    have hspec := publishKeys_spec c.keyName pub (rfl : s.activation.slots.length = s.activation.slots.length)
    exact hspec.2 (h.keys hf hm hme hp) (hspec.1.mp hraises)

end Steps

section Atomic

variable [Inhabited Sdp]

end Atomic

-- A scheduled activation that comes due after its Sender was deleted.
namespace Deleted

local instance python : Python := .ofTable []

def subsystems : Subsystems String Unit where
  generateSdp _ _ := pure none
  decode text     := .ok text
  recheck _       := pure ()
  syncPrivacy _   := pure ()
  getKey          := pure []
  engine _ _      := pure ()
  generateKey _   := pure "00"

def params (destinationIp : String) : Params :=
  (∅ : Params).set "DestinationIp" { kind := .string, inner := some (.str destinationIp) }

def metadata (masterEnable : Bool) : StateObject where
  masterEnable  := some (some masterEnable)
  senderId      := none
  receiverId    := some (some none)
  transportFile := none

def call : Call where
  resourceId   := "00000000-0000-4000-8000-000000000001"
  masterEnable := true
  isSender     := true
  hasSdp       := true
  resolver     := some resolveUdpSender
  now          := ⟨1, 0⟩

def start : State String Unit where
  node := {
    legs := [{ enable := true, address := some "192.168.10.20" }], serialNumber := "SNX00001",
    senders := ∅, receivers := ∅, sdp := ∅, exclusiveSession := false, privacyEnabled := false,
    side := ()
  }
  activation := {
    senderIndex := 0, receiverIndex := 0,
    slots := [{ staged := params "239.1.1.2", active := params "239.1.1.1" }],
    objects := fun r => metadata (r = 0), stagedState := some 0, activeState := some 1, xcl := []
  }

end Deleted
end Connection
