import NmosReference.Ccf.CapsJson
import NmosReference.Ccf.Operators

-- The senders that a receiver may be offered, and the capabilities that are negotiable with it.
namespace Compat

open Ccf

variable {F : Type} [Interpreter F]

-- A sender or a receiver, with what its capabilities declare.
structure Resource (F : Type) where
  constraintSets : Option (List (ConstraintSet F))

def universal : Caps F where
  capsets :=
    [{ caps                     := ∅
       named                    := Capability.named_empty
       preference               := 0
       label                    := "*"
       format                   := none
       layer                    := none
       layerCompatibilityGroups := none }]

def resourceCcfCaps (resource : Resource F) : Option (Caps F) :=
  match resource.constraintSets with
  | none                => some universal
  | some constraintSets => (convertCapsJsonToCaps constraintSets).toOption

def intersectConstraintsWithCaps (senderCaps receiverConstraints : Caps F) : Except (CapsError F) (Option (Caps F)) := do
  let senderCaps := senderCaps.get
  let cons ← receiverConstraints.toCons
  .ok (capsConstrictAdjustByCons senderCaps cons).toOption

inductive Overlap (F : Type)
  | unknown
  | caps (result : Caps F)

def intersectCaps (senderCaps receiverCaps : Option (Caps F)) : Option (Overlap F) :=
  match senderCaps, receiverCaps with
  | some senderCaps, some receiverCaps =>
    match intersectConstraintsWithCaps senderCaps receiverCaps with
    | .ok result => result.map .caps
    | .error _   => none
  | _,               _                 => some .unknown

def isCompatible (senderCaps receiverCaps : Option (Caps F)) : Bool :=
  (intersectCaps senderCaps receiverCaps).isSome

def relabel (label : String) (cs : CapSet F) : CapSet F :=
  { cs with label }

def narrowBy (senderCaps : Caps F) (yConset : ConSet F) : Option (CapSet F) :=
  (capsConstrictAdjustByConset senderCaps yConset).toOption.map (relabel yConset.label)

def filterSenderCsByReceiver (sender receiver : Resource F) : Except (CapsError F) (Resource F) :=
  match resourceCcfCaps receiver, resourceCcfCaps sender with
  | some rCaps, some senderCapsFull =>
    if receiver.constraintSets.isNone then .ok sender
    else do
      let senderCaps := senderCapsFull.get
      let receiverCons ← rCaps.toCons
      let narrowed := receiverCons.consets.filterMap (narrowBy senderCaps)
      -- a multiplexed stream needs its trunk
      let narrowed := if narrowed ≠ [] ∧ !narrowed.any isTrunk then [] else narrowed
      .ok { constraintSets := some <| convertCapsCapsToJson { capsets := narrowed } }
  | _,          _                   => .ok sender

end Compat
