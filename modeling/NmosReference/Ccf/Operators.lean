import NmosReference.Ccf.Normalize

-- The constriction of all capabilities by all constraints.
namespace Ccf

variable {F : Type} [Interpreter F]

def ConSet.set (y : ConSet F) (con : Constraint F) : ConSet F where
  cons                     := y.cons.set con.name con
  named                    := by
    rintro ⟨k, c⟩ h
    obtain ⟨rfl, rfl⟩ | ⟨-, h⟩ := Dict.mem_set_items.mp h
    · rfl
    · exact y.named _ h
  preference               := y.preference
  label                    := y.label
  format                   := y.format
  layer                    := y.layer
  layerCompatibilityGroups := y.layerCompatibilityGroups

def copyCapabilities : List (Capability F) → ConSet F → Except (CapsError F) (ConSet F)
  | [],          conset => .ok conset
  | cap :: caps, conset => do
    let value ← fromRange <| RangeValue.make <| cap.value.args cap.value.type
    copyCapabilities caps <| conset.set { name := cap.name, value, original := cap.original }

def CapSet.toConset (capset : CapSet F) : Except (CapsError F) (ConSet F) :=
  copyCapabilities capset.caps.values
    { cons                     := ∅
      named                    := Constraint.named_empty
      preference               := capset.preference
      label                    := capset.label
      format                   := capset.format
      layer                    := capset.layer
      layerCompatibilityGroups := capset.layerCompatibilityGroups }

def toConsets : List (CapSet F) → Except (CapsError F) (List (ConSet F))
  | []                => .ok []
  | capset :: capsets => do
    let conset ← capset.toConset
    let consets ← toConsets capsets
    .ok (conset :: consets)

def Caps.toCons (caps : Caps F) : Except (CapsError F) (Cons F) := do
  let consets ← toConsets caps.capsets
  .ok { consets, filtered := caps.filtered }

-- `get` without a filter. The sort is stable.
def Caps.get (caps : Caps F) : Caps F where
  capsets  := caps.capsets.mergeSort fun c d => decide (d.preference ≤ c.preference)
  filtered := true

-- What matches none of the capabilities is left out.
def byEach (constrict : ConSet F → Except (CapsError F) (CapSet F)) :
    List (ConSet F) → Except (CapsError F) (List (CapSet F))
  | []                => .ok []
  | conset :: consets =>
    match constrict conset with
    | .ok rCapset => do
      let rCaps ← byEach constrict consets
      .ok (rCapset :: rCaps)
    | .error e    => if e.isValueError then byEach constrict consets else .error e

def bySets (constrict : ConSet F → Except (CapsError F) (CapSet F)) (yCons : Cons F) :
    Except (CapsError F) (Caps F) := do
  let rCaps ← byEach constrict yCons.consets
  if rCaps = [] then .error .noResults else .ok { capsets := rCaps }

def capsConstrictAdjustByCons (xCaps : Caps F) (yCons : Cons F) : Except (CapsError F) (Caps F) :=
  bySets (capsConstrictAdjustByConset xCaps) yCons

section Constriction

def conIncludedInCap (xCon : Constraint F) (yCap : Capability F) (finite : Bool := false) :
    Except (CapsError F) Bool :=
  if xCon.value.hasEnumException then .error .enumEmpty
  else if yCap.value.hasEnumException then .error .enumEmpty
  else if xCon.name ≠ yCap.name then .ok false
  else if xCon.value.infinite then .ok true
  else fromRange <| yCap.value.includesRange xCon.value finite

def consIncluded (yCapset : CapSet F) (finite : Bool) : List (Constraint F) → Except (CapsError F) Bool
  | []          => .ok true
  | con :: cons =>
    if con.value.infinite then consIncluded yCapset finite cons
    else do
      if ← conIncludedInCap con (yCapset.get con.name) finite then consIncluded yCapset finite cons
      else .ok false

def consetIncludedInCapset (xConset : ConSet F) (yCapset : CapSet F) (finite : Bool := false) :
    Except (CapsError F) Bool :=
  if !yCapset.isPartOf xConset then .ok false else consIncluded yCapset finite xConset.cons.values

def capConstrictByCon (xCap : Capability F) (yCon : Constraint F) : Except (CapsError F) (Capability F) :=
  if xCap.value.hasEnumException then .error .enumEmpty
  else if yCon.value.hasEnumException then .error .enumEmpty
  else if xCap.name ≠ yCon.name then .error <| .nameMismatch xCap.name yCon.name
  else do
    let value ← fromRange <| RangeValue.make <| xCap.value.args xCap.value.type
    if yCon.value.infinite then .ok { xCap with value }
    else if ← fromRange <| value.includesRange yCon.value then .ok { xCap with value := yCon.value }
    else .error <| .notExpanding yCon.name

def capsetConstrictByCon (xCapset : CapSet F) (yCon : Constraint F) : Except (CapsError F) (CapSet F) :=
  if yCon.value.hasEnumException then .error .enumEmpty
  else do
    let cap ← capConstrictByCon (xCapset.get yCon.name) yCon
    .ok <| xCapset.set cap

def narrowByAll (xCapset : CapSet F) : List (Constraint F) → Except (CapsError F) (CapSet F)
  | []          => .ok xCapset
  | con :: cons => do
    let xCapset ← capsetConstrictByCon xCapset con
    narrowByAll xCapset cons

def capsetConstrictByConset (xCapset : CapSet F) (yConset : ConSet F) : Except (CapsError F) (CapSet F) :=
  if !xCapset.isPartOf yConset then .ok xCapset
  else do
    let rCapset ← narrowByAll xCapset yConset.cons.values
    .ok { rCapset with preference := yConset.preference }

def constrictFirst (yConset : ConSet F) : List (CapSet F) → Except (CapsError F) (CapSet F)
  | []                => .error .noSuitable
  | capset :: capsets =>
    if !capset.isPartOf yConset then constrictFirst yConset capsets
    else do
      if ← consetIncludedInCapset yConset capset then capsetConstrictByConset capset yConset
      else constrictFirst yConset capsets

def capsConstrictByConset (xCaps : Caps F) (yConset : ConSet F) : Except (CapsError F) (CapSet F) :=
  constrictFirst yConset xCaps.capsets

def capsConstrictByCons (xCaps : Caps F) (yCons : Cons F) : Except (CapsError F) (Caps F) :=
  bySets (capsConstrictByConset xCaps) yCons

end Constriction

end Ccf
