import NmosReference.Ccf.Range
import NmosReference.Library.Dict

-- Sets of capabilities and of constraints, and what they leave of one another.
namespace Ccf

structure Capability (F : Type) where
  name     : String
  value    : RangeValue F
  original : Bool := false

structure Constraint (F : Type) where
  name     : String
  value    : RangeValue F
  original : Bool := false

theorem Capability.named_empty {F : Type} : ∀ p ∈ (∅ : Dict String (Capability F)).items, p.2.name = p.1 :=
  fun _ h => absurd h List.not_mem_nil

theorem Constraint.named_empty {F : Type} : ∀ p ∈ (∅ : Dict String (Constraint F)).items, p.2.name = p.1 :=
  fun _ h => absurd h List.not_mem_nil

-- Capabilities by their names.
structure CapSet (F : Type) where
  caps                     : Dict String (Capability F)
  named                    : ∀ p ∈ caps.items, p.2.name = p.1
  preference               : Int
  label                    : String
  format                   : Option String
  layer                    : Option Int
  layerCompatibilityGroups : Option (List Int)

structure ConSet (F : Type) where
  cons                     : Dict String (Constraint F)
  named                    : ∀ p ∈ cons.items, p.2.name = p.1
  preference               : Int
  label                    : String
  format                   : Option String
  layer                    : Option Int
  layerCompatibilityGroups : Option (List Int)

structure Caps (F : Type) where
  capsets  : List (CapSet F)
  filtered : Bool := false

inductive CapsError (F : Type)
  | enumEmpty
  | nameMismatch (x y : String)
  | notIntersecting (name : String)
  | notExpanding (name : String)
  | noSuitable
  | noResults
  | range (e : RangeError F)

variable {F : Type}

-- What `except ValueError` catches.
def CapsError.isValueError : CapsError F → Bool
  | range (.foreign _ _) => false
  | _                    => true

def fromRange {α : Type} (m : Except (RangeError F) α) : Except (CapsError F) α :=
  m.mapError .range

namespace CapSet

variable [Interpreter F]

-- A name that is not there is unconstrained.
def get (x : CapSet F) (name : String) : Capability F :=
  (x.caps.get? name).getD { name, value := RangeValue.cleared true false .untyped }

def set (x : CapSet F) (cap : Capability F) : CapSet F where
  caps                     := x.caps.set cap.name cap
  named                    := by
    rintro ⟨k, c⟩ h
    obtain ⟨rfl, rfl⟩ | ⟨-, h⟩ := Dict.mem_set_items.mp h
    · rfl
    · exact x.named _ h
  preference               := x.preference
  label                    := x.label
  format                   := x.format
  layer                    := x.layer
  layerCompatibilityGroups := x.layerCompatibilityGroups

-- `check_part_valid` makes an exception and does not raise it.
def isSamePart (x y : CapSet F) : Bool :=
  x.format = y.format ∧ x.layer = y.layer

def isPartOf (x : CapSet F) (y : ConSet F) : Bool :=
  x.format = y.format ∧ x.layer = y.layer

end CapSet

section Inclusion

variable [Interpreter F]

-- `{x} <- y`
def namespaceInherit : List String → List (Capability F) → Except (CapsError F) (List String)
  | names, []          => .ok names
  | names, cap :: caps =>
    if cap.value.hasEnumException then .error .enumEmpty
    else namespaceInherit (if cap.name ∈ names then names else names ++ [cap.name]) caps

def capIncludedInCap (x y : Capability F) (finite : Bool := false) : Except (CapsError F) Bool :=
  if x.value.hasEnumException then .error .enumEmpty
  else if y.value.hasEnumException then .error .enumEmpty
  else if x.name ≠ y.name then .ok false
  else fromRange <| y.value.includesRange x.value finite

def namesIncluded (x y : CapSet F) (finite : Bool) : List String → Except (CapsError F) Bool
  | []            => .ok true
  | name :: names => do
    if ← capIncludedInCap (x.get name) (y.get name) finite then namesIncluded x y finite names
    else .ok false

def capsetIncludedInCapset (x y : CapSet F) (finite : Bool := false) : Except (CapsError F) Bool :=
  if !x.isSamePart y then .ok false
  else do
    let names ← namespaceInherit x.caps.keys y.caps.values
    namesIncluded x y finite (Interpreter.order F names)

end Inclusion

section Adjustment

variable [Interpreter F]

def NATIVE : Int := 100

-- Some alternative of the same part contains the native set.
def covered (native : CapSet F) : List (CapSet F) → Except (CapsError F) Bool
  | []          => .ok false
  | alt :: alts =>
    if alt.preference = NATIVE ∨ !alt.isSamePart native then covered native alts
    else do
      if ← capsetIncludedInCapset native alt then .ok true
      else covered native alts

def nativesCovered (capsets : List (CapSet F)) : List (CapSet F) → Except (CapsError F) Bool
  | []              => .ok true
  | native :: rest  =>
    if native.preference ≠ NATIVE then nativesCovered capsets rest
    else do
      if ← covered native capsets then nativesCovered capsets rest
      else .ok false

def areNativeInPyramid (caps : Caps F) : Except (CapsError F) Bool :=
  nativesCovered caps.capsets caps.capsets

def capConstrictAdjustByCon (xCap : Capability F) (yCon : Constraint F) : Except (CapsError F) (Capability F) :=
  if xCap.value.hasEnumException then .error .enumEmpty
  else if yCon.value.hasEnumException then .error .enumEmpty
  else if xCap.name ≠ yCon.name then .error <| .nameMismatch xCap.name yCon.name
  else do
    let value ← fromRange <| RangeValue.make <| xCap.value.args xCap.value.type
    if yCon.value.infinite then .ok { xCap with value }
    else
      let value ← fromRange <| value.intersection yCon.value
      if value.empty then .error <| .notIntersecting yCon.name
      else .ok { xCap with value }

def capsetConstrictAdjustByCon (xCapset : CapSet F) (yCon : Constraint F) : Except (CapsError F) (CapSet F) :=
  if yCon.value.hasEnumException then .error .enumEmpty
  else do
    let cap ← capConstrictAdjustByCon (xCapset.get yCon.name) yCon
    .ok <| xCapset.set cap

def constrictByAll (xCapset : CapSet F) : List (Constraint F) → Except (CapsError F) (CapSet F)
  | []          => .ok xCapset
  | con :: cons => do
    let xCapset ← capsetConstrictAdjustByCon xCapset con
    constrictByAll xCapset cons

def capsetConstrictAdjustByConset (xCapset : CapSet F) (yConset : ConSet F) : Except (CapsError F) (CapSet F) :=
  if !xCapset.isPartOf yConset then .ok xCapset
  else do
    let rCapset ← constrictByAll xCapset yConset.cons.values
    .ok { rCapset with preference := yConset.preference }

-- A native set takes part only if the constraints are native, or if it may be all there is.
def adjustFirst (pyramid : Bool) (yConset : ConSet F) : List (CapSet F) → Except (CapsError F) (Option (CapSet F))
  | []                => .ok none
  | capset :: capsets =>
    if !capset.isPartOf yConset then adjustFirst pyramid yConset capsets
    else if pyramid ∧ yConset.preference ≠ NATIVE ∧ capset.preference = NATIVE then
      adjustFirst pyramid yConset capsets
    else
      match capsetConstrictAdjustByConset capset yConset with
      | .ok rCapset => .ok rCapset
      | .error e    => if e.isValueError then adjustFirst pyramid yConset capsets else .error e

def capsConstrictAdjustByConset (xCaps : Caps F) (yConset : ConSet F) : Except (CapsError F) (CapSet F) := do
  let pyramid ← areNativeInPyramid xCaps
  match ← adjustFirst pyramid yConset xCaps.capsets with
  | some rCapset => .ok rCapset
  | none         => .error .noSuitable

end Adjustment

end Ccf
