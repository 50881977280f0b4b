import NmosReference.Ccf.Sets

-- The hierarchy of a trunk and the layers of each format.
namespace Ccf

structure Cons (F : Type) where
  consets  : List (ConSet F)
  filtered : Bool := false

def FormatAudio : String := "urn:x-nmos:format:audio"
def FormatVideo : String := "urn:x-nmos:format:video"
def FormatData  : String := "urn:x-nmos:format:data"

-- What `normalize` needs of a set of capabilities or of constraints.
class PartSet (S : Type) where
  format : S → Option String
  layer  : S → Option Int
  label  : S → String
  names  : S → List String
  -- Without the entries of the other names.
  keep   : (String → Bool) → S → S
  -- Without entries, and with the preference of a native set.
  made   : (label : String) → (format : Option String) → (layer : Option Int) → S
  format_keep (p : String → Bool) (s : S) : format (keep p s) = format s
  layer_keep (p : String → Bool) (s : S) : layer (keep p s) = layer s
  names_keep (p : String → Bool) (s : S) : names (keep p s) = (names s).filter p
  keep_self (p : String → Bool) (s : S) : (∀ name ∈ names s, p name) → keep p s = s
  format_made (label : String) (f : Option String) (l : Option Int) : format (made label f l) = f
  layer_made (label : String) (f : Option String) (l : Option Int) : layer (made label f l) = l
  names_made (label : String) (f : Option String) (l : Option Int) : names (made label f l) = []

structure NormalizeError where
  label  : String
  format : Option String
  layer  : Option Int
  -- How many layers the format has, in a hierarchy.
  count  : Option Int
deriving DecidableEq

inductive Refusal
  | requiresNonFiltered
  | part (e : NormalizeError)
deriving DecidableEq

-- The numbers of layers. Without any, there is no hierarchy.
structure Layers where
  audio : Option Int
  video : Option Int
  data  : Option Int

structure Namespaces where
  trunk : Option (List String)
  audio : Option (List String)
  video : Option (List String)
  data  : Option (List String)

def Layers.hierarchical (layers : Layers) : Bool :=
  layers.audio.isSome || layers.video.isSome || layers.data.isSome

-- A namespace that is not given holds every name.
def admitted (names : Option (List String)) (name : String) : Bool :=
  names.all (name ∈ ·)

section Normalize

variable {S : Type} [PartSet S]

open PartSet

def isTrunk (s : S) : Bool :=
  format s = none ∧ layer s = none

def isPart (fmt : String) (layerId : Int) (s : S) : Bool :=
  format s = some fmt ∧ layer s = some layerId

def ensureTrunk (sets : List S) : List S :=
  if sets.any isTrunk then sets else sets ++ [made "Trunk" none none]

def ensureLayer (fmt : String) (sets : List S) (layerId : Nat) : List S :=
  if sets.any (isPart fmt layerId) then sets
  else sets ++ [made s!"{fmt}{layerId}" (some fmt) (some layerId)]

-- The layer is not one of those that the format has, but above them.
def above (fmt : String) (count : Int) (s : S) : Bool :=
  format s = some fmt ∧ (layer s).any (count ≤ ·)

def ensureFormatLayers (fmt : String) (count : Int) (sets : List S) : Except Refusal (List S) :=
  if count ≤ 0 then
    .ok <| sets.filter (format · ≠ some fmt)
  else
    let sets := (List.range count.toNat).foldl (ensureLayer fmt) sets
    match sets.find? (above fmt count) with
    | some s => .error <| .part ⟨label s, some fmt, layer s, some count⟩
    | none   => .ok sets

def restrict (namespaces : Namespaces) (s : S) : S :=
  if format s = some FormatAudio then keep (admitted namespaces.audio) s
  else if format s = some FormatVideo then keep (admitted namespaces.video) s
  else if format s = some FormatData then keep (admitted namespaces.data) s
  else s

-- `check_part_valid` makes an exception and does not raise it.
def normalizeSets (layers : Layers) (namespaces : Namespaces) (sets : List S) : Except Refusal (List S) :=
  if !layers.hierarchical then
    match sets.find? fun s => format s ≠ none ∨ layer s ≠ none with
    | some s => .error <| .part ⟨label s, format s, layer s, none⟩
    | none   => .ok <| sets.map <| keep (admitted namespaces.trunk)
  else do
    let sets := ensureTrunk sets
    let sets ← ensureFormatLayers FormatAudio (layers.audio.getD 0) sets
    let sets ← ensureFormatLayers FormatVideo (layers.video.getD 0) sets
    let sets ← ensureFormatLayers FormatData (layers.data.getD 0) sets
    return sets.map (restrict namespaces)

end Normalize

variable {F : Type}

def CapSet.keep (p : String → Bool) (x : CapSet F) : CapSet F where
  caps                     := x.caps.filter p
  named e h                := x.named e (List.mem_of_mem_filter h)
  preference               := x.preference
  label                    := x.label
  format                   := x.format
  layer                    := x.layer
  layerCompatibilityGroups := x.layerCompatibilityGroups

def CapSet.made (label : String) (format : Option String) (layer : Option Int) : CapSet F where
  caps                     := ∅
  named                    := Capability.named_empty
  preference               := NATIVE
  label
  format
  layer
  layerCompatibilityGroups := none

def ConSet.keep (p : String → Bool) (y : ConSet F) : ConSet F where
  cons                     := y.cons.filter p
  named e h                := y.named e (List.mem_of_mem_filter h)
  preference               := y.preference
  label                    := y.label
  format                   := y.format
  layer                    := y.layer
  layerCompatibilityGroups := y.layerCompatibilityGroups

def ConSet.made (label : String) (format : Option String) (layer : Option Int) : ConSet F where
  cons                     := ∅
  named                    := Constraint.named_empty
  preference               := NATIVE
  label
  format
  layer
  layerCompatibilityGroups := none

theorem keys_filter {α : Type} (p : String → Bool) (d : Dict String α) : (d.filter p).keys = d.keys.filter p := by
  simp [Dict.keys, Dict.filter, List.filter_map, Function.comp_def]

theorem filter_self {α : Type} {p : String → Bool} {d : Dict String α} (h : ∀ k ∈ d.keys, p k) : d.filter p = d := by
  refine Dict.ext_items (List.filter_eq_self.mpr fun e he => h e.1 ?_)
  exact List.mem_map_of_mem he

instance : PartSet (CapSet F) where
  format          := CapSet.format
  layer           := CapSet.layer
  label           := CapSet.label
  names x         := x.caps.keys
  keep            := CapSet.keep
  made            := CapSet.made
  format_keep _ _ := rfl
  layer_keep _ _  := rfl
  names_keep p x  := keys_filter p x.caps
  keep_self p x h := by simp [CapSet.keep, filter_self h]
  format_made _ _ _ := rfl
  layer_made _ _ _  := rfl
  names_made _ _ _  := rfl

instance : PartSet (ConSet F) where
  format          := ConSet.format
  layer           := ConSet.layer
  label           := ConSet.label
  names y         := y.cons.keys
  keep            := ConSet.keep
  made            := ConSet.made
  format_keep _ _ := rfl
  layer_keep _ _  := rfl
  names_keep p y  := keys_filter p y.cons
  keep_self p y h := by simp [ConSet.keep, filter_self h]
  format_made _ _ _ := rfl
  layer_made _ _ _  := rfl
  names_made _ _ _  := rfl

def Caps.normalize (caps : Caps F) (layers : Layers) (namespaces : Namespaces) : Except Refusal (Caps F) :=
  if caps.filtered then .error .requiresNonFiltered
  else (normalizeSets layers namespaces caps.capsets).map fun capsets => { capsets }

def Cons.normalize (cons : Cons F) (layers : Layers) (namespaces : Namespaces) : Except Refusal (Cons F) :=
  if cons.filtered then .error .requiresNonFiltered
  else (normalizeSets layers namespaces cons.consets).map fun consets => { consets }

end Ccf
