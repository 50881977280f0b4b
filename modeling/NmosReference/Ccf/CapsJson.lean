import NmosReference.Ccf.Sets
import NmosReference.Ccf.RangeKinds

-- Capabilities as JSON has them.
namespace Ccf

def capabilityTypeMap : List (String × RangeType) :=
  [ ("urn:x-nmos:cap:format:media_type",                       .string),
    ("urn:x-nmos:cap:format:event_type",                       .string),
    ("urn:x-nmos:cap:format:grain_rate",                       .rational),
    ("urn:x-nmos:cap:format:frame_width",                      .int),
    ("urn:x-nmos:cap:format:frame_height",                     .int),
    ("urn:x-nmos:cap:format:interlace_mode",                   .string),
    ("urn:x-nmos:cap:format:colorspace",                       .string),
    ("urn:x-nmos:cap:format:transfer_characteristic",          .string),
    ("urn:x-nmos:cap:format:color_sampling",                   .string),
    ("urn:x-nmos:cap:format:component_depth",                  .int),
    ("urn:x-nmos:cap:format:channel_count",                    .int),
    ("urn:x-nmos:cap:format:sample_rate",                      .rational),
    ("urn:x-nmos:cap:format:sample_depth",                     .int),
    ("urn:x-nmos:cap:format:bit_rate",                         .int),
    ("urn:x-nmos:cap:format:profile",                          .string),
    ("urn:x-nmos:cap:format:level",                            .string),
    ("urn:x-nmos:cap:format:sublevel",                         .string),
    ("urn:x-nmos:cap:format:fbblevel",                         .string),
    ("urn:x-nmos:cap:format:constant_bit_rate",                .bool),
    ("urn:x-matrox:cap:format:video_layers",                   .int),
    ("urn:x-matrox:cap:format:audio_layers",                   .int),
    ("urn:x-matrox:cap:format:data_layers",                    .int),
    ("urn:x-nmos:cap:transport:bit_rate",                      .int),
    ("urn:x-nmos:cap:transport:packet_time",                   .float),
    ("urn:x-nmos:cap:transport:max_packet_time",               .float),
    ("urn:x-nmos:cap:transport:st2110_21_sender_type",         .string),
    ("urn:x-nmos:cap:transport:packet_transmission_mode",      .string),
    ("urn:x-nmos:cap:transport:parameter_sets_flow_mode",      .string),
    ("urn:x-nmos:cap:transport:parameter_sets_transport_mode", .string),
    ("urn:x-matrox:cap:transport:channel_order",               .string),
    ("urn:x-nmos:cap:transport:hkep",                          .bool),
    ("urn:x-nmos:cap:transport:privacy",                       .bool),
    ("urn:x-matrox:cap:transport:clock_ref_type",              .string),
    ("urn:x-matrox:cap:transport:info_block",                  .int),
    ("urn:x-matrox:cap:transport:synchronous_media",           .bool),
    ("urn:x-nmos:cap:transport:usb_class",                     .int) ]

def rangeType (capName : String) : RangeType :=
  (capabilityTypeMap.lookup capName).getD .untyped

-- A scalar, or an object that may be a rational number. What is missing from an object is `null`. A list is no value of a
-- range, though the reader does not look at a bound whose name has no type.
inductive Item (F : Type)
  | scalar (v : Val F)
  | object (numerator denominator : Val F)

inductive CapJson (F : Type)
  | keywords (minimum maximum : Item F) (enum : Option (List (Item F)))
  | rational (numerator denominator : Val F)
  | list (items : List (Item F))
  | scalar (v : Val F)

structure ConstraintSet (F : Type) where
  label                    : Option String
  preference               : Option Int
  format                   : Option String
  layer                    : Option Int
  layerCompatibilityGroups : Option (List Int)
  -- All other keys.
  entries                  : Dict String (CapJson F)

def isMeta (key : String) : Bool :=
  key.startsWith "urn:x-nmos:cap:meta:" || key.startsWith "urn:x-matrox:cap:meta:"

inductive ConversionError (F : Type)
  | denominatorZero (numerator : Int)
  | withoutNumerator (context : String)
  | range (e : RangeError F)
  | capability (capName label : String) (e : ConversionError F)

variable {F : Type}

def ConversionError.isValueError : ConversionError F → Bool
  | range (.foreign _ _) => false
  | _                    => true

section FromJson

variable [Interpreter F]

def parseItem (context : String) : Item F → Except (ConversionError F) (Val F)
  | .scalar v                     => .ok v
  | .object numerator denominator =>
    -- a denominator of `null` is one that is not provided
    let denominator := if denominator = .none then .int 1 else denominator
    match numerator.integer?, denominator.integer? with
    | some n, some d => if d = 0 then .error <| .denominatorZero n else .ok <| .rational <| n / d
    | _,      _      => .error <| .withoutNumerator context

def parseItems (context : String) : List (Item F) → Except (ConversionError F) (List (Val F))
  | []            => .ok []
  | item :: items => do
    let v ← parseItem context item
    let vs ← parseItems context items
    .ok (v :: vs)

def makeRange (args : RangeArgs F) : Except (ConversionError F) (RangeValue F) :=
  (RangeValue.make args).mapError .range

def parseRangeValue (minimum maximum : Item F) (enum : Option (List (Item F))) (type : RangeType) :
    Except (ConversionError F) (RangeValue F) := do
  let min ← parseItem "minimum constraint" minimum
  let max ← parseItem "maximum constraint" maximum
  let enumerated ← parseItems "enumerated dict" (enum.getD [])
  makeRange
    { infinite := min = .none ∧ max = .none ∧ enum.isNone
      type
      min      := some min
      max      := some max
      values   := if enumerated = [] then none else some enumerated }

-- A `ValueError` is raised again with the name of the capability.
def named {α : Type} (capName label : String) (m : Except (ConversionError F) α) : Except (ConversionError F) α :=
  m.mapError fun e => if e.isValueError then .capability capName label e else e

def parseCapability (capName label : String) : CapJson F → Except (ConversionError F) (RangeValue F)
  | .keywords minimum maximum enum  => named capName label <| parseRangeValue minimum maximum enum (rangeType capName)
  | .rational numerator denominator => named capName label do
    let v ← parseItem "rational value" (.object numerator denominator)
    makeRange { type := rangeType capName, values := some [v] }
  | .list items                     => do
    let elements ← named capName label <| parseItems "enumerated dict" items
    makeRange { type := rangeType capName, values := some elements }
  | .scalar v                       => makeRange { type := rangeType capName, values := some [v] }

def parseEntries (label : String) : List (String × CapJson F) → CapSet F → Except (ConversionError F) (CapSet F)
  | [],                     capset => .ok capset
  | (capName, c) :: entries, capset => do
    let value ← parseCapability capName label c
    parseEntries label entries (capset.set { name := capName, value })

def convertConstraintSet (csIndex : Nat) (cs : ConstraintSet F) : Except (ConversionError F) (CapSet F) :=
  let label := cs.label.getD s!"Unnamed CapSet {csIndex}"
  parseEntries label (cs.entries.items.filter fun e => !isMeta e.1)
    { caps                     := ∅
      named                    := Capability.named_empty
      preference               := cs.preference.getD 0
      label
      format                   := cs.format
      layer                    := cs.layer
      layerCompatibilityGroups := cs.layerCompatibilityGroups }

def convertConstraintSets (csIndex : Nat) : List (ConstraintSet F) → Except (ConversionError F) (List (CapSet F))
  | []                   => .ok []
  | cs :: constraintSets => do
    let capset ← convertConstraintSet csIndex cs
    let capsets ← convertConstraintSets (csIndex + 1) constraintSets
    .ok (capset :: capsets)

def convertCapsJsonToCaps (constraintSets : List (ConstraintSet F)) : Except (ConversionError F) (Caps F) := do
  let capsets ← convertConstraintSets 1 constraintSets
  .ok { capsets }

end FromJson

section ToJson

def valueToJson : Val F → Item F
  | .rational q => .object (.int q.num) (.int q.den)
  | v           => .scalar v

-- What is empty and what is infinite have no keywords alike.
def rangeToJson (rv : RangeValue F) : CapJson F :=
  if rv.infinite then .keywords (.scalar .none) (.scalar .none) none
  else
    .keywords ((rv.min.map valueToJson).getD (.scalar .none)) ((rv.max.map valueToJson).getD (.scalar .none))
      ((rv.values.filter (· ≠ [])).map (List.map valueToJson))

def constraintSetToJson (capset : CapSet F) : ConstraintSet F where
  label                    := some capset.label
  preference               := some capset.preference
  format                   := capset.format
  layer                    := capset.layer
  layerCompatibilityGroups := capset.layerCompatibilityGroups.map (List.mergeSort · (· ≤ ·))
  entries                  := capset.caps.map fun _ cap => rangeToJson cap.value

def convertCapsCapsToJson (caps : Caps F) : List (ConstraintSet F) :=
  caps.capsets.map constraintSetToJson

end ToJson

end Ccf
