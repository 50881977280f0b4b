import NmosReference.Library.Dict
import NmosReference.Library.Handler
import NmosReference.Library.Text
import NmosReference.Registry.Types
import Mathlib

namespace Connection

inductive ErrorKind
  | invalidData | invalidType | notAvailable | notFound | unexpectedError
  | attributeError | typeError | valueError | overflowError
  deriving DecidableEq, Repr

structure Error where
  kind : ErrorKind
  text : String
  deriving DecidableEq, Repr

-- What a transport parameter can hold. Arrays and objects are kept by their text, and a float that is
-- not finite has no value.
inductive Value
  | null
  | bool (b : Bool)
  | int (i : Int)
  | float (q : Option Rat)
  | str (s : String)
  | enum (name : String)
  | list (text : String)
  | dict (text : String)
  deriving DecidableEq

def Value.typeName : Value → String
  | null    => "NoneType"
  | bool _  => "bool"
  | int _   => "int"
  | float _ => "float"
  | str _   => "str"
  | enum _  => "EnumId"
  | list _  => "list"
  | dict _  => "dict"

def auto : Value :=
  .str "auto"

-- The wrapper types of the transport parameters, by what their setters accept.
inductive Kind
  | string | int | bool | enum | null | nullString
  deriving DecidableEq

def Kind.accepts : Kind → Value → Bool
  | string,     .str _  => true
  | int,        .int _  => true
  | bool,       .bool _ => true
  | enum,       .enum _ => true
  | null,       .enum _ => false
  | null,       _       => true
  | nullString, .str _  => true
  | nullString, .null   => true
  | _,          _       => false

def Kind.refusal (k : Kind) (v : Value) : Error :=
  match k with
  | string     => ⟨.invalidType, s!"NString.value requires str, got {v.typeName}"⟩
  | int        => ⟨.invalidType, s!"NInt.value requires int, got {v.typeName}"⟩
  | bool       => ⟨.invalidType, s!"NBool.value requires bool, got {v.typeName}"⟩
  | enum       => ⟨.invalidType, s!"NEnum.value requires EnumId, got {v.typeName}"⟩
  | null       => ⟨.invalidData, s!"NNull cannot hold {v.typeName}"⟩
  | nullString => ⟨.invalidType, s!"NNullString.value requires str or None, got {v.typeName}"⟩

structure Field where
  kind  : Kind
  -- Nothing when the field is undefined.
  inner : Option Value
  deriving DecidableEq

-- The transport parameters of one leg, with the attributes of their class for keys, in the order of
-- its `__slots__`.
abbrev Params :=
  Dict String Field

namespace Params

-- The value of an attribute that exists and is defined.
def defined? (p : Params) (name : String) : Option Value :=
  (p.get? name).bind (·.inner)

def getattr (name : String) : Handler Params Error Field := do
  match (← get).get? name with
  | some field => pure field
  | none       => throw ⟨.attributeError, s!"object has no attribute '{name}'"⟩

def value (name : String) : Handler Params Error Value := do
  match (← getattr name).inner with
  | some v => pure v
  | none   => throw ⟨.notAvailable, "undefined value"⟩

def assign (name : String) (v : Value) : Handler Params Error Unit := do
  let field ← getattr name
  if field.kind.accepts v then
    modify (·.set name { field with inner := some v })
  else
    throw (field.kind.refusal v)

def resolveAutoField (name : String) (resolved : Value) : Handler Params Error Unit := do
  if (← get).defined? name = some auto then
    assign name resolved

def resolveAutoNullField (name : String) (resolved : Value) : Handler Params Error Unit :=
  resolveAutoField name resolved

end Params

-- The characters `strip` removes.
def isSpace (c : Char) : Bool :=
  let n := c.toNat
  9 ≤ n && n ≤ 13 || 28 ≤ n && n ≤ 32 || n == 0x85 || n == 0xa0 || n == 0x1680 ||
    0x2000 ≤ n && n ≤ 0x200a || n == 0x2028 || n == 0x2029 || n == 0x202f || n == 0x205f || n == 0x3000

def strip (cs : List Char) : List Char :=
  ((cs.dropWhile isSpace).reverse.dropWhile isSpace).reverse

-- `int` on a text: spaces around it, a sign, and underscores between digits.
def parseInt (text : String) : Option Int :=
  let digits (cs : List Char) : Option Int :=
    let groups := cs.splitOn '_'
    if groups.any (·.isEmpty) then none else (Text.decimal groups.flatten).map Int.ofNat
  match strip text.toList with
  | '-' :: cs => (digits cs).map (- ·)
  | '+' :: cs => digits cs
  | cs        => digits cs

example : parseInt " -5_004 " = some (-5004) ∧ parseInt "5__4" = none := by decide

-- `int(value)`.
def toInt [Python] : Value → Except Error Int
  | .bool b         => .ok b.toNat
  | .int i          => .ok i
  | .float (some q) => .ok (if 0 ≤ q then ⌊q⌋ else ⌈q⌉)
  | .float none     => .error ⟨.overflowError, "cannot convert float infinity to integer"⟩
  | .str s          =>
    match parseInt s with
    | some i => .ok i
    | none   =>
      .error ⟨.valueError, s!"invalid literal for int() with base 10: {Python.repr s}"⟩
  | v               => .error ⟨.typeError, "int() argument must be a string, a bytes-like object " ++
      s!"or a real number, not '{v.typeName}'"⟩

structure Leg where
  enable  : Bool
  -- The text of the IPv4 address, when there is one.
  address : Option String

def MAX_STREAM_INDEX       : Nat := 126
def AUTO_PORT_BASE         : Nat := 22000
def NODE_PORT_BLOCK        : Nat := 256
def SLOT_PORTS             : Nat := 2
def NODE_PORT_BLOCKS       : Nat := 100
def MAX_SERIAL_PORT_INDEX  : Nat := NODE_PORT_BLOCKS - 1
def SERIAL_PORT_DIGITS     : Nat := 2

def serialPortIndex [Python] (serialNumber : String) : Except Error Nat :=
  let serial := strip serialNumber.toList
  let repr (cs : List Char) := Python.repr (String.ofList cs)
  match serial.getLast? with
  | none      => .ok 0
  | some last =>
    if !last.isDigit then
      .error ⟨.invalidData, s!"serial number {repr serial} must end in a digit 0-9: its last " ++
        s!"{SERIAL_PORT_DIGITS} digits select the Node's destination-port " ++
        s!"block, and {repr [last]} is not a digit"⟩
    else
      let tail := ((serial.reverse.take SERIAL_PORT_DIGITS).takeWhile Char.isDigit).reverse
      let index := (Text.decimal tail).getD 0
      if index > MAX_SERIAL_PORT_INDEX then
        .error ⟨.invalidData, s!"serial number {repr serial} selects block {index}, above the " ++
          s!"maximum {MAX_SERIAL_PORT_INDEX}"⟩
      else
        .ok index

-- A serial with no digit at its end falls back to the first block.
def nodePortOffset [Python] (serialNumber : String) : Nat :=
  match serialPortIndex serialNumber with
  | .ok index => index * NODE_PORT_BLOCK
  | .error _  => 0

def senderSlotOffset (index : Nat) : Nat :=
  SLOT_PORTS * min index MAX_STREAM_INDEX

def receiverSlotOffset (index : Nat) : Nat :=
  NODE_PORT_BLOCK - SLOT_PORTS - SLOT_PORTS * min index MAX_STREAM_INDEX

-- What a resolver is given beside the active parameters of its leg.
structure Resolving where
  senderIndex   : Nat
  receiverIndex : Nat
  leg           : Leg
  serialNumber  : String

abbrev Resolver :=
  Resolving → Handler Params Error Unit

def getUnusedMulticastAddressIpv4 (senderIndex : Nat) (leg : Leg) : String :=
  let address := leg.address.getD "0.0.0.0"
  let (c, d) : Int × Int :=
    match (address.toList.splitOn '.').mapM (parseInt <| String.ofList ·) with
    | some [_, _, c, d] => (c, d)
    | _                 => (0, 0)
  s!"239.{min senderIndex MAX_STREAM_INDEX + 1}.{c}.{d}"

example : getUnusedMulticastAddressIpv4 3 { enable := true, address := some "192.168.10.20" } =
    "239.4.10.20" := by
  decide +kernel

def senderPort [Python] (r : Resolving) : Nat :=
  AUTO_PORT_BASE + nodePortOffset r.serialNumber + senderSlotOffset r.senderIndex

def receiverPort [Python] (r : Resolving) : Nat :=
  AUTO_PORT_BASE + nodePortOffset r.serialNumber + receiverSlotOffset r.receiverIndex

open Params in
def resolveRtpSender [Python] : Resolver := fun r => do
  resolveAutoField "DestinationIp" (.str (getUnusedMulticastAddressIpv4 r.senderIndex r.leg))
  resolveAutoNullField "DestinationPort" (.int (senderPort r))
  resolveAutoField "RtcpDestinationIp" (← value "DestinationIp")
  let dp ← value "DestinationPort"
  if dp ≠ .null ∧ dp ≠ auto then
    resolveAutoNullField "RtcpDestinationPort" (.int ((← .ofExcept (toInt dp)) + 1))
  else
    resolveAutoNullField "RtcpDestinationPort" (.int (senderPort r + 1))

open Params in
def resolveRtpReceiver [Python] : Resolver := fun r => do
  resolveAutoNullField "DestinationPort" (.int (receiverPort r))
  if (← get).defined? "RtcpDestinationIp" = some auto then
    let active ← get
    let interfaceIp := (active.defined? "InterfaceIp").getD (.str "0.0.0.0")
    -- A multicast address, unless it is null, is preferred to the interface.
    match active.defined? "MulticastIp" with
    | none | some .null => assign "RtcpDestinationIp" interfaceIp
    | some multicastIp  => assign "RtcpDestinationIp" multicastIp
  if (← get).defined? "RtcpDestinationPort" = some auto then
    match (← get).defined? "DestinationPort" with
    | none | some .null => assign "RtcpDestinationPort" (.int (receiverPort r + 1))
    | some dp           =>
      if dp = auto then
        assign "RtcpDestinationPort" (.int (receiverPort r + 1))
      else
        assign "RtcpDestinationPort" (.int ((← .ofExcept (toInt dp)) + 1))

open Params in
def resolveUdpSender [Python] : Resolver := fun r => do
  resolveAutoField "DestinationIp" (.str (getUnusedMulticastAddressIpv4 r.senderIndex r.leg))
  resolveAutoNullField "DestinationPort" (.int (senderPort r))

open Params in
def resolveUdpReceiver [Python] : Resolver := fun r =>
  resolveAutoNullField "DestinationPort" (.int (receiverPort r))

def listener   : Value := .enum "listener"
def rendezVous : Value := .enum "rendezvous"

-- The two SRT resolvers are each other's mirror image: one end of the connection is dropped by a
-- listener, and takes the port of the other end in a rendez-vous.
open Params in
def resolveSrt (ip port otherPort : String) : Resolver := fun _ => do
  let protocol := (← get).defined? "Protocol"
  if (← get).defined? ip = some auto then
    if protocol = some listener then
      assign ip .null
  if (← get).defined? port = some auto then
    if protocol = some listener then
      assign port .null
    else if protocol = some rendezVous then
      match (← get).defined? otherPort with
      | some v => assign port v
      | none   => pure ()

def resolveSrtSender : Resolver :=
  resolveSrt "DestinationIp" "DestinationPort" "SourcePort"

def resolveSrtReceiver : Resolver :=
  resolveSrt "SourceIp" "SourcePort" "DestinationPort"

def resolveNoop : Resolver :=
  fun _ => pure ()

-- The parameters of one leg. Every activation has as many staged as active legs.
structure Slot where
  staged : Params
  active : Params

-- These keep their active value when `auto` is staged.
def STATIC_FIELDS : List String :=
  ["SourceIp", "SourcePort", "RtcpSourcePort", "InterfaceIp"]

def flipField (staged : Params) (name : String) : Handler Params Error Unit := do
  match staged.defined? name, (← get).get? name with
  | some v, some _ => if name ∈ STATIC_FIELDS ∧ v = auto then pure () else Params.assign name v
  | _,      _      => pure ()

def onActive (m : Handler Params Error Unit) : Handler Slot Error Unit :=
  m.on (·.active) fun slot active => { slot with active }

def flipLeg (resolver : Option Resolver) (r : Resolving) : Handler Slot Error Unit := do
  let staged := (← get).staged
  onActive (staged.keys.forM (flipField staged))
  if r.leg.enable then
    match resolver with
    | some resolve => onActive (resolve r)
    | none         => pure ()

def flipActivation (resolver : Option Resolver) (legs : List Leg) (senderIndex receiverIndex : Nat)
    (serialNumber : String) : Handler (List Slot) Error Unit :=
  .each (fun leg => flipLeg resolver { senderIndex, receiverIndex, leg, serialNumber }) legs

end Connection
