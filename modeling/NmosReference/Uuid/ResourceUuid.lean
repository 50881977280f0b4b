import NmosReference.Library.BitFields
import NmosReference.Library.Text
import NmosReference.Uuid.Base62

namespace Uuid

open BitFields Text

inductive ResourceType
  | node | device | sender | receiver | flow | source | input | output
  deriving DecidableEq, Repr

namespace ResourceType

def value : ResourceType → Nat
  | node     => 0
  | device   => 1
  | sender   => 2
  | receiver => 3
  | flow     => 4
  | source   => 5
  | input    => 6
  | output   => 7

-- Of the three bits there are.
def ofValue : Nat → ResourceType
  | 0 => node
  | 1 => device
  | 2 => sender
  | 3 => receiver
  | 4 => flow
  | 5 => source
  | 6 => input
  | _ => output

theorem value_lt {t : ResourceType} : t.value < 8 := by
  cases t <;> decide

theorem ofValue_value {t : ResourceType} : ofValue t.value = t := by
  cases t <;> rfl

theorem value_ofValue {n : Nat} (h : n < 8) : (ofValue n).value = n := by
  have hs : ∀ n : Fin 8, (ofValue n.val).value = n.val := by decide
  exact hs ⟨n, h⟩

end ResourceType

inductive ResourceSubType
  | none | usb | senderMonitor | receiverMonitor
  deriving DecidableEq, Repr

namespace ResourceSubType

def value : ResourceSubType → Nat
  | none            => 0
  | usb             => 1
  | senderMonitor   => 2
  | receiverMonitor => 3

-- Of the two bits there are.
def ofValue : Nat → ResourceSubType
  | 0 => none
  | 1 => usb
  | 2 => senderMonitor
  | _ => receiverMonitor

theorem value_lt {t : ResourceSubType} : t.value < 4 := by
  cases t <;> decide

theorem ofValue_value {t : ResourceSubType} : ofValue t.value = t := by
  cases t <;> rfl

theorem value_ofValue {n : Nat} (h : n < 4) : (ofValue n).value = n := by
  have hs : ∀ n : Fin 4, (ofValue n.val).value = n.val := by decide
  exact hs ⟨n, h⟩

end ResourceSubType

structure ResourceUuid where
  uniqueId        : Nat
  resourceType    : ResourceType
  resourceSubType : ResourceSubType
  onDemand        : Bool
  index           : Nat
  serialNumber    : List Char
  deriving DecidableEq, Repr

-- No character of a serial number is below '0'.
def charToClear (c : Char) : Nat :=
  c.toNat - 0x30

def clearToChar (value : Nat) : Char :=
  .ofNat (value + 0x30)

def reverseBytes (uid : Nat) : Nat :=
  (uid &&& 0xFF) <<< 24 ||| (uid &&& 0xFF00) <<< 8 ||| (uid &&& 0xFF0000) >>> 8 ||| uid >>> 24 &&& 0xFF

-- The last two characters go in the clear; what comes before them is encoded.
def encodeSerial [Python] (sn : List Char) : Except UuidError (Nat × Nat × Nat) :=
  match sn.reverse with
  | []                  => .ok (0, 0, 0)
  | [lo]                => .ok (0, 0, charToClear lo)
  | [lo, hi]            => .ok (0, charToClear hi, charToClear lo)
  | lo :: hi :: leading => do .ok (← encode leading.reverse, charToClear hi, charToClear lo)

def decodeSerial (snEncoded hi lo : Nat) : Except UuidError (List Char) :=
  if snEncoded = 0 ∧ hi = 0 ∧ lo = 0 then .ok []
  else if snEncoded = 0 ∧ hi = 0 then .ok [clearToChar lo]
  else if snEncoded = 0 then .ok [clearToChar hi, clearToChar lo]
  else do .ok ((← decode snEncoded) ++ [clearToChar hi, clearToChar lo])

-- Text as hexadecimal digits, and back; a value has at most as many digits as there is room for.

def hex (width value : Nat) : List Char :=
  (split (List.replicate width 4) value).map fun f => f.2.digitChar

def hexValue (c : Char) : Nat :=
  if c ≤ '9' then c.toNat - '0'.toNat else c.toNat - 'a'.toNat + 10

def isHex (c : Char) : Bool :=
  '0' ≤ c && c ≤ '9' || 'a' ≤ c && c ≤ 'f'

def ofHex (s : List Char) : Nat :=
  join 0 (s.map fun c => (4, hexValue c))

def strip (s : List Char) : List Char :=
  ((s.dropWhile isSpace).reverse.dropWhile isSpace).reverse

-- Lower case of ASCII; no other character has a hexadecimal digit or a dash for its lower case.
def lower (s : List Char) : List Char :=
  s.map Char.toLower

-- `_NMOS_UUID_RE`: five groups of digits, the third of which starts with a version and the fourth with a
-- variant.
def isNmosUuid (s : List Char) : Bool :=
  match s.splitOn '-' with
  | [a, b, c, d, e] =>
    a.length = 8 && b.length = 4 && c.length = 4 && d.length = 4 && e.length = 12 &&
    (a ++ b ++ c ++ d ++ e).all isHex &&
    c.head?.any (fun v => '1' ≤ v && v ≤ '5') && d.head?.any (· ∈ ['8', '9', 'a', 'b'])
  | _               => false

namespace ResourceUuid

variable [Python] (r : ResourceUuid)

def set (resourceType : ResourceType) (resourceSubType : ResourceSubType) (index : Int)
    (serialNumber : List Char) (uniqueId : Nat) (onDemand : Bool) : Except UuidError ResourceUuid :=
  if !isValidSerial serialNumber then
    let got := Python.repr (.ofList serialNumber)
    .error (.invalidParameter s!"serial number must be 1-{MAX_SERIAL_LENGTH} alphanumeric chars, got {got}")
  else if ¬(0 ≤ index ∧ index ≤ 255) then
    .error (.invalidParameter s!"index must be 0-255, got {index}")
  else
    .ok { uniqueId := uniqueId &&& 0xFFFFFFFF, resourceType, resourceSubType, onDemand,
          index := index.toNat, serialNumber }

-- Everything below the unique id, from the top.
def fields (snEncoded hi lo : Nat) : List BitFields.Field :=
  [(1, if r.onDemand then 1 else 0), (3, r.resourceType.value &&& 0x7), (8, r.index &&& 0xFF),
    (2, r.resourceSubType.value &&& 0x3), (2, snEncoded >>> 58 &&& 0x3), (4, 0x4),
    (12, snEncoded >>> 46 &&& 0xFFF), (2, 0x2), (14, snEncoded >>> 32 &&& 0x3FFF),
    (32, snEncoded &&& 0xFFFFFFFF), (8, hi &&& 0xFF), (8, lo &&& 0xFF)]

def pack : Except UuidError Nat := do
  let (snEncoded, hi, lo) ← encodeSerial r.serialNumber
  .ok <| join (reverseBytes (r.uniqueId &&& 0xFFFFFFFF)) (r.fields snEncoded hi lo)

-- The serial number's bits of a packed value.
def snEncoded (value : Nat) : Nat :=
  (value >>> 80 &&& 0x3) <<< 58 ||| (value >>> 64 &&& 0xFFF) <<< 46 ||| (value >>> 48 &&& 0x3FFF) <<< 32 |||
    value >>> 16 &&& 0xFFFFFFFF

def unpack (value : Nat) : Except UuidError ResourceUuid := do
  let serialNumber ← decodeSerial (snEncoded value) (value >>> 8 &&& 0xFF) (value &&& 0xFF)
  .ok {
    uniqueId        := reverseBytes (value >>> 96 &&& 0xFFFFFFFF)
    resourceType    := .ofValue (value >>> 92 &&& 0x7)
    resourceSubType := .ofValue (value >>> 82 &&& 0x3)
    onDemand        := value >>> 95 &&& 0x1 ≠ 0
    index           := value >>> 84 &&& 0xFF
    serialNumber }

-- The hexadecimal digits, with dashes between the groups.
def dashed (h : List Char) : List Char :=
  h.take 8 ++ '-' :: (h.drop 8).take 4 ++ '-' :: (h.drop 12).take 4 ++ '-' :: (h.drop 16).take 4 ++
    '-' :: h.drop 20

def str : Except UuidError (List Char) := do
  .ok <| dashed (hex 32 (← r.pack))

def setFromString (s : List Char) : Except UuidError ResourceUuid :=
  let s := lower (strip s)
  if isNmosUuid s then unpack (ofHex (s.filter (· ≠ '-')))
  else .error (.invalidData "invalid NMOS UUID format")

def setUniqueId (uniqueId : Nat) : ResourceUuid :=
  { r with uniqueId := uniqueId &&& 0xFFFFFFFF }

end ResourceUuid

def updateResourceUniqueId (uuid : List Char) (uniqueId : Nat) : List Char :=
  hex 8 (reverseBytes (uniqueId &&& 0xFFFFFFFF)) ++ uuid.drop 8

end Uuid
