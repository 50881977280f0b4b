import NmosReference.Library.Crc
import NmosReference.Raft.MessageRoundTrip

open Protobuf

-- The frames that messages travel in between two members, and the connection that carries them.
namespace Raft

def PROTOCOL_MAJOR : Nat := 1
def PROTOCOL_MINOR : Nat := 0
def MAGIC          : Nat := 0x4E4D5241
def HEADER_SIZE    : Nat := 16
def TRAILER_SIZE   : Nat := 4
def MAX_FRAME      : Nat := 16 * 1024 * 1024
def FLAG_REPLY     : Nat := 0x0001
def RESERVED_FLAGS : Nat := 0xFFFE

namespace MessageType

def value : MessageType → Nat
  | hello                => 0x01
  | helloAck             => 0x02
  | requestVote          => 0x10
  | requestVoteReply     => 0x11
  | appendEntries        => 0x12
  | appendEntriesReply   => 0x13
  | installSnapshot      => 0x14
  | installSnapshotReply => 0x15
  | promote              => 0x16
  | readIndex            => 0x17
  | readIndexReply       => 0x18
  | propose              => 0x20
  | proposeReply         => 0x21
  | forward              => 0x22
  | forwardReply         => 0x23
  | ping                 => 0x30
  | pong                 => 0x31

def all : List MessageType :=
  [hello, helloAck, requestVote, requestVoteReply, appendEntries, appendEntriesReply, installSnapshot,
    installSnapshotReply, promote, readIndex, readIndexReply, propose, proposeReply, forward, forwardReply, ping, pong]

end MessageType

-- `value:#0{width}x`
def hexadecimal (width value : Nat) : String :=
  "0x" ++ String.ofList ((Nat.toDigits 16 value).leftpad (width - 2) '0')

example : hexadecimal 10 0xBEEF = "0x0000beef" := by
  decide

def messageType (byte : Nat) : Except String MessageType :=
  match MessageType.all.find? (·.value = byte) with
  | some type => .ok type
  | none      => .error s!"unknown message type {hexadecimal 4 byte}"

-- `zlib.crc32`
def POLYNOMIAL : BitVec 32 := 0xEDB88320

def crc32 (data : Bytes) : Nat :=
  (~~~Crc.register POLYNOMIAL (.allOnes 32) data).toNat

example : crc32 "123456789".toUTF8.data.toList = 0xCBF43926 := by
  decide +kernel

structure Frame where
  stream  : Stream
  type    : MessageType
  flags   : Nat
  payload : Bytes
  minor   : Nat := PROTOCOL_MINOR
  deriving DecidableEq, Repr

def Frame.isReply (frame : Frame) : Bool :=
  frame.flags &&& FLAG_REPLY ≠ 0

-- `value.to_bytes(size, "little")`
def toBytes (size value : Nat) : Except String Bytes :=
  if value < 2 ^ (8 * size) then .ok (LittleEndian.encode size value) else .error "int too big to convert"

-- `data[first:last]`
def slice (data : Bytes) (first last : Nat) : Bytes :=
  (data.take last).drop first

def fromBytes (data : Bytes) (first last : Nat) : Nat :=
  LittleEndian.decode (slice data first last)

-- What the checksum covers.
def Frame.body (frame : Frame) : Except String Bytes := do
  let major ← toBytes 2 PROTOCOL_MAJOR
  let minor ← toBytes 2 frame.minor
  let flags ← toBytes 2 frame.flags
  let length ← toBytes 4 frame.payload.length
  return major ++ minor ++ [.ofNat frame.stream.value, .ofNat frame.type.value] ++ flags ++ length ++ frame.payload

def encodeFrame (frame : Frame) : Except String Bytes := do
  if MAX_FRAME < frame.payload.length then
    .error s!"payload of {frame.payload.length} bytes exceeds MAX_FRAME"
  else
    let body ← frame.body
    let magic ← toBytes 4 MAGIC
    let checksum ← toBytes 4 (crc32 body)
    return magic ++ body ++ checksum

def decodeFrame (data : Bytes) : Except String Frame := do
  if data.length < HEADER_SIZE + TRAILER_SIZE then
    .error "frame is shorter than its header and trailer"
  if fromBytes data 0 4 ≠ MAGIC then
    .error "frame does not start with the protocol magic"
  let major := fromBytes data 4 6
  if major ≠ PROTOCOL_MAJOR then
    .error s!"peer speaks protocol major {major}, this member speaks {PROTOCOL_MAJOR}; a major difference is not negotiable"
  let minor := fromBytes data 6 8
  let length := fromBytes data 12 16
  if MAX_FRAME < length then
    .error s!"frame claims {length} payload bytes, above the {MAX_FRAME} cap"
  if data.length ≠ HEADER_SIZE + length + TRAILER_SIZE then
    .error "frame length does not match its buffer"
  let expected := fromBytes data (HEADER_SIZE + length) data.length
  let actual := crc32 (slice data 4 (HEADER_SIZE + length))
  if expected ≠ actual then
    .error s!"checksum mismatch: frame says {hexadecimal 10 expected}, computed {hexadecimal 10 actual}"
  let flags := fromBytes data 10 12
  if flags &&& RESERVED_FLAGS ≠ 0 then
    .error s!"reserved flag bits set: {hexadecimal 6 flags}"
  let stream ← stream (fromBytes data 8 9)
  let type ← messageType (fromBytes data 9 10)
  return { stream, type, flags, payload := slice data HEADER_SIZE (HEADER_SIZE + length), minor }

-- What arrives on a connection: some bytes at a time, until it ends or goes silent.
abbrev Arrivals :=
  List Bytes

inductive LinkFault
  | ended
  | protocol (reason : String)
  deriving DecidableEq, Repr

-- Each read takes what is there, up to what remains to be read.
def readexactly : Nat → Arrivals → Except LinkFault (Bytes × Arrivals)
  | 0,             arrivals          => .ok ([], arrivals)
  | _ + 1,         []                => .error .ended
  | remaining + 1, chunk :: arrivals =>
    if chunk.length ≤ remaining + 1 then do
      let (more, arrivals) ← readexactly (remaining + 1 - chunk.length) arrivals
      return (chunk ++ more, arrivals)
    else
      .ok (chunk.take (remaining + 1), chunk.drop (remaining + 1) :: arrivals)

def readFrame (arrivals : Arrivals) : Except LinkFault (Frame × Arrivals) := do
  let (header, arrivals) ← readexactly HEADER_SIZE arrivals
  let length := fromBytes header 12 16
  if MAX_FRAME < length then
    .error <| .protocol s!"frame claims {length} payload bytes, above the {MAX_FRAME} cap"
  let (rest, arrivals) ← readexactly (length + TRAILER_SIZE) arrivals
  match decodeFrame (header ++ rest) with
  | .ok frame     => .ok (frame, arrivals)
  | .error reason => .error <| .protocol reason

-- Reads frames until the connection fails. Each of them takes some bytes, whose number bounds the turns.
def pumpIn : Nat → Arrivals → List Frame × LinkFault
  | 0,         _        => ([], .ended)
  | turns + 1, arrivals =>
    match readFrame arrivals with
    | .error fault           => ([], fault)
    | .ok (frame, arrivals) =>
      let (frames, fault) := pumpIn turns arrivals
      (frame :: frames, fault)

def pump (arrivals : Arrivals) : List Frame × LinkFault :=
  pumpIn (arrivals.flatten.length + 1) arrivals

end Raft
