import NmosReference.Library.Protobuf

-- Every peer message, with its field numbers. A decoder starts from the values of absent fields.
namespace Raft

open Protobuf

inductive Stream
  | control | bulk
  deriving DecidableEq, Repr

def Stream.value : Stream → Nat
  | control => 0
  | bulk    => 1

def stream : Nat → Except String Stream
  | 0     => .ok .control
  | 1     => .ok .bulk
  | value => .error s!"unknown stream class {value}"

structure Hello where
  major       : Nat
  minor       : Nat
  clusterId   : String
  memberName  : String
  memberIndex : Nat
  incarnation : Nat
  stream      : Stream
  deriving DecidableEq, Repr

namespace Hello

def fields (m : Hello) : List Field :=
  [.uint 1 m.major, .uint 2 m.minor, .string 3 m.clusterId, .string 4 m.memberName,
    .uint 5 m.memberIndex, .uint 6 m.incarnation, .uint 7 m.stream.value]

def decoder : Decoder Hello
  | m, 1 => .uint fun major => .ok { m with major }
  | m, 2 => .uint fun minor => .ok { m with minor }
  | m, 3 => .string fun clusterId => .ok { m with clusterId }
  | m, 4 => .string fun memberName => .ok { m with memberName }
  | m, 5 => .uint fun memberIndex => .ok { m with memberIndex }
  | m, 6 => .uint fun incarnation => .ok { m with incarnation }
  | m, 7 => .uint fun value => do .ok { m with stream := ← Raft.stream value }
  | _, _ => .skip

def decode : Bytes → Except String Hello :=
  Protobuf.decode decoder
    { major := 0, minor := 0, clusterId := "", memberName := "", memberIndex := 0, incarnation := 0,
      stream := .control }

end Hello

structure HelloAck where
  accepted    : Bool
  reason      : String
  minor       : Nat
  memberIndex : Nat
  incarnation : Nat
  deriving DecidableEq, Repr

namespace HelloAck

def fields (m : HelloAck) : List Field :=
  [.bool 1 m.accepted, .string 2 m.reason, .uint 3 m.minor, .uint 4 m.memberIndex, .uint 5 m.incarnation]

def decoder : Decoder HelloAck
  | m, 1 => .bool fun accepted => .ok { m with accepted }
  | m, 2 => .string fun reason => .ok { m with reason }
  | m, 3 => .uint fun minor => .ok { m with minor }
  | m, 4 => .uint fun memberIndex => .ok { m with memberIndex }
  | m, 5 => .uint fun incarnation => .ok { m with incarnation }
  | _, _ => .skip

def decode : Bytes → Except String HelloAck :=
  Protobuf.decode decoder { accepted := false, reason := "", minor := 0, memberIndex := 0, incarnation := 0 }

end HelloAck

-- One log entry as it travels, with the operation's bytes.
structure WireEntry where
  term    : Nat
  index   : Nat
  payload : Bytes
  deriving DecidableEq, Repr

namespace WireEntry

def fields (e : WireEntry) : List Field :=
  [.uint 1 e.term, .uint 2 e.index, .bytes 3 e.payload]

def decoder : Decoder WireEntry
  | e, 1 => .uint fun term => .ok { e with term }
  | e, 2 => .uint fun index => .ok { e with index }
  | e, 3 => .bytes fun payload => .ok { e with payload }
  | _, _ => .skip

def decode : Bytes → Except String WireEntry :=
  Protobuf.decode decoder { term := 0, index := 0, payload := [] }

end WireEntry

-- Fields 5 and 6 are retired.
structure RequestVote where
  term         : Nat
  candidate    : Nat
  lastLogIndex : Nat
  lastLogTerm  : Nat
  preVote      : Bool
  deriving DecidableEq, Repr

namespace RequestVote

def fields (m : RequestVote) : List Field :=
  [.uint 1 m.term, .uint 2 m.candidate, .uint 3 m.lastLogIndex, .uint 4 m.lastLogTerm, .bool 7 m.preVote]

def decoder : Decoder RequestVote
  | m, 1 => .uint fun term => .ok { m with term }
  | m, 2 => .uint fun candidate => .ok { m with candidate }
  | m, 3 => .uint fun lastLogIndex => .ok { m with lastLogIndex }
  | m, 4 => .uint fun lastLogTerm => .ok { m with lastLogTerm }
  | m, 7 => .bool fun preVote => .ok { m with preVote }
  | _, _ => .skip

def decode : Bytes → Except String RequestVote :=
  Protobuf.decode decoder { term := 0, candidate := 0, lastLogIndex := 0, lastLogTerm := 0, preVote := false }

end RequestVote

structure RequestVoteReply where
  term    : Nat
  granted : Bool
  voting  : Bool
  preVote : Bool
  deriving DecidableEq, Repr

namespace RequestVoteReply

def fields (m : RequestVoteReply) : List Field :=
  [.uint 1 m.term, .bool 2 m.granted, .bool 3 m.voting, .bool 4 m.preVote]

def decoder : Decoder RequestVoteReply
  | m, 1 => .uint fun term => .ok { m with term }
  | m, 2 => .bool fun granted => .ok { m with granted }
  | m, 3 => .bool fun voting => .ok { m with voting }
  | m, 4 => .bool fun preVote => .ok { m with preVote }
  | _, _ => .skip

def decode : Bytes → Except String RequestVoteReply :=
  Protobuf.decode decoder { term := 0, granted := false, voting := false, preVote := false }

end RequestVoteReply

-- The heartbeat when there are no entries.
structure AppendEntries where
  term         : Nat
  leader       : Nat
  prevLogIndex : Nat
  prevLogTerm  : Nat
  leaderCommit : Nat
  requestId    : Nat
  entries      : List WireEntry
  deriving DecidableEq, Repr

namespace AppendEntries

-- The fields, with the payloads of the entries.
def fields (m : AppendEntries) (entries : List Bytes) : List Field :=
  [.uint 1 m.term, .uint 2 m.leader, .uint 3 m.prevLogIndex, .uint 4 m.prevLogTerm,
    .uint 5 m.leaderCommit, .uint 6 m.requestId] ++ entries.map (.bytes 7)

def decoder : Decoder AppendEntries
  | m, 1 => .uint fun term => .ok { m with term }
  | m, 2 => .uint fun leader => .ok { m with leader }
  | m, 3 => .uint fun prevLogIndex => .ok { m with prevLogIndex }
  | m, 4 => .uint fun prevLogTerm => .ok { m with prevLogTerm }
  | m, 5 => .uint fun leaderCommit => .ok { m with leaderCommit }
  | m, 6 => .uint fun requestId => .ok { m with requestId }
  | m, 7 => .bytes fun entry => do .ok { m with entries := m.entries ++ [← WireEntry.decode entry] }
  | _, _ => .skip

def decode : Bytes → Except String AppendEntries :=
  Protobuf.decode decoder
    { term := 0, leader := 0, prevLogIndex := 0, prevLogTerm := 0, leaderCommit := 0, requestId := 0,
      entries := [] }

end AppendEntries

structure AppendEntriesReply where
  term          : Nat
  success       : Bool
  matchIndex    : Nat
  conflictIndex : Nat
  conflictTerm  : Nat
  catchingUp    : Bool
  requestId     : Nat
  deriving DecidableEq, Repr

namespace AppendEntriesReply

def fields (m : AppendEntriesReply) : List Field :=
  [.uint 1 m.term, .bool 2 m.success, .uint 3 m.matchIndex, .uint 4 m.conflictIndex,
    .uint 5 m.conflictTerm, .bool 6 m.catchingUp, .uint 7 m.requestId]

def decoder : Decoder AppendEntriesReply
  | m, 1 => .uint fun term => .ok { m with term }
  | m, 2 => .bool fun success => .ok { m with success }
  | m, 3 => .uint fun matchIndex => .ok { m with matchIndex }
  | m, 4 => .uint fun conflictIndex => .ok { m with conflictIndex }
  | m, 5 => .uint fun conflictTerm => .ok { m with conflictTerm }
  | m, 6 => .bool fun catchingUp => .ok { m with catchingUp }
  | m, 7 => .uint fun requestId => .ok { m with requestId }
  | _, _ => .skip

def decode : Bytes → Except String AppendEntriesReply :=
  Protobuf.decode decoder
    { term := 0, success := false, matchIndex := 0, conflictIndex := 0, conflictTerm := 0,
      catchingUp := false, requestId := 0 }

end AppendEntriesReply

-- A chunk of a snapshot.
structure InstallSnapshot where
  term      : Nat
  leader    : Nat
  lastIndex : Nat
  lastTerm  : Nat
  offset    : Nat
  data      : Bytes
  done      : Bool
  ownership : Bytes
  requestId : Nat
  deriving DecidableEq, Repr

namespace InstallSnapshot

def fields (m : InstallSnapshot) : List Field :=
  [.uint 1 m.term, .uint 2 m.leader, .uint 3 m.lastIndex, .uint 4 m.lastTerm, .uint 5 m.offset,
    .bytes 6 m.ownership, .bytes 7 m.data, .bool 8 m.done, .uint 9 m.requestId]

def decoder : Decoder InstallSnapshot
  | m, 1 => .uint fun term => .ok { m with term }
  | m, 2 => .uint fun leader => .ok { m with leader }
  | m, 3 => .uint fun lastIndex => .ok { m with lastIndex }
  | m, 4 => .uint fun lastTerm => .ok { m with lastTerm }
  | m, 5 => .uint fun offset => .ok { m with offset }
  | m, 6 => .bytes fun ownership => .ok { m with ownership }
  | m, 7 => .bytes fun data => .ok { m with data }
  | m, 8 => .bool fun done => .ok { m with done }
  | m, 9 => .uint fun requestId => .ok { m with requestId }
  | _, _ => .skip

def decode : Bytes → Except String InstallSnapshot :=
  Protobuf.decode decoder
    { term := 0, leader := 0, lastIndex := 0, lastTerm := 0, offset := 0, data := [], done := false,
      ownership := [], requestId := 0 }

end InstallSnapshot

structure InstallSnapshotReply where
  term          : Nat
  bytesReceived : Nat
  done          : Bool
  commitIndex   : Nat
  requestId     : Nat
  deriving DecidableEq, Repr

namespace InstallSnapshotReply

def fields (m : InstallSnapshotReply) : List Field :=
  [.uint 1 m.term, .uint 2 m.bytesReceived, .bool 3 m.done, .uint 4 m.commitIndex, .uint 5 m.requestId]

def decoder : Decoder InstallSnapshotReply
  | m, 1 => .uint fun term => .ok { m with term }
  | m, 2 => .uint fun bytesReceived => .ok { m with bytesReceived }
  | m, 3 => .bool fun done => .ok { m with done }
  | m, 4 => .uint fun commitIndex => .ok { m with commitIndex }
  | m, 5 => .uint fun requestId => .ok { m with requestId }
  | _, _ => .skip

def decode : Bytes → Except String InstallSnapshotReply :=
  Protobuf.decode decoder { term := 0, bytesReceived := 0, done := false, commitIndex := 0, requestId := 0 }

end InstallSnapshotReply

structure Promote where
  term         : Nat
  leader       : Nat
  throughIndex : Nat
  deriving DecidableEq, Repr

namespace Promote

def fields (m : Promote) : List Field :=
  [.uint 1 m.term, .uint 2 m.leader, .uint 3 m.throughIndex]

def decoder : Decoder Promote
  | m, 1 => .uint fun term => .ok { m with term }
  | m, 2 => .uint fun leader => .ok { m with leader }
  | m, 3 => .uint fun throughIndex => .ok { m with throughIndex }
  | _, _ => .skip

def decode : Bytes → Except String Promote :=
  Protobuf.decode decoder { term := 0, leader := 0, throughIndex := 0 }

end Promote

structure ReadIndex where
  requestId : Nat
  deriving DecidableEq, Repr

namespace ReadIndex

def fields (m : ReadIndex) : List Field :=
  [.uint 1 m.requestId]

def decoder : Decoder ReadIndex
  | _, 1 => .uint fun requestId => .ok { requestId }
  | _, _ => .skip

def decode : Bytes → Except String ReadIndex :=
  Protobuf.decode decoder { requestId := 0 }

end ReadIndex

structure ReadIndexReply where
  ok        : Bool
  index     : Nat
  reason    : String
  requestId : Nat
  deriving DecidableEq, Repr

namespace ReadIndexReply

def fields (m : ReadIndexReply) : List Field :=
  [.bool 1 m.ok, .uint 2 m.index, .string 3 m.reason, .uint 4 m.requestId]

def decoder : Decoder ReadIndexReply
  | m, 1 => .bool fun ok => .ok { m with ok }
  | m, 2 => .uint fun index => .ok { m with index }
  | m, 3 => .string fun reason => .ok { m with reason }
  | m, 4 => .uint fun requestId => .ok { m with requestId }
  | _, _ => .skip

def decode : Bytes → Except String ReadIndexReply :=
  Protobuf.decode decoder { ok := false, index := 0, reason := "", requestId := 0 }

end ReadIndexReply

-- A follower's batch of operations, for the leader to append.
structure Propose where
  proposals : List Bytes
  requestId : Nat
  deriving DecidableEq, Repr

namespace Propose

def fields (m : Propose) : List Field :=
  .uint 1 m.requestId :: m.proposals.map (.bytes 2)

def decoder : Decoder Propose
  | m, 1 => .uint fun requestId => .ok { m with requestId }
  | m, 2 => .bytes fun proposal => .ok { m with proposals := m.proposals ++ [proposal] }
  | _, _ => .skip

def decode : Bytes → Except String Propose :=
  Protobuf.decode decoder { proposals := [], requestId := 0 }

end Propose

structure ProposeReply where
  accepted   : Bool
  reason     : String
  term       : Nat
  firstIndex : Nat
  requestId  : Nat
  leader     : Option Nat
  deriving DecidableEq, Repr

namespace ProposeReply

-- The leader is present or absent: member 0 is a member.
def fields (m : ProposeReply) : List Field :=
  [.bool 1 m.accepted, .string 2 m.reason, .uint 3 m.term, .uint 4 m.firstIndex, .uint 5 m.requestId] ++
    (m.leader.map (.uint 6)).toList

def decoder : Decoder ProposeReply
  | m, 1 => .bool fun accepted => .ok { m with accepted }
  | m, 2 => .string fun reason => .ok { m with reason }
  | m, 3 => .uint fun term => .ok { m with term }
  | m, 4 => .uint fun firstIndex => .ok { m with firstIndex }
  | m, 5 => .uint fun requestId => .ok { m with requestId }
  | m, 6 => .uint fun leader => .ok { m with leader }
  | _, _ => .skip

def decode : Bytes → Except String ProposeReply :=
  Protobuf.decode decoder
    { accepted := false, reason := "", term := 0, firstIndex := 0, requestId := 0, leader := none }

end ProposeReply

-- A registry mutation, handed to the member that owns its Node, with the body verbatim.
structure Forward where
  verb         : String
  resourceType : String
  resourceId   : String
  bodyText     : String
  requestId    : Nat
  deriving DecidableEq, Repr

namespace Forward

def fields (m : Forward) : List Field :=
  [.string 1 m.verb, .string 2 m.resourceType, .string 3 m.resourceId, .string 4 m.bodyText,
    .uint 5 m.requestId]

def decoder : Decoder Forward
  | m, 1 => .string fun verb => .ok { m with verb }
  | m, 2 => .string fun resourceType => .ok { m with resourceType }
  | m, 3 => .string fun resourceId => .ok { m with resourceId }
  | m, 4 => .string fun bodyText => .ok { m with bodyText }
  | m, 5 => .uint fun requestId => .ok { m with requestId }
  | _, _ => .skip

def decode : Bytes → Except String Forward :=
  Protobuf.decode decoder { verb := "", resourceType := "", resourceId := "", bodyText := "", requestId := 0 }

end Forward

structure ForwardReply where
  ok           : Bool
  created      : Bool
  error        : String
  detail       : String
  appliedIndex : Nat
  notOwner     : Bool
  requestId    : Nat
  owner        : Option Nat
  deriving DecidableEq, Repr

namespace ForwardReply

def fields (m : ForwardReply) : List Field :=
  [.bool 1 m.ok, .bool 2 m.created, .string 3 m.error, .string 4 m.detail, .uint 5 m.appliedIndex,
    .bool 6 m.notOwner, .uint 7 m.requestId] ++ (m.owner.map (.uint 8)).toList

def decoder : Decoder ForwardReply
  | m, 1 => .bool fun ok => .ok { m with ok }
  | m, 2 => .bool fun created => .ok { m with created }
  | m, 3 => .string fun error => .ok { m with error }
  | m, 4 => .string fun detail => .ok { m with detail }
  | m, 5 => .uint fun appliedIndex => .ok { m with appliedIndex }
  | m, 6 => .bool fun notOwner => .ok { m with notOwner }
  | m, 7 => .uint fun requestId => .ok { m with requestId }
  | m, 8 => .uint fun owner => .ok { m with owner }
  | _, _ => .skip

def decode : Bytes → Except String ForwardReply :=
  Protobuf.decode decoder
    { ok := false, created := false, error := "", detail := "", appliedIndex := 0, notOwner := false,
      requestId := 0, owner := none }

end ForwardReply

structure Ping where
  nonce : Nat
  deriving DecidableEq, Repr

namespace Ping

def fields (m : Ping) : List Field :=
  [.uint 1 m.nonce]

def decoder : Decoder Ping
  | _, 1 => .uint fun nonce => .ok { nonce }
  | _, _ => .skip

def decode : Bytes → Except String Ping :=
  Protobuf.decode decoder { nonce := 0 }

end Ping

-- The echo of a ping.
structure Pong where
  nonce : Nat
  deriving DecidableEq, Repr

namespace Pong

def fields (m : Pong) : List Field :=
  [.uint 1 m.nonce]

def decoder : Decoder Pong
  | _, 1 => .uint fun nonce => .ok { nonce }
  | _, _ => .skip

def decode : Bytes → Except String Pong :=
  Protobuf.decode decoder { nonce := 0 }

end Pong

inductive Message
  | hello                (m : Hello)
  | helloAck             (m : HelloAck)
  | requestVote          (m : RequestVote)
  | requestVoteReply     (m : RequestVoteReply)
  | appendEntries        (m : AppendEntries)
  | appendEntriesReply   (m : AppendEntriesReply)
  | installSnapshot      (m : InstallSnapshot)
  | installSnapshotReply (m : InstallSnapshotReply)
  | promote              (m : Promote)
  | readIndex            (m : ReadIndex)
  | readIndexReply       (m : ReadIndexReply)
  | propose              (m : Propose)
  | proposeReply         (m : ProposeReply)
  | forward              (m : Forward)
  | forwardReply         (m : ForwardReply)
  | ping                 (m : Ping)
  | pong                 (m : Pong)
  deriving DecidableEq, Repr

inductive MessageType
  | hello | helloAck | requestVote | requestVoteReply | appendEntries | appendEntriesReply
  | installSnapshot | installSnapshotReply | promote | readIndex | readIndexReply | propose
  | proposeReply | forward | forwardReply | ping | pong
  deriving DecidableEq, Repr

namespace Message

def type : Message → MessageType
  | hello _                => .hello
  | helloAck _             => .helloAck
  | requestVote _          => .requestVote
  | requestVoteReply _     => .requestVoteReply
  | appendEntries _        => .appendEntries
  | appendEntriesReply _   => .appendEntriesReply
  | installSnapshot _      => .installSnapshot
  | installSnapshotReply _ => .installSnapshotReply
  | promote _              => .promote
  | readIndex _            => .readIndex
  | readIndexReply _       => .readIndexReply
  | propose _              => .propose
  | proposeReply _         => .proposeReply
  | forward _              => .forward
  | forwardReply _         => .forwardReply
  | ping _                 => .ping
  | pong _                 => .pong

-- The fields of a message, given the payloads of the entries it nests.
def fields (entries : List Bytes) : Message → List Field
  | hello m                => m.fields
  | helloAck m             => m.fields
  | requestVote m          => m.fields
  | requestVoteReply m     => m.fields
  | appendEntries m        => m.fields entries
  | appendEntriesReply m   => m.fields
  | installSnapshot m      => m.fields
  | installSnapshotReply m => m.fields
  | promote m              => m.fields
  | readIndex m            => m.fields
  | readIndexReply m       => m.fields
  | propose m              => m.fields
  | proposeReply m         => m.fields
  | forward m              => m.fields
  | forwardReply m         => m.fields
  | ping m                 => m.fields
  | pong m                 => m.fields

def entries : Message → List WireEntry
  | appendEntries m => m.entries
  | _               => []

def encode (m : Message) : Bytes :=
  Protobuf.encode (m.fields (m.entries.map fun e => Protobuf.encode e.fields))

end Message

-- Decodes a payload according to its frame's type byte.
def decodeMessage (type : MessageType) (payload : Bytes) : Except String Message :=
  match type with
  | .hello                => .hello <$> Hello.decode payload
  | .helloAck             => .helloAck <$> HelloAck.decode payload
  | .requestVote          => .requestVote <$> RequestVote.decode payload
  | .requestVoteReply     => .requestVoteReply <$> RequestVoteReply.decode payload
  | .appendEntries        => .appendEntries <$> AppendEntries.decode payload
  | .appendEntriesReply   => .appendEntriesReply <$> AppendEntriesReply.decode payload
  | .installSnapshot      => .installSnapshot <$> InstallSnapshot.decode payload
  | .installSnapshotReply => .installSnapshotReply <$> InstallSnapshotReply.decode payload
  | .promote              => .promote <$> Promote.decode payload
  | .readIndex            => .readIndex <$> ReadIndex.decode payload
  | .readIndexReply       => .readIndexReply <$> ReadIndexReply.decode payload
  | .propose              => .propose <$> Propose.decode payload
  | .proposeReply         => .proposeReply <$> ProposeReply.decode payload
  | .forward              => .forward <$> Forward.decode payload
  | .forwardReply         => .forwardReply <$> ForwardReply.decode payload
  | .ping                 => .ping <$> Ping.decode payload
  | .pong                 => .pong <$> Pong.decode payload

end Raft
