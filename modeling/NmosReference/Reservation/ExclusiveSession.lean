import NmosReference.Library.Base64
import Mathlib

namespace Reservation

open Base64

-- `hmac.new(key, message, sha256).digest()[:16]`, any function of the key and the message.
class Hmac where
  mac : Bytes → Bytes → Bytes

inductive SessionError
  | busy       (msg : String)
  | notAllowed (msg : String)
  -- The delay, in whole seconds, after which to renew.
  | tooEarly   (retryAfter : Int)
  deriving DecidableEq, Repr

structure Session where
  owner         : String
  sessionId     : Bytes
  -- Regenerated on renew.
  hmacKey       : Bytes
  token         : String
  -- Provided by the client.
  exclusiveKey  : Bytes
  creationTime  : Rat
  keepaliveTime : Rat
  expired       : Bool := false
  deriving DecidableEq, Repr

-- Token-based mutual exclusion. The random bytes and the clock readings are arguments of the operations.
structure ExclusiveSession where
  lifetime  : Rat
  aliveTime : Rat
  session   : Option Session
  deriving DecidableEq, Repr

def MIN_LIFETIME_SECONDS : Rat := 3600
def MAX_LIFETIME_SECONDS : Rat := 86400
def ALIVE_TIME_SECONDS   : Rat := 60

def makeToken [Hmac] (sessionId hmacKey : Bytes) : String :=
  encode (sessionId ++ Hmac.mac hmacKey sessionId)

def verifyToken [Hmac] (token : String) (sessionId hmacKey : Bytes) : Bool :=
  match decode token with
  | none     => false
  | some raw =>
    raw.length = 32 ∧ raw.take 16 = sessionId ∧ raw.drop 16 = Hmac.mac hmacKey sessionId

namespace ExclusiveSession

-- `none` for times out of the specified range.
def new (lifetime aliveTime : Rat) : Option ExclusiveSession :=
  if MIN_LIFETIME_SECONDS ≤ lifetime ∧ lifetime ≤ MAX_LIFETIME_SECONDS ∧ aliveTime = ALIVE_TIME_SECONDS
  then some { lifetime, aliveTime, session := none }
  else none

variable (m : ExclusiveSession) (now : Rat)

def setSession (s : Session) : ExclusiveSession :=
  { m with session := some s }

-- Checks both timeouts, and marks a session that is past one of them as expired.
def isAliveInternal : Bool × ExclusiveSession :=
  match m.session with
  | none   => (false, m)
  | some s =>
    if s.expired then (false, m)
    else if now - s.creationTime ≥ m.lifetime then (false, m.setSession { s with expired := true })
    else if now - s.keepaliveTime ≥ m.aliveTime then (false, m.setSession { s with expired := true })
    else (true, m)

def acquire [Hmac] (owner : String) (exclusiveKey sessionId hmacKey : Bytes) :
    Except SessionError String × ExclusiveSession :=
  let (alive, m) := m.isAliveInternal now
  if alive then
    (.error (.busy "exclusive session already acquired"), m)
  else
    let token := makeToken sessionId hmacKey
    (.ok token, m.setSession {
      owner, sessionId, hmacKey, token, exclusiveKey
      creationTime  := now
      keepaliveTime := now })

-- The session that a token speaks for, going by the flag alone.
def owned [Hmac] (token : String) : Except SessionError Session :=
  match m.session with
  | none   => .error (.notAllowed "no active session")
  | some s =>
    if s.expired then .error (.notAllowed "no active session")
    else if verifyToken token s.sessionId s.hmacKey then .ok s
    else .error (.notAllowed "invalid token")

-- The same session id under a new key; the lifetime restarts.
def renew [Hmac] (token : String) (hmacKey : Bytes) : Except SessionError String × ExclusiveSession :=
  match m.owned token with
  | .error e => (.error e, m)
  | .ok s    =>
    let elapsed := now - s.creationTime
    if elapsed < m.lifetime / 3 then
      (.error (.tooEarly (max 1 (m.lifetime / 2 - elapsed).ceil)), m)
    else
      let token := makeToken s.sessionId hmacKey
      (.ok token, m.setSession { s with hmacKey, token, creationTime := now, keepaliveTime := now })

def keepAlive [Hmac] (token : String) : Except SessionError Unit × ExclusiveSession :=
  match m.owned token with
  | .error e => (.error e, m)
  | .ok s    => (.ok (), m.setSession { s with keepaliveTime := now })

def release [Hmac] (token : String) : Except SessionError Unit × ExclusiveSession :=
  match m.owned token with
  | .error e => (.error e, m)
  | .ok s    =>
    (.ok (), m.setSession { s with expired := true, exclusiveKey := List.replicate 16 0 })

-- Also keeps the session alive.
def isOwner [Hmac] (token : String) : Bool × ExclusiveSession :=
  let (alive, m) := m.isAliveInternal now
  match m.session with
  | none   => (false, m)
  | some s =>
    if !alive then (false, m)
    else if !verifyToken token s.sessionId s.hmacKey then (false, m)
    else (true, m.setSession { s with keepaliveTime := now })

def isAlive : Bool × ExclusiveSession :=
  m.isAliveInternal now

def getKey : Option Bytes × ExclusiveSession :=
  let (alive, m) := m.isAliveInternal now
  if alive then (m.session.map (·.exclusiveKey), m) else (none, m)

def owner : Option String :=
  (m.session.filter (!·.expired)).map (·.owner)

end ExclusiveSession
end Reservation
