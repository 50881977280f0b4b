import NmosReference.Library.Transition
import NmosReference.Reservation.ExclusiveSession

-- Clients of one session at non-decreasing clock readings, next to what a client is entitled to.
namespace Reservation

open Base64

inductive Call
  | acquire (owner : String) (exclusiveKey sessionId hmacKey : Bytes)
  | renew (token : String) (hmacKey : Bytes)
  | keepAlive (token : String)
  | release (token : String)
  | isOwner (token : String)
  | isAlive
  | getKey
  deriving DecidableEq, Repr

inductive Answer
  | token (text : String)
  | done
  | refused (e : SessionError)
  | verdict (b : Bool)
  | key (bytes : Option Bytes)
  deriving DecidableEq, Repr

namespace Call

def presents : Call → Option String
  | renew token _ | keepAlive token | release token | isOwner token => token
  | _                                                               => none

def acquires : Call → Bool
  | acquire .. => true
  | _          => false

def inspects : Call → Bool
  | isAlive | getKey => true
  | _                => false

end Call

namespace Answer

def accepts : Answer → Bool
  | token _ | done => true
  | refused _      => false
  | verdict b      => b
  | key bytes      => bytes.isSome

def ofToken : Except SessionError String → Answer
  | .ok text => .token text
  | .error e => .refused e

def ofDone : Except SessionError Unit → Answer
  | .ok _    => .done
  | .error e => .refused e

end Answer

def ExclusiveSession.perform [Hmac] (m : ExclusiveSession) (now : Rat) : Call → Answer × ExclusiveSession
  | .acquire owner key sessionId hmacKey => (m.acquire now owner key sessionId hmacKey).map .ofToken id
  | .renew token hmacKey                 => (m.renew now token hmacKey).map .ofToken id
  | .keepAlive token                     => (m.keepAlive now token).map .ofDone id
  | .release token                       => (m.release token).map .ofDone id
  | .isOwner token                       => (m.isOwner now token).map .verdict id
  | .isAlive                             => (m.isAlive now).map .verdict id
  | .getKey                              => (m.getKey now).map .key id

-- What has been granted: the token of the current session, and when it was last acquired or renewed and
-- last active.
structure Grant where
  token   : String
  renewed : Rat
  active  : Rat
  deriving DecidableEq, Repr

def Grant.Live (g : Grant) (lifetime aliveTime now : Rat) : Prop :=
  now - g.renewed < lifetime ∧ now - g.active < aliveTime

def record (now : Rat) (grant : Option Grant) : Call → Answer → Option Grant
  | .acquire .., .token token => some { token, renewed := now, active := now }
  | .renew .., .token token   => some { token, renewed := now, active := now }
  | .keepAlive _, .done       => grant.map ({ · with active := now })
  | .isOwner _, .verdict true => grant.map ({ · with active := now })
  | .release _, .done         => none
  | _, _                      => grant

def Session.Fresh (s : Session) (m : ExclusiveSession) (now : Rat) : Prop :=
  now - s.creationTime < m.lifetime ∧ now - s.keepaliveTime < m.aliveTime

-- What a call still asks of the session of its token.
def Call.due (m : ExclusiveSession) (now : Rat) (s : Session) : Call → Prop
  | .renew ..   => m.lifetime / 3 ≤ now - s.creationTime
  | .isOwner .. => s.Fresh m now
  | _           => True

structure Holder where
  manager : ExclusiveSession
  grant   : Option Grant
  clock   : Rat
  deriving DecidableEq, Repr

namespace Holder

def Live (h : Holder) (now : Rat) : Prop :=
  ∃ g, h.grant = some g ∧ g.Live h.manager.lifetime h.manager.aliveTime now

variable [Hmac]

def answer (h : Holder) (now : Rat) (call : Call) : Answer :=
  (h.manager.perform now call).1

-- A token is accepted only from the holder of a live session; and the session is free, or is found to be
-- alive, exactly according to the two timeouts.
def Lawful (h : Holder) (now : Rat) (call : Call) : Prop :=
  (∀ token, call.presents = some token → (h.answer now call).accepts →
    h.Live now ∧ ∀ g, h.grant = some g → g.token = token) ∧
  (call.acquires → ((h.answer now call).accepts ↔ ¬h.Live now)) ∧
  (call.inspects → ((h.answer now call).accepts ↔ h.Live now))

-- The operations that take a token go by the flag, and by what base64 makes of the token's text. One of
-- them is in order if, when it gets past that, the text is the token itself and the session is within both
-- timeouts.
def Guarded (h : Holder) (now : Rat) (call : Call) : Prop :=
  ∀ token s, call.presents = some token → h.manager.owned token = .ok s → call.due h.manager now s →
    token = s.token ∧ s.Fresh h.manager now

def step (h : Holder) (a : Rat × Call) : Option Holder :=
  if h.clock ≤ a.1 then
    some {
      manager := (h.manager.perform a.1 a.2).2
      grant   := record a.1 h.grant a.2 (h.answer a.1 a.2)
      clock   := a.1 }
  else
    none

def system (lifetime aliveTime start : Rat) : TransitionSystem Holder (Rat × Call) where
  init := { manager := { lifetime, aliveTime, session := none }, grant := none, clock := start }
  step := step

end Holder

namespace ExclusiveSession

variable {m : ExclusiveSession} {now : Rat} {s : Session} {token : String}

-- Either there is a session within both timeouts, and nothing changes; or there is none, and a session
-- that is past one of them is marked.
theorem isAliveInternal_cases (m : ExclusiveSession) (now : Rat) :
    (m.isAliveInternal now = (true, m) ∧ ∃ s, m.session = some s ∧ s.expired = false ∧ s.Fresh m now) ∨
    ((∀ s, m.session = some s → s.expired = false → ¬s.Fresh m now) ∧
      (m.isAliveInternal now = (false, m) ∧ (∀ s, m.session = some s → s.expired = true) ∨
        ∃ s, m.session = some s ∧ s.expired = false ∧
          m.isAliveInternal now = (false, m.setSession { s with expired := true }))) := by
  unfold isAliveInternal
  cases hs : m.session with
  | none => simp
  | some s =>
    cases he : s.expired with
    | true => simp [he]
    | false =>
      by_cases hl : now - s.creationTime ≥ m.lifetime
      · simp [he, hl, Session.Fresh, not_lt.mpr hl]
      · by_cases ha : now - s.keepaliveTime ≥ m.aliveTime
        · simp [he, hl, ha, Session.Fresh, not_lt.mpr ha]
        · simp [he, hl, ha, Session.Fresh, not_le.mp hl, not_le.mp ha]

theorem isAliveInternal_iff : (m.isAliveInternal now).1 = true ↔
    ∃ s, m.session = some s ∧ s.expired = false ∧ s.Fresh m now := by
  obtain ⟨e, h⟩ | ⟨hn, ⟨e, _⟩ | ⟨_, _, _, e⟩⟩ := m.isAliveInternal_cases now
  · simp [e, h]
  · simp [e]
    exact hn
  · simp [e]
    exact hn

variable [Hmac]

theorem owned_eq_ok : m.owned token = .ok s ↔
    m.session = some s ∧ s.expired = false ∧ verifyToken token s.sessionId s.hmacKey := by
  unfold owned
  cases hs : m.session with
  | none => simp
  | some s' =>
    cases he : s'.expired <;> cases hv : verifyToken token s'.sessionId s'.hmacKey <;> simp [he, hv]
    all_goals
      rintro rfl
      simp_all

-- The current token is accepted.
theorem verifyToken_makeToken {sessionId hmacKey : Bytes} (h : sessionId.length = 16)
    (hm : (Hmac.mac hmacKey sessionId).length = 16) :
    verifyToken (makeToken sessionId hmacKey) sessionId hmacKey := by
  simp [verifyToken, makeToken, decode_encode, h, hm, List.take_left' h, List.drop_left' h]

-- A call that presents a token succeeds exactly if its session is flagged as live and the rest is in order.
theorem accepts_iff {call : Call} (h : call.presents = some token) :
    (m.perform now call).1.accepts ↔ ∃ s, m.owned token = .ok s ∧ call.due m now s := by
  cases call with
  | renew _ hmacKey =>
    cases h
    simp only [perform, renew, Prod.map]
    cases ho : m.owned token with
    | error e => simp [Answer.ofToken, Answer.accepts]
    | ok s =>
      by_cases hd : now - s.creationTime < m.lifetime / 3
      · simp [hd, Call.due, Answer.ofToken, Answer.accepts]
      · simp [hd, Call.due, Answer.ofToken, Answer.accepts, not_lt.mp hd]
  | keepAlive _ =>
    cases h
    simp only [perform, keepAlive, Prod.map, Call.due]
    cases m.owned token <;> simp [Answer.ofDone, Answer.accepts]
  | release _ =>
    cases h
    simp only [perform, release, Prod.map, Call.due]
    cases m.owned token <;> simp [Answer.ofDone, Answer.accepts]
  | isOwner _ =>
    cases h
    simp only [perform, isOwner, Prod.map, Call.due, Answer.accepts]
    obtain ⟨e, s, hs, he, hf⟩ | ⟨hn, hc⟩ := m.isAliveInternal_cases now
    · cases hv : verifyToken token s.sessionId s.hmacKey <;> simp [e, hs, hv, owned_eq_ok, he]
      exact hf
    · have hr : (m.isAliveInternal now).1 = false := by
        obtain ⟨e, _⟩ | ⟨_, _, _, e⟩ := hc <;> rw [e]
      have : ¬∃ s, m.owned token = .ok s ∧ s.Fresh m now := by
        rintro ⟨s, ho, hf⟩
        have ⟨hs, he, _⟩ := owned_eq_ok.mp ho
        exact hn s hs he hf
      simp only [hr, this, iff_false]
      cases (m.isAliveInternal now).2.session <;> simp
  | _ => cases h

theorem acquires_iff {call : Call} (h : call.acquires) :
    (m.perform now call).1.accepts ↔ (m.isAliveInternal now).1 = false := by
  cases call with
  | acquire _ _ _ _ =>
    simp only [perform, acquire, Prod.map]
    cases (m.isAliveInternal now).1 <;> simp [Answer.ofToken, Answer.accepts]
  | _ => cases h

theorem inspects_iff {call : Call} (h : call.inspects) :
    (m.perform now call).1.accepts ↔ (m.isAliveInternal now).1 = true := by
  cases call with
  | isAlive => rfl
  | getKey =>
    simp only [perform, getKey, Prod.map]
    obtain ⟨e, s, hs, _⟩ | ⟨_, ⟨e, _⟩ | ⟨_, _, _, e⟩⟩ := m.isAliveInternal_cases now
    · simp [e, hs, Answer.accepts]
    · simp [e, Answer.accepts]
    · simp [e, Answer.accepts]
  | _ => cases h

end ExclusiveSession

theorem Session.Fresh.mono {s : Session} {m : ExclusiveSession} {now now' : Rat} (h : s.Fresh m now')
    (hn : now ≤ now') : s.Fresh m now :=
  ⟨(sub_le_sub_right hn _).trans_lt h.1, (sub_le_sub_right hn _).trans_lt h.2⟩

-- What a session grants.
def Session.grant (s : Session) : Grant where
  token   := s.token
  renewed := s.creationTime
  active  := s.keepaliveTime

namespace Holder

variable {h h' : Holder} {now : Rat} {call : Call}

-- The manager's session is the one that was granted; if it is flagged as expired, then it was released or
-- is past its time.
structure Tracks (h : Holder) : Prop where
  free : h.grant = none → ∀ s, h.manager.session = some s → s.expired = true
  held : ∀ g, h.grant = some g → ∃ s, h.manager.session = some s ∧ g = s.grant ∧
    (s.expired = true → ¬s.Fresh h.manager h.clock)

theorem Tracks.live_iff (hi : h.Tracks) (hn : h.clock ≤ now) :
    h.Live now ↔ ∃ s, h.manager.session = some s ∧ s.expired = false ∧ s.Fresh h.manager now := by
  constructor
  · rintro ⟨g, hg, hl⟩
    obtain ⟨s, hs, rfl, he⟩ := hi.held g hg
    refine ⟨s, hs, ?_, hl⟩
    by_contra hx
    exact he (by simpa using hx) (Session.Fresh.mono hl hn)
  · rintro ⟨s, hs, he, hf⟩
    cases hg : h.grant with
    | none => exact absurd (hi.free hg s hs) (by simp [he])
    | some g =>
      obtain ⟨s', hs', rfl, _⟩ := hi.held g hg
      cases hs.symm.trans hs'
      exact ⟨_, hg, hf⟩

variable [Hmac]

theorem Tracks.lawful_iff (hi : h.Tracks) (hn : h.clock ≤ now) : h.Lawful now call ↔ h.Guarded now call := by
  have hlive : h.Live now ↔ (h.manager.isAliveInternal now).1 = true := by
    rw [hi.live_iff hn, ExclusiveSession.isAliveInternal_iff]
  have hacq : call.acquires → ((h.answer now call).accepts ↔ ¬h.Live now) := fun hc => by
    rw [hlive, Bool.not_eq_true]
    exact ExclusiveSession.acquires_iff hc
  have hins : call.inspects → ((h.answer now call).accepts ↔ h.Live now) := fun hc => by
    rw [hlive]
    exact ExclusiveSession.inspects_iff hc
  refine ⟨fun ⟨hl, _⟩ token s hp ho hd => ?_, fun hg => ⟨fun token hp ha => ?_, hacq, hins⟩⟩
  · have ⟨⟨g, hg, hf⟩, ht⟩ := hl token hp ((ExclusiveSession.accepts_iff hp).mpr ⟨s, ho, hd⟩)
    obtain ⟨s', hs', rfl, _⟩ := hi.held g hg
    cases (ExclusiveSession.owned_eq_ok.mp ho).1.symm.trans hs'
    exact ⟨(ht _ hg).symm, hf⟩
  · obtain ⟨s, ho, hd⟩ := (ExclusiveSession.accepts_iff hp).mp ha
    have ⟨hs, he, _⟩ := ExclusiveSession.owned_eq_ok.mp ho
    have ⟨ht, hf⟩ := hg token s hp ho hd
    refine ⟨(hi.live_iff hn).mpr ⟨s, hs, he, hf⟩, fun g hg => ?_⟩
    obtain ⟨s', hs', rfl, _⟩ := hi.held g hg
    cases hs.symm.trans hs'
    exact ht.symm

omit [Hmac] in
theorem Tracks.later (hi : h.Tracks) (hn : h.clock ≤ now) : Tracks { h with clock := now } where
  free := hi.free
  held := fun g hg => by
    have ⟨s, hs, e, he⟩ := hi.held g hg
    exact ⟨s, hs, e, fun hx hf => he hx (hf.mono hn)⟩

omit [Hmac] in
-- A session that is not flagged is the one that was granted.
theorem Tracks.grant_eq {s : Session} (hi : h.Tracks) (hs : h.manager.session = some s)
    (he : s.expired = false) : h.grant = some s.grant := by
  cases hg : h.grant with
  | none => exact absurd (hi.free hg s hs) (by simp [he])
  | some g =>
    obtain ⟨s', hs', rfl, _⟩ := hi.held g hg
    cases hs.symm.trans hs'
    rfl

omit [Hmac] in
theorem Tracks.lapse (hi : h.Tracks) (hn : h.clock ≤ now) :
    Tracks { h with manager := (h.manager.isAliveInternal now).2, clock := now } := by
  obtain ⟨e, _⟩ | ⟨hl, ⟨e, _⟩ | ⟨s, hs, he, e⟩⟩ := h.manager.isAliveInternal_cases now
  · simpa only [e] using hi.later hn
  · simpa only [e] using hi.later hn
  · rw [e]
    refine ⟨fun hg => absurd hg ?_, fun g hg => ?_⟩
    · simp [hi.grant_eq hs he]
    · cases (hi.grant_eq hs he).symm.trans hg
      exact ⟨{ s with expired := true }, rfl, rfl, fun _ => hl s hs he⟩

omit [Hmac] in
theorem Tracks.of_session {s : Session} (hs : h.manager.session = some s) (he : s.expired = false)
    (hg : h.grant = some s.grant) : h.Tracks where
  free := fun hn => by simp [hn] at hg
  held := fun g hg' => by
    cases hg.symm.trans hg'
    exact ⟨s, hs, rfl, by simp [he]⟩

theorem Tracks.step (hi : h.Tracks) (e : h.step (now, call) = some h') : h'.Tracks := by
  simp only [Holder.step, Option.ite_none_right_eq_some] at e
  obtain ⟨hn, e⟩ := e
  cases e
  cases call with
  | acquire owner key sessionId hmacKey =>
    cases ha : (h.manager.isAliveInternal now).1 with
    | true =>
      have := hi.lapse hn
      simpa [answer, ExclusiveSession.perform, ExclusiveSession.acquire, ha, Answer.ofToken, record] using this
    | false =>
      simp only [answer, ExclusiveSession.perform, ExclusiveSession.acquire, ha]
      exact .of_session rfl rfl rfl
  | renew token hmacKey =>
    simp only [answer, ExclusiveSession.perform, ExclusiveSession.renew]
    cases ho : h.manager.owned token with
    | error e => exact hi.later hn
    | ok s =>
      by_cases hd : now - s.creationTime < h.manager.lifetime / 3
      · simp only [hd, if_true]
        exact hi.later hn
      · simp only [hd, if_false]
        exact .of_session rfl (ExclusiveSession.owned_eq_ok.mp ho).2.1 rfl
  | keepAlive token =>
    simp only [answer, ExclusiveSession.perform, ExclusiveSession.keepAlive]
    cases ho : h.manager.owned token with
    | error e => exact hi.later hn
    | ok s =>
      have ⟨hs, he, _⟩ := ExclusiveSession.owned_eq_ok.mp ho
      refine .of_session rfl he ?_
      simp [Answer.ofDone, record, hi.grant_eq hs he, Session.grant]
  | release token =>
    simp only [answer, ExclusiveSession.perform, ExclusiveSession.release]
    cases ho : h.manager.owned token with
    | error e => exact hi.later hn
    | ok s => exact ⟨fun _ _ hs => by cases hs; rfl, fun _ hg => nomatch hg⟩
  | isOwner token =>
    simp only [answer, ExclusiveSession.perform, ExclusiveSession.isOwner]
    obtain ⟨e, s, hs, he, hf⟩ | ⟨_, hc⟩ := h.manager.isAliveInternal_cases now
    · simp only [e, hs]
      cases hv : verifyToken token s.sessionId s.hmacKey with
      | false => simpa [record] using hi.later hn
      | true =>
        refine .of_session rfl he ?_
        simp [record, hi.grant_eq hs he, Session.grant]
    · have hr : (h.manager.isAliveInternal now).1 = false := by
        obtain ⟨e, _⟩ | ⟨_, _, _, e⟩ := hc <;> rw [e]
      have := hi.lapse hn
      cases hs : (h.manager.isAliveInternal now).2.session <;> simpa [hr, hs, record] using this
  | isAlive => exact hi.lapse hn
  | getKey =>
    have := hi.lapse hn
    simp only [answer, ExclusiveSession.perform, ExclusiveSession.getKey]
    cases (h.manager.isAliveInternal now).1 <;> exact this

variable {lifetime aliveTime start : Rat}

theorem tracks_of_reachable (r : (system lifetime aliveTime start).Reachable h) : h.Tracks :=
  r.induct ⟨fun _ _ h => (nomatch h), fun _ h => (nomatch h)⟩ fun _ _ _ _ hi _ e => hi.step e

-- In every state that clients can bring about, a call is answered as the two timeouts have it exactly if it
-- is guarded.
theorem lawful_iff_guarded (r : (system lifetime aliveTime start).Reachable h) (hn : h.clock ≤ now) :
    h.Lawful now call ↔ h.Guarded now call :=
  (tracks_of_reachable r).lawful_iff hn

end Holder

namespace Revived

local instance hmac : Hmac where
  mac key _ := key

def sessionId : Bytes := List.replicate 16 1
def hmacKey : Bytes := List.replicate 16 2
def token : String := makeToken sessionId hmacKey

def system : TransitionSystem Holder (Rat × Call) :=
  Holder.system 3600 60 0

def session : Session where
  owner         := "A"
  sessionId     := sessionId
  hmacKey       := hmacKey
  token         := token
  exclusiveKey  := []
  creationTime  := 0
  keepaliveTime := 0

-- Acquired at 0, with no call since.
def acquired : Holder where
  manager := { lifetime := 3600, aliveTime := 60, session }
  grant   := session.grant
  clock   := 0

theorem acquired_reachable : system.Reachable acquired :=
  .of_run [(0, .acquire "A" [] sessionId hmacKey)] (by decide +kernel)

theorem lawful_iff_guarded_acquired : acquired.Lawful 59 (.keepAlive token) := by
  refine (Holder.lawful_iff_guarded acquired_reachable (by decide)).mpr fun t s hp ho _ => ?_
  cases hp
  cases (ExclusiveSession.owned_eq_ok.mp ho).1
  exact ⟨rfl, by decide +kernel, by decide +kernel⟩

-- A minute of silence ends the session. The keep-alive that comes then is accepted all the same, unless
-- another client happened to look in between; and a text that only decodes to the token is taken for it.
theorem lapsed_session_revived :
    system.Reachable acquired ∧ ¬acquired.Lawful 60 (.keepAlive token) ∧
    acquired.answer 60 (.keepAlive token) = .done ∧
    ((acquired.step (60, .isAlive)).map fun h => h.answer 60 (.keepAlive token)) =
      some (.refused (.notAllowed "no active session")) ∧
    acquired.answer 59 (.keepAlive (token ++ "!")) = .done := by
  refine ⟨acquired_reachable, fun ⟨hl, _⟩ => ?_, by decide +kernel⟩
  have ⟨⟨g, hg, hf⟩, _⟩ := hl token rfl (by decide +kernel)
  cases hg
  exact absurd hf.2 (by decide +kernel)

end Revived
end Reservation
