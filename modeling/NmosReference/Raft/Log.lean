import NmosReference.Library.Handler
import NmosReference.Library.Protobuf
import NmosReference.Raft.Machine

open Protobuf

namespace Raft

-- An entry of the log: what was proposed, also as the bytes it travels in.
structure LogEntry (α : Type) extends Entry α where
  payload : Bytes
deriving DecidableEq, Repr

-- Everything the log can raise, with the numbers that are in its message.
inductive LogFault
  | compacted (index snapshotIndex : Nat)
  | notHeld (index first last : Nat)
  | contradicted (index arrived held committed : Nat)
  | notContiguous (index last : Nat)
  | beyond (index last : Nat)
deriving DecidableEq, Repr

structure RaftLog (α : Type) where
  entries       : List (LogEntry α)
  snapshotIndex : Nat
  snapshotTerm  : Nat
deriving DecidableEq, Repr

namespace RaftLog

variable {α : Type} (log : RaftLog α)

def new : RaftLog α where
  entries       := []
  snapshotIndex := 0
  snapshotTerm  := 0

def firstIndex : Nat :=
  log.snapshotIndex + 1

def lastIndex : Nat :=
  (log.entries.getLast?.map (·.index)).getD log.snapshotIndex

def lastTerm : Nat :=
  (log.entries.getLast?.map (·.term)).getD log.snapshotTerm

def position (index : Nat) : Except LogFault Nat :=
  if index ≤ log.snapshotIndex then
    .error <| .compacted index log.snapshotIndex
  else if index - log.firstIndex < log.entries.length then
    .ok <| index - log.firstIndex
  else
    .error <| .notHeld index log.firstIndex log.lastIndex

def get (index : Nat) : Except LogFault (LogEntry α) := do
  let position ← log.position index
  match log.entries[position]? with
  | some entry => .ok entry
  | none       => .error <| .notHeld index log.firstIndex log.lastIndex

-- Index 0 of a log that was never compacted is its snapshot's, at term 0.
def termAt (index : Nat) : Except LogFault Nat :=
  if index = log.snapshotIndex then
    .ok log.snapshotTerm
  else
    (log.get index).map (·.term)

def slice (start limit : Nat) : Except LogFault (List (LogEntry α)) :=
  if limit = 0 ∨ log.lastIndex < start then
    .ok []
  else do
    let first ← log.position start
    return log.entries.drop first |>.take limit

-- How many entries fit. The first one is sent whatever its size.
def fitting (maxBytes : Nat) : (taken total : Nat) → List (LogEntry α) → Nat
  | taken, _,     []               => taken
  | taken, total, entry :: entries =>
    let total := total + entry.payload.length
    if maxBytes < total ∧ 0 < taken then taken else fitting maxBytes (taken + 1) total entries

def window (start maxEntries maxBytes : Nat) : Except LogFault (List (LogEntry α)) := do
  let entries ← log.slice start maxEntries
  return entries.take (fitting maxBytes 0 0 entries)

-- The entries as this member numbers them.
def numbered (term : Nat) : Nat → List (Bytes × α) → List (LogEntry α)
  | _,     []                         => []
  | first, (payload, value) :: values => { term, index := first, value, payload } :: numbered term (first + 1) values

def append (term : Nat) (values : List (Bytes × α)) : RaftLog α :=
  { log with entries := log.entries ++ numbered term (log.lastIndex + 1) values }

def truncateSuffix (fromIndex : Nat) : Except LogFault (RaftLog α) :=
  if fromIndex ≤ log.snapshotIndex then
    .error <| .compacted fromIndex log.snapshotIndex
  else if log.lastIndex < fromIndex then
    .ok log
  else do
    let position ← log.position fromIndex
    return { log with entries := log.entries.take position }

-- One entry from the leader. An entry that is held already is not written again.
def appendOne (committed : Nat) (entry : LogEntry α) : Handler (RaftLog α) LogFault Unit := fun log =>
  if entry.index ≤ log.snapshotIndex then
    (.ok (), log)
  else if entry.index ≤ log.lastIndex then
    match log.get entry.index with
    | .error fault => (.error fault, log)
    | .ok existing =>
      if existing.term = entry.term then
        (.ok (), log)
      else if entry.index ≤ committed then
        (.error <| .contradicted entry.index entry.term existing.term committed, log)
      else
        match log.truncateSuffix entry.index with
        | .error fault => (.error fault, log)
        | .ok log      => follow log
  else
    follow log
where
  follow (log : RaftLog α) : Except LogFault Unit × RaftLog α :=
    if entry.index = log.lastIndex + 1 then
      (.ok (), { log with entries := log.entries ++ [entry] })
    else
      (.error <| .notContiguous entry.index log.lastIndex, log)

def appendReplicated (committed : Nat) : List (LogEntry α) → Handler (RaftLog α) LogFault Unit
  | []               => pure ()
  | entry :: entries => do
    appendOne committed entry
    appendReplicated committed entries

def discardThrough (index term : Nat) : Except LogFault (RaftLog α) :=
  if log.lastIndex < index then
    .error <| .beyond index log.lastIndex
  else if index ≤ log.snapshotIndex then
    .ok log
  else do
    let position ← log.position index
    return { entries := log.entries.drop (position + 1), snapshotIndex := index, snapshotTerm := term }

def resetToSnapshot (index term : Nat) : RaftLog α where
  entries       := []
  snapshotIndex := index
  snapshotTerm  := term

def holds (index term : Nat) : Bool :=
  if index = 0 then
    log.snapshotIndex = 0
  else if index < log.snapshotIndex ∨ log.lastIndex < index then
    false
  else if index = log.snapshotIndex then
    term = log.snapshotTerm
  else
    match log.get index with
    | .ok entry => entry.term = term
    | .error _  => false

-- Walks back over the entries of one term.
def firstOfTerm (conflicting : Nat) : Nat → Nat
  | 0         => 0
  | first + 1 =>
    if log.firstIndex < first + 1 then
      match log.get first with
      | .ok entry => if entry.term = conflicting then firstOfTerm conflicting first else first + 1
      | .error _  => first + 1
    else
      first + 1

def findConflict (index term : Nat) : Nat × Nat :=
  if log.lastIndex < index then
    (log.lastIndex + 1, log.lastTerm)
  else
    match log.get index with
    | .error _ => (log.firstIndex, log.snapshotTerm)
    | .ok held =>
      if held.term = term then (index, term) else (log.firstOfTerm held.term index, held.term)

def isAtLeastAsCurrentAs (index term : Nat) : Bool :=
  if term ≠ log.lastTerm then log.lastTerm < term else log.lastIndex ≤ index

-- The entry held at an index.
def entryAt? (index : Nat) : Option (LogEntry α) :=
  if index ≤ log.snapshotIndex then none else log.entries[index - log.firstIndex]?

-- The entries are numbered from the snapshot on.
def WellFormed : Prop :=
  ∀ i e, log.entries[i]? = some e → e.index = log.firstIndex + i

variable {log} {log' : RaftLog α} {e : LogEntry α} {es : List (LogEntry α)} {index term committed prev : Nat}

namespace WellFormed

theorem new : (new : RaftLog α).WellFormed := by
  intro i e h
  simp [RaftLog.new] at h

theorem resetToSnapshot : (RaftLog.resetToSnapshot index term : RaftLog α).WellFormed := by
  intro i e h
  simp [RaftLog.resetToSnapshot] at h

theorem lastIndex (h : log.WellFormed) : log.lastIndex = log.snapshotIndex + log.entries.length := by
  rw [RaftLog.lastIndex]
  cases hl : log.entries.getLast? with
  | none =>
    rw [List.getLast?_eq_none_iff] at hl
    simp [hl]
  | some e =>
    rw [List.getLast?_eq_getElem?] at hl
    have hi := h _ _ hl
    have hlt := (List.getElem?_eq_some_iff.mp hl).1
    simp only [Option.map_some, Option.getD_some, hi, firstIndex]
    omega

theorem append_entries (h : log.WellFormed)
    (hes : ∀ i e, es[i]? = some e → e.index = log.lastIndex + 1 + i) :
    ({ log with entries := log.entries ++ es } : RaftLog α).WellFormed := by
  intro i e hi
  rw [h.lastIndex] at hes
  simp only [List.getElem?_append] at hi
  split at hi
  case isTrue  => exact h i e hi
  case isFalse =>
    rw [hes _ _ hi, firstIndex]
    simp only
    omega

theorem take (h : log.WellFormed) (n : Nat) :
    ({ log with entries := log.entries.take n } : RaftLog α).WellFormed := by
  intro i e hi
  rw [List.getElem?_take] at hi
  split at hi
  case isTrue  => exact h i e hi
  case isFalse => cases hi

end WellFormed

theorem entryAt?_lt (h : log.entryAt? index = some e) : log.snapshotIndex < index := by
  rw [entryAt?] at h
  split at h
  case isTrue  => cases h
  case isFalse => omega

theorem get_eq_ok : log.get index = .ok e ↔ log.entryAt? index = some e := by
  unfold get position entryAt?
  by_cases hs : index ≤ log.snapshotIndex
  case pos => simp [hs, bind, Except.bind]
  case neg =>
    by_cases hl : index - log.firstIndex < log.entries.length
    case pos => simp [hs, hl, bind, Except.bind]
    case neg => simp [hs, hl, bind, Except.bind]

theorem WellFormed.entryAt?_isSome (h : log.WellFormed) (hs : log.snapshotIndex < index) (hl : index ≤ log.lastIndex) :
    ∃ e, log.entryAt? index = some e := by
  rw [h.lastIndex] at hl
  have hi : index - log.firstIndex < log.entries.length := by
    rw [firstIndex]
    omega
  exact ⟨_, by rw [entryAt?, if_neg (by omega), List.getElem?_eq_getElem hi]⟩

theorem WellFormed.le_lastIndex (h : log.WellFormed) (he : log.entryAt? index = some e) : index ≤ log.lastIndex := by
  have hs := entryAt?_lt he
  rw [entryAt?, if_neg (by omega)] at he
  have hi := (List.getElem?_eq_some_iff.mp he).1
  rw [h.lastIndex]
  rw [firstIndex] at hi
  omega

theorem WellFormed.entryAt?_index (h : log.WellFormed) (he : log.entryAt? index = some e) : e.index = index := by
  have hs := entryAt?_lt he
  rw [entryAt?, if_neg (by omega)] at he
  rw [h _ _ he, firstIndex]
  omega

-- Below the end of what is added, the entries are the old ones.
theorem entryAt?_append_of_le (h : log.WellFormed) (hi : index ≤ log.lastIndex) :
    ({ log with entries := log.entries ++ es } : RaftLog α).entryAt? index = log.entryAt? index := by
  rw [h.lastIndex] at hi
  simp only [entryAt?, firstIndex]
  by_cases hs : index ≤ log.snapshotIndex
  case pos => rw [if_pos hs, if_pos hs]
  case neg => rw [if_neg hs, if_neg hs, List.getElem?_append_left (by omega)]

theorem entryAt?_append_of_lt (h : log.WellFormed) (hi : log.lastIndex < index) :
    ({ log with entries := log.entries ++ es } : RaftLog α).entryAt? index = es[index - log.lastIndex - 1]? := by
  rw [h.lastIndex] at hi
  rw [h.lastIndex]
  unfold entryAt? firstIndex
  simp only
  rw [if_neg (by omega), List.getElem?_append_right (by omega)]
  congr 1
  omega

theorem entryAt?_take {n : Nat} (hi : index ≤ log.snapshotIndex + n) :
    ({ log with entries := log.entries.take n } : RaftLog α).entryAt? index = log.entryAt? index := by
  simp only [entryAt?, firstIndex]
  by_cases hs : index ≤ log.snapshotIndex
  case pos => rw [if_pos hs, if_pos hs]
  case neg => rw [if_neg hs, if_neg hs, List.getElem?_take, if_pos (by omega)]

theorem WellFormed.position_eq (h : log.WellFormed) (hs : log.snapshotIndex < index) (hl : index ≤ log.lastIndex) :
    log.position index = .ok (index - log.firstIndex) := by
  have hlast := h.lastIndex
  have hi : index - log.firstIndex < log.entries.length := by
    rw [firstIndex]
    omega
  rw [position, if_neg (by omega), if_pos hi]

theorem position_ok {position : Nat} (h : log.position index = .ok position) :
    log.snapshotIndex < index ∧ position = index - log.firstIndex := by
  unfold RaftLog.position at h
  split at h
  case isTrue     => cases h
  case isFalse hs =>
    split at h
    case isTrue  => cases h; exact ⟨by omega, rfl⟩
    case isFalse => cases h

theorem WellFormed.slice_index {start limit : Nat} (h : log.WellFormed) (hs : log.slice start limit = .ok es)
    (he : e ∈ es) : e.index < start + limit := by
  unfold slice at hs
  split at hs
  case isTrue  => cases hs; cases he
  case isFalse =>
    simp only [bind, Except.bind, pure, Except.pure] at hs
    split at hs
    case h_1 => cases hs
    case h_2 first hp =>
      cases hs
      obtain ⟨i, hi⟩ := List.getElem?_of_mem he
      have ⟨hlt, hf⟩ := position_ok hp
      rw [List.getElem?_take] at hi
      split at hi
      case isFalse   => cases hi
      case isTrue hl =>
        rw [List.getElem?_drop] at hi
        rw [h _ _ hi]
        rw [firstIndex] at hf ⊢
        omega

-- A window of a log can be read wherever it starts, unless it starts below what was compacted.
theorem WellFormed.window_cases (h : log.WellFormed) (hl : prev ≤ log.lastIndex) (maxEntries maxBytes : Nat) :
    (∃ term entries, log.termAt prev = .ok term ∧ log.window (prev + 1) maxEntries maxBytes = .ok entries) ∨
      ∃ index snapshotIndex, log.termAt prev = .error (.compacted index snapshotIndex) := by
  by_cases hs : prev < log.snapshotIndex
  case pos =>
    refine .inr ⟨prev, log.snapshotIndex, ?_⟩
    rw [termAt, if_neg (by omega), get, position, if_pos (by omega)]
    rfl
  case neg =>
    have ht : ∃ term, log.termAt prev = .ok term := by
      rw [termAt]
      split
      case isTrue  => exact ⟨_, rfl⟩
      case isFalse =>
        obtain ⟨e, he⟩ := h.entryAt?_isSome (by omega) hl
        exact ⟨e.term, by rw [get_eq_ok.mpr he]; rfl⟩
    have hw : ∃ entries, log.slice (prev + 1) maxEntries = .ok entries := by
      rw [slice]
      split
      case isTrue  => exact ⟨_, rfl⟩
      case isFalse hn =>
        rw [h.position_eq (by omega) (by omega)]
        exact ⟨_, rfl⟩
    obtain ⟨term, ht⟩ := ht
    obtain ⟨entries, hw⟩ := hw
    exact .inl ⟨term, _, ht, by rw [window, hw]; rfl⟩

-- The entries that follow an index one by one.
def Follow (prev : Nat) (es : List (LogEntry α)) : Prop :=
  ∀ i e, es[i]? = some e → e.index = prev + 1 + i

theorem follow_cons : Follow prev (e :: es) ↔ e.index = prev + 1 ∧ Follow (prev + 1) es := by
  constructor
  · intro h
    refine ⟨h 0 e rfl, fun i e' hi => ?_⟩
    rw [h (i + 1) e' hi]
    omega
  · rintro ⟨he, h⟩ i e' hi
    cases i with
    | zero   => cases hi; exact he
    | succ i => rw [h i e' hi]; omega

theorem WellFormed.truncateSuffix_eq (h : log.WellFormed) (hs : log.snapshotIndex < index)
    (hl : index ≤ log.lastIndex) :
    log.truncateSuffix index = .ok { log with entries := log.entries.take (index - log.firstIndex) } := by
  rw [truncateSuffix, if_neg (by omega), if_neg (by omega), h.position_eq hs hl]
  rfl

theorem run_appendOne_end (h : log.WellFormed) (he : e.index = log.lastIndex + 1) :
    (appendOne committed e).run log = (.ok (), { log with entries := log.entries ++ [e] }) := by
  have hl := h.lastIndex
  simp only [Handler.run, appendOne, appendOne.follow]
  rw [if_neg (by omega), if_neg (by omega), if_pos he]

-- Entries that go on from the end of the log are all appended.
theorem run_appendReplicated_end (h : log.WellFormed) (hf : Follow log.lastIndex es) :
    (appendReplicated committed es).run log = (.ok (), { log with entries := log.entries ++ es }) := by
  induction es generalizing log with
  | nil => simp [appendReplicated]
  | cons e es ih =>
    have ⟨he, hf⟩ := follow_cons.mp hf
    have hw : ({ log with entries := log.entries ++ [e] } : RaftLog α).WellFormed :=
      h.append_entries fun i e' hi => by
        cases i with
        | zero   => cases hi; exact he
        | succ i => simp at hi
    have hl : ({ log with entries := log.entries ++ [e] } : RaftLog α).lastIndex = log.lastIndex + 1 := by
      rw [hw.lastIndex, h.lastIndex, List.length_append]
      rfl
    rw [appendReplicated, Handler.run_bind_ok (run_appendOne_end h he), ih hw (hl ▸ hf)]
    simp

-- What is left of the log after the leader's entries have been spliced in behind `prev`: the first `k`
-- of them were held already, and the others replace whatever was behind those.
structure Splice (log : RaftLog α) (prev : Nat) (es : List (LogEntry α)) (k : Nat) (log' : RaftLog α) : Prop where
  le     : k ≤ es.length
  held   : ∀ i e, i < k → es[i]? = some e → ∃ held, log.entryAt? (prev + 1 + i) = some held ∧ held.term = e.term
  same   : k = es.length → log' = log
  differ : ∀ e held, es[k]? = some e → log.entryAt? (prev + 1 + k) = some held → held.term ≠ e.term
  spliced : k < es.length →
    log' = { log with entries := log.entries.take (prev + k - log.snapshotIndex) ++ es.drop k }

theorem run_appendReplicated (h : log.WellFormed) (hs : log.snapshotIndex ≤ prev) (hc : committed ≤ prev)
    (hl : prev ≤ log.lastIndex) (hf : Follow prev es) :
    ∃ log' k, (appendReplicated committed es).run log = (.ok (), log') ∧ Splice log prev es k log' := by
  induction es generalizing prev with
  | nil =>
    refine ⟨log, 0, rfl, ?_⟩
    constructor <;> simp
  | cons e es ih =>
    have ⟨he, hf'⟩ := follow_cons.mp hf
    have hlast := h.lastIndex
    by_cases hp : prev = log.lastIndex
    case pos =>
      refine ⟨_, 0, run_appendReplicated_end h (hp ▸ hf), ?_⟩
      constructor
      case le      => exact Nat.zero_le _
      case held    => simp
      case same    => simp
      case differ  =>
        intro _ held _ hh
        have := h.le_lastIndex hh
        omega
      case spliced =>
        intro _
        rw [List.take_of_length_le (by omega), List.drop_zero]
    case neg =>
      obtain ⟨held, hh⟩ := h.entryAt?_isSome (by omega) (show prev + 1 ≤ log.lastIndex by omega)
      have hg := get_eq_ok.mpr hh
      by_cases ht : held.term = e.term
      case pos =>
        have hr : (appendOne committed e).run log = (.ok (), log) := by
          simp only [Handler.run, appendOne, he, hg]
          rw [if_neg (by omega), if_pos (by omega), if_pos ht]
        obtain ⟨log', k, hrun, sp⟩ := ih (by omega) (by omega) (show prev + 1 ≤ log.lastIndex by omega) hf'
        refine ⟨log', k + 1, by rw [appendReplicated, Handler.run_bind_ok hr, hrun], ?_⟩
        constructor
        case le => exact Nat.succ_le_succ sp.le
        case held =>
          intro i e' hi hei
          cases i with
          | zero   => cases hei; exact ⟨held, hh, ht⟩
          | succ i =>
            obtain ⟨held', hh', ht'⟩ := sp.held i e' (by omega) hei
            exact ⟨held', by rw [← hh']; congr 1; omega, ht'⟩
        case same => exact fun hk => sp.same (Nat.succ.inj hk)
        case differ =>
          intro e' held' hei hh'
          exact sp.differ e' held' hei (by rw [← hh']; congr 1; omega)
        case spliced =>
          intro hk
          rw [sp.spliced (Nat.lt_of_succ_lt_succ hk), List.drop_succ_cons]
          congr 3
          omega
      case neg =>
        have hw := h.take (prev - log.snapshotIndex)
        have hwl : ({ log with entries := log.entries.take (prev - log.snapshotIndex) } : RaftLog α).lastIndex = prev := by
          rw [hw.lastIndex, List.length_take]
          simp only
          omega
        have hr : (appendReplicated committed (e :: es)).run log = (appendReplicated committed (e :: es)).run
            { log with entries := log.entries.take (prev - log.snapshotIndex) } := by
          have hle : prev + 1 ≤ log.lastIndex := by omega
          have hpos : prev + 1 - log.firstIndex = prev - log.snapshotIndex := by
            rw [firstIndex]
            omega
          have hone : (appendOne committed e).run log = (appendOne committed e).run
              { log with entries := log.entries.take (prev - log.snapshotIndex) } := by
            rw [run_appendOne_end hw (by rw [hwl, he])]
            simp only [Handler.run, appendOne, appendOne.follow, he, hg, h.truncateSuffix_eq (by omega) hle, hpos]
            rw [if_neg (by omega), if_pos hle, if_neg ht, if_neg (by omega), if_pos (by rw [hwl])]
          rw [appendReplicated, Handler.run_bind, hone, ← Handler.run_bind]
        refine ⟨_, 0, hr.trans (run_appendReplicated_end hw (by rwa [hwl])), ?_⟩
        constructor
        case le      => exact Nat.zero_le _
        case held    => simp
        case same    => simp
        case differ  =>
          intro e' held' hei hh'
          cases hei
          rw [Nat.add_zero, hh] at hh'
          cases hh'
          exact ht
        case spliced =>
          intro _
          rw [List.drop_zero, Nat.add_zero]

-- A log that another one begins with.
structure Extends (log log' : RaftLog α) : Prop where
  wf            : log'.WellFormed
  snapshotIndex : log'.snapshotIndex = log.snapshotIndex
  lastIndex     : log.lastIndex ≤ log'.lastIndex
  entry         : ∀ i e, log.entryAt? i = some e → log'.entryAt? i = some e

theorem Extends.refl (h : log.WellFormed) : Extends log log :=
  ⟨h, rfl, le_rfl, fun _ _ h => h⟩

theorem Extends.trans {log'' : RaftLog α} (h : Extends log log') (h' : Extends log' log'') : Extends log log'' :=
  ⟨h'.wf, h'.snapshotIndex.trans h.snapshotIndex, h.lastIndex.trans h'.lastIndex, fun i e he => h'.entry i e (h.entry i e he)⟩

theorem getElem?_numbered {values : List (Bytes × α)} {first i : Nat} (h : (numbered term first values)[i]? = some e) :
    e.index = first + i ∧ e.term = term := by
  induction values generalizing first i with
  | nil => simp [numbered] at h
  | cons value values ih =>
    obtain ⟨payload, value⟩ := value
    cases i with
    | zero   => cases h; exact ⟨rfl, rfl⟩
    | succ i =>
      have ⟨hi, ht⟩ := ih h
      exact ⟨by omega, ht⟩

theorem extends_append {es : List (LogEntry α)} (h : log.WellFormed) (hf : Follow log.lastIndex es) :
    Extends log { log with entries := log.entries ++ es } := by
  have hw := h.append_entries hf
  refine ⟨hw, rfl, ?_, fun i e he => ?_⟩
  · rw [hw.lastIndex, h.lastIndex, List.length_append]
    simp only
    omega
  · rw [entryAt?_append_of_le h (h.le_lastIndex he), he]

theorem Extends.append (h : log.WellFormed) (term : Nat) (values : List (Bytes × α)) :
    Extends log (log.append term values) :=
  extends_append h fun _ _ hi => (getElem?_numbered hi).1

namespace Splice

variable {k : Nat}

-- The entries that were held already reach as far as they are counted.
theorem le_lastIndex (sp : Splice log prev es k log') (h : log.WellFormed) (hl : prev ≤ log.lastIndex) :
    prev + k ≤ log.lastIndex := by
  cases k with
  | zero   => exact hl
  | succ k =>
    have hlt : k < es.length := sp.le
    obtain ⟨held, hh, _⟩ := sp.held k _ (Nat.lt_succ_self k) (List.getElem?_eq_getElem hlt)
    have := h.le_lastIndex hh
    omega

theorem extends_taken (sp : Splice log prev es k log') (h : log.WellFormed) (hs : log.snapshotIndex ≤ prev)
    (hl : prev ≤ log.lastIndex) (hf : Follow prev es) (hlt : k < es.length) :
    Extends { log with entries := log.entries.take (prev + k - log.snapshotIndex) } log' ∧
      ({ log with entries := log.entries.take (prev + k - log.snapshotIndex) } : RaftLog α).lastIndex = prev + k := by
  have hk := sp.le_lastIndex h hl
  have hlast := h.lastIndex
  have ht := h.take (prev + k - log.snapshotIndex)
  have htl : ({ log with entries := log.entries.take (prev + k - log.snapshotIndex) } : RaftLog α).lastIndex =
      prev + k := by
    rw [ht.lastIndex, List.length_take]
    simp only
    omega
  have hd : Follow ({ log with entries := log.entries.take (prev + k - log.snapshotIndex) } : RaftLog α).lastIndex
      (es.drop k) := by
    rw [htl]
    intro i e hi
    rw [List.getElem?_drop] at hi
    rw [hf _ _ hi]
    omega
  rw [sp.spliced hlt]
  exact ⟨extends_append ht hd, htl⟩

-- What was held before the first of the entries that differ is held after.
theorem kept (sp : Splice log prev es k log') (h : log.WellFormed) (hs : log.snapshotIndex ≤ prev)
    (hl : prev ≤ log.lastIndex) (hi : index ≤ prev + k) : log'.entryAt? index = log.entryAt? index := by
  rcases Nat.lt_or_ge k es.length with hlt | hge
  case inr => rw [sp.same (Nat.le_antisymm sp.le hge)]
  case inl =>
    have hk := sp.le_lastIndex h hl
    have ht := h.take (prev + k - log.snapshotIndex)
    have hlast : index ≤ ({ log with entries := log.entries.take (prev + k - log.snapshotIndex) } :
        RaftLog α).lastIndex := by
      have := h.lastIndex
      rw [ht.lastIndex, List.length_take]
      simp only
      omega
    rw [sp.spliced hlt, entryAt?_append_of_le ht hlast, entryAt?_take (by omega)]

-- The others are the leader's.
theorem appended (sp : Splice log prev es k log') (h : log.WellFormed) (hs : log.snapshotIndex ≤ prev)
    (hl : prev ≤ log.lastIndex) (hf : Follow prev es) (hlt : k < es.length) (hi : prev + k < index)
    (he : log'.entryAt? index = some e) : e ∈ es := by
  have ⟨_, htl⟩ := sp.extends_taken h hs hl hf hlt
  rw [sp.spliced hlt, entryAt?_append_of_lt (h.take _) (by rw [htl]; exact hi)] at he
  exact List.mem_of_mem_drop (List.mem_of_getElem? he)

-- Behind `prev`, what is held before and after is the same.
theorem wf (sp : Splice log prev es k log') (h : log.WellFormed) (hs : log.snapshotIndex ≤ prev)
    (hl : prev ≤ log.lastIndex) (hf : Follow prev es) :
    log'.WellFormed ∧ log'.snapshotIndex = log.snapshotIndex ∧ prev + es.length ≤ log'.lastIndex ∧
      ∀ i, i ≤ prev → log'.entryAt? i = log.entryAt? i := by
  have hk := sp.le_lastIndex h hl
  have hbelow : ∀ i, i ≤ prev → log'.entryAt? i = log.entryAt? i := fun i hi => sp.kept h hs hl (by omega)
  rcases Nat.lt_or_ge k es.length with hlt | hge
  case inr =>
    have he : k = es.length := Nat.le_antisymm sp.le hge
    rw [sp.same he] at hbelow ⊢
    exact ⟨h, rfl, by omega, hbelow⟩
  case inl =>
    have ⟨hx, htl⟩ := sp.extends_taken h hs hl hf hlt
    refine ⟨hx.wf, hx.snapshotIndex, ?_, hbelow⟩
    have hlast := (h.take (prev + k - log.snapshotIndex)).lastIndex
    rw [htl] at hlast
    rw [hx.wf.lastIndex, hx.snapshotIndex, sp.spliced hlt, List.length_append, List.length_drop]
    simp only at hlast ⊢
    omega

end Splice

theorem holds_bounds (h : log.WellFormed) (hh : log.holds index term = true) :
    log.snapshotIndex ≤ index ∧ index ≤ log.lastIndex := by
  have hlast := h.lastIndex
  unfold holds at hh
  split at hh
  case isTrue h0 =>
    simp only [decide_eq_true_eq] at hh
    omega
  case isFalse =>
    split at hh
    case isTrue  => cases hh
    case isFalse => omega

theorem discardThrough_eq (h : log.WellFormed) (hs : log.snapshotIndex < index) (hl : index ≤ log.lastIndex) :
    log.discardThrough index term =
      .ok { entries := log.entries.drop (index - log.snapshotIndex), snapshotIndex := index, snapshotTerm := term } := by
  have hp : index - log.firstIndex + 1 = index - log.snapshotIndex := by
    rw [firstIndex]
    omega
  rw [discardThrough, if_neg (by omega), if_neg (by omega), h.position_eq hs hl, ← hp]
  rfl

-- Compacting keeps what is behind the new boundary.
theorem discarded (h : log.WellFormed) (hs : log.snapshotIndex < index) (hl : index ≤ log.lastIndex)
    (hd : log.discardThrough index term = .ok log') :
    log'.WellFormed ∧ log'.snapshotIndex = index ∧ log'.lastIndex = log.lastIndex ∧
      ∀ i, index < i → log'.entryAt? i = log.entryAt? i := by
  have hlast := h.lastIndex
  rw [discardThrough_eq h hs hl, Except.ok.injEq] at hd
  subst hd
  have hw : ({ entries := log.entries.drop (index - log.snapshotIndex), snapshotIndex := index, snapshotTerm := term } :
      RaftLog α).WellFormed := by
    intro i e hi
    rw [List.getElem?_drop] at hi
    rw [h _ _ hi, firstIndex, firstIndex]
    simp only
    omega
  refine ⟨hw, rfl, ?_, fun i hi => ?_⟩
  · rw [hw.lastIndex, List.length_drop]
    simp only
    omega
  · simp only [entryAt?, firstIndex]
    rw [if_neg (by omega), if_neg (by omega), List.getElem?_drop]
    congr 1
    omega

end RaftLog
end Raft
