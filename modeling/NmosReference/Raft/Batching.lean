import NmosReference.Raft.Log

open Protobuf

namespace Raft

-- The groups that are filled, the one that is being filled, and the size of that one.
structure Filling where
  groups  : List (List Bytes)
  current : List Bytes
  total   : Nat

namespace Filling

def empty : Filling where
  groups  := []
  current := []
  total   := 0

def flushed (filling : Filling) (maxBytes : Nat) (payload : Bytes) : Filling :=
  if filling.current ≠ [] ∧ maxBytes < filling.total + payload.length then
    { groups := filling.groups ++ [filling.current], current := [], total := 0 }
  else
    filling

def put (filling : Filling) (payload : Bytes) : Filling :=
  { filling with current := filling.current ++ [payload], total := filling.total + payload.length }

def step (maxBytes : Nat) (filling : Filling) (payload : Bytes) : Filling :=
  (filling.flushed maxBytes payload).put payload

end Filling

def splitByBytes (payloads : List Bytes) (maxBytes : Nat) : List (List Bytes) :=
  let filling := payloads.foldl (Filling.step maxBytes) .empty
  if filling.current ≠ [] then filling.groups ++ [filling.current] else filling.groups

def totalBytes (payloads : List Bytes) : Nat :=
  (payloads.map List.length).sum

-- Within the bound, or no more than what must be carried whatever its size.
def Carried (maxBytes : Nat) (payloads : List Bytes) : Prop :=
  totalBytes payloads ≤ maxBytes ∨ payloads.length ≤ 1

variable {maxBytes : Nat} {payload : Bytes} {payloads ps qs : List Bytes}

@[simp]
theorem totalBytes_append : totalBytes (ps ++ qs) = totalBytes ps + totalBytes qs := by
  simp [totalBytes]

@[simp]
theorem totalBytes_cons : totalBytes (payload :: ps) = payload.length + totalBytes ps := by
  simp [totalBytes]

@[simp]
theorem totalBytes_nil : totalBytes [] = 0 :=
  rfl

-- What has been split so far, and how it is divided.
structure Filling.Inv (maxBytes : Nat) (seen : List Bytes) (filling : Filling) : Prop where
  flatten : filling.groups.flatten ++ filling.current = seen
  total   : filling.total = totalBytes filling.current
  groups  : ∀ group ∈ filling.groups, group ≠ [] ∧ Carried maxBytes group
  current : Carried maxBytes filling.current

namespace Filling.Inv

variable {filling : Filling} {seen : List Bytes}

theorem empty : Inv maxBytes [] .empty where
  flatten := rfl
  total   := rfl
  groups  := by simp [Filling.empty]
  current := .inr (Nat.zero_le _)

-- After the flush, either nothing has been put into the group or the payload fits.
theorem flushed (inv : Inv maxBytes seen filling) (payload : Bytes) :
    Inv maxBytes seen (filling.flushed maxBytes payload) ∧
      ((filling.flushed maxBytes payload).current = [] ∨
        (filling.flushed maxBytes payload).total + payload.length ≤ maxBytes) := by
  rw [Filling.flushed]
  split
  case isTrue h =>
    refine ⟨⟨?_, rfl, ?_, .inr (Nat.zero_le _)⟩, .inl rfl⟩
    · simpa using inv.flatten
    · intro group hg
      rcases List.mem_append.mp hg with hg | hg
      case inl => exact inv.groups group hg
      case inr =>
        rw [List.mem_singleton.mp hg]
        exact ⟨h.1, inv.current⟩
  case isFalse h =>
    refine ⟨inv, ?_⟩
    by_cases hc : filling.current = []
    case pos => exact .inl hc
    case neg => exact .inr (Nat.le_of_not_lt fun hl => h ⟨hc, hl⟩)

theorem put (inv : Inv maxBytes seen filling)
    (h : filling.current = [] ∨ filling.total + payload.length ≤ maxBytes) :
    Inv maxBytes (seen ++ [payload]) (filling.put payload) where
  flatten := by simp [Filling.put, ← inv.flatten]
  total   := by simp [Filling.put, inv.total]
  groups  := inv.groups
  current := by
    rcases h with h | h
    case inl => exact .inr (by simp [Filling.put, h])
    case inr => exact .inl (by simpa [Filling.put, inv.total] using h)

theorem step (inv : Inv maxBytes seen filling) : Inv maxBytes (seen ++ [payload]) (filling.step maxBytes payload) :=
  have ⟨inv, h⟩ := inv.flushed payload
  inv.put h

theorem foldl (inv : Inv maxBytes seen filling) :
    Inv maxBytes (seen ++ payloads) (payloads.foldl (Filling.step maxBytes) filling) := by
  induction payloads generalizing seen filling with
  | nil                        => simpa using inv
  | cons payload payloads ih => simpa using ih inv.step

end Filling.Inv

example : splitByBytes [[1, 1], [2], [3, 3, 3, 3], [4]] 3 = [[[1, 1], [2]], [[3, 3, 3, 3]], [[4]]] := by decide

theorem splitByBytes_spec : (splitByBytes payloads maxBytes).flatten = payloads ∧
    ∀ group ∈ splitByBytes payloads maxBytes, group ≠ [] ∧ Carried maxBytes group := by
  have inv : Filling.Inv maxBytes ([] ++ payloads) (payloads.foldl (Filling.step maxBytes) .empty) :=
    Filling.Inv.empty.foldl
  rw [List.nil_append] at inv
  simp only [splitByBytes]
  split
  case isTrue h =>
    refine ⟨by simpa using inv.flatten, fun group hg => ?_⟩
    rcases List.mem_append.mp hg with hg | hg
    case inl => exact inv.groups group hg
    case inr =>
      rw [List.mem_singleton.mp hg]
      exact ⟨h, inv.current⟩
  case isFalse h =>
    have hf := inv.flatten
    rw [not_not.mp h, List.append_nil] at hf
    exact ⟨hf, inv.groups⟩

namespace RaftLog

variable {α : Type} {log : RaftLog α} {e : LogEntry α} {es : List (LogEntry α)}
variable {index term committed start maxEntries : Nat}

-- How far the entries are taken: as many as fit, and one of them in any case.
theorem fitting_spec (es : List (LogEntry α)) {taken total : Nat} (h : total ≤ maxBytes ∨ taken ≤ 1) :
    ∃ k ≤ es.length, fitting maxBytes taken total es = taken + k ∧
    (total + totalBytes (es.take k |>.map (·.payload)) ≤ maxBytes ∨ taken + k ≤ 1) ∧
    ∀ j ≤ es.length, total + totalBytes (es.take j |>.map (·.payload)) ≤ maxBytes ∨ taken + j ≤ 1 → j ≤ k := by
  induction es generalizing taken total with
  | nil => exact ⟨0, le_rfl, rfl, by simpa using h, fun j hj _ => hj⟩
  | cons e es ih =>
    simp only [fitting]
    split
    case isTrue hb =>
      refine ⟨0, Nat.zero_le _, rfl, by simpa using h, fun j _ hf => ?_⟩
      cases j with
      | zero   => exact le_rfl
      | succ j =>
        simp only [List.take_succ_cons, List.map_cons, totalBytes_cons] at hf
        omega
    case isFalse hb =>
      have hn : total + e.payload.length ≤ maxBytes ∨ taken + 1 ≤ 1 := by omega
      obtain ⟨k, hk, he, hf, hm⟩ := ih hn
      refine ⟨k + 1, Nat.succ_le_succ hk, by omega, ?_, fun j hj hf => ?_⟩
      · simp only [List.take_succ_cons, List.map_cons, totalBytes_cons]
        omega
      · cases j with
        | zero   => exact Nat.zero_le _
        | succ j =>
          simp only [List.take_succ_cons, List.map_cons, totalBytes_cons] at hf
          exact Nat.succ_le_succ <| hm j (Nat.le_of_succ_le_succ hj) (by omega)

-- The longest of the leading parts of the entries that one message carries.
structure Longest (maxEntries maxBytes : Nat) (rest es : List (LogEntry α)) : Prop where
  leading : es <+: rest
  count   : es.length ≤ maxEntries
  carried : Carried maxBytes (es.map (·.payload))
  longest : ∀ ps, ps <+: rest → ps.length ≤ maxEntries → Carried maxBytes (ps.map (·.payload)) → ps <+: es

theorem longest_fitting {rest : List (LogEntry α)} :
    Longest maxEntries maxBytes rest ((rest.take maxEntries).take (fitting maxBytes 0 0 (rest.take maxEntries))) := by
  have h0 : 0 ≤ maxBytes ∨ 0 ≤ 1 := .inr (Nat.zero_le _)
  obtain ⟨k, hk, he, hf, hm⟩ := fitting_spec (rest.take maxEntries) h0
  rw [he, Nat.zero_add]
  refine ⟨?_, ?_, ?_, fun ps hp hc hb => ?_⟩
  · exact (List.take_prefix _ _).trans (List.take_prefix _ _)
  · simp only [List.length_take]
    omega
  · rw [Carried, List.length_map, List.length_take, Nat.min_eq_left hk]
    simpa using hf
  · have hp' : ps <+: rest.take maxEntries := List.prefix_take_iff.mpr ⟨hp, hc⟩
    have ht : ps = (rest.take maxEntries).take ps.length := List.prefix_iff_eq_take.mp hp'
    have hl := hm ps.length hp'.length_le (by rw [← ht]; simpa [Carried] using hb)
    exact List.prefix_take_iff.mpr ⟨hp', hl⟩

theorem Longest.ne_nil {rest : List (LogEntry α)} (h : Longest maxEntries maxBytes rest es) (hr : rest ≠ [])
    (hm : 0 < maxEntries) : es ≠ [] := by
  have hl := h.longest (rest.take 1) (List.take_prefix _ _) (by simp; omega) (.inr (by simp))
  intro he
  rw [he, List.prefix_nil, List.take_eq_nil_iff] at hl
  simp [hr] at hl

-- A log as its operations make it.
inductive Reachable : RaftLog α → Prop
  | made (index term : Nat) : Reachable (.resetToSnapshot index term)
  | append {log : RaftLog α} (h : Reachable log) (term : Nat) (values : List (Bytes × α)) :
      Reachable (log.append term values)
  | appendReplicated {log : RaftLog α} (h : Reachable log) (committed : Nat) (es : List (LogEntry α)) :
      Reachable ((appendReplicated committed es).leaves log)
  | truncateSuffix {log log' : RaftLog α} (h : Reachable log) (fromIndex : Nat)
      (ht : log.truncateSuffix fromIndex = .ok log') : Reachable log'
  | discardThrough {log log' : RaftLog α} (h : Reachable log) (index term : Nat)
      (hd : log.discardThrough index term = .ok log') : Reachable log'

namespace WellFormed

theorem truncateSuffix {log' : RaftLog α} (h : log.WellFormed) (ht : log.truncateSuffix index = .ok log') :
    log'.WellFormed := by
  unfold RaftLog.truncateSuffix at ht
  split at ht
  case isTrue    => cases ht
  case isFalse =>
    split at ht
    case isTrue  => cases ht; exact h
    case isFalse =>
      obtain ⟨position, hp, ht⟩ := Except.bind_eq_ok.mp ht
      cases ht
      exact h.take position

theorem discardThrough {log' : RaftLog α} (h : log.WellFormed) (hd : log.discardThrough index term = .ok log') :
    log'.WellFormed := by
  by_cases hl : log.lastIndex < index
  case pos => simp [RaftLog.discardThrough, hl] at hd
  case neg =>
    by_cases hs : index ≤ log.snapshotIndex
    case pos =>
      rw [RaftLog.discardThrough, if_neg hl, if_pos hs] at hd
      cases hd
      exact h
    case neg => exact (discarded h (Nat.lt_of_not_le hs) (Nat.le_of_not_lt hl) hd).1

theorem follow (h : log.WellFormed) : (appendOne.follow e log).2.WellFormed := by
  unfold appendOne.follow
  split
  case isFalse   => exact h
  case isTrue he =>
    refine h.append_entries fun i e' hi => ?_
    cases i with
    | zero   => cases hi; exact he
    | succ i => cases hi

-- Whatever arrives, and whether or not it is refused.
theorem appendOne (h : log.WellFormed) : ((RaftLog.appendOne committed e).leaves log).WellFormed := by
  unfold RaftLog.appendOne Handler.leaves Handler.run
  simp only
  split
  case isTrue    => exact h
  case isFalse =>
    split
    case isFalse => exact h.follow
    case isTrue  =>
      split
      case h_1 => exact h
      case h_2 =>
        split
        case isTrue  => exact h
        case isFalse =>
          split
          case isTrue  => exact h
          case isFalse =>
            split
            case h_1    => exact h
            case h_2 ht => exact (h.truncateSuffix ht).follow

theorem appendReplicated (h : log.WellFormed) : ((RaftLog.appendReplicated committed es).leaves log).WellFormed := by
  induction es generalizing log with
  | nil => exact h
  | cons e es ih =>
    rw [RaftLog.appendReplicated]
    by_cases hr : (RaftLog.appendOne committed e).Raises log
    case pos =>
      rw [Handler.leaves_seq_of_raises hr]
      exact h.appendOne
    case neg =>
      rw [Handler.leaves_seq hr]
      exact ih h.appendOne

end WellFormed

theorem Reachable.wellFormed (h : log.Reachable) : log.WellFormed := by
  induction h with
  | made                   => exact .resetToSnapshot
  | append _ term values h => exact (Extends.append h term values).wf
  | appendReplicated _ _ _ h => exact h.appendReplicated
  | truncateSuffix _ _ ht h  => exact h.truncateSuffix ht
  | discardThrough _ _ _ hd h => exact h.discardThrough hd

-- What is sent from an index on: all of what is behind it that one message carries.
theorem window_longest (h : log.WellFormed) (he : log.entryAt? start = some e) (hm : 0 < maxEntries) :
    ∃ es, log.window start maxEntries maxBytes = .ok es ∧ es ≠ [] ∧
      Longest maxEntries maxBytes (log.entries.drop (start - log.firstIndex)) es := by
  have hs := entryAt?_lt he
  have hl := h.le_lastIndex he
  have hr : log.entries.drop (start - log.firstIndex) ≠ [] := by
    have hlast := h.lastIndex
    rw [ne_eq, List.drop_eq_nil_iff, firstIndex]
    omega
  have hw : log.slice start maxEntries = .ok (log.entries.drop (start - log.firstIndex) |>.take maxEntries) := by
    rw [slice, if_neg (by omega), h.position_eq hs hl]
    rfl
  refine ⟨_, by rw [window, hw]; rfl, ?_, longest_fitting⟩
  exact longest_fitting.ne_nil hr hm

theorem window_beyond (h : log.lastIndex < start) : log.window start maxEntries maxBytes = .ok [] := by
  simp [window, slice, h, fitting, bind, Except.bind, pure, Except.pure]

theorem window_compacted (h : start ≤ log.snapshotIndex) (hl : start ≤ log.lastIndex) (hm : 0 < maxEntries) :
    log.window start maxEntries maxBytes = .error (.compacted start log.snapshotIndex) := by
  rw [window, slice, if_neg (by omega), position, if_pos h]
  rfl

end RaftLog

theorem batches_lose_nothing {α : Type} (payloads : List Bytes) (maxEntries maxBytes start : Nat) (log : RaftLog α)
    (h : log.Reachable) (hm : 0 < maxEntries) :
    ((splitByBytes payloads maxBytes).flatten = payloads ∧
      ∀ group ∈ splitByBytes payloads maxBytes, group ≠ [] ∧ Carried maxBytes group) ∧
    (∀ e, log.entryAt? start = some e → ∃ es, log.window start maxEntries maxBytes = .ok es ∧ es ≠ [] ∧
      RaftLog.Longest maxEntries maxBytes (log.entries.drop (start - log.firstIndex)) es) ∧
    (log.lastIndex < start → log.window start maxEntries maxBytes = .ok []) :=
  ⟨splitByBytes_spec, fun _ he => RaftLog.window_longest h.wellFormed he hm, RaftLog.window_beyond⟩

-- Three entries behind a snapshot, of which two fit.
theorem batches_lose_nothing_three : ∃ es,
    (RaftLog.append (.resetToSnapshot 4 1) 2 [([7], 0), ([8, 8], 1), ([9], 2)] : RaftLog Nat).window 5 9 3 = .ok es ∧
      es ≠ [] := by
  have h := batches_lose_nothing [[1, 1], [2]] 9 3 5 _ (.append (.made 4 1) 2 [([7], 0), ([8, 8], 1), ([9], 2)])
    (by decide)
  obtain ⟨es, hw, hn, _⟩ := h.2.1 _ rfl
  exact ⟨es, hw, hn⟩

end Raft
