import NmosReference.Raft.Log

-- What a log has in common with the logs of the leaders that its entries come from.
namespace Raft

-- For each term, the terms of the entries in the log of its leader.
abbrev LeaderLogs :=
  Nat → Nat → Option Nat

-- Where the logs of two leaders have an entry of the term of one of them in common, they are the same up to it.
def LeaderLogs.Matching (logs : LeaderLogs) : Prop :=
  ∀ term i t, logs term i = some t → ∀ j ≤ i, logs t j = logs term j

namespace RaftLog

variable {α : Type} {log log' : RaftLog α} {logs : LeaderLogs} {terms : Nat → Option Nat}
variable {term index prev prevTerm k : Nat} {e : LogEntry α} {es : List (LogEntry α)}

def Agrees (log : RaftLog α) (terms : Nat → Option Nat) : Prop :=
  ∀ i e, log.entryAt? i = some e → terms i = some e.term

-- Up to each of its entries, the log is the one of the leader that wrote the entry.
def Lineage (logs : LeaderLogs) (log : RaftLog α) : Prop :=
  ∀ i e, log.entryAt? i = some e → ∀ j e', j ≤ i → log.entryAt? j = some e' → logs e.term j = some e'.term

theorem Agrees.lineage (hm : logs.Matching) (h : log.Agrees (logs term)) : log.Lineage logs :=
  fun i e he j e' hj he' => (hm term i e.term (h i e he) j hj).trans (h j e' he')

-- A log whose entries are among those of another one.
theorem Lineage.sub (h : log.Lineage logs) (hs : ∀ i e, log'.entryAt? i = some e → log.entryAt? i = some e) :
    log'.Lineage logs :=
  fun i e he j e' hj he' => h i e (hs i e he) j e' hj (hs j e' he')

theorem Lineage.new : (new : RaftLog α).Lineage logs := by
  intro i e he
  simp [entryAt?, RaftLog.new] at he

theorem Lineage.resetToSnapshot {index term : Nat} : (resetToSnapshot index term : RaftLog α).Lineage logs := by
  intro i e he
  simp [entryAt?, RaftLog.resetToSnapshot] at he

theorem holds_entry (h : log.holds index term = true) :
    index ≤ log.snapshotIndex ∨ ∃ e, log.entryAt? index = some e ∧ e.term = term := by
  unfold holds at h
  split at h
  case isTrue h0 => exact .inl (by omega)
  case isFalse   =>
    split at h
    case isTrue  => cases h
    case isFalse =>
      split at h
      case isTrue hs => exact .inl (Nat.le_of_eq hs)
      case isFalse   =>
        split at h
        case h_1 e he => exact .inr ⟨e, get_eq_ok.mp he, of_decide_eq_true h⟩
        case h_2      => cases h

-- What the predecessor of a leader's entries says of everything behind it.
theorem Lineage.behind (h : log.Lineage logs) (hm : logs.Matching) (hh : log.holds prev prevTerm = true)
    (hp : prev = 0 ∨ logs term prev = some prevTerm) (hi : index ≤ prev) (he : log.entryAt? index = some e) :
    logs term index = some e.term := by
  have hs := entryAt?_lt he
  rcases holds_entry hh with hle | ⟨e', he', ht⟩
  case inl => omega
  case inr =>
    have hp := hp.resolve_left (by omega)
    rw [← hm term prev prevTerm hp index hi, ← ht]
    exact h prev e' he' index e hi he

namespace Splice

-- The leader's entries, spliced in.
structure Faithful (logs : LeaderLogs) (term prev prevTerm : Nat) (es : List (LogEntry α)) : Prop where
  follow      : Follow prev es
  predecessor : prev = 0 ∨ logs term prev = some prevTerm
  entries     : ∀ e ∈ es, logs term e.index = some e.term

variable (sp : Splice log prev es k log') (hf : Faithful logs term prev prevTerm es)

include sp hf

theorem agrees_held (h : log.Lineage logs) (hm : logs.Matching) (hh : log.holds prev prevTerm = true)
    (hi : index ≤ prev + k) (he : log.entryAt? index = some e) : logs term index = some e.term := by
  rcases Nat.lt_or_ge prev index with hlt | hle
  case inr => exact h.behind hm hh hf.predecessor hle he
  case inl =>
    have hk := sp.le
    have hl : index - prev - 1 < es.length := by omega
    have hes := List.getElem?_eq_getElem hl
    obtain ⟨held, hheld, ht⟩ := sp.held (index - prev - 1) _ (by omega) hes
    rw [show prev + 1 + (index - prev - 1) = index by omega, he] at hheld
    cases hheld
    rw [ht, ← hf.entries _ (List.mem_of_getElem? hes), hf.follow _ _ hes]
    congr 1
    omega

variable (hw : log.WellFormed) (hh : log.holds prev prevTerm = true)

include hw hh

theorem agrees (h : log.Lineage logs) (hm : logs.Matching) (hlt : k < es.length) : log'.Agrees (logs term) := by
  have ⟨hs, hl⟩ := holds_bounds hw hh
  intro i e he
  rcases Nat.lt_or_ge (prev + k) i with hi | hi
  case inr =>
    rw [sp.kept hw hs hl hi] at he
    exact sp.agrees_held hf h hm hh hi he
  case inl =>
    have hm := sp.appended hw hs hl hf.follow hlt hi he
    rw [← hf.entries e hm, (sp.wf hw hs hl hf.follow).1.entryAt?_index he]

theorem lineage (h : log.Lineage logs) (hm : logs.Matching) : log'.Lineage logs := by
  rcases Nat.lt_or_ge k es.length with hlt | hge
  case inl => exact (sp.agrees hf hw hh h hm hlt).lineage hm
  case inr => rwa [sp.same (Nat.le_antisymm sp.le hge)]

-- What is acknowledged is held, as the leader has it.
theorem acknowledged (h : log.Lineage logs) (hm : logs.Matching) (hi : log'.snapshotIndex < index)
    (hl : index ≤ prev + es.length) : ∃ e, log'.entryAt? index = some e ∧ logs term index = some e.term := by
  have ⟨hs, hp⟩ := holds_bounds hw hh
  have ⟨hw', _, hlast, _⟩ := sp.wf hw hs hp hf.follow
  obtain ⟨e, he⟩ := hw'.entryAt?_isSome hi (hl.trans hlast)
  refine ⟨e, he, ?_⟩
  rcases Nat.lt_or_ge k es.length with hlt | hge
  case inl => exact sp.agrees hf hw hh h hm hlt index e he
  case inr =>
    have hk := Nat.le_antisymm sp.le hge
    rw [sp.same hk] at he
    exact sp.agrees_held hf h hm hh (hk ▸ hl) he

-- What is replaced is not the leader's.
theorem kept_of_agrees {acked : Nat} (ha : ∀ j, prev < j → j ≤ acked → ∃ e, log.entryAt? j = some e ∧ logs term j = some e.term)
    (hi : index ≤ acked) : log'.entryAt? index = log.entryAt? index := by
  have ⟨hs, hl⟩ := holds_bounds hw hh
  rcases Nat.lt_or_ge k es.length with hlt | hge
  case inr => rw [sp.same (Nat.le_antisymm sp.le hge)]
  case inl =>
    refine sp.kept hw hs hl <| Nat.le_of_not_lt fun hk => ?_
    obtain ⟨held, hheld, ht⟩ := ha (prev + 1 + k) (by omega) (by omega)
    have hes := List.getElem?_eq_getElem hlt
    refine sp.differ _ _ hes hheld ?_
    have hterm := hf.entries _ (List.mem_of_getElem? hes)
    rw [hf.follow _ _ hes, ht] at hterm
    exact Option.some.inj hterm

end Splice
end RaftLog
end Raft
