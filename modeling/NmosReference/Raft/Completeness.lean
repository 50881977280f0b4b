import NmosReference.Raft.Lineage

open Protobuf Registry Ancestry

-- What was agreed on stays, whoever leads afterwards.
namespace Raft

namespace History

variable (members : List Nat) (h : History)

-- Where the log of the leader of a term ended when it stood.
def base (t : Nat) : Position :=
  ((h.leader t).map fun i => h.stand i t).getD origin

-- The leader of the term does not go on from the position.
def Lacks (t : Nat) (a : Position) : Prop :=
  h.leader t ≠ none ∧ ¬Le h.entry a (h.base t)

-- A majority holds an entry of the term that it was written in.
def Chosen (t k : Nat) : Prop :=
  (∃ x, h.entry k t = some x) ∧
    ∃ voters : List Nat, Quorum.IsMajority members (fun m => m ∈ voters) ∧
      ∀ v ∈ voters, ∃ b, h.acked v t b ∧ Le h.entry ⟨k, t⟩ b

-- The position is behind something that was chosen by the term.
def Settled (u : Nat) (a : Position) : Prop :=
  ∃ t k, t ≤ u ∧ h.Chosen members t k ∧ Le h.entry a ⟨k, t⟩

-- The leader of the term has the position in its log, or will have it.
def Placed (t : Nat) (a : Position) : Prop :=
  a = origin ∨ h.leader t ≠ none ∧ On h.entry h.base t a ∨ ∃ u, u < t ∧ h.Settled members u a

-- Whatever the voter acknowledged before is not ahead of the candidate, unless a leader in between gave it up.
def Weighed (v u : Nat) (c : Position) : Prop :=
  ∀ t b a, h.acked v t b → Le h.entry a b → t < u →
    (∃ x, Le h.entry a x ∧ Le h.entry origin x ∧ x.Behind c) ∨ ∃ u', t < u' ∧ u' < u ∧ h.Lacks u' a

structure Lawful : Prop where
  elected  : h.Elected members
  written  : ∀ k t x, h.entry k t = some x → h.leader t ≠ none
  grown    : Grown h.entry h.base
  based    : ∀ t, h.leader t ≠ none → Le h.entry origin (h.base t) ∧ (h.base t).term < t
  majority : ∀ t, h.leader t ≠ none → Quorum.IsMajority members fun m => m ∈ h.electorate t
  voted    : ∀ t i v, h.leader t = some i → v ∈ h.electorate t → h.ballot v t = some i
  weighed  : ∀ t v, h.leader t ≠ none → v ∈ h.electorate t → h.Weighed v t (h.base t)
  asked    : ∀ v t q, h.ballot v t = some q → h.ballot q t = some q
  pending  : ∀ v t q, h.ballot v t = some q → h.leader t = none → h.Weighed v t (h.stand q t)
  grounded : ∀ v t b, h.acked v t b → Le h.entry origin b
  placed   : ∀ v t b, h.acked v t b → h.Placed members t b

variable {members h} {t u k v i q term : Nat} {a b : Position}

namespace Lawful

-- By induction on the later term: its voters and the holders of the entry have a member in common.
theorem complete (hl : h.Lawful members) (hc : h.Chosen members t k) (hu : h.leader u ≠ none) (ht : t < u) :
    Le h.entry ⟨k, t⟩ (h.base u) := by
  induction u using Nat.strong_induction_on with
  | _ u ih =>
    obtain ⟨⟨x, hx⟩, voters, hm, hv⟩ := hc
    obtain ⟨v, _, hvoter, helector⟩ := hm.meets (hl.majority u hu)
    obtain ⟨b, hb, hle⟩ := hv v (of_decide_eq_true hvoter)
    have ⟨hground, hterm⟩ := hl.based u hu
    rcases hl.weighed u v hu (of_decide_eq_true helector) t b _ hb hle ht with ⟨y, hay, hoy, hy⟩ | ⟨u', ht', hu', hlacks⟩
    case inr => exact absurd (ih u' hu' hlacks.1 ht') hlacks.2
    case inl =>
      have htle : t ≤ y.term := hl.grown.term_le hay
      rcases hy with hlt | ⟨heq, hi⟩
      case inr => exact hay.trans (hl.grown.le_of_behind hoy hground heq hi)
      case inl =>
        rcases hground.written with ho | ⟨z, hz⟩
        case inl =>
          rw [ho] at hlt
          exact absurd hlt (Nat.not_lt_zero _)
        case inr =>
          have hbase := ih (h.base u).term hterm (hl.written _ _ _ hz) (Nat.lt_of_le_of_lt htle hlt)
          exact hbase.trans (hl.grown.base_le hz)

theorem settled_on (hl : h.Lawful members) (hs : h.Settled members u a) (ht : h.leader t ≠ none) (hu : u ≤ t) :
    On h.entry h.base t a := by
  obtain ⟨t₀, k, ht₀, hc, hle⟩ := hs
  rcases Nat.lt_or_ge t₀ t with hlt | hge
  case inl => exact .inl (hle.trans (hl.complete hc ht hlt))
  case inr =>
    obtain rfl : t₀ = t := Nat.le_antisymm (ht₀.trans hu) hge
    exact Grown.On.down hl.grown hle (.inr ⟨rfl, hc.1⟩)

-- What is acknowledged to a leader is in its log.
theorem acked_on (hl : h.Lawful members) (hb : h.acked v t b) (ht : h.leader t ≠ none) : On h.entry h.base t b := by
  rcases hl.placed v t b hb with rfl | ⟨_, hon⟩ | ⟨u, hu, hs⟩
  case inl      => exact .inl (hl.based t ht).1
  case inr.inl  => exact hon
  case inr.inr  => exact hl.settled_on hs ht (Nat.le_of_lt hu)

-- Nothing else is settled at an index.
theorem settled_eq {u' : Nat} (hl : h.Lawful members) (ha : h.Settled members u a) (hb : h.Settled members u' b)
    (hi : a.index = b.index) : a = b := by
  obtain ⟨t, k, _, hc, hle⟩ := ha
  obtain ⟨t', k', _, hc', hle'⟩ := hb
  obtain ⟨x, hx⟩ := hc.1
  obtain ⟨x', hx'⟩ := hc'.1
  have on {w : Nat} (hw : h.leader w ≠ none) (ht : t ≤ w) (ht' : t' ≤ w) : a = b := by
    have ha := hl.settled_on ⟨t, k, ht, hc, hle⟩ hw le_rfl
    have hb := hl.settled_on ⟨t', k', ht', hc', hle'⟩ hw le_rfl
    exact (Grown.On.le hl.grown ha hb (Nat.le_of_eq hi)).eq_of_index .refl hi
  rcases Nat.le_total t t' with h | h
  case inl => exact on (hl.written _ _ _ hx') h le_rfl
  case inr => exact on (hl.written _ _ _ hx) le_rfl h

end Lawful

-- A later state of what is remembered.
structure Later (h h' : History) : Prop where
  entry      : ∀ k t x, h.entry k t = some x → h'.entry k t = some x
  leader     : ∀ t i, h.leader t = some i → h'.leader t = some i
  ballot     : ∀ v t q, h.ballot v t = some q → h'.ballot v t = some q
  acked      : ∀ v t b, h.acked v t b → h'.acked v t b
  stand      : ∀ q t, h.ballot q t = some q → h'.stand q t = h.stand q t
  electorate : ∀ t, h.leader t ≠ none → h'.electorate t = h.electorate t

namespace Later

variable {h' : History} {c : Position}

theorem led (hh : Later h h') (ht : h.leader t ≠ none) : h'.leader t ≠ none := by
  obtain ⟨i, hi⟩ := Option.ne_none_iff_exists'.mp ht
  rw [hh.leader t i hi]
  exact nofun

theorem base (hh : Later h h') (he : h.Elected members) (ht : h.leader t ≠ none) : h'.base t = h.base t := by
  obtain ⟨i, hi⟩ := Option.ne_none_iff_exists'.mp ht
  unfold History.base
  rw [hi, hh.leader t i hi]
  exact hh.stand i t (he t i hi).1

theorem le (hh : Later h h') (hab : Le h.entry a b) : Le h'.entry a b :=
  hab.mono hh.entry

theorem le_iff (hh : Later h h') (ho : Le h.entry origin b) : Le h'.entry a b ↔ Le h.entry a b :=
  ⟨.back ho hh.entry, .mono hh.entry⟩

theorem on (hh : Later h h') (he : h.Elected members) (ht : h.leader t ≠ none) (ha : On h.entry h.base t a) :
    On h'.entry h'.base t a := by
  rcases ha with ha | ⟨hterm, x, hx⟩
  case inl => exact .inl (hh.base he ht ▸ hh.le ha)
  case inr => exact .inr ⟨hterm, x, hh.entry _ _ _ hx⟩

theorem chosen (hh : Later h h') (hc : h.Chosen members t k) : h'.Chosen members t k := by
  obtain ⟨⟨x, hx⟩, voters, hm, hv⟩ := hc
  refine ⟨⟨x, hh.entry _ _ _ hx⟩, voters, hm, fun v hv' => ?_⟩
  obtain ⟨b, hb, hle⟩ := hv v hv'
  exact ⟨b, hh.acked _ _ _ hb, hh.le hle⟩

theorem settled (hh : Later h h') (hs : h.Settled members u a) : h'.Settled members u a := by
  obtain ⟨t, k, ht, hc, hle⟩ := hs
  exact ⟨t, k, ht, hh.chosen hc, hh.le hle⟩

theorem lacks (hh : Later h h') (hl : h.Lawful members) (ha : h.Lacks t a) : h'.Lacks t a := by
  refine ⟨hh.led ha.1, fun hle => ha.2 ?_⟩
  rw [hh.base hl.elected ha.1] at hle
  exact (hh.le_iff (hl.based t ha.1).1).mp hle

theorem weighed (hh : Later h h') (hl : h.Lawful members) (hv : ∀ t b, h'.acked v t b → t < u → h.acked v t b)
    (hw : h.Weighed v u c) : h'.Weighed v u c := by
  intro t b a hb hle ht
  have hb := hv t b hb ht
  rw [hh.le_iff (hl.grounded v t b hb)] at hle
  rcases hw t b a hb hle ht with ⟨x, hax, hox, hx⟩ | ⟨u', ht', hu', hlacks⟩
  case inl => exact .inl ⟨x, hh.le hax, hh.le hox, hx⟩
  case inr => exact .inr ⟨u', ht', hu', hh.lacks hl hlacks⟩

theorem placed (hh : Later h h') (hl : h.Lawful members) (hp : h.Placed members t b) : h'.Placed members t b := by
  rcases hp with ho | ⟨ht, hon⟩ | ⟨u, hu, hs⟩
  case inl     => exact .inl ho
  case inr.inl => exact .inr (.inl ⟨hh.led ht, hh.on hl.elected ht hon⟩)
  case inr.inr => exact .inr (.inr ⟨u, hu, hh.settled hs⟩)

end Later

namespace Lawful

variable {last : Position} {vote : Option Nat} {votes : List Nat} {payloads : List Bytes}

-- A vote, for a candidate whose log the voter weighed.
theorem cast (hl : h.Lawful members) (hq : ∀ q, h.ballot i t = some q → vote = none ∨ vote = some q)
    (ha : ∀ q, vote = some q → h.ballot q t = some q)
    (hw : ∀ q, vote = some q → h.leader t = none → h.Weighed i t (h.stand q t)) :
    (h.cast i t vote).Lawful members ∧ Later h (h.cast i t vote) := by
  have hb := (Grows.cast hq).ballot
  have cases {v t' q : Nat} (h' : (h.cast i t vote).ballot v t' = some q) :
      h.ballot v t' = some q ∨ v = i ∧ t' = t ∧ vote = some q := by
    simp only [History.cast] at h'
    split at h'
    case isFalse    => exact .inl h'
    case isTrue hvt =>
      obtain ⟨rfl, rfl⟩ := hvt
      rcases Option.or_eq_some_iff.mp h' with h' | ⟨_, h'⟩
      case inl => exact .inr ⟨rfl, rfl, h'⟩
      case inr => exact .inl h'
  refine ⟨⟨hl.elected.mono hb rfl, hl.written, hl.grown, hl.based, hl.majority, fun t j v hj hv => hb _ _ _ (hl.voted t j v hj hv),
    hl.weighed, fun v t' q h' => hb _ _ _ ?_, fun v t' q h' ht => ?_, hl.grounded, hl.placed⟩,
    ⟨fun _ _ _ hx => hx, fun _ _ hx => hx, hb, fun _ _ _ hx => hx, fun _ _ _ => rfl, fun _ _ => rfl⟩⟩
  · rcases cases h' with hold | ⟨rfl, rfl, hnew⟩
    case inl => exact hl.asked v t' q hold
    case inr => exact ha q hnew
  · rcases cases h' with hold | ⟨rfl, rfl, hnew⟩
    case inl => exact hl.pending v t' q hold ht
    case inr => exact hw q hnew ht

-- A candidate, in a term that it has not been in.
theorem campaign (hl : h.Lawful members) (hfresh : ∀ q, h.ballot i t ≠ some q)
    (hw : h.leader t = none → h.Weighed i t last) :
    ((h.cast i t (some i)).standing i t last).Lawful members ∧ Later h ((h.cast i t (some i)).standing i t last) := by
  generalize hh : (h.cast i t (some i)).standing i t last = h'
  have hb : ∀ v t' q, h.ballot v t' = some q → h'.ballot v t' = some q := by
    rw [← hh]
    exact (Grows.cast fun q hq => absurd hq (hfresh q)).ballot
  have hstand : ∀ q t', h.ballot q t' = some q → h'.stand q t' = h.stand q t' := by
    intro q t' hq
    rw [← hh]
    refine if_neg fun hqt => ?_
    rw [hqt.1, hqt.2] at hq
    exact hfresh _ hq
  have hbase : h'.base = h.base := by
    funext t'
    subst hh
    unfold History.base
    simp only [standing, History.cast]
    cases hj : h.leader t' with
    | none   => rfl
    | some j =>
      refine if_neg fun hjt => ?_
      rw [hjt.1, hjt.2] at hj
      exact hfresh i (hl.elected t i hj).1
  have hlater : Later h h' := by
    refine ⟨?_, ?_, hb, ?_, hstand, ?_⟩
    all_goals
      rw [← hh]
      first | exact fun _ _ _ hx => hx | exact fun _ _ hx => hx | exact fun _ _ => rfl
  have hentry : h'.entry = h.entry := by rw [← hh]; rfl
  have hleader : h'.leader = h.leader := by rw [← hh]; rfl
  have helectorate : h'.electorate = h.electorate := by rw [← hh]; rfl
  have hacked : h'.acked = h.acked := by rw [← hh]; rfl
  have hweigh {v u : Nat} {c : Position} : h.Weighed v u c → h'.Weighed v u c :=
    hlater.weighed hl fun t b hb _ => by rwa [hacked] at hb
  have cases {v t' q : Nat} (hv : h'.ballot v t' = some q) : h.ballot v t' = some q ∨ v = i ∧ t' = t ∧ q = i := by
    rw [← hh] at hv
    simp only [standing, History.cast] at hv
    split at hv
    case isFalse    => exact .inl hv
    case isTrue hvt => exact .inr ⟨hvt.1, hvt.2, (Option.some.inj hv).symm⟩
  have hself : h'.ballot i t = some i := by
    rw [← hh]
    simp [standing, History.cast]
  refine ⟨⟨hl.elected.mono hb hleader, ?_, ?_, ?_, ?_, ?_, ?_, ?_, ?_, ?_, ?_⟩, hlater⟩
  · rw [hentry, hleader]; exact hl.written
  · rw [hentry, hbase]; exact hl.grown
  · rw [hentry, hbase, hleader]; exact hl.based
  · rw [hleader, helectorate]; exact hl.majority
  · rw [hleader, helectorate]; exact fun t' j v hj hv => hb _ _ _ (hl.voted t' j v hj hv)
  · rw [hleader, helectorate, hbase]; exact fun t' v hj hv => hweigh (hl.weighed t' v hj hv)
  · intro v t' q hv
    rcases cases hv with hv | ⟨rfl, rfl, rfl⟩
    case inl => exact hb _ _ _ (hl.asked v t' q hv)
    case inr => exact hself
  · rw [hleader]
    intro v t' q hv ht
    rcases cases hv with hv | ⟨rfl, rfl, rfl⟩
    case inl => exact hstand q t' (hl.asked v t' q hv) ▸ hweigh (hl.pending v t' q hv ht)
    case inr =>
      have hlast : h'.stand q t' = last := by rw [← hh]; simp [standing]
      exact hlast ▸ hweigh (hw ht)
  · rw [hentry, hacked]; exact hl.grounded
  · rw [hacked]; exact fun v t' b hb' => hlater.placed hl (hl.placed v t' b hb')

-- A leader, of a term that has none.
theorem elect (hl : h.Lawful members) (hnone : h.leader t = none) (hi : h.ballot i t = some i)
    (hv : ∀ v ∈ votes, h.ballot v t = some i) (hm : Quorum.IsMajority members fun m => m ∈ votes)
    (ho : Le h.entry origin (h.stand i t)) (hlt : (h.stand i t).term < t) :
    (h.elect i t votes).Lawful members ∧ Later h (h.elect i t votes) := by
  have hleader : ∀ t', (h.elect i t votes).leader t' = if t' = t then some i else h.leader t' := fun _ => rfl
  have helectorate : ∀ t', (h.elect i t votes).electorate t' = if t' = t then votes else h.electorate t' := fun _ => rfl
  have hne {t' : Nat} (ht : h.leader t' ≠ none) : t' ≠ t := fun he => ht (he ▸ hnone)
  have hlater : Later h (h.elect i t votes) := by
    refine ⟨fun _ _ _ hx => hx, fun t' j hj => ?_, fun _ _ _ hx => hx, fun _ _ _ hx => hx, fun _ _ _ => rfl, fun t' ht => ?_⟩
    · rw [hleader, if_neg (hne (by rw [hj]; exact nofun)), hj]
    · rw [helectorate, if_neg (hne ht)]
  have hbase : (h.elect i t votes).base t = h.stand i t := by
    unfold History.base
    rw [hleader, if_pos rfl]
    rfl
  have old {t' : Nat} (ht : (h.elect i t votes).leader t' ≠ none) : t' = t ∨ h.leader t' ≠ none := by
    rw [hleader] at ht
    split at ht
    case isTrue h  => exact .inl h
    case isFalse   => exact .inr ht
  have hweigh {v u : Nat} {c : Position} : h.Weighed v u c → (h.elect i t votes).Weighed v u c :=
    hlater.weighed hl fun _ _ hb _ => hb
  refine ⟨⟨fun t' j hj => ?_, fun k t' x hx => hlater.led (hl.written k t' x hx), ?_, fun t' ht => ?_, fun t' ht => ?_,
    fun t' j v hj hv' => ?_, fun t' v ht hv' => ?_, hl.asked, fun v t' q hb ht => ?_, hl.grounded,
    fun v t' b hb => hlater.placed hl (hl.placed v t' b hb)⟩, hlater⟩
  · rw [hleader] at hj
    split at hj
    case isFalse   => exact hl.elected t' j hj
    case isTrue he =>
      cases hj
      subst he
      exact ⟨hi, hm.mono fun m _ hm => decide_eq_true (hv m (of_decide_eq_true hm))⟩
  · have hb {k t' : Nat} {y : Nat × Bytes} (hy : h.entry k t' = some y) : (h.elect i t votes).base t' = h.base t' :=
      hlater.base hl.elected (hl.written k t' y hy)
    refine ⟨fun k t' y hy => ?_, fun k t' y hy => ?_, fun k t' y hy => ?_, fun k t' y hy => ?_⟩
    · rw [hb hy]; exact hl.grown.ground k t' y hy
    · rw [hb hy]; exact hl.grown.older k t' y hy
    · rw [hb hy]; exact hl.grown.above k t' y hy
    · rw [hb hy]; exact hl.grown.next k t' y hy
  · rcases old ht with rfl | ht
    case inl => rw [hbase]; exact ⟨ho, hlt⟩
    case inr => rw [hlater.base hl.elected ht]; exact hl.based t' ht
  · rw [helectorate]
    rcases old ht with rfl | ht
    case inl => rw [if_pos rfl]; exact hm
    case inr => rw [if_neg (hne ht)]; exact hl.majority t' ht
  · rw [hleader] at hj
    rw [helectorate] at hv'
    split at hj
    case isTrue he =>
      cases hj
      rw [if_pos he] at hv'
      exact he ▸ hv v hv'
    case isFalse he =>
      rw [if_neg he] at hv'
      exact hl.voted t' j v hj hv'
  · rw [helectorate] at hv'
    rcases old ht with rfl | ht
    case inl =>
      rw [if_pos rfl] at hv'
      rw [hbase]
      exact hweigh (hl.pending v t' i (hv v hv') hnone)
    case inr =>
      rw [if_neg (hne ht)] at hv'
      rw [hlater.base hl.elected ht]
      exact hweigh (hl.weighed t' v ht hv')
  · rw [hleader] at ht
    split at ht
    case isTrue  => cases ht
    case isFalse => exact hweigh (hl.pending v t' q hb ht)

-- What the leader writes goes on from the end of its log.
theorem create (hl : h.Lawful members) (ht : h.leader t ≠ none) (hon : On h.entry h.base t last)
    (hbase : (h.base t).index ≤ last.index) (hnew : ∀ k x, h.entry k t = some x → k ≤ last.index) :
    (h.create t last payloads).Lawful members ∧ Later h (h.create t last payloads) := by
  have hkept : ∀ k t' x, h.entry k t' = some x → (h.create t last payloads).entry k t' = some x :=
    fun k t' x hx => entry_create_of_entry hnew hx
  have hlater : Later h (h.create t last payloads) :=
    ⟨hkept, fun _ _ hx => hx, fun _ _ _ hx => hx, fun _ _ _ hx => hx, fun _ _ _ => rfl, fun _ _ => rfl⟩
  have hweigh {v u : Nat} {c : Position} : h.Weighed v u c → (h.create t last payloads).Weighed v u c :=
    hlater.weighed hl fun _ _ hb _ => hb
  have ⟨ho, hlt⟩ := hl.based t ht
  refine ⟨⟨hl.elected, fun k t' x hx => ?_, ?_, fun t' ht => ?_, hl.majority, hl.voted,
    fun t' v ht hv => hweigh (hl.weighed t' v ht hv), hl.asked, fun v t' q hb ht => hweigh (hl.pending v t' q hb ht),
    fun v t' b hb => hlater.le (hl.grounded v t' b hb), fun v t' b hb => hlater.placed hl (hl.placed v t' b hb)⟩, hlater⟩
  · rcases entry_create_some hx with hx | ⟨rfl, _⟩
    case inl => exact hl.written k t' x hx
    case inr => exact ht
  · refine ⟨fun k t' y hy => ?_, fun k t' y hy => ?_, fun k t' y hy => ?_, fun k t' y hy => ?_⟩
    · rcases entry_create_some hy with hy | ⟨rfl, _⟩
      case inl => exact hlater.le (hl.grown.ground k t' y hy)
      case inr => exact hlater.le ho
    · rcases entry_create_some hy with hy | ⟨rfl, _⟩
      case inl => exact hl.grown.older k t' y hy
      case inr => exact hlt
    · rcases entry_create_some hy with hy | ⟨rfl, hk, _⟩
      case inl => exact hl.grown.above k t' y hy
      case inr => exact Nat.lt_of_le_of_lt hbase hk
    · rcases entry_create_some hy with hy | ⟨rfl, hk, hlen, hp⟩
      case inl =>
        rcases hl.grown.next k t' y hy with hfirst | ⟨hp, z, hz⟩
        case inl => exact .inl hfirst
        case inr => exact .inr ⟨hp, z, hkept _ _ _ hz⟩
      case inr =>
        split at hp
        case isFalse hne =>
          refine .inr ⟨hp, ?_⟩
          obtain ⟨payload, hpayload⟩ : ∃ x, payloads[k - last.index - 1]? = some x :=
            ⟨_, List.getElem?_eq_getElem (by omega : k - last.index - 1 < payloads.length)⟩
          refine ⟨(if k = last.index + 1 then last.term else t', payload), ?_⟩
          simp only [History.create, true_and]
          rw [if_pos ⟨by omega, by omega⟩, hpayload]
          rfl
        case isTrue he =>
          obtain rfl : k = last.index := Nat.succ.inj he
          rcases hon with hle | ⟨hterm, z, hz⟩
          case inl =>
            -- The leader has not written anything yet.
            have hlast : last = h.base t' := hle.eq_of_index .refl (Nat.le_antisymm hle.index_le hbase)
            exact .inl ⟨congrArg Position.index hlast, hp.trans (congrArg Position.term hlast)⟩
          case inr => exact .inr ⟨hp.trans hterm, z, hkept _ _ _ hz⟩
  · have ⟨ho, hlt⟩ := hl.based t' ht
    exact ⟨hlater.le ho, hlt⟩

-- Whoever acknowledges something in a term has not voted in a later one.
theorem ack (hl : h.Lawful members) (hv : ∀ u q, h.ballot v u = some q → u ≤ t) (ho : Le h.entry origin b)
    (hp : h.Placed members t b) : (h.ack v t b).Lawful members ∧ Later h (h.ack v t b) := by
  have hlater : Later h (h.ack v t b) :=
    ⟨fun _ _ _ hx => hx, fun _ _ hx => hx, fun _ _ _ hx => hx, fun _ _ _ hx => .inl hx, fun _ _ _ => rfl, fun _ _ => rfl⟩
  have hweigh {w u q : Nat} {c : Position} (hw : h.ballot w u = some q) : h.Weighed w u c → (h.ack v t b).Weighed w u c := by
    refine hlater.weighed hl fun t' b' hb' ht' => ?_
    rcases hb' with hb' | ⟨rfl, rfl, _⟩
    case inl => exact hb'
    case inr => exact absurd (hv u q hw) (Nat.not_le_of_lt ht')
  refine ⟨⟨hl.elected, hl.written, hl.grown, hl.based, hl.majority, hl.voted, fun t' w ht hw => ?_, hl.asked,
    fun w t' q hb ht => hweigh hb (hl.pending w t' q hb ht), fun w t' b' hb' => ?_, fun w t' b' hb' => ?_⟩, hlater⟩
  · obtain ⟨i, hi⟩ := Option.ne_none_iff_exists'.mp ht
    exact hweigh (hl.voted t' i w hi hw) (hl.weighed t' w ht hw)
  · rcases hb' with hb' | ⟨_, _, rfl⟩
    case inl => exact hl.grounded w t' b' hb'
    case inr => exact ho
  · rcases hb' with hb' | ⟨_, rfl, rfl⟩
    case inl => exact hlater.placed hl (hl.placed w t' b' hb')
    case inr => exact hlater.placed hl hp

end Lawful
end History
end Raft
