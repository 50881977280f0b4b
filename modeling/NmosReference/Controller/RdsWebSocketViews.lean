import NmosReference.Controller.RdsWebSocket

-- What the entries of grains make of the resources that are held for a kind.
namespace Controller

variable {J P : Type} {e : Change J} {es : List (Change J)} {id : String}

abbrev View (J : Type) :=
  String → Option J

namespace Change

variable {v v' : View J}

-- What the entry makes of the resource it is about.
def settle (e : Change J) (r : Option J) : Option J :=
  match e.post, e.pre with
  | some body, _      => some body
  | none,      some _ => none
  | none,      none   => r

def apply (v : View J) (e : Change J) : View J := fun id =>
  if id = e.path then e.settle (v id) else v id

-- The entry says whether there is the resource.
def Settles (e : Change J) (id : String) : Prop :=
  e.path = id ∧ (e.pre.isSome ∨ e.post.isSome)

theorem settle_congr (h : e.pre.isSome ∨ e.post.isSome) {r r' : Option J} : e.settle r = e.settle r' := by
  obtain ⟨path, pre, post⟩ := e
  cases post with
  | some body => rfl
  | none =>
    cases pre with
    | some body => rfl
    | none => simp at h

theorem apply_of_not_settles (h : ¬e.Settles id) : apply v e id = v id := by
  unfold apply
  split
  · have he : e.pre = none ∧ e.post = none := by
      simp only [Settles, not_and, not_or, Option.not_isSome_iff_eq_none] at h
      exact h (Eq.symm ‹_›)
    rw [settle, he.1, he.2]
  · rfl

theorem foldl_apply_of_not_settles (h : ∀ e ∈ es, ¬e.Settles id) : es.foldl apply v id = v id := by
  induction es generalizing v with
  | nil => rfl
  | cons e es ih =>
    rw [List.foldl_cons, ih fun e he => h e (by simp [he]), apply_of_not_settles (h e (by simp))]

-- What held before does not matter once an entry settles it.
theorem foldl_apply_congr (h : v id = v' id ∨ ∃ e ∈ es, e.Settles id) :
    es.foldl apply v id = es.foldl apply v' id := by
  induction es generalizing v v' with
  | nil => simpa using h
  | cons e es ih =>
    refine ih ?_
    rcases h with h | ⟨e', he, hs⟩
    · left
      unfold apply
      rw [h]
    · rcases List.mem_cons.mp he with rfl | he
      · left
        rw [apply, apply, if_pos hs.1.symm, if_pos hs.1.symm]
        exact settle_congr hs.2
      · exact .inr ⟨e', he, hs⟩

theorem foldl_apply_items {ps : List (String × Change J)} (hn : (ps.map Prod.fst).Nodup)
    (h : ∀ p ∈ ps, p.2.path = p.1) : (ps.map Prod.snd).foldl apply v id =
      match (ps.find? (·.1 = id)).map Prod.snd with
      | some e => e.settle (v id)
      | none   => v id := by
  induction ps generalizing v with
  | nil => rfl
  | cons p ps ih =>
    have hn := List.nodup_cons.mp hn
    rw [List.map_cons, List.foldl_cons, ih hn.2 fun q hq => h q (by simp [hq])]
    by_cases hid : p.1 = id
    · have hnone : ps.find? (·.1 = id) = none := by
        rw [List.find?_eq_none]
        intro q hq he
        exact hn.1 (List.mem_map.mpr ⟨q, hq, (of_decide_eq_true he).trans hid.symm⟩)
      have hp : id = p.2.path := by rw [h p (by simp), hid]
      rw [hnone, List.find?_cons_of_pos (by simpa using hid)]
      exact if_pos hp
    · have hp : id ≠ p.2.path := by
        rw [h p (by simp)]
        exact Ne.symm hid
      simp [hid, apply, hp]

end Change

namespace Connection

variable {v : View J} {reg : Dict String J} {c : Connection J}

-- What the cache holds when all the grains that were drained have been handled.
def seen (c : Connection J) (v : View J) : View J :=
  (c.handling ++ c.sent.flatten).foldl Change.apply v

-- The cache is to be what the registry holds, once the changes that are on the way have been handled.
structure UpToDate (c : Connection J) (v : View J) (reg : Dict String J) : Prop where
  settled : ∀ id, c.pending.get? id = none → c.seen v id = reg.get? id
  coming  : ∀ id e, c.pending.get? id = some e →
    e.path = id ∧ e.post = reg.get? id ∧ (e.pre = none → e.post = none → c.seen v id = none)

theorem upToDate_sync {n m epoch : Nat} (h : ∀ id, reg.get? id = none → v id = none) :
    (sync n m epoch reg).UpToDate v reg := by
  constructor
  case settled =>
    intro id hp
    have hr : reg.get? id = none := by
      rw [sync, Dict.get?_map] at hp
      exact Option.map_eq_none_iff.mp hp
    exact (h id hr).trans hr.symm
  case coming =>
    intro id e he
    rw [sync, Dict.get?_map] at he
    obtain ⟨body, hb, rfl⟩ := Option.map_eq_some_iff.mp he
    exact ⟨rfl, hb.symm, nofun⟩

theorem seen_enqueue : (c.enqueue e).seen v = c.seen v := by
  unfold enqueue
  split <;> rfl

theorem pending_enqueue : (c.enqueue e).pending.get? id =
    if id = e.path then
      match c.pending.get? e.path with
      | none          => some e
      | some existing => some (existing.merge e)
    else c.pending.get? id := by
  unfold enqueue
  cases c.pending.get? e.path <;> exact Dict.get?_set

-- A change of one resource is coming, with the body that the registry has now.
theorem UpToDate.enqueue {reg' : Dict String J} (h : c.UpToDate v reg) (hpost : e.post = reg'.get? e.path)
    (hreg : ∀ id, id ≠ e.path → reg'.get? id = reg.get? id)
    (hpre : c.pending.get? e.path = none → e.pre = reg.get? e.path)
    (hgone : ∀ e', c.pending.get? e.path = some e' → e'.pre = none → e.post = none → c.seen v e.path = none) :
    (c.enqueue e).UpToDate v reg' := by
  constructor
  case settled =>
    intro id hp
    rw [pending_enqueue] at hp
    split at hp
    · split at hp <;> cases hp
    · rw [seen_enqueue, hreg id ‹_›]
      exact h.settled id hp
  case coming =>
    intro id e' he
    rw [pending_enqueue] at he
    rw [seen_enqueue]
    split at he
    · subst id
      split at he
      case h_1 hp =>
        cases he
        exact ⟨rfl, hpost, fun hn _ => (h.settled _ hp).trans ((hpre hp).symm.trans hn)⟩
      case h_2 existing hp =>
        cases he
        exact ⟨(h.coming _ _ hp).1, hpost, hgone existing hp⟩
    · rw [hreg id ‹_›]
      exact h.coming id e' he

theorem UpToDate.drain (h : c.UpToDate v reg) :
    ({ c with pending := ∅, sent := c.sent ++ [c.pending.values] } : Connection J).UpToDate v reg := by
  refine ⟨fun id _ => ?_, fun id e he => nomatch he⟩
  have hs : ({ c with pending := ∅, sent := c.sent ++ [c.pending.values] } : Connection J).seen v =
      c.pending.values.foldl Change.apply (c.seen v) := by
    simp [seen]
  rw [hs]
  refine (Change.foldl_apply_items c.pending.nodup fun p hp => ?_).trans ?_
  · exact (h.coming p.1 p.2 (Dict.get?_eq_some.mpr hp)).1
  · change (match c.pending.get? id with
      | some e => e.settle (c.seen v id)
      | none   => c.seen v id) = _
    cases hp : c.pending.get? id with
    | none => exact h.settled id hp
    | some e =>
      obtain ⟨-, hpost, hgone⟩ := h.coming id e hp
      rw [← hpost]
      dsimp only
      cases hpost' : e.post with
      | some body => rw [Change.settle, hpost']
      | none =>
        cases hpre : e.pre with
        | some body => rw [Change.settle, hpost', hpre]
        | none => rw [Change.settle, hpost', hpre, hgone hpre hpost']

theorem UpToDate.take {grain : List (Change J)} {sent : List (List (Change J))} (h : c.UpToDate v reg)
    (hh : c.handling = []) (hs : c.sent = grain :: sent) :
    ({ c with sent, handling := grain } : Connection J).UpToDate v reg := by
  have e : ({ c with sent, handling := grain } : Connection J).seen v = c.seen v := by
    simp [seen, hh, hs]
  exact ⟨fun id hp => e ▸ h.settled id hp, fun id e' he => e ▸ h.coming id e' he⟩

theorem UpToDate.handle (h : c.UpToDate v reg) (hh : c.handling = e :: es) :
    ({ c with handling := es } : Connection J).UpToDate (Change.apply v e) reg := by
  have hs : ({ c with handling := es } : Connection J).seen (Change.apply v e) = c.seen v := by
    simp [seen, hh]
  exact ⟨fun id hp => hs ▸ h.settled id hp, fun id e' he => hs ▸ h.coming id e' he⟩

def outstanding (c : Connection J) : List (Change J) :=
  c.handling ++ c.sent.flatten ++ c.pending.values

-- A reply takes the place of what was held.
theorem UpToDate.install {v' : View J} (h : c.UpToDate v reg)
    (hr : ∀ id, (∀ e ∈ c.outstanding, ¬e.Settles id) → v' id = reg.get? id) : c.UpToDate v' reg := by
  have hseen (id : String) : c.seen v' id = c.seen v id ∨
      (∀ e ∈ c.handling ++ c.sent.flatten, ¬e.Settles id) ∧ c.seen v' id = v' id := by
    by_cases hs : ∃ e ∈ c.handling ++ c.sent.flatten, e.Settles id
    · exact .inl (Change.foldl_apply_congr (.inr hs))
    · have hs : ∀ e ∈ c.handling ++ c.sent.flatten, ¬e.Settles id := fun e he h => hs ⟨e, he, h⟩
      exact .inr ⟨hs, Change.foldl_apply_of_not_settles hs⟩
  have hmem {id : String} {e : Change J} (he : e ∈ c.pending.values) (hid : e.path = id) (hu : c.UpToDate v reg) :
      c.pending.get? id = some e := by
    obtain ⟨id', he⟩ := Dict.mem_values.mp he
    rwa [← hid, (hu.coming id' e he).1]
  constructor
  case settled =>
    intro id hp
    rcases hseen id with hs | ⟨hn, hs⟩
    · rw [hs]
      exact h.settled id hp
    · rw [hs]
      refine hr id fun e he hse => ?_
      rcases List.mem_append.mp he with he | he
      · exact hn e he hse
      · cases hp.symm.trans (hmem he hse.1 h)
  case coming =>
    intro id e he
    obtain ⟨hpath, hpost, hgone⟩ := h.coming id e he
    refine ⟨hpath, hpost, fun hpre hnone => ?_⟩
    rcases hseen id with hs | ⟨hn, hs⟩
    · rw [hs]
      exact hgone hpre hnone
    · rw [hs, hr id, ← hpost, hnone]
      intro e' he' hse
      rcases List.mem_append.mp he' with he' | he'
      · exact hn e' he' hse
      · cases he.symm.trans (hmem he' hse.1 h)
        simp [Change.Settles, hpre, hnone] at hse

end Connection
end Controller
