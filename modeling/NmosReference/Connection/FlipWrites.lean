import NmosReference.Connection.Flip
import Mathlib

-- What a flip writes, by what was staged and what was active before.
namespace Connection

open Handler

namespace Slot

variable {slot : Slot} {p : Params} {name : String} {names : List String} {v : Value}

-- The staged value that an active field takes. A static field does not take `auto`.
def taken? (slot : Slot) (name : String) : Option Value :=
  match slot.staged.defined? name, slot.active.get? name with
  | some v, some _ => if name ∈ STATIC_FIELDS ∧ v = auto then none else some v
  | _,      _      => none

def accepts (slot : Slot) (name : String) : Bool :=
  (slot.taken? name).all fun v => (slot.active.get? name).all (·.kind.accepts v)

-- The fields before the first one whose value is refused.
def accepted (slot : Slot) : List String :=
  slot.staged.keys.takeWhile slot.accepts

def Refuses (slot : Slot) : Prop :=
  ∃ name ∈ slot.staged.keys, slot.accepts name = false

def take (slot : Slot) (name : String) (field : Field) : Field :=
  match slot.taken? name with
  | some v => { field with inner := some v }
  | none   => field

-- The active parameters with the staged values that they take.
def merged (slot : Slot) : Params :=
  slot.active.map slot.take

-- What the fields take is what they have.
def Current (slot : Slot) (names : List String) : Prop :=
  ∀ name ∈ names, ∀ v ∈ slot.taken? name, slot.active.defined? name = some v

def takeAll (slot : Slot) (names : List String) (p : Params) : Params :=
  p.map fun name field => if name ∈ names then slot.take name field else field

theorem take_of_none (h : slot.taken? name = none) (field : Field) : slot.take name field = field := by
  rw [take, h]

theorem takeAll_nil : slot.takeAll [] p = p := by
  simp [takeAll, Dict.map_eq_self]

theorem takeAll_cons (h : name ∉ names) : slot.takeAll names (slot.takeAll [name] p) = slot.takeAll (name :: names) p := by
  refine Dict.ext_items ?_
  simp only [takeAll, Dict.map, List.map_map]
  refine List.map_congr_left fun e _ => ?_
  by_cases he : e.1 = name
  case pos => simp [he, h]
  case neg => simp [he]

theorem get?_takeAll (h : name ∉ names) : (slot.takeAll names p).get? name = p.get? name := by
  rw [takeAll, Dict.get?_map]
  cases p.get? name with
  | none   => rfl
  | some _ => simp [h]

theorem set_eq_takeAll {field : Field} (hp : p.get? name = some field) (hv : slot.taken? name = some v) :
    p.set name { field with inner := some v } = slot.takeAll [name] p := by
  refine Dict.ext_items ?_
  have hk : name ∈ p.keys := Dict.mem_keys.mpr ⟨field, hp⟩
  rw [Dict.set_items, if_pos hk]
  refine List.map_congr_left fun e he => ?_
  by_cases hn : e.1 = name
  case pos =>
    obtain rfl : e.2 = field := by
      have := Dict.get?_eq_some.mpr he
      rw [hn, hp] at this
      exact (Option.some.inj this).symm
    simp [hn, take, hv]
  case neg => simp [hn]

theorem taken?_eq (hp : p.get? name = slot.active.get? name) : (flipField slot.staged name).run p =
    match slot.taken? name with
    | some v => (Params.assign name v).run p
    | none   => (.ok ⟨⟩, p) := by
  unfold flipField taken?
  rw [run_bind_ok run_get, hp]
  cases slot.staged.defined? name with
  | none   => rfl
  | some v =>
    cases slot.active.get? name with
    | none   => rfl
    | some _ =>
      by_cases h : name ∈ STATIC_FIELDS ∧ v = auto
      case pos => simp only [if_pos h]; rfl
      case neg => simp only [if_neg h]

-- One field takes its value, or raises and is left alone.
theorem run_flipField (hp : p.get? name = slot.active.get? name) :
    (slot.accepts name = true → (flipField slot.staged name).run p = (.ok ⟨⟩, slot.takeAll [name] p)) ∧
      (slot.accepts name = false → ∃ e, (flipField slot.staged name).run p = (.error e, p)) := by
  rw [taken?_eq hp]
  cases hv : slot.taken? name with
  | none   =>
    refine ⟨fun _ => ?_, fun h => by simp [accepts, hv] at h⟩
    have hsame : slot.takeAll [name] p = p := by
      refine Dict.map_eq_self.mpr fun k field _ => ?_
      split
      case isTrue hk => exact take_of_none (List.mem_singleton.mp hk ▸ hv) field
      case isFalse   => rfl
    rw [hsame]
  | some v =>
    obtain ⟨field, hf⟩ : ∃ field, slot.active.get? name = some field := by
      unfold taken? at hv
      split at hv
      case h_1 field _ hf => exact ⟨field, hf⟩
      case h_2            => cases hv
    have hget : p.get? name = some field := hp.trans hf
    have hassign : (Params.assign name v).run p =
        if field.kind.accepts v then (.ok ⟨⟩, p.set name { field with inner := some v })
        else (.error (field.kind.refusal v), p) := by
      have hattr : (Params.getattr name).run p = (.ok field, p) := by
        rw [Params.getattr, run_bind_ok run_get, hget]
        rfl
      rw [Params.assign, run_bind_ok hattr]
      split <;> rfl
    have haccepts : slot.accepts name = field.kind.accepts v := by simp [accepts, hv, hf]
    dsimp only
    rw [haccepts, hassign, set_eq_takeAll hget hv]
    exact ⟨fun h => if_pos h, fun h => ⟨_, if_neg (by simp [h])⟩⟩

-- The fields are copied one after the other, up to the first one that refuses its value.
theorem run_copy (hn : names.Nodup) (hp : ∀ name ∈ names, p.get? name = slot.active.get? name) :
    (names.forM (flipField slot.staged)).leaves p = slot.takeAll (names.takeWhile slot.accepts) p ∧
      ((names.forM (flipField slot.staged)).Raises p ↔ ∃ name ∈ names, slot.accepts name = false) := by
  induction names generalizing p with
  | nil             => exact ⟨takeAll_nil.symm, by simp⟩
  | cons name names hi =>
    obtain ⟨hnew, hn⟩ := List.nodup_cons.mp hn
    have hrun := run_flipField (hp name List.mem_cons_self)
    have hcons : (name :: names).forM (flipField slot.staged) =
        (flipField slot.staged name >>= fun _ => names.forM (flipField slot.staged)) := rfl
    rw [hcons]
    cases ha : slot.accepts name with
    | true  =>
      have hok := hrun.1 ha
      have hnot : ¬(flipField slot.staged name).Raises p := not_raises_iff.mpr ⟨⟨⟩, by rw [leaves, hok]⟩
      have hleaves : (flipField slot.staged name).leaves p = slot.takeAll [name] p := congrArg Prod.snd hok
      obtain ⟨hl, hr⟩ := hi hn (p := slot.takeAll [name] p) fun k hk => by
        rw [get?_takeAll (by rintro h; exact hnew (List.mem_singleton.mp h ▸ hk))]
        exact hp k (List.mem_cons_of_mem _ hk)
      rw [leaves_seq hnot, raises_seq, hleaves, hl, hr, List.takeWhile_cons_of_pos ha]
      refine ⟨takeAll_cons fun h => hnew (List.takeWhile_subset _ h), ?_⟩
      simp [hnot, ha]
    | false =>
      obtain ⟨e, he⟩ := hrun.2 ha
      have hraises : (flipField slot.staged name).Raises p := ⟨e, congrArg Prod.fst he⟩
      rw [leaves_seq_of_raises hraises, raises_seq, List.takeWhile_cons_of_neg (by simp [ha]), takeAll_nil]
      exact ⟨congrArg Prod.snd he, iff_of_true (.inl hraises) ⟨name, List.mem_cons_self, ha⟩⟩

theorem takeAll_eq_self :
    slot.takeAll names slot.active = slot.active ↔ slot.Current names := by
  rw [takeAll, Dict.map_eq_self]
  constructor
  · intro hs name hn v hv
    obtain ⟨field, hf⟩ : ∃ field, slot.active.get? name = some field := by
      unfold taken? at hv
      split at hv
      case h_1 field _ hf => exact ⟨field, hf⟩
      case h_2            => cases hv
    have hsame := hs name field hf
    rw [if_pos hn, take, hv] at hsame
    rw [Params.defined?, hf, Option.bind_some, ← hsame]
  · intro hc name field hf
    split
    case isFalse   => rfl
    case isTrue hn =>
      unfold take
      cases hv : slot.taken? name with
      | none   => rfl
      | some v =>
        have hd := hc name hn v hv
        rw [Params.defined?, hf, Option.bind_some] at hd
        simp only [← hd]

theorem takeAll_accepted (h : ¬slot.Refuses) : slot.takeAll slot.accepted slot.active = slot.merged := by
  have hall : slot.accepted = slot.staged.keys := by
    refine List.takeWhile_eq_self_iff.mpr fun name hn => ?_
    by_contra ha
    exact h ⟨name, hn, by simpa using ha⟩
  refine Dict.ext_items (List.map_congr_left fun e _ => ?_)
  rw [hall]
  by_cases hn : e.1 ∈ slot.staged.keys
  case pos => simp only [if_pos hn]
  case neg =>
    have hv : slot.taken? e.1 = none := by
      unfold taken? Params.defined?
      cases hs : slot.staged.get? e.1 with
      | none   => rfl
      | some f => exact absurd (Dict.mem_keys.mpr ⟨f, hs⟩) hn
    simp only [if_neg hn, take_of_none hv]

end Slot

section Legs

variable {resolver : Option Resolver} {r : Resolving} {resolving : Leg → Resolving} {legs : List Leg} {slot : Slot}
  {slots : List Slot}

-- The resolver that the leg goes through.
def legResolver (resolver : Option Resolver) (r : Resolving) : Option Resolver :=
  if r.leg.enable then resolver else none

-- A value is refused, or the resolver raises on the parameters with the values that they take.
def FlipRaises (resolver : Option Resolver) (r : Resolving) (slot : Slot) : Prop :=
  slot.Refuses ∨ ∃ resolve ∈ legResolver resolver r, (resolve r).Raises slot.merged

-- What a leg takes before a value is refused is what it has. If none is refused, what it takes is what it has once it is
-- resolved.
structure FlipKeeps (resolver : Option Resolver) (r : Resolving) (slot : Slot) : Prop where
  copied   : slot.Refuses ∨ legResolver resolver r = none → slot.Current slot.accepted
  resolved : ¬slot.Refuses → ∀ resolve ∈ legResolver resolver r, (resolve r).leaves slot.merged = slot.active

-- The same, of the legs up to the first one that raises.
def LegsRaise (resolver : Option Resolver) (resolving : Leg → Resolving) : List Leg → List Slot → Prop
  | leg :: legs, slot :: slots => FlipRaises resolver (resolving leg) slot ∨ LegsRaise resolver resolving legs slots
  | _,           _             => False

def LegsKeep (resolver : Option Resolver) (resolving : Leg → Resolving) : List Leg → List Slot → Prop
  | leg :: legs, slot :: slots => FlipKeeps resolver (resolving leg) slot ∧
    (¬FlipRaises resolver (resolving leg) slot → LegsKeep resolver resolving legs slots)
  | _,           _             => True

def resolveLeg (resolver : Option Resolver) (r : Resolving) : Handler Slot Error Unit :=
  match legResolver resolver r with
  | some resolve => onActive (resolve r)
  | none         => pure ⟨⟩

theorem run_flipLeg : (flipLeg resolver r).run slot =
    (onActive (slot.staged.keys.forM (flipField slot.staged)) >>= fun _ => resolveLeg resolver r).run slot := by
  unfold flipLeg resolveLeg legResolver
  rw [run_bind_ok run_get]
  cases r.leg.enable <;> rfl

-- A leg is copied, and then resolved.
theorem flipLeg_spec (resolver : Option Resolver) (r : Resolving) (slot : Slot) :
    ((flipLeg resolver r).Raises slot ↔ FlipRaises resolver r slot) ∧
      ((flipLeg resolver r).leaves slot).staged = slot.staged ∧
        (((flipLeg resolver r).leaves slot).active = slot.active ↔ FlipKeeps resolver r slot) := by
  obtain ⟨hleaves, hraises⟩ := Slot.run_copy (p := slot.active) slot.staged.nodup fun _ _ => rfl
  let copy : Handler Slot Error Unit := onActive (slot.staged.keys.forM (flipField slot.staged))
  have hcopied : copy.leaves slot = { slot with active := slot.takeAll slot.accepted slot.active } :=
    congrArg (fun active => { slot with active }) hleaves
  have hrefuses : copy.Raises slot ↔ slot.Refuses := hraises
  have hcurrent : slot.takeAll slot.accepted slot.active = slot.active ↔ slot.Current slot.accepted :=
    Slot.takeAll_eq_self
  have hr : (flipLeg resolver r).Raises slot ↔ (copy >>= fun _ => resolveLeg resolver r).Raises slot := by
    unfold Raises
    rw [run_flipLeg]
  have hl : (flipLeg resolver r).leaves slot = (copy >>= fun _ => resolveLeg resolver r).leaves slot :=
    congrArg Prod.snd run_flipLeg
  rw [hr, hl, raises_seq, hrefuses]
  by_cases h : slot.Refuses
  case pos =>
    rw [leaves_seq_of_raises (hrefuses.mpr h), hcopied]
    refine ⟨iff_of_true (.inl h) (.inl h), rfl, hcurrent.trans ?_⟩
    exact ⟨fun hc => ⟨fun _ => hc, absurd h⟩, fun hk => hk.copied (.inl h)⟩
  case neg =>
    have hmerged : copy.leaves slot = { slot with active := slot.merged } := by
      rw [hcopied, Slot.takeAll_accepted h]
    rw [leaves_seq (mt hrefuses.mp h), hmerged]
    unfold resolveLeg
    cases hres : legResolver resolver r with
    | none         =>
      refine ⟨?_, rfl, ?_⟩
      · simp [FlipRaises, h, hres]
      · rw [leaves_pure, ← Slot.takeAll_accepted h]
        refine hcurrent.trans ⟨fun hc => ⟨fun _ => hc, fun _ _ hm => ?_⟩, fun hk => hk.copied (.inr hres)⟩
        rw [hres] at hm
        cases hm
    | some resolve =>
      refine ⟨?_, rfl, ?_⟩
      · simp only [FlipRaises, h, hres, false_or, not_false_iff, true_and, Option.mem_def, Option.some.injEq, exists_eq_left']
        rfl
      · constructor
        · intro hk
          refine ⟨fun hc => ?_, fun _ _ hm => ?_⟩
          · rw [hres] at hc
            exact absurd (hc.resolve_left h) (Option.some_ne_none _)
          · cases hres.symm.trans hm
            exact hk
        · exact fun hk => hk.resolved h resolve hres

section Each

variable {σ ε γ : Type} {f : γ → Handler σ ε Unit} {x : γ} {s s' : σ}

theorem run_each_error {e : ε} (xs : List γ) (ss : List σ) (h : (f x).run s = (.error e, s')) :
    (each f (x :: xs)).run (s :: ss) = (.error e, s' :: ss) := by
  rw [run, each]
  dsimp only
  rw [h]

theorem run_each_ok (xs : List γ) (ss : List σ) (h : (f x).run s = (.ok ⟨⟩, s')) :
    (each f (x :: xs)).run (s :: ss) = (((each f xs).run ss).1, s' :: (each f xs).leaves ss) := by
  rw [run, each]
  dsimp only
  rw [h]

end Each

-- The legs are flipped up to the first one that raises.
theorem flipLegs_spec : ((each (fun leg => flipLeg resolver (resolving leg)) legs).Raises slots ↔ LegsRaise resolver resolving legs slots) ∧
    ((each (fun leg => flipLeg resolver (resolving leg)) legs).leaves slots).map (·.staged) = slots.map (·.staged) ∧
      (((each (fun leg => flipLeg resolver (resolving leg)) legs).leaves slots).map (·.active) = slots.map (·.active) ↔
        LegsKeep resolver resolving legs slots) := by
  induction legs generalizing slots with
  | nil           => exact ⟨iff_of_false not_raises_pure id, rfl, iff_of_true rfl trivial⟩
  | cons leg legs hi =>
    cases slots with
    | nil             => exact ⟨iff_of_false (fun h => (by obtain ⟨_, h⟩ := h; cases h)) id, rfl, iff_of_true rfl trivial⟩
    | cons slot slots =>
      obtain ⟨hraises, hstaged, hkeeps⟩ := flipLeg_spec resolver (resolving leg) slot
      obtain ⟨hraises', hstaged', hkeeps'⟩ := @hi slots
      by_cases h : FlipRaises resolver (resolving leg) slot
      case pos =>
        obtain ⟨e, he⟩ := raises_iff.mp (hraises.mpr h)
        have hrun := run_each_error (f := fun leg => flipLeg resolver (resolving leg)) legs slots he
        have hleaves := congrArg Prod.snd hrun
        change leaves _ (slot :: slots) = _ at hleaves
        rw [hleaves]
        refine ⟨iff_of_true ⟨e, congrArg Prod.fst hrun⟩ (.inl h), by simp [hstaged], ?_⟩
        simp only [List.map_cons, List.cons.injEq, and_true, hkeeps, LegsKeep]
        exact ⟨fun hk => ⟨hk, absurd h⟩, And.left⟩
      case neg =>
        obtain ⟨⟨⟩, he⟩ := not_raises_iff.mp (mt hraises.mp h)
        have hrun := run_each_ok (f := fun leg => flipLeg resolver (resolving leg)) legs slots he
        have hleaves := congrArg Prod.snd hrun
        change leaves _ (slot :: slots) = _ at hleaves
        rw [hleaves]
        refine ⟨?_, by simp [hstaged, hstaged'], ?_⟩
        · rw [LegsRaise, ← hraises', or_iff_right h]
          unfold Raises
          rw [hrun]
        · simp only [List.map_cons, List.cons.injEq, hkeeps, hkeeps', LegsKeep]
          exact and_congr_right fun _ => ⟨fun hk _ => hk, fun hk => hk h⟩

end Legs

end Connection
