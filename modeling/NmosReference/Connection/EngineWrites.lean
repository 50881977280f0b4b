import NmosReference.Connection.Activation
import NmosReference.Connection.FlipWrites

-- What the engine's part of an activation writes to the parameters: the key of the next one, leg by leg.
namespace Connection

open Handler

variable {Sdp Side : Type} {S : Subsystems Sdp Side} {c : Call} {s s' : State Sdp Side} {name pub : String} {slot : Slot}
  {slots : List Slot} {p : Params}

-- The field cannot hold a text.
def Field.refusesText (field : Field) : Bool :=
  !field.kind.accepts (.str "")

-- One of the fields for the key cannot hold it.
def RefusesKey (name : String) (slot : Slot) : Prop :=
  (slot.staged.get? name).any Field.refusesText ∨ (slot.active.get? name).any Field.refusesText

-- No leg has the key among its active fields and comes before the first one that refuses it.
def KeysKeep (name : String) : List Slot → Prop
  | []            => True
  | slot :: slots => RefusesKey name slot ∨
    ((∃ slot ∈ slots, RefusesKey name slot) → slot.active.get? name = none) ∧ KeysKeep name slots

section PublishKey

theorem accepts_text (k : Kind) : k.accepts (.str pub) = k.accepts (.str "") := by
  cases k <;> rfl

-- The key in the field, if there is such a field.
def publish (name pub : String) : Handler Params Error Unit := do
  if (← get).contains name then
    Params.assign name (.str pub)

theorem publish_spec (name pub : String) (p : Params) : ((publish name pub).Raises p ↔ (p.get? name).any Field.refusesText) ∧
    ((publish name pub).Raises p → (publish name pub).leaves p = p) ∧
      (¬(publish name pub).Raises p → (publish name pub).leaves p =
        match p.get? name with
        | some field => p.set name { field with inner := some (.str pub) }
        | none       => p) := by
  have hrun : (publish name pub).run p =
      match p.get? name with
      | some field =>
        if field.kind.accepts (.str "") then (.ok ⟨⟩, p.set name { field with inner := some (.str pub) })
        else (.error (field.kind.refusal (.str pub)), p)
      | none       => (.ok ⟨⟩, p) := by
    rw [publish, run_bind_ok run_get]
    unfold Dict.contains
    cases hp : p.get? name with
    | none       => rfl
    | some field =>
      have hattr : (Params.getattr name).run p = (.ok field, p) := by
        rw [Params.getattr, run_bind_ok run_get, hp]
        rfl
      rw [Option.isSome_some, if_pos rfl, Params.assign, run_bind_ok hattr, accepts_text]
      dsimp only
      split <;> rfl
  unfold Raises leaves
  rw [hrun]
  cases p.get? name with
  | none       => simp
  | some field => cases h : field.kind.accepts (.str "") <;> simp [h, Field.refusesText]

theorem run_publish : (publish name pub).run p =
    if p.contains name then (Params.assign name (.str pub)).run p else (.ok ⟨⟩, p) := by
  rw [publish, run_bind_ok run_get]
  split <;> rfl

theorem run_publishKey : (publishKey name pub).run slot =
    ((publish name pub).on (·.staged) (fun slot staged => { slot with staged }) >>= fun _ => onActive (publish name pub)).run slot := by
  have hactive (slot : Slot) : (do if (← get).active.contains name then onActive (Params.assign name (.str pub)) :
      Handler Slot Error Unit).run slot = (onActive (publish name pub)).run slot := by
    change _ = (((publish name pub).run slot.active).1, { slot with active := ((publish name pub).run slot.active).2 })
    rw [run_bind_ok run_get, run_publish]
    split <;> rfl
  have hstaged : ((publish name pub).on (·.staged) (fun slot staged => { slot with staged }) : Handler Slot Error Unit).run slot =
      (((publish name pub).run slot.staged).1, { slot with staged := ((publish name pub).run slot.staged).2 }) := rfl
  rw [run_bind, hstaged, run_publish]
  unfold publishKey
  rw [run_bind_ok run_get]
  split
  case isFalse => exact hactive slot
  case isTrue  =>
    dsimp only
    rw [run_bind]
    have hassign : ((Params.assign name (.str pub)).on (·.staged) (fun slot staged => { slot with staged }) : Handler Slot Error Unit).run slot =
        (((Params.assign name (.str pub)).run slot.staged).1, { slot with staged := ((Params.assign name (.str pub)).run slot.staged).2 }) := rfl
    rw [hassign]
    rcases (Params.assign name (.str pub)).run slot.staged with ⟨e | a, q⟩
    case error => rfl
    case ok    => exact hactive _

-- A leg takes the key, unless it refuses it.
theorem publishKey_spec (name pub : String) (slot : Slot) : ((publishKey name pub).Raises slot ↔ RefusesKey name slot) ∧
    (RefusesKey name slot → ((publishKey name pub).leaves slot).active = slot.active) ∧
      (¬RefusesKey name slot → (((publishKey name pub).leaves slot).active = slot.active ↔
        ∀ field ∈ slot.active.get? name, field.inner = some (.str pub))) := by
  obtain ⟨hr, hl, -⟩ := publish_spec name pub slot.staged
  obtain ⟨hr', hl', hw'⟩ := publish_spec name pub slot.active
  let stage : Handler Slot Error Unit := (publish name pub).on (·.staged) fun slot staged => { slot with staged }
  have hstage : stage.leaves slot = { slot with staged := (publish name pub).leaves slot.staged } := rfl
  have hraises : (publishKey name pub).Raises slot ↔ (stage >>= fun _ => onActive (publish name pub)).Raises slot := by
    unfold Raises
    rw [run_publishKey]
  have hleaves : (publishKey name pub).leaves slot = (stage >>= fun _ => onActive (publish name pub)).leaves slot :=
    congrArg Prod.snd run_publishKey
  have hstaged : stage.Raises slot ↔ (slot.staged.get? name).any Field.refusesText := hr
  have hactive : (onActive (publish name pub)).Raises (stage.leaves slot) ↔ (slot.active.get? name).any Field.refusesText := hr'
  rw [hraises, hleaves, raises_seq, hstaged, hactive]
  by_cases h : (slot.staged.get? name).any Field.refusesText = true
  case pos =>
    refine ⟨iff_of_true (.inl h) (.inl h), fun _ => ?_, fun hn => absurd (.inl h) hn⟩
    rw [leaves_seq_of_raises (hstaged.mpr h)]
    rfl
  case neg =>
    rw [leaves_seq (mt hstaged.mp h)]
    refine ⟨by simp [RefusesKey, h], fun hk => hl' (hr'.mpr (hk.resolve_left h)), fun hk => ?_⟩
    have hw := hw' fun hp => hk (.inr (hr'.mp hp))
    change (publish name pub).leaves slot.active = slot.active ↔ _
    rw [hw]
    cases hg : slot.active.get? name with
    | none       => simp
    | some field =>
      constructor
      · intro hs f hf
        cases hf
        have hget := congrArg (·.get? name) hs
        simp only [Dict.get?_set_self, hg, Option.some.injEq] at hget
        rw [← hget]
      · intro hf
        have hsame : ({ field with inner := some (.str pub) } : Field) = field := by rw [← hf field rfl]
        dsimp only
        rw [hsame]
        refine Dict.ext_items ?_
        rw [Dict.set_items, if_pos (Dict.mem_keys.mpr ⟨field, hg⟩)]
        refine (List.map_congr_left fun e he => ?_).trans (List.map_id _)
        split
        case isTrue hn =>
          have hv := Dict.get?_eq_some.mpr he
          rw [hn, hg] at hv
          exact Prod.ext hn.symm (Option.some.inj hv)
        case isFalse   => rfl

end PublishKey

section Keys

variable {γ : Type} {xs : List γ}

-- The key is published leg by leg, up to the first one that refuses it.
theorem publishKeys_spec (name pub : String) (h : xs.length = slots.length) :
    ((each (fun _ => publishKey name pub) xs).Raises slots ↔ ∃ slot ∈ slots, RefusesKey name slot) ∧
      (KeysKeep name slots → (∃ slot ∈ slots, RefusesKey name slot) →
        ((each (fun _ => publishKey name pub) xs).leaves slots).map (·.active) = slots.map (·.active)) := by
  induction xs generalizing slots with
  | nil          =>
    obtain rfl := List.length_eq_zero_iff.mp h.symm
    exact ⟨iff_of_false not_raises_pure (by simp), fun _ _ => rfl⟩
  | cons x xs hi =>
    cases slots with
    | nil             => cases h
    | cons slot slots =>
      obtain ⟨hr, hl, hw⟩ := publishKey_spec name pub slot
      obtain ⟨hr', hl'⟩ := hi (show xs.length = slots.length by simpa using h)
      by_cases hk : RefusesKey name slot
      case pos =>
        obtain ⟨e, he⟩ := raises_iff.mp (hr.mpr hk)
        have hrun := run_each_error (f := fun _ : γ => publishKey name pub) (x := x) xs slots he
        have hleaves := congrArg Prod.snd hrun
        change leaves _ (slot :: slots) = _ at hleaves
        rw [hleaves]
        exact ⟨iff_of_true ⟨e, congrArg Prod.fst hrun⟩ ⟨slot, List.mem_cons_self, hk⟩, fun _ _ => by simp [hl hk]⟩
      case neg =>
        obtain ⟨⟨⟩, he⟩ := not_raises_iff.mp (mt hr.mp hk)
        have hrun := run_each_ok (f := fun _ : γ => publishKey name pub) (x := x) xs slots he
        have hleaves := congrArg Prod.snd hrun
        change leaves _ (slot :: slots) = _ at hleaves
        rw [hleaves]
        have hrefuses : (∃ s ∈ slot :: slots, RefusesKey name s) ↔ ∃ s ∈ slots, RefusesKey name s := by simp [hk]
        rw [hrefuses]
        constructor
        · rw [← hr']
          unfold Raises
          rw [hrun]
        · intro hkeep hex
          obtain ⟨hfree, hkeep⟩ := hkeep.resolve_left hk
          have hnone : slot.active.get? name = none := hfree hex
          simp only [List.map_cons, hl' hkeep hex, (hw hk).mpr (by simp [hnone])]

end Keys

section Engine

-- The attribute of the public key.
def Call.keyName (c : Call) : String :=
  if c.isSender then "ExtPrivacyEcdhSenderPublicKey" else "ExtPrivacyEcdhReceiverPublicKey"

-- What an activation publishes the key in.
def keyed (s : State Sdp Side) : List Slot × Bool :=
  (s.activation.slots, s.node.privacyEnabled)

-- A sequence raises in its first part, which keeps what it keeps, or in its second.
theorem raises_seq_cases {σ ε α β γ : Type} {m : Handler σ ε α} {n : Handler σ ε β} {f : σ → γ} {s : σ} (hm : m.Keeps f)
    (h : (m >>= fun _ => n).Raises s) : f ((m >>= fun _ => n).leaves s) = f s ∨
      ∃ s', f s' = f s ∧ n.Raises s' ∧ (m >>= fun _ => n).leaves s = n.leaves s' := by
  by_cases hr : m.Raises s
  case pos => exact .inl ((congrArg f (leaves_seq_of_raises hr)).trans (hm s))
  case neg =>
    refine .inr ⟨m.leaves s, hm s, ?_, leaves_seq hr⟩
    exact ((raises_seq.mp h).resolve_left hr).2

theorem keeps_keyed {α : Type} {m : Handler Side Error α} : (onSide m : Program Sdp Side α).Keeps keyed :=
  keeps_on fun _ _ => rfl

theorem syncPrivacy_keyed : (syncPrivacy S c).Keeps keyed :=
  keeps_get.bind fun _ => .ite keeps_keyed keeps_pure

theorem setExclusiveKey_keyed : (setExclusiveKey S c).Keeps keyed := by
  have hput (xcl : List UInt8) : Keeps (modify fun s => { s with activation := { s.activation with xcl } } :
      Program Sdp Side Unit) keyed := keeps_modify fun _ => rfl
  exact keeps_get.bind fun s => .ite (keeps_keyed.bind fun _ => hput _) (.ite (hput _) keeps_pure)

theorem run_regenerateKey : (regenerateKey S c).run s =
    if !c.masterEnable && s.node.privacyEnabled then
      (onSide (S.generateKey c.isSender) >>= fun pub =>
        onSlots (.each (fun _ => publishKey c.keyName pub) s.activation.slots) : Program Sdp Side Unit).run s
    else (.ok ⟨⟩, s) := by
  rw [regenerateKey, run_bind_ok run_get]
  split <;> rfl

-- Where the key is not generated, no leg is touched.
theorem regenerateKey_raises (h : (regenerateKey S c).Raises s) :
    ((regenerateKey S c).leaves s).activation.slots = s.activation.slots ∨
      (c.masterEnable = false ∧ s.node.privacyEnabled = true) ∧ ∃ pub,
        (each (fun _ => publishKey c.keyName pub) s.activation.slots).Raises s.activation.slots ∧
        ((regenerateKey S c).leaves s).activation.slots =
          (each (fun _ => publishKey c.keyName pub) s.activation.slots).leaves s.activation.slots := by
  unfold Raises at h
  unfold leaves
  rw [run_regenerateKey] at h ⊢
  split at h
  case isFalse    => cases h; contradiction
  case isTrue hc =>
    have hc : c.masterEnable = false ∧ s.node.privacyEnabled = true := by simpa using hc
    rw [if_pos (by simpa using hc)]
    rw [run_bind] at h ⊢
    have hgen : (onSide (S.generateKey c.isSender) : Program Sdp Side String).run s =
        (((S.generateKey c.isSender).run s.node.side).1, s.putSide ((S.generateKey c.isSender).run s.node.side).2) := rfl
    rw [hgen] at h ⊢
    cases hr : ((S.generateKey c.isSender).run s.node.side).1 with
    | error e => exact .inl rfl
    | ok pub  =>
      rw [hr] at h
      exact .inr ⟨hc, pub, h, rfl⟩

-- What raises before the key leaves the legs alone.
theorem startEngine_raises (h : (startEngine S c).Raises s) :
    ((startEngine S c).leaves s).activation.slots = s.activation.slots ∨
      (c.masterEnable = false ∧ s.node.privacyEnabled = true) ∧ ∃ pub,
        (each (fun _ => publishKey c.keyName pub) s.activation.slots).Raises s.activation.slots ∧
        ((startEngine S c).leaves s).activation.slots =
          (each (fun _ => publishKey c.keyName pub) s.activation.slots).leaves s.activation.slots := by
  have early {s' : State Sdp Side} (e : (startEngine S c).leaves s = s') (hk : keyed s' = keyed s) :
      ((startEngine S c).leaves s).activation.slots = s.activation.slots := e ▸ congrArg Prod.fst hk
  obtain hk | ⟨s₁, hk₁, h₁, e₁⟩ := raises_seq_cases syncPrivacy_keyed h
  · exact .inl (early rfl hk)
  obtain hk | ⟨s₂, hk₂, h₂, e₂⟩ := raises_seq_cases setExclusiveKey_keyed h₁
  · exact .inl (early e₁ (hk.trans hk₁))
  have e₂ := e₁.trans e₂
  have hk₂ := hk₂.trans hk₁
  obtain hk | ⟨s₃, hk₃, h₃, e₃⟩ := raises_seq_cases (m := onSide (S.engine s₂ c)) keeps_keyed (show Raises _ s₂ from h₂)
  · exact .inl (early e₂ (hk.trans hk₂))
  have e₃ := e₂.trans e₃
  have hk₃ := hk₃.trans hk₂
  have hregen : (regenerateKey S c).Raises s₃ :=
    (raises_seq.mp h₃).resolve_right fun h => absurd h.2 (not_raises_tryCatch fun _ _ => not_raises_pure)
  have e₄ := e₃.trans (leaves_seq_of_raises hregen)
  have hslots : s₃.activation.slots = s.activation.slots := congrArg Prod.fst hk₃
  have henabled : s₃.node.privacyEnabled = s.node.privacyEnabled := congrArg Prod.snd hk₃
  have hcases := regenerateKey_raises hregen
  rw [hslots, henabled, ← e₄] at hcases
  exact hcases

-- Subsystems of which the engine raises, or of which none does.
def probe [Inhabited Sdp] (fails : Bool) (pub : String) : Subsystems Sdp Side where
  generateSdp _ _ := pure none
  decode _        := .ok default
  recheck _       := pure ⟨⟩
  syncPrivacy _   := pure ⟨⟩
  getKey          := pure []
  engine _ _      := if fails then throw ⟨.unexpectedError, "engine"⟩ else pure ⟨⟩
  generateKey _   := pure pub

variable [Inhabited Sdp] {fails : Bool}

end Engine

end Connection
