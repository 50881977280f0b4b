import NmosReference.Cluster.NodeHealth

-- What one step of a cluster can do.
namespace Cluster

open Registry RegistryStore Raft

section Pass

variable {pass pass' : Pass} {store store' : RegistryStore} {object : String × Option Int} {x : String}
variable {left : Option Int}

@[simp] theorem Pass.follow_threshold : (pass.follow store).threshold = pass.threshold := by
  unfold Pass.follow
  split <;> rfl

@[simp] theorem Pass.follow_replaced : (pass.follow store).replaced = pass.replaced := by
  unfold Pass.follow
  split <;> rfl

-- The Nodes that a pass still has to look at are extant in the store it sweeps, but for those it has let go.
def Pass.Listed (pass : Pass) (store : RegistryStore) : Prop :=
  ∀ x, (x, none) ∈ pass.remaining → ((pass.swept store).get .node x).isSome

-- Each health that is left in a pass was left before, is still to be read, or is the one of a tombstone.
theorem Pass.mem_follow (h : (x, left) ∈ (pass.follow store').remaining) :
    (x, left) ∈ pass.remaining ∧ (pass.replaced.isSome ∨ left.isSome) ∨
    pass.replaced = none ∧ (x, none) ∈ pass.remaining ∧
      (left = none ∧ (store'.get .node x).isSome ∨
        store'.get .node x = none ∧ left = (store'.record .node x).map (·.health)) := by
  unfold follow at h
  split at h
  case isTrue hr => exact .inl ⟨h, .inl hr⟩
  case isFalse hr =>
    obtain ⟨⟨id, left'⟩, hm, he⟩ := List.mem_map.mp h
    obtain ⟨rfl, rfl⟩ := Prod.ext_iff.mp he
    cases left' with
    | some health => exact .inl ⟨hm, .inr rfl⟩
    | none        =>
      refine .inr ⟨by simpa using hr, hm, ?_⟩
      by_cases hg : (store'.get .node id).isSome
      · exact .inl ⟨by simp [hg], hg⟩
      · exact .inr ⟨by simpa using hg, by simp [hg]⟩

theorem Pass.Listed.follow (h : pass.Listed store)
    (hret : ∀ x, (store.get .node x).isSome → store'.get .node x = none → (store'.record .node x).isSome) :
    (pass.follow store').Listed store' := by
  intro x hx
  have hswept (hr : pass.replaced = none) (s : RegistryStore) : pass.swept s = s := by
    simp [swept, hr]
  have hfollow : (pass.follow store').swept store' = pass.swept store' := by
    simp [swept]
  rw [hfollow]
  obtain ⟨hm, hr | hl⟩ | ⟨hr, hm, ⟨-, hg⟩ | ⟨hn, hl⟩⟩ := Pass.mem_follow hx
  · obtain ⟨s, hs⟩ := Option.isSome_iff_exists.mp hr
    have := h x hm
    simpa [swept, hs] using this
  · cases hl
  · rwa [hswept hr]
  · have hg := h x hm
    rw [hswept hr] at hg
    have := hret x hg hn
    rw [← Option.isSome_map, ← hl] at this
    cases this

-- What is to be looked at only gets less, and is looked at in the same way.
def Pass.Sub (pass pass' : Pass) : Prop :=
  pass'.threshold = pass.threshold ∧ pass'.replaced = pass.replaced ∧ pass'.remaining ⊆ pass.remaining

end Pass

namespace Member

variable {m m' : Member} {i : Nat} {x n : String} {gc : Rat}

theorem owns_iff : m.owns i n ↔ m.machine.OwnedBy n i := by
  unfold owns ownerFor StateMachine.OwnedBy
  cases m.machine.ownership.ownerOf n with
  | none      => simp
  | some held =>
    simp only [Option.some.injEq, exists_eq_left', decide_eq_true_eq]
    split
    case isTrue h  => simpa using h
    case isFalse h =>
      split
      · simp
      · simpa using h

-- Neither the store nor an owner changes, and a pass only goes on.
structure Idle (m m' : Member) : Prop where
  store     : m'.store = m.store
  ownership : m'.machine.ownership = m.machine.ownership
  pass      : ∀ pass' ∈ m'.pass, ∃ pass ∈ m.pass, pass.Sub pass'

theorem Idle.refl : m.Idle m :=
  ⟨rfl, rfl, fun pass h => ⟨pass, h, rfl, rfl, fun _ h => h⟩⟩

theorem Idle.trans {m₁ : Member} (h₁ : m.Idle m₁) (h₂ : m₁.Idle m') : m.Idle m' where
  store     := h₂.store.trans h₁.store
  ownership := h₂.ownership.trans h₁.ownership
  pass pass' h := by
    obtain ⟨pass₁, hp, ht, hr, hs⟩ := h₂.pass pass' h
    obtain ⟨pass, hp, ht', hr', hs'⟩ := h₁.pass pass₁ hp
    exact ⟨pass, hp, ht.trans ht', hr.trans hr', fun _ h => hs' (hs h)⟩

-- The invariant of a member.
structure Ok [Python] (gc : Rat) (m : Member) : Prop where
  sound    : m.store.Sound
  interval : m.store.gcInterval = gc
  listed   : ∀ pass ∈ m.pass, pass.Listed m.store

variable [Python]

theorem Ok.idle (h : m.Ok gc) (hi : m.Idle m') : m'.Ok gc where
  sound    := hi.store ▸ h.sound
  interval := hi.store ▸ h.interval
  listed pass' hp x hx := by
    obtain ⟨pass, hp, -, hr, hs⟩ := hi.pass pass' hp
    rw [hi.store, Pass.swept, hr]
    exact h.listed pass hp x (hs hx)

theorem Ok.new {cursors : CursorAllocator} {forget : Rat} :
    Ok gc { machine := .new (.new gc forget) cursors } where
  sound      := .new
  interval   := rfl
  listed _ h := by cases h

end Member

namespace RaftCluster

variable {w w₁ w₂ : RaftCluster} {i j : Nat} {x n : String} {f : Member → Member} {op : RegistryOperation}
variable {a : ClusterAction} {pass : Pass} {object : String × Option Int} {remaining : List (String × Option Int)}

-- A heartbeat of this Node was answered with a 200 at this time, or such an answer is on its way.
def Sign (w : RaftCluster) (n : String) (t : Rat) : Prop :=
  w.beats n = some t ∨
  ∃ f ∈ w.forwards, f.request = .heartbeat n ∧ ∃ reply, reply.ok ∧ f.reply = some (reply, t)

-- Who takes a heartbeat of this Node that arrives at a member: that member, or nobody yet.
def taker (w : RaftCluster) (i : Nat) (x : String) : Option (Nat × String) :=
  if ((w.members i).ownerFor i x).filter (· ≠ i) = none then some (i, x) else none

def takes (w : RaftCluster) : ClusterAction → Option (Nat × String)
  | .heartbeat i x => w.taker i x
  | .serve k       => do
    let f ← w.forwards[k]?
    match f.request with
    | .heartbeat x  => w.taker f.target x
    | .register _ _ => none
  | .answer k      => do
    let f ← w.forwards[k]?
    let (reply, _) ← f.reply
    match f.request with
    | .heartbeat x  => if reply.notOwner ∧ f.routeAgain then w.taker f.origin x else none
    | .register _ _ => none
  | _              => none

-- Nothing is committed, beaten or expired.
structure Calm (w w₁ : RaftCluster) : Prop where
  time       : w₁.time = w.time
  skew       : w₁.skew = w.skew
  gcInterval : w₁.gcInterval = w.gcInterval
  log        : w₁.log = w.log
  proposed   : ∀ p x, .expire p x ∈ w₁.proposed → .expire p x ∈ w.proposed
  sign       : ∀ n t, w₁.Sign n t → w.Sign n t
  members    : ∀ i, (w.members i).Idle (w₁.members i)

-- A member takes a heartbeat, which is a sign of life if it holds the Node.
structure Beat (w : RaftCluster) (j : Nat) (x : String) (w₁ : RaftCluster) : Prop where
  time       : w₁.time = w.time
  skew       : w₁.skew = w.skew
  gcInterval : w₁.gcInterval = w.gcInterval
  log        : w₁.log = w.log
  proposed   : w₁.proposed = w.proposed
  sign       : ∀ n t, w₁.Sign n t →
    w.Sign n t ∨ n = x ∧ t = w.time ∧ ((w.members j).store.get .node x).isSome
  member     : w₁.members j = (w.members j).setMachine { (w.members j).machine with
    store := ((w.members j).store.heartbeat x (w.healthNow j)).2 }
  others     : ∀ i ≠ j, w₁.members i = w.members i

theorem accept_sign {n' : String} {t t' : Rat} (h : (w.accept n t).Sign n' t') :
    w.Sign n' t' ∨ n = n' ∧ t = t' := by
  obtain h | h := h
  case inr => exact .inl (.inr h)
  simp only [RaftCluster.accept, Function.update_apply] at h
  split at h
  case isFalse => exact .inl (.inl h)
  case isTrue hn =>
    cases hb : w.beats n with
    | none     =>
      simp only [hb, Option.elim_none, Option.some.injEq] at h
      exact .inr ⟨hn.symm, h⟩
    | some old =>
      simp only [hb, Option.elim_some, Option.some.injEq] at h
      obtain hm | hm := max_choice t old
      · rw [hm] at h
        exact .inr ⟨hn.symm, h⟩
      · rw [hm] at h
        exact .inl (.inl (hn ▸ h ▸ hb))

namespace Calm

theorem refl : Calm w w :=
  ⟨rfl, rfl, rfl, rfl, fun _ _ h => h, fun _ _ h => h, fun _ => .refl⟩

theorem trans (h₁ : Calm w w₁) (h₂ : Calm w₁ w₂) : Calm w w₂ where
  time            := h₂.time.trans h₁.time
  skew            := h₂.skew.trans h₁.skew
  gcInterval      := h₂.gcInterval.trans h₁.gcInterval
  log             := h₂.log.trans h₁.log
  proposed p x h  := h₁.proposed p x (h₂.proposed p x h)
  sign n t h      := h₁.sign n t (h₂.sign n t h)
  members i       := (h₁.members i).trans (h₂.members i)

theorem modify (h : (w.members i).Idle (f (w.members i))) : Calm w (w.modify i f) where
  time            := rfl
  skew            := rfl
  gcInterval      := rfl
  log             := rfl
  proposed _ _ h  := h
  sign _ _ h      := h
  members j       := by
    simp only [RaftCluster.modify, Function.update_apply]
    split
    case isTrue e  => exact e ▸ h
    case isFalse _ => exact .refl

theorem propose (h : ∀ p x, op ≠ .expire p x) : Calm w (w.propose op) where
  time            := rfl
  skew            := rfl
  gcInterval      := rfl
  log             := rfl
  proposed p x hx := by
    simp only [RaftCluster.propose, List.mem_append, List.mem_singleton] at hx
    exact hx.elim id fun e => absurd e.symm (h p x)
  sign _ _ h      := h
  members _       := .refl

-- No answer is added to those on their way.
theorem setForwards {forwards : List Forward}
    (h : ∀ f ∈ forwards, ∀ reply t, f.reply = some (reply, t) → reply.ok → f ∈ w.forwards) :
    Calm w { w with forwards } where
  time            := rfl
  skew            := rfl
  gcInterval      := rfl
  log             := rfl
  proposed _ _ h  := h
  sign n t hs     := by
    obtain hs | ⟨f, hf, hr, reply, ho, hs⟩ := hs
    · exact .inl hs
    · exact .inr ⟨f, h f hf reply t hs ho, hr, reply, ho, hs⟩
  members _       := .refl

theorem setForwards_sub {forwards : List Forward} (h : forwards ⊆ w.forwards) : Calm w { w with forwards } :=
  setForwards fun _ hf _ _ _ _ => h hf

theorem forward {f : Forward} (h : f.reply = none) : Calm w (w.forward f) := by
  refine setForwards fun f' hf reply t hr _ => ?_
  obtain hf | hf := List.mem_append.mp hf
  · exact hf
  · rw [List.mem_singleton.mp hf, h] at hr
    cases hr

-- An answer that arrived, of those that were on their way.
theorem accept {t : Rat} (hc : Calm w w₁) (h : w.Sign n t) : Calm w (w₁.accept n t) where
  time            := hc.time
  skew            := hc.skew
  gcInterval      := hc.gcInterval
  log             := hc.log
  proposed        := hc.proposed
  sign n' t' hs   := (accept_sign hs).elim (hc.sign n' t') fun hn => hn.1 ▸ hn.2 ▸ h
  members         := hc.members

theorem setSnapshots {snapshots : List Snapshot} : Calm w { w with snapshots } :=
  ⟨rfl, rfl, rfl, rfl, fun _ _ h => h, fun _ _ h => h, fun _ => .refl⟩

section Register

variable [Python] {t : ResourceType} {body : Body} {nodeId : String} {claim routeAgain : Bool}

theorem registerAsOwner : Calm w (w.registerAsOwner i t body nodeId claim) := by
  unfold RaftCluster.registerAsOwner
  split
  · exact refl
  · exact .trans (modify ⟨rfl, rfl, fun pass h => ⟨pass, h, rfl, rfl, fun _ h => h⟩⟩) (propose (by simp))

theorem registerAt : Calm w (w.registerAt i t body routeAgain) := by
  unfold RaftCluster.registerAt
  split
  · exact refl
  · split
    · exact registerAsOwner
    · split
      · exact registerAsOwner
      · exact forward rfl

end Register

theorem unregisterAt {t : ResourceType} {id : String} : Calm w (w.unregisterAt i t id) := by
  unfold RaftCluster.unregisterAt
  split
  · exact propose (by simp)
  · exact refl

theorem finishAt : Calm w (w.finishAt i pass) := by
  have h : Calm w (w.modify i ({ · with pass := none })) := modify ⟨rfl, rfl, by simp⟩
  unfold RaftCluster.finishAt
  simp only []
  split
  · exact h.trans (propose (by simp))
  · exact h

end Calm

namespace Beat

theorem beatHere : Beat w i x (w.beatHere i x).2 where
  time           := rfl
  skew           := rfl
  gcInterval     := rfl
  log            := rfl
  proposed       := rfl
  sign _ _ h     := .inl h
  member         := Function.update_self ..
  others _ hj    := Function.update_of_ne hj ..

-- A request that is on its way no more is no sign of life.
theorem of_forwards {forwards : List Forward} (h : forwards ⊆ w.forwards)
    (hb : Beat { w with forwards } i x w₁) : Beat w i x w₁ where
  time           := hb.time
  skew           := hb.skew
  gcInterval     := hb.gcInterval
  log            := hb.log
  proposed       := hb.proposed
  sign n t hs    := (hb.sign n t hs).imp ((Calm.setForwards_sub h).sign n t) id
  member         := hb.member
  others         := hb.others

theorem accept (hb : Beat w i x w₁) (h : ((w.members i).store.get .node x).isSome) :
    Beat w i x (w₁.accept x w.time) where
  time           := hb.time
  skew           := hb.skew
  gcInterval     := hb.gcInterval
  log            := hb.log
  proposed       := hb.proposed
  sign n t hs    := (accept_sign hs).elim (hb.sign n t) fun hn => .inr ⟨hn.1.symm, hn.2.symm, h⟩
  member         := hb.member
  others         := hb.others

-- The answer of the member that took the heartbeat.
theorem answered {k : Nat} {f : Forward} {reply : ForwardReply} (hb : Beat w i x w₁)
    (hr : f.request = .heartbeat x)
    (h : reply.ok → ((w.members i).store.get .node x).isSome) :
    Beat w i x { w₁ with forwards := w₁.forwards.set k { f with reply := some (reply, w.time) } } where
  time           := hb.time
  skew           := hb.skew
  gcInterval     := hb.gcInterval
  log            := hb.log
  proposed       := hb.proposed
  sign n t hs    := by
    obtain hs | ⟨f', hf', hr', reply', ho, hs⟩ := hs
    case inl => exact hb.sign n t (.inl hs)
    case inr =>
      obtain hf' | rfl := List.mem_or_eq_of_mem_set hf'
      · exact hb.sign n t (.inr ⟨f', hf', hr', reply', ho, hs⟩)
      · obtain ⟨rfl, rfl⟩ := Prod.ext_iff.mp (Option.some.inj hs)
        exact .inr ⟨(Request.heartbeat.inj (hr'.symm.trans hr)), rfl, h ho⟩
  member         := hb.member
  others         := hb.others

end Beat

-- What a heartbeat that arrives at a member does.
theorem heartbeatAt_cases (w : RaftCluster) (i : Nat) (x : String) (routeAgain : Bool) :
    Calm w (w.heartbeatAt i x routeAgain) ∨
    w.taker i x = some (i, x) ∧ Beat w i x (w.heartbeatAt i x routeAgain) := by
  unfold heartbeatAt
  split
  case h_1 => exact .inl (.forward rfl)
  case h_2 hn =>
    refine .inr ⟨if_pos hn, ?_⟩
    have hb := Beat.beatHere (w := w) (i := i) (x := x)
    have hsome : (w.beatHere i x).1.isSome ↔ ((w.members i).store.get .node x).isSome := by
      unfold beatHere RegistryStore.heartbeat
      cases (w.members i).store.get .node x <;> simp
    split
    case h_1 e =>
      rw [e] at hb hsome
      have ha := hb.accept (hsome.mp rfl)
      rwa [← hb.time] at ha
    case h_2 e =>
      rw [e] at hb
      exact hb

section Effect

variable [Python]

-- Everything that a step can do.
inductive Effect (w : RaftCluster) : ClusterAction → RaftCluster → Prop
  | calm {a : ClusterAction} {w₁ : RaftCluster} : Calm w w₁ → Effect w a w₁
  | beat {a : ClusterAction} {w₁ : RaftCluster} {j : Nat} {x : String} :
    w.takes a = some (j, x) → Beat w j x w₁ → Effect w a w₁
  | tick {time : Rat} : w.time ≤ time → Effect w (.tick time) { w with time }
  | adjust {i : Nat} {skew : Rat} :
    Effect w (.adjust i skew) { w with skew := Function.update w.skew i skew }
  | commit {k term : Nat} {op : RegistryOperation} : w.proposed[k]? = some op →
    Effect w (.commit k term) { w with
      proposed := w.proposed.eraseIdx k
      log      := w.log ++ [⟨term, w.log.length + 1, op⟩] }
  | restart {i : Nat} {w₁ : RaftCluster} :
    Calm (w.modify i (·.restarted w.gcInterval w.forgetInterval)) w₁ → Effect w (.restart i) w₁
  | apply {i : Nat} {entry : Entry RegistryOperation} :
    w.log[(w.members i).machine.lastApplied]? = some entry →
    Effect w (.apply i) (w.modify i fun m => { m with
      machine := ((w.members i).machine.applyEntry (w.clock i) entry).2.2
      pass    := m.pass.map (·.follow ((w.members i).machine.applyEntry (w.clock i) entry).2.2.store) })
  | install {i k : Nat} {snapshot : Snapshot} {machine : StateMachine} : w.snapshots[k]? = some snapshot →
    (w.members i).machine.installPayload snapshot (w.clock i) = some machine →
    Effect w (.install i k) (w.modify i fun m => { m with
      machine, walk := none,
      pass := m.pass.map fun pass => { pass with replaced := pass.swept (w.members i).store } })
  | collect {i : Nat} : Effect w (.collect i) (w.modify i ({ · with pass := some {
      threshold := w.healthNow i - wholeSeconds (w.members i).store.gcInterval
      remaining := ((w.members i).store.iterExtant .node).map fun node => (node.id, none) } }))
  | consider {i : Nat} {pass : Pass} {object : String × Option Int} {remaining : List (String × Option Int)} :
    (w.members i).pass = some pass → pass.remaining = object :: remaining →
      Effect w (.consider i) (w.considerAt i pass object remaining)

-- What became of a request that a member was handed.
theorem onForward_cases (i : Nat) (request : Request) :
    (∃ x, request = .heartbeat x ∧ w.taker i x = some (i, x) ∧ w.onForward i request =
      (some { ok := (w.beatHere i x).1.isSome, appliedIndex := (w.beatHere i x).1.getD 0, notOwner := false },
        (w.beatHere i x).2)) ∨
    Calm w (w.onForward i request).2 ∧ ∀ reply ∈ (w.onForward i request).1, reply.ok = false := by
  cases request with
  | heartbeat x =>
    simp only [onForward]
    split
    case h_1 => exact .inr ⟨.refl, by simp⟩
    case h_2 hn => exact .inl ⟨x, rfl, if_pos hn, rfl⟩
  | register t body =>
    refine .inr ?_
    simp only [onForward]
    split
    · exact ⟨.refl, by simp⟩
    · split
      · exact ⟨.registerAsOwner, by simp⟩
      · split
        · exact ⟨.registerAsOwner, by simp⟩
        · exact ⟨.refl, by simp⟩

theorem serve_effect {k : Nat} (e : w.step (.serve k) = some w₁) : Effect w (.serve k) w₁ := by
  obtain ⟨f, hf, e⟩ := Option.bind_eq_some_iff.mp e
  simp only [Option.ite_none_right_eq_some] at e
  obtain ⟨hn, e⟩ := e
  obtain ⟨x, hr, ht, ho⟩ | ⟨hc, ho⟩ := onForward_cases (w := w) f.target f.request
  case inl =>
    rw [ho] at e
    cases e
    refine .beat ?_ (Beat.beatHere.answered hr fun h => ?_)
    · simp [takes, hf, hr, ht]
    · unfold beatHere RegistryStore.heartbeat at h
      cases hg : (w.members f.target).store.get .node x <;> simp_all
  case inr =>
    refine .calm (hc.trans ?_)
    split at e
    case h_1 reply hreply =>
      cases e
      refine .setForwards fun f' hf' reply' t hs hok => ?_
      obtain hf' | rfl := List.mem_or_eq_of_mem_set hf'
      · exact hf'
      · obtain ⟨rfl, -⟩ := Prod.ext_iff.mp (Option.some.inj hs)
        simp [ho reply hreply] at hok
    case h_2 =>
      cases e
      exact .setForwards_sub List.eraseIdx_subset

theorem answer_effect {k : Nat} (e : w.step (.answer k) = some w₁) : Effect w (.answer k) w₁ := by
  obtain ⟨f, hf, e⟩ := Option.bind_eq_some_iff.mp e
  obtain ⟨⟨reply, time⟩, hreply, e⟩ := Option.bind_eq_some_iff.mp e
  cases e
  have hsub : w.forwards.eraseIdx k ⊆ w.forwards := List.eraseIdx_subset
  have hcalm : Calm w { w with forwards := w.forwards.eraseIdx k } := .setForwards_sub hsub
  unfold receive
  split
  case isTrue hn =>
    unfold reroute
    split
    case isTrue hr =>
      cases hq : f.request with
      | heartbeat x  =>
        obtain hc | ⟨ht, hb⟩ := heartbeatAt_cases { w with forwards := w.forwards.eraseIdx k } f.origin x false
        · exact .calm (hcalm.trans hc)
        · refine .beat ?_ (hb.of_forwards hsub)
          have ht : w.taker f.origin x = some (f.origin, x) := ht
          simp [takes, hf, hreply, hq, hn, hr, ht]
      | register t body => exact .calm (hcalm.trans .registerAt)
    case isFalse => exact .calm hcalm
  case isFalse =>
    cases hq : f.request with
    | heartbeat x     =>
      dsimp only
      split
      case isTrue ho =>
        exact .calm (hcalm.accept (.inr ⟨f, List.mem_of_getElem? hf, hq, reply, ho, hreply⟩))
      case isFalse   => exact .calm hcalm
    | register t body => exact .calm hcalm

theorem step_effect (e : w.step a = some w₁) : Effect w a w₁ := by
  cases a with
  | tick time =>
    simp only [step, Option.ite_none_right_eq_some, Option.some.injEq] at e
    exact e.2 ▸ .tick e.1
  | adjust i skew =>
    cases e
    exact .adjust
  | link i j up =>
    cases e
    exact .calm <| .modify ⟨rfl, rfl, fun pass h => ⟨pass, h, rfl, rfl, fun _ h => h⟩⟩
  | lead i ready leader =>
    cases e
    exact .calm <| .modify ⟨rfl, rfl, fun pass h => ⟨pass, h, rfl, rfl, fun _ h => h⟩⟩
  | restart i =>
    cases e
    exact .restart <| .setForwards_sub List.filter_sublist.subset
  | noop i =>
    cases e
    exact .calm <| .propose (by simp)
  | commit k term =>
    obtain ⟨op, ho, e⟩ := Option.bind_eq_some_iff.mp e
    cases e
    exact .commit ho
  | apply i =>
    obtain ⟨entry, he, e⟩ := Option.bind_eq_some_iff.mp e
    cases e
    exact .apply he
  | beginSnapshot i =>
    obtain ⟨entry, _, e⟩ := Option.bind_eq_some_iff.mp e
    obtain ⟨machine, hm, e⟩ := Option.bind_eq_some_iff.mp e
    cases e
    unfold StateMachine.beginCapture at hm
    split at hm <;> cases hm
    exact .calm <| .modify ⟨rfl, rfl, fun pass h => ⟨pass, h, rfl, rfl, fun _ h => h⟩⟩
  | walkSnapshot i =>
    obtain ⟨capture, _, e⟩ := Option.bind_eq_some_iff.mp e
    obtain ⟨walk, _, e⟩ := Option.bind_eq_some_iff.mp e
    simp only [] at e
    split at e <;> cases e
    · exact .calm <| .modify ⟨rfl, rfl, fun pass h => ⟨pass, h, rfl, rfl, fun _ h => h⟩⟩
    · exact .calm <| .trans (.modify ⟨rfl, rfl, fun pass h => ⟨pass, h, rfl, rfl, fun _ h => h⟩⟩) .setSnapshots
  | install i k =>
    obtain ⟨snapshot, hs, e⟩ := Option.bind_eq_some_iff.mp e
    simp only [Option.ite_none_right_eq_some] at e
    obtain ⟨machine, hm, e⟩ := Option.bind_eq_some_iff.mp e.2
    cases e
    exact .install hs hm
  | register i t body =>
    cases e
    exact .calm .registerAt
  | unregister i t id =>
    cases e
    exact .calm .unregisterAt
  | heartbeat i x =>
    cases e
    obtain hc | ⟨ht, hb⟩ := heartbeatAt_cases w i x true
    · exact .calm hc
    · exact .beat ht hb
  | serve k => exact serve_effect e
  | answer k => exact answer_effect e
  | lose k =>
    cases e
    exact .calm <| .setForwards_sub List.eraseIdx_subset
  | collect i =>
    simp only [step, Option.ite_none_right_eq_some, Option.some.injEq] at e
    exact e.2 ▸ .collect
  | consider i =>
    obtain ⟨pass, hp, e⟩ := Option.bind_eq_some_iff.mp e
    split at e <;> cases e
    case h_1 object remaining _ hr => exact .consider hp hr
  | settle i committed =>
    obtain ⟨pass, hp, e⟩ := Option.bind_eq_some_iff.mp e
    simp only [Option.ite_none_right_eq_some, Option.some.injEq] at e
    obtain ⟨_, rfl⟩ := e
    refine .calm <| .modify ⟨rfl, rfl, ?_⟩
    rintro _ ⟨⟩
    refine ⟨pass, hp, rfl, rfl, ?_⟩
    split
    · exact fun _ h => h
    · simp
  | finish i =>
    obtain ⟨pass, _, e⟩ := Option.bind_eq_some_iff.mp e
    simp only [Option.ite_none_left_eq_some, Option.some.injEq] at e
    obtain ⟨_, rfl⟩ := e
    exact .calm .finishAt

omit [Python] in
-- Looking at one Node either lets it be or proposes its expiry.
theorem considerAt_cases (hp : (w.members i).pass = some pass) (hr : pass.remaining = object :: remaining) :
    Calm w (w.considerAt i pass object remaining) ∨
    (w.members i).owns i object.1 ∧ pass.health (w.members i).store object < pass.threshold ∧
      ∃ w₁, Calm w w₁ ∧ w.considerAt i pass object remaining = w₁.propose (.expire ⟨i, 0⟩ object.1) := by
  have hidle (waiting : Bool) : (w.members i).Idle
      { w.members i with pass := some { pass with remaining, waiting } } := by
    refine ⟨rfl, rfl, ?_⟩
    rintro _ ⟨⟩
    exact ⟨pass, hp, rfl, rfl, hr ▸ List.subset_cons_self _ _⟩
  unfold considerAt
  dsimp only
  split
  case isTrue  => exact .inl (.modify (hidle pass.waiting))
  case isFalse hc =>
    rw [not_or, not_not, ge_iff_le, not_le] at hc
    exact .inr ⟨hc.2, hc.1, _, .modify (hidle true), rfl⟩

-- The invariant of a cluster.
structure Ok (gc : Rat) (w : RaftCluster) : Prop where
  gcInterval : w.gcInterval = gc
  members    : ∀ i, (w.members i).Ok gc
  past       : ∀ n t, w.Sign n t → t ≤ w.time

theorem Ok.calm {gc : Rat} (h : w.Ok gc) (hc : Calm w w₁) : w₁.Ok gc where
  gcInterval   := hc.gcInterval.trans h.gcInterval
  members i    := (h.members i).idle (hc.members i)
  past n t hs  := hc.time ▸ h.past n t (hc.sign n t hs)

theorem Ok.modify {gc : Rat} (h : w.Ok gc) (hm : (f (w.members i)).Ok gc) : (w.modify i f).Ok gc where
  gcInterval   := h.gcInterval
  members j    := by
    simp only [RaftCluster.modify, Function.update_apply]
    split
    · exact hm
    · exact h.members j
  past         := h.past

theorem Ok.propose {gc : Rat} (h : w.Ok gc) : (w.propose op).Ok gc :=
  ⟨h.gcInterval, h.members, h.past⟩

end Effect

end RaftCluster

namespace Member

variable [Python] {m : Member} {gc : Rat} {x : String} {now : Int} {clock : TaiCursor}

theorem Ok.heartbeat (h : m.Ok gc) :
    (m.setMachine { m.machine with store := (m.store.heartbeat x now).2 }).Ok gc where
  sound            := (heartbeat_refreshed _ _ h.sound.wellFormed.keyed).sound h.sound
  interval         := SameIntervals.heartbeat.gcInterval.trans h.interval
  listed pass hp y hy := by
    have hl := h.listed pass hp y hy
    have hr := heartbeat_refreshed x now h.sound.wellFormed.keyed (s := m.store)
    unfold Pass.swept at hl ⊢
    cases hrep : pass.replaced with
    | some s => simpa [hrep] using hl
    | none   =>
      rw [hrep, Option.getD_none] at hl
      show ((m.store.heartbeat x now).2.get .node y).isSome
      rw [← Option.isSome_map (f := view), hr.get, Option.isSome_map]
      exact hl

theorem Ok.apply {entry : Entry RegistryOperation} (h : m.Ok gc) : Ok gc { m with
    machine := (m.machine.applyEntry clock entry).2.2
    pass    := m.pass.map (·.follow (m.machine.applyEntry clock entry).2.2.store) } where
  sound            := StateMachine.applyEntry_sound h.sound entry
  interval         := (StateMachine.applyEntry_intervals h.sound entry).gcInterval.trans h.interval
  listed pass' hp  := by
    obtain ⟨pass, hm, rfl⟩ := Option.map_eq_some_iff.mp hp
    refine (h.listed pass hm).follow fun y hy hn => ?_
    obtain ⟨r, hr, -⟩ := StateMachine.applyEntry_retired h.sound hy hn
    simp [hr]

theorem Ok.install {machine : StateMachine} {snapshot : Snapshot} (h : m.Ok gc)
    (hm : m.machine.installPayload snapshot clock = some machine) : Ok gc { m with
      machine, walk := none, pass := m.pass.map fun pass => { pass with replaced := pass.swept m.store } } where
  sound            := (StateMachine.installPayload_spec hm).1
  interval         := (StateMachine.installPayload_spec hm).2.1.gcInterval.trans h.interval
  listed pass' hp  := by
    obtain ⟨pass, hm, rfl⟩ := Option.map_eq_some_iff.mp hp
    exact h.listed pass hm

theorem Ok.collect {threshold : Int} (h : m.Ok gc) : Ok gc { m with pass := some {
    threshold, remaining := (m.store.iterExtant .node).map fun node => (node.id, none) } } where
  sound            := h.sound
  interval         := h.interval
  listed           := by
    rintro _ ⟨⟩ x hx
    obtain ⟨node, hn, hx⟩ := List.mem_map.mp hx
    obtain ⟨rfl, -⟩ := Prod.ext_iff.mp hx
    have hg := (mem_iterExtant h.sound.wellFormed.keyed).mp hn
    show (m.store.get .node node.id).isSome
    rw [hg]
    rfl

end Member

namespace RaftCluster

variable [Python] {w w₁ : RaftCluster} {a : ClusterAction} {gc : Rat}

theorem Ok.beat {j : Nat} {x : String} (h : w.Ok gc) (hb : Beat w j x w₁) : w₁.Ok gc where
  gcInterval   := hb.gcInterval.trans h.gcInterval
  members i    := by
    by_cases hi : i = j
    · subst hi
      rw [hb.member]
      exact (h.members i).heartbeat
    · rw [hb.others i hi]
      exact h.members i
  past n t hs  := by
    rw [hb.time]
    obtain hs | ⟨-, rfl, -⟩ := hb.sign n t hs
    · exact h.past n t hs
    · exact le_rfl

theorem Ok.step (h : w.Ok gc) (e : w.step a = some w₁) : w₁.Ok gc := by
  obtain hc | ⟨-, hb⟩ | ht | ⟨⟩ | ho | hc | he | ⟨-, hm⟩ | ⟨⟩ | ⟨hp, hr⟩ := step_effect e
  · exact h.calm hc
  · exact h.beat hb
  · exact ⟨h.gcInterval, h.members, fun n t hs => (h.past n t hs).trans ht⟩
  · exact ⟨h.gcInterval, h.members, h.past⟩
  · exact ⟨h.gcInterval, h.members, h.past⟩
  · exact (h.modify (h.gcInterval ▸ .new)).calm hc
  · exact h.modify (h.members _).apply
  · exact h.modify ((h.members _).install hm)
  · exact h.modify (h.members _).collect
  · obtain hc | ⟨-, -, w', hc, e⟩ := considerAt_cases hp hr
    · exact h.calm hc
    · exact e ▸ (h.calm hc).propose

theorem Effect.time_le (h : Effect w a w₁) : w.time ≤ w₁.time := by
  obtain hc | ⟨-, hb⟩ | ht | ⟨⟩ | ho | hc | he | ⟨-, hm⟩ | ⟨⟩ | ⟨hp, hr⟩ := h
  · exact hc.time.ge
  · exact hb.time.ge
  · exact ht
  · exact le_rfl
  · exact le_rfl
  · exact hc.time.ge
  · exact le_rfl
  · exact le_rfl
  · exact le_rfl
  · obtain hc | ⟨-, -, w', hc, e⟩ := considerAt_cases hp hr
    · exact hc.time.ge
    · rw [e]
      exact hc.time.ge

end RaftCluster

theorem reachable_ok [Python] {w : RaftCluster} {gc forget t₀ : Rat}
    (h : (clusterSystem gc forget t₀).Reachable w) : w.Ok gc := by
  refine h.induct ⟨rfl, fun _ => .new, ?_⟩ fun _ _ _ _ h _ e => h.step e
  rintro n t (hs | ⟨f, hf, -⟩)
  · cases hs
  · cases hf

end Cluster
