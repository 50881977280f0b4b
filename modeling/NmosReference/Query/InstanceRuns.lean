import NmosReference.Query.Instance
import NmosReference.Raft.MachinePublish

namespace Query

open Registry RegistryStore Raft TransitionSystem

section

variable {m : SubscriptionManager} {x id : String}

theorem SubscriptionManager.get?_modify {f : SubscriptionConnection → SubscriptionConnection} :
    (m.modify x f).connections.get? id =
      (m.connections.get? id).map fun ks => if id = x then ks.map f else ks := by
  unfold SubscriptionManager.modify
  split
  case h_1 hn =>
    by_cases hx : id = x
    · simp [hx, hn]
    · simp [hx]
  case h_2 ks hk =>
    rw [Dict.get?_set]
    by_cases hx : id = x
    · simp [hx, hk]
    · simp [hx]

-- The invariant of a store that is kept by one of the backends.
def Kept [Python] (backend : Backend) (store : RegistryStore) : Prop :=
  match backend with
  | .etcd => store.Keyed
  | _     => store.Sound

namespace Kept

variable [Python] {backend : Backend} {store store' : RegistryStore}

theorem of_etcd (hb : backend = .etcd) (h : store.Keyed) : Kept backend store := by
  subst hb
  exact h

theorem of_sound (hb : backend ≠ .etcd) (h : store.Sound) : Kept backend store := by
  cases backend with
  | etcd              => exact absurd rfl hb
  | standalone | raft => exact h

theorem sound (hb : backend ≠ .etcd) (h : Kept backend store) : store.Sound := by
  cases backend with
  | etcd              => exact absurd rfl hb
  | standalone | raft => exact h

theorem keyed (h : Kept backend store) : store.Keyed := by
  cases backend with
  | etcd              => exact h
  | standalone | raft => exact h.wellFormed.keyed

theorem refreshed (h : Kept backend store) (hr : store.Refreshed store') : Kept backend store' := by
  cases backend with
  | etcd              => exact hr.keyed h
  | standalone | raft => exact hr.sound h

end Kept

variable [Python] [QueryFilter] {c c' : Content} {sub : Subscription} {e : ResourceEvent}
variable {k : SubscriptionConnection}

-- What this subscription shows of a content: the text of each resource of its type that matches.
def Subscription.shown (sub : Subscription) (c : Content) (x : String) : Option String :=
  let body := c sub.resourceType x
  if sub.accepts (body.map Body.data) then body.map (·.text) else none

-- What one change does to a connection.
def Subscription.tell (sub : Subscription) (e : ResourceEvent) (k : SubscriptionConnection) :
    SubscriptionConnection :=
  if sub.resourceType ≠ e.resourceType then k else
    match sub.classify e with
    | none         => k
    | some pending => k.enqueue pending

-- The client will come to hold what its subscription shows.
structure Synced (c : Content) (k : SubscriptionConnection) : Prop where
  filed    : k.Filed
  upcoming : ∀ x, k.upcoming x = k.subscription.shown c x

theorem Synced.congr (h : Synced c k) (hc : ∀ x, k.subscription.shown c' x = k.subscription.shown c x) :
    Synced c' k where
  filed      := h.filed
  upcoming x := (h.upcoming x).trans (hc x).symm

theorem Synced.drain (h : Synced c k) : Synced c k.drain where
  filed      := k.filed_drain
  upcoming x := (k.upcoming_drain h.filed).trans (h.upcoming x)

-- What is shown of a resource after a change, read off the pending event.
theorem Subscription.classify_shown (he : e.pre = c e.resourceType e.resourceId)
    (ht : sub.resourceType = e.resourceType) :
    match sub.classify e with
    | none         => sub.shown (c.after e) e.resourceId = sub.shown c e.resourceId
    | some pending => pending.path = e.resourceId ∧
      sub.shown (c.after e) e.resourceId = pending.post.map (·.text) := by
  have ha : c.after e e.resourceType e.resourceId = e.post := by simp [Content.after]
  simp only [Subscription.classify, Subscription.shown, ht, ha, ← he]
  cases hpre : sub.accepts (e.pre.map Body.data) <;>
    cases hpost : sub.accepts (e.post.map Body.data) <;> simp

theorem Synced.tell (h : Synced c k) (he : e.pre = c e.resourceType e.resourceId) :
    Synced (c.after e) (k.subscription.tell e k) := by
  have hother : ∀ x, ¬(k.subscription.resourceType = e.resourceType ∧ x = e.resourceId) →
      k.subscription.shown (c.after e) x = k.subscription.shown c x := fun x hx => by
    simp only [Subscription.shown, Content.after, if_neg hx]
  unfold Subscription.tell
  split
  case isTrue ht => exact h.congr fun x => hother x fun hx => ht hx.1
  case isFalse ht =>
    have ht : k.subscription.resourceType = e.resourceType := not_not.mp ht
    have hs := Subscription.classify_shown he ht
    cases hc : k.subscription.classify e with
    | none =>
      rw [hc] at hs
      refine h.congr fun x => ?_
      by_cases hx : x = e.resourceId
      · rw [hx]
        exact hs
      · exact hother x fun hx' => hx hx'.2
    | some pending =>
      rw [hc] at hs
      refine ⟨k.filed_enqueue h.filed, fun x => ?_⟩
      rw [SubscriptionConnection.upcoming_enqueue, SubscriptionConnection.enqueue_subscription, hs.1]
      split
      case isTrue hx  => rw [hx, hs.2]
      case isFalse hx => rw [h.upcoming, hother x fun hx' => hx hx'.2]

@[simp] theorem Subscription.tell_subscription : (sub.tell e k).subscription = k.subscription := by
  unfold Subscription.tell
  split
  · rfl
  · split <;> simp

namespace SubscriptionManager

-- A connection that follows this subscription.
def Follows (m : SubscriptionManager) (sub : Subscription) : Prop :=
  ∃ id ks k, m.connections.get? id = some ks ∧ k ∈ ks ∧ k.subscription = sub

-- Every connection belongs to a subscription that is there, and its client will come to hold what that
-- subscription shows.
structure Serves (m : SubscriptionManager) (c : Content) : Prop where
  keyed  : ∀ id sub, m.subscriptions.get? id = some sub → sub.id = id
  synced : ∀ id ks, m.connections.get? id = some ks →
    ∃ sub, m.subscriptions.get? id = some sub ∧ ∀ k ∈ ks, k.subscription = sub ∧ Synced c k

theorem route_subscriptions : (route e m sub).subscriptions = m.subscriptions := by
  unfold route modify
  split
  · rfl
  · split
    · rfl
    · split <;> rfl

theorem get?_route : (route e m sub).connections.get? id =
    (m.connections.get? id).map fun ks => if id = sub.id then ks.map (sub.tell e) else ks := by
  unfold route
  split
  case isTrue ht =>
    have htell : sub.tell e = fun k => k := funext fun k => if_pos ht
    simp [htell]
  case isFalse ht =>
    have htell : sub.tell e = fun k => match sub.classify e with
        | none         => k
        | some pending => k.enqueue pending := funext fun k => if_neg ht
    cases hc : sub.classify e with
    | none         => simp [htell, hc]
    | some pending => simp only [htell, hc, get?_modify]

-- Publishing attaches nothing.
theorem follows_route {sub' : Subscription} (h : (route e m sub).Follows sub') : m.Follows sub' := by
  obtain ⟨id, ks, k, hks, hk, rfl⟩ := h
  rw [get?_route, Option.map_eq_some_iff] at hks
  obtain ⟨ks', hks', rfl⟩ := hks
  split at hk
  · obtain ⟨k', hk', rfl⟩ := List.mem_map.mp hk
    exact ⟨id, ks', k', hks', hk', Subscription.tell_subscription.symm⟩
  · exact ⟨id, ks', k, hks', hk, rfl⟩

theorem follows_publish {sub' : Subscription} {ev : List ResourceEvent}
    (h : (m.publish ev).Follows sub') : m.Follows sub' := by
  have hone : ∀ (subs : List Subscription) (e : ResourceEvent) (m : SubscriptionManager),
      (subs.foldl (route e) m).Follows sub' → m.Follows sub' := by
    intro subs e
    induction subs with
    | nil           => exact fun _ h => h
    | cons s subs hi => exact fun m h => follows_route (hi _ h)
  induction ev generalizing m with
  | nil          => exact h
  | cons e ev hi => exact hone _ e m (hi h)

theorem foldl_route_subscriptions (subs : List Subscription) :
    (subs.foldl (route e) m).subscriptions = m.subscriptions := by
  induction subs generalizing m with
  | nil => rfl
  | cons sub subs hi => exact hi.trans route_subscriptions

-- Each connection is told of a change once, as its subscription sees it.
theorem get?_foldl_route (subs : List Subscription) (hn : (subs.map (·.id)).Nodup) :
    (subs.foldl (route e) m).connections.get? id = (m.connections.get? id).map fun ks =>
      match subs.find? (·.id = id) with
      | some sub => ks.map (sub.tell e)
      | none     => ks := by
  induction subs generalizing m with
  | nil => simp
  | cons sub subs hi =>
    have hn := List.nodup_cons.mp hn
    rw [List.foldl_cons, hi hn.2, get?_route, Option.map_map]
    by_cases hx : id = sub.id
    · subst hx
      have hno : subs.find? (·.id = sub.id) = none := by
        simp only [List.find?_eq_none, decide_eq_true_eq]
        exact fun s hs e => hn.1 <| List.mem_map.mpr ⟨s, hs, e⟩
      simp [hno, Function.comp_def]
    · simp [hx, eq_comm (a := sub.id), Function.comp_def]

namespace Serves

theorem publishOne (h : m.Serves c) (he : e.pre = c e.resourceType e.resourceId) :
    (m.publishOne e).Serves (c.after e) := by
  have hsubs : (m.publishOne e).subscriptions = m.subscriptions := foldl_route_subscriptions _
  have hn : (m.subscriptions.values.map (·.id)).Nodup := by
    have hk : m.subscriptions.values.map (·.id) = m.subscriptions.keys := by
      simp only [Dict.values, Dict.keys, List.map_map]
      exact List.map_congr_left fun p hp => h.keyed _ _ (Dict.get?_eq_some.mpr hp)
    exact hk ▸ m.subscriptions.nodup
  refine ⟨by rw [hsubs]; exact h.keyed, fun id ks hks => ?_⟩
  rw [SubscriptionManager.publishOne, get?_foldl_route _ hn, Option.map_eq_some_iff] at hks
  obtain ⟨ks', hks', rfl⟩ := hks
  obtain ⟨sub, hsub, hk⟩ := h.synced id ks' hks'
  obtain ⟨sub', hf⟩ : ∃ sub', m.subscriptions.values.find? (·.id = id) = some sub' :=
    Option.isSome_iff_exists.mp <| List.find?_isSome.mpr
      ⟨sub, Dict.mem_values.mpr ⟨id, hsub⟩, by simpa using h.keyed _ _ hsub⟩
  obtain rfl : sub' = sub := by
    obtain ⟨id', hid'⟩ := Dict.mem_values.mp (List.mem_of_find?_eq_some hf)
    have hid : sub'.id = id := by simpa using List.find?_some hf
    rw [← h.keyed _ _ hid', hid, hsub] at hid'
    exact (Option.some.inj hid').symm
  refine ⟨sub', by rw [hsubs]; exact hsub, fun k hk' => ?_⟩
  simp only [hf, List.mem_map] at hk'
  obtain ⟨k, hm, rfl⟩ := hk'
  obtain ⟨rfl, hsync⟩ := hk k hm
  exact ⟨Subscription.tell_subscription, hsync.tell he⟩

-- Publishing what happened to the store keeps every client on its way to what is there.
theorem publish {ev : List ResourceEvent} (h : m.Serves c) (hd : Describes ev c c') :
    (m.publish ev).Serves c' := by
  induction ev generalizing m c with
  | nil => exact hd ▸ h
  | cons e ev hi => exact hi (h.publishOne hd.1) hd.2

theorem congr (h : m.Serves c) (hc : ∀ sub x, m.Follows sub → sub.shown c' x = sub.shown c x) :
    m.Serves c' where
  keyed  := h.keyed
  synced := fun id ks hks => by
    obtain ⟨sub, hsub, hk⟩ := h.synced id ks hks
    refine ⟨sub, hsub, fun k hm => ⟨(hk k hm).1, (hk k hm).2.congr fun x => ?_⟩⟩
    exact hc _ x ⟨id, ks, k, hks, hm, rfl⟩

theorem empty : SubscriptionManager.empty.Serves c where
  keyed  := by simp [SubscriptionManager.empty]
  synced := by simp [SubscriptionManager.empty]

-- Connections may go, and what is left is served.
theorem set {ks : List SubscriptionConnection} (h : m.Serves c)
    (hks : ∃ sub, m.subscriptions.get? id = some sub ∧ ∀ k ∈ ks, k.subscription = sub ∧ Synced c k) :
    Serves { m with connections := m.connections.set id ks } c where
  keyed  := h.keyed
  synced := fun id' ks' hks' => by
    simp only [Dict.get?_set] at hks'
    split at hks'
    case isTrue hid =>
      cases hks'
      exact hid ▸ hks
    case isFalse    => exact h.synced id' ks' hks'

theorem delete (h : m.Serves c) (id : String) : (m.delete id).Serves c where
  keyed  := fun id' sub hs => by
    simp only [SubscriptionManager.delete, Dict.get?_erase] at hs
    split at hs
    · cases hs
    · exact h.keyed _ _ hs
  synced := fun id' ks hks => by
    simp only [SubscriptionManager.delete, Dict.get?_erase] at hks ⊢
    split at hks
    case isTrue      => cases hks
    case isFalse hid => simpa only [hid, ↓reduceIte] using h.synced id' ks hks

theorem disconnect (h : m.Serves c) (id : String) (n : Nat) : (m.disconnect id n).Serves c := by
  unfold SubscriptionManager.disconnect
  split
  case h_1 => exact h
  case h_2 ks hks =>
    simp only
    split
    · exact h.delete id
    · obtain ⟨sub, hsub, hk⟩ := h.synced id ks hks
      exact h.set ⟨sub, hsub, fun k hm => hk k (List.mem_of_mem_eraseIdx hm)⟩

theorem deliver (h : m.Serves c) (id : String) (n : Nat) : (m.deliver id n).Serves c := by
  unfold SubscriptionManager.deliver
  split
  case h_1 => exact h
  case h_2 ks hks =>
    obtain ⟨sub, hsub, hk⟩ := h.synced id ks hks
    refine h.set ⟨sub, hsub, fun k hm => ?_⟩
    obtain ⟨i, hi, rfl⟩ := List.mem_iff_getElem.mp hm
    have hi : i < ks.length := by simpa using hi
    rw [List.getElem_modify]
    have ⟨h₁, h₂⟩ := hk ks[i] (List.getElem_mem hi)
    split
    · exact ⟨h₁, h₂.drain⟩
    · exact ⟨h₁, h₂⟩

theorem createOrMatch {request sub : Subscription} {m' : SubscriptionManager} (h : m.Serves c)
    (e : m.createOrMatch request = some (sub, m')) : m'.Serves c := by
  unfold SubscriptionManager.createOrMatch at e
  obtain ⟨t, _, e⟩ := Option.bind_eq_some_iff.mp e
  split at e
  case h_1 =>
    cases e
    exact h
  case h_2 =>
    cases e
    refine ⟨fun id sub hs => ?_, fun id ks hks => ?_⟩
    · simp only [Dict.get?_set] at hs
      split at hs
      case isTrue hid =>
        cases hs
        exact hid.symm
      case isFalse    => exact h.keyed _ _ hs
    · simp only [Dict.get?_set] at hks ⊢
      split at hks
      case isTrue hid =>
        cases hks
        simp [hid]
      case isFalse hid => simpa only [hid, ↓reduceIte] using h.synced id ks hks

-- The synchronisation burst brings a new client to what is there.
theorem connect {store : RegistryStore} (h : m.Serves store.content) (hk : store.Keyed)
    (hs : m.subscriptions.get? sub.id = some sub) : (m.connect sub store).Serves store.content := by
  let sync := (store.iterExtant sub.resourceType).filter fun r => sub.accepts (some r.raw)
  let fresh : SubscriptionConnection := { subscription := sub, pending := ∅, view := ∅ }
  have hfold : ∀ (rs : List RegisteredResource) (k : SubscriptionConnection), k.Filed →
      (∀ r ∈ rs, store.get sub.resourceType r.id = some r) →
      let k' := rs.foldl (fun c r => c.enqueue ⟨r.id, r.body, r.body⟩) k
      k'.Filed ∧ k'.subscription = k.subscription ∧ ∀ x, k'.upcoming x =
        if ∃ r ∈ rs, r.id = x then (store.content sub.resourceType x).map (·.text) else k.upcoming x := by
    intro rs
    induction rs with
    | nil => exact fun k hk _ => ⟨hk, rfl, fun x => by simp⟩
    | cons r rs hi =>
      intro k hk hr
      obtain ⟨h₁, h₂, h₃⟩ := hi (k.enqueue ⟨r.id, r.body, r.body⟩) (k.filed_enqueue hk)
        fun q hq => hr q (by simp [hq])
      refine ⟨h₁, h₂.trans k.enqueue_subscription, fun x => (h₃ x).trans ?_⟩
      simp only [SubscriptionConnection.upcoming_enqueue, List.mem_cons, exists_eq_or_imp]
      by_cases hx : r.id = x
      · subst hx
        simp [RegistryStore.content, hr r (by simp)]
      · simp [hx, eq_comm (a := x)]
  have hsync : ∀ r ∈ sync, store.get sub.resourceType r.id = some r := fun r hr =>
    (mem_iterExtant hk).mp (List.mem_filter.mp hr).1
  obtain ⟨hf, hsub, hup⟩ := hfold sync fresh (by simp [SubscriptionConnection.Filed, fresh]) hsync
  refine h.set ⟨sub, hs, fun k hm => ?_⟩
  rw [List.mem_append, List.mem_singleton] at hm
  obtain hm | rfl := hm
  · cases hks : m.connections.get? sub.id with
    | none    => simp [hks] at hm
    | some ks =>
      obtain ⟨sub', hs', hk'⟩ := h.synced _ _ hks
      obtain rfl : sub' = sub := Option.some.inj (hs'.symm.trans hs)
      exact hk' k (by simpa [hks] using hm)
  · refine ⟨hsub, hf, fun x => (hup x).trans ?_⟩
    rw [hsub]
    have hx : (∃ r ∈ sync, r.id = x) ↔
        sub.accepts ((store.content sub.resourceType x).map Body.data) = true := by
      constructor
      · rintro ⟨r, hr, rfl⟩
        simpa [RegistryStore.content, hsync r hr, RegisteredResource.raw] using (List.mem_filter.mp hr).2
      · intro ha
        cases hg : store.get sub.resourceType x with
        | none   => simp [RegistryStore.content, hg, Subscription.accepts] at ha
        | some r =>
          have hid := (hk _ _ _ (get_eq_some.mp hg).1).2
          refine ⟨r, List.mem_filter.mpr ⟨(mem_iterExtant hk).mpr (hid.symm ▸ hg), ?_⟩, hid⟩
          simpa [RegistryStore.content, hg, RegisteredResource.raw] using ha
    simp only [Subscription.shown, hx]
    rfl

end Serves
end SubscriptionManager

namespace Instance

variable {w w' w₀ : Instance} {a : InstanceAction}

-- The steps at which subscribers are told of everything they can see change: a WebSocket attaches to a
-- subscription that still is there, an installed snapshot shows the connected subscriptions what the
-- replaced store showed them, and a re-snapshot brings them no new text with the parsed form of the old.
def Announced (w : Instance) : InstanceAction → Prop
  | .connect n            => ∀ sub, w.opening[n]? = some sub →
    w.manager.subscriptions.get? sub.id = some sub
  | .install snapshot now => ∀ ownership records store,
    decodeSnapshot snapshot = some (ownership, records) →
    Raft.install records w.store.gcInterval w.store.forgetInterval now = some store →
    ∀ sub x, w.manager.Follows sub → sub.shown store.content x = sub.shown w.store.content x
  | .resnapshot kvs now   => ∀ store,
    readSnapshot kvs w.store.gcInterval w.store.forgetInterval now = some store →
    ∀ sub x was r, w.manager.Follows sub → w.store.get sub.resourceType x = some was →
    store.get sub.resourceType x = some r → Python.jsonEq was.raw r.raw →
    sub.shown store.content x = sub.shown w.store.content x
  | _                     => True

structure Inv (w : Instance) : Prop where
  store  : Kept w.backend w.store
  serves : w.manager.Serves w.store.content

theorem Started.inv (h : w₀.Started) : w₀.Inv where
  store  := by
    have hs := h.store
    cases hb : w₀.backend with
    | standalone =>
      rw [hb] at hs
      obtain ⟨_, _, e⟩ := hs
      rw [e]
      exact .of_sound (by decide) .new
    | raft       =>
      rw [hb] at hs
      exact .of_sound (by decide) hs.sound
    | etcd       =>
      rw [hb] at hs
      obtain ⟨_, _, _, _, e⟩ := hs
      exact .of_etcd rfl (readSnapshot_keyed e)
  serves := by
    rw [h.manager]
    exact .empty

namespace Inv

-- A change of the store that is published.
theorem publishing {ev : List ResourceEvent} {store : RegistryStore} (h : w.Inv)
    (hs : Kept w.backend store) (hd : Describes ev w.store.content store.content) :
    (w.publishing (ev, store)).Inv where
  store  := hs
  serves := h.serves.publish hd

-- A change of the store that nobody sees.
theorem unseen {store : RegistryStore} (h : w.Inv) (hs : Kept w.backend store)
    (hc : store.content = w.store.content) : (w.setStore store).Inv where
  store  := hs
  serves := by
    have := h.serves
    rw [← hc] at this
    exact this

-- A re-snapshot, as far as its subscribers can see.
theorem resnapshot {store : RegistryStore} (h : w.Inv) (hb : w.backend = .etcd) (hs : store.Keyed)
    (ha : ∀ sub x was r, w.manager.Follows sub → w.store.get sub.resourceType x = some was →
      store.get sub.resourceType x = some r → Python.jsonEq was.raw r.raw →
      sub.shown store.content x = sub.shown w.store.content x) :
    (w.publishing (w.store.diffStores store, store)).Inv where
  store  := .of_etcd hb hs
  serves := by
    have hp := h.serves.publish (diffStores_describes h.store.keyed hs)
    refine hp.congr fun sub x hf => ?_
    have hf := SubscriptionManager.follows_publish hf
    change sub.shown store.content x = sub.shown (reported w.store store) x
    cases hg : w.store.get sub.resourceType x with
    | none     => simp [Subscription.shown, reported, RegistryStore.content, hg]
    | some was =>
      cases hr : store.get sub.resourceType x with
      | none   => simp [Subscription.shown, reported, RegistryStore.content, hg, hr]
      | some r =>
        cases hj : Python.jsonEq was.raw r.raw with
        | false => simp [Subscription.shown, reported, RegistryStore.content, hg, hr, hj]
        | true  =>
          rw [ha sub x was r hf hg hr hj]
          simp [Subscription.shown, reported, RegistryStore.content, hg, hr, hj]

theorem step (h : w.Inv) (ha : w.Announced a) (e : w.step a = some w') : w'.Inv := by
  cases a with
  | createOrMatch request =>
    obtain ⟨⟨sub, manager⟩, hc, e⟩ := Option.bind_eq_some_iff.mp e
    cases e
    exact ⟨h.store, h.serves.createOrMatch hc⟩
  | delete id =>
    cases e
    exact ⟨h.store, h.serves.delete id⟩
  | accept id =>
    obtain ⟨sub, _, e⟩ := Option.bind_eq_some_iff.mp e
    cases e
    exact ⟨h.store, h.serves⟩
  | connect n =>
    obtain ⟨sub, hsub, e⟩ := Option.bind_eq_some_iff.mp e
    cases e
    exact ⟨h.store, h.serves.connect h.store.keyed (ha sub hsub)⟩
  | disconnect id n =>
    cases e
    exact ⟨h.store, h.serves.disconnect id n⟩
  | deliver id n =>
    cases e
    exact ⟨h.store, h.serves.deliver id n⟩
  | register t body now =>
    obtain ⟨hb, e⟩ := Option.ite_none_right_eq_some.mp e
    cases e
    have hne : w.backend ≠ .etcd := by simp [hb]
    have hs := h.store.sound hne
    have ⟨hs', hd⟩ := insertOrUpdate_spec (t := t) body now hs
    rw [← insertOrUpdate_events hs] at hd
    exact h.publishing (.of_sound hne hs') hd
  | unregister t id now =>
    obtain ⟨hb, e⟩ := Option.ite_none_right_eq_some.mp e
    cases e
    have hne : w.backend ≠ .etcd := by simp [hb]
    have hs := h.store.sound hne
    exact h.publishing (.of_sound hne (hs.delete t id now.seconds))
      (delete_describes hs.wellFormed)
  | collectGarbage now =>
    obtain ⟨hb, e⟩ := Option.ite_none_right_eq_some.mp e
    cases e
    have hne : w.backend ≠ .etcd := by simp [hb]
    have hs := h.store.sound hne
    have ⟨hs', hd⟩ := collectGarbage_spec now.seconds hs
    exact h.publishing (.of_sound hne hs') hd
  | heartbeat nodeId now =>
    cases e
    have hr := heartbeat_refreshed nodeId now.seconds h.store.keyed
    exact h.unseen (h.store.refreshed hr) hr.content
  | apply entries =>
    obtain ⟨hb, e⟩ := Option.ite_none_right_eq_some.mp e
    cases e
    have hne : w.backend ≠ .etcd := by simp [hb]
    have hs := h.store.sound hne
    have ⟨hs', hd⟩ := StateMachine.apply_describes entries hs
    exact ⟨.of_sound hne hs', h.serves.publish hd⟩
  | install snapshot now =>
    obtain ⟨hb, e⟩ := Option.ite_none_right_eq_some.mp e
    obtain ⟨machine, hi, e⟩ := Option.bind_eq_some_iff.mp e
    cases e
    obtain ⟨⟨ownership, records⟩, hd, hi⟩ := Option.bind_eq_some_iff.mp hi
    obtain ⟨store, hinst, hi⟩ := Option.bind_eq_some_iff.mp hi
    cases hi
    refine ⟨.of_sound (by simp [hb]) (install_sound hinst), ?_⟩
    exact h.serves.congr (ha ownership records store hd hinst)
  | applyBatch batch now =>
    obtain ⟨hb, e⟩ := Option.ite_none_right_eq_some.mp e
    cases e
    have ⟨hk, hd⟩ := applyBatch_spec batch now h.store.keyed
    exact h.publishing (.of_etcd hb hk) hd
  | resnapshot kvs now =>
    obtain ⟨hb, e⟩ := Option.ite_none_right_eq_some.mp e
    obtain ⟨store, hr, e⟩ := Option.bind_eq_some_iff.mp e
    cases e
    exact h.resnapshot hb (readSnapshot_keyed hr) (ha store hr)
  | forgetTombstones now =>
    obtain ⟨hb, e⟩ := Option.ite_none_right_eq_some.mp e
    cases e
    have ⟨hk, hc⟩ := forgetAll_content (w.store.forgettable now.seconds) h.store.keyed
    exact h.unseen (.of_etcd hb hk) hc

end Inv

-- In a run whose steps all are announced, a client that was sent everything holds exactly what its
-- subscription shows of the store.
theorem views_exact (h : w₀.Started) (hr : (instanceSystem w₀).Reaches Announced w) :
    ∀ id ks k, w.manager.connections.get? id = some ks → k ∈ ks → k.pending.items = [] →
      ∀ x, k.view.get? x = k.subscription.shown w.store.content x := by
  have hi : w.Inv := hr.induct h.inv fun s a s' _ hi ha e => hi.step ha e
  intro id ks k hks hk hp x
  obtain ⟨_, _, hsync⟩ := hi.serves.synced id ks hks
  have hn : k.pending.get? x = none := by
    have : ∀ v, k.pending.get? x ≠ some v := fun v hv => by
      have := Dict.get?_eq_some.mp hv
      simp [hp] at this
    exact Option.eq_none_iff_forall_ne_some.mpr this
  have := (hsync k hk).2.upcoming x
  simpa only [SubscriptionConnection.upcoming, hn] using this

end Instance
end

-- A subscription to all Nodes, with one client.
namespace AllNodes

def text : String :=
  "\x7b\"id\": \"n\", \"version\": \"1:0\"\x7d"

local instance python : Python :=
  .ofTable [(text, [("id", "n"), ("version", "1:0")])]

-- The matcher, for filters on members that are strings.
local instance queryFilter : QueryFilter where
  satisfies raw filters := filters.all fun p => raw.lookup p.1 == some p.2

def started (backend : Backend) : Instance where
  backend := backend
  machine := .new (.new 12 3600) (.new ⟨1, one_lt_maxOwners⟩)
  manager := .empty
  opening := []

def request : Subscription where
  id              := "s"
  resourcePath    := "/nodes"
  resourceType    := .node
  params          := ∅
  maxUpdateRateMs := 100
  persist         := false
  secure          := false
  authorization   := false
  host            := "registry"

def attach : List InstanceAction :=
  [.createOrMatch request, .accept "s", .connect 0]

def register : List InstanceAction :=
  attach ++ [.register .node ⟨text⟩ ⟨2, 0⟩, .deliver "s" 0]

theorem started_standalone : (started .standalone).Started :=
  ⟨rfl, rfl, 12, 3600, rfl⟩

theorem views_exact_register : ∃ w, (instanceSystem (started .standalone)).run
      (started .standalone) register = some w ∧
    ∀ id ks k, w.manager.connections.get? id = some ks → k ∈ ks → k.pending.items = [] →
      ∀ x, k.view.get? x = k.subscription.shown w.store.content x := by
  obtain ⟨w, hw⟩ : ∃ w, (instanceSystem (started .standalone)).run (started .standalone) register =
      some w := Option.isSome_iff_exists.mp (by decide)
  refine ⟨w, hw, Instance.views_exact started_standalone (.of_along hw ?_)⟩
  refine ⟨trivial, ?_⟩
  rintro _ ⟨⟩
  refine ⟨trivial, ?_⟩
  rintro _ ⟨⟩
  refine ⟨?_, fun _ _ => ⟨trivial, fun _ _ => ⟨trivial, fun _ _ => trivial⟩⟩⟩
  rintro _ ⟨⟩
  rfl

def snapshot : Snapshot where
  lastIndex := 1
  lastTerm  := 1
  count     := 1
  ownership := []
  records   := [⟨"node", "n", "1:0", ⟨1, 0⟩, ⟨1, 0⟩, true, 1, "", text⟩]

def install : List InstanceAction :=
  attach ++ [.install snapshot ⟨2, 0⟩]

-- The Node that came with the snapshot is never sent.
theorem install_unannounced : ∃ w ks k, (started .raft).Started ∧
    (instanceSystem (started .raft)).run (started .raft) install = some w ∧
    w.manager.connections.get? "s" = some ks ∧ k ∈ ks ∧ k.pending.items = [] ∧
    k.view.get? "n" ≠ k.subscription.shown w.store.content "n" := by
  have hx : (((instanceSystem (started .raft)).run (started .raft) install).any fun w =>
      (w.manager.connections.get? "s").any fun ks => ks.any fun k =>
        decide (k.pending.items = [] ∧
          k.view.get? "n" ≠ k.subscription.shown w.store.content "n")) = true := by
    decide
  obtain ⟨w, hw, hx⟩ := (Option.any_eq_true _ _).mp hx
  obtain ⟨ks, hks, hx⟩ := (Option.any_eq_true _ _).mp hx
  obtain ⟨k, hk, hx⟩ := List.any_eq_true.mp hx
  have ⟨hp, hv⟩ := of_decide_eq_true hx
  exact ⟨w, ks, k, ⟨rfl, rfl, StateMachine.Reached.new⟩, hw, hks, hk, hp, hv⟩

end AllNodes
end Query
