import NmosReference.Controller.RdsWebSocketViews

-- Every state of a run in which the cache is to become what the registry holds.
namespace Controller

variable {J P : Type} [Json J] {kind : ResourceKind} {id : String} {body : J}

-- The bodies are those of the resource.
def Change.WellFormed (e : Change J) : Prop :=
  ∀ body, e.pre = some body ∨ e.post = some body → Follower.Valid e.path body

structure Connection.WellFormed (c : Connection J) : Prop where
  entries : ∀ e ∈ c.outstanding, e.WellFormed
  paths   : ∀ id e, c.pending.get? id = some e → e.path = id

-- The reaction is yet to close the connection.
def Resync.Dooms (c : Connection J) : Resync J → Prop
  | .clear _      => True
  | .dropSockets  => True
  | .close serial => serial = some c.serial
  | _             => False

namespace Follower

variable {s s' : Follower J P} {c c' : Connection J} {e : Change J}

omit [Json J] in
-- What the cache holds for the kind.
def view (kind : ResourceKind) (s : Follower J P) : View J :=
  (s.cache.storeFor kind).get?

-- The subscriber has a connection that nothing is about to replace.
structure Following (s : Follower J P) (c : Connection J) : Prop where
  connected : s.subscriber = .connected c
  isOpen    : c.isOpen
  kept      : ∀ r ∈ s.resyncs, ¬r.Dooms c
  heard     : c.epoch = s.selector.failures ∨ c.pending.items = [] ∧ c.sent = []

-- The connection, or the attempt at one, is of the selection's generation or of an earlier one.
def Since (s : Follower J P) : Prop :=
  match s.subscriber with
  | .connecting _ epoch => epoch ≤ s.selector.failures
  | .connected c        => c.epoch ≤ s.selector.failures
  | _                   => True

structure Inv (kind : ResourceKind) (s : Follower J P) : Prop where
  valid    : ∀ n id body, (s.registries n).get? id = some body → Valid id body
  reply    : ∀ d, .install d ∈ s.resyncs → ∀ id body, d.get? id = some body → Valid id body
  wf       : ∀ c, s.subscriber = .connected c → c.WellFormed
  since    : s.Since
  upToDate : ∀ c, s.Following c → c.UpToDate (s.view kind) (s.registries c.registry)

-- When the cache gets to hold what the registry does: a removal that is coalesced with the registration, so that
-- no grain tells of it, is of a resource the cache does not hold; the cache holds nothing that is gone from the
-- registry when a connection starts; a bulk replace does not raise, also for a monitor; and what a connected subscriber finds
-- installed is, but for the changes on the way, what the registry holds.
def Regular (kind : ResourceKind) (s : Follower J P) : FollowerAction J → Prop
  | .delete registry id => ∀ c, s.Following c → c.registry = registry →
    ∀ e, c.pending.get? id = some e → e.pre = none → c.seen (s.view kind) id = none
  | .connect            => ∀ registry epoch, s.subscriber = .connecting registry epoch →
    let c := Connection.sync s.connects registry epoch (s.registries registry)
    Following { s with subscriber := .connected c } c →
    ∀ id, (s.registries registry).get? id = none → s.view kind id = none
  | .resync i           => ∀ r, s.resyncs[i]? = some r →
    match r with
    | .clear (.source :: _) => ∀ (k : StatusKind) id r, (s.cache.storeFor k.kind).get? id = some r →
      ∃ sub, subscription r = .ok sub
    | .install reply        => ∀ c, s.Following c →
      (∀ id r, reply.get? id = some r → ResourceCache.Installs kind r) ∧
      ((ResourceCache.statusKindOf kind).isSome → ResourceCache.Decoded s.cache) ∧
      ∀ id, (∀ e ∈ c.outstanding, ¬e.Settles id) → reply.get? id = (s.registries c.registry).get? id
    | _                     => True
  | _                   => True

theorem Valid.id_ne (h : Valid id body) : id ≠ "" := by
  have h := (Option.filter_eq_some_iff.mp h.2).2
  simpa using h

theorem Valid.str (h : Valid id body) : ∃ v, Json.get body "id" = some v ∧ Json.str v = some id :=
  Option.bind_eq_some_iff.mp (Option.filter_eq_some_iff.mp h.2).1

theorem Valid.filter (h : Valid id body) : (some body).filter Json.isDict = some body :=
  Option.filter_eq_some_iff.mpr ⟨rfl, h.1⟩

section Handle

variable [FlowMatcher J P] [DecidableEq P]

-- Whether or not it raises, an entry has its effect on the store.
theorem view_handleEntry (kind : ResourceKind) (cache : ResourceCache J P) (h : e.WellFormed) :
    (((handleEntry kind e).leaves cache).storeFor kind).get? = Change.apply (cache.storeFor kind).get? e := by
  obtain ⟨path, pre, post⟩ := e
  funext id
  unfold handleEntry Change.apply Change.settle
  cases post with
  | some body =>
    have hv : Valid path body := h body (.inr rfl)
    simp only [hv.filter]
    rw [Handler.leaves_seq_pure, ResourceCache.storeFor_upsert, hv.2]
    dsimp only
    rw [if_pos rfl, Dict.get?_set]
  | none =>
    cases pre with
    | none => simp
    | some body =>
      have hv : Valid path body := h body (.inl rfl)
      have hremove : (((ResourceCache.remove (P := P) kind path).leaves cache).storeFor kind).get? id =
          if id = path then none else (cache.storeFor kind).get? id := by
        rw [ResourceCache.storeFor_remove, if_pos rfl, Dict.get?_erase]
      obtain ⟨v, hg, hs⟩ := hv.str
      simp only [hv.filter, Option.filter_none, hg]
      cases ht : Json.truthy v with
      | true =>
        simp only [Option.filter, ht, hs, if_true]
        rw [Handler.leaves_seq_pure]
        exact hremove
      | false =>
        simp only [Option.filter, ht, Bool.false_eq_true, if_false]
        rw [if_pos hv.id_ne, Handler.leaves_seq_pure]
        exact hremove

end Handle

-- Steps after which nothing follows.
theorem Inv.unfollowed (hi : s.Inv kind) (hreg : s'.registries = s.registries)
    (hresyncs : ∀ r ∈ s'.resyncs, ∀ d, r = .install d → r ∈ s.resyncs)
    (hwf : ∀ c', s'.subscriber = .connected c' → c'.WellFormed)
    (hsince : s'.Since) (h : ∀ c', ¬s'.Following c') : s'.Inv kind where
  valid n id body hb := hi.valid n id body (hreg ▸ hb)
  reply d hd         := hi.reply d (hresyncs _ hd d rfl)
  wf                 := hwf
  since              := hsince
  upToDate c' hc'    := absurd hc' (h c')

section Publish

variable {n : Nat} {resources : Dict String J}

omit [Json J] in
theorem since_of (h : s.Since) (hc : s.subscriber = .connected c) : c.epoch ≤ s.selector.failures := by
  rwa [Since, hc] at h

omit [Json J] in
theorem since_connected (h : s.Since) (hc : s.subscriber = .connected c) (hs : s'.subscriber = .connected c')
    (hsel : s'.selector = s.selector) (he : c'.epoch = c.epoch) : s'.Since := by
  rw [Since, hs, hsel]
  exact Nat.le_trans (Nat.le_of_eq he) (since_of h hc)

omit [Json J] in
theorem items_enqueue : (c.enqueue e).pending.items ≠ [] := by
  intro h
  have hp : (c.enqueue e).pending.get? e.path = _ := Connection.pending_enqueue
  rw [if_pos rfl, Dict.get?, h] at hp
  split at hp <;> cases hp

omit [Json J] in
theorem following_enqueue (hc : s.subscriber = .connected c)
    (h : Following { s with subscriber := .connected (c.enqueue e) } (c.enqueue e)) : s.Following c := by
  have hf : (c.enqueue e).serial = c.serial ∧ (c.enqueue e).epoch = c.epoch ∧ (c.enqueue e).isOpen = c.isOpen := by
    unfold Connection.enqueue
    split <;> exact ⟨rfl, rfl, rfl⟩
  refine ⟨hc, hf.2.2 ▸ h.isOpen, fun r hr hd => h.kept r hr ?_, ?_⟩
  · cases r <;> first | exact hd | exact Eq.trans hd (congrArg some hf.1.symm)
  · exact .inl (hf.2.1 ▸ h.heard.resolve_right fun hw => items_enqueue hw.1)

omit [Json J] in
theorem publish_of_connected (hc : s.subscriber = .connected c) (h : c.registry = n ∧ c.isOpen) :
    s.publish n e = { s with subscriber := .connected (c.enqueue e) } := by
  rw [publish, hc]
  exact if_pos h

omit [Json J] in
theorem publish_of_not (h : ∀ c, s.subscriber = .connected c → ¬(c.registry = n ∧ c.isOpen)) :
    s.publish n e = s := by
  unfold publish
  split
  · exact if_neg (h _ ‹_›)
  · rfl

theorem wellFormed_enqueue (hc : c.WellFormed) (he : e.WellFormed) : (c.enqueue e).WellFormed := by
  have hf : (c.enqueue e).handling ++ (c.enqueue e).sent.flatten = c.handling ++ c.sent.flatten := by
    unfold Connection.enqueue
    split <;> rfl
  have hold {id : String} {e : Change J} (hp : c.pending.get? id = some e) : e.WellFormed ∧ e.path = id :=
    ⟨hc.entries e (List.mem_append_right _ (Dict.mem_values.mpr ⟨id, hp⟩)), hc.paths id e hp⟩
  have hpending {id : String} {e' : Change J} (hp : (c.enqueue e).pending.get? id = some e') :
      e'.WellFormed ∧ e'.path = id := by
    rw [Connection.pending_enqueue] at hp
    split at hp
    · subst id
      split at hp
      · cases hp
        exact ⟨he, rfl⟩
      · obtain ⟨hw, hpath⟩ := hold ‹_›
        cases hp
        refine ⟨fun body hb => ?_, hpath⟩
        rcases hb with hb | hb
        · exact hw body (.inl hb)
        · exact hpath ▸ he body (.inr hb)
    · exact hold hp
  refine ⟨fun e' he' => ?_, fun id e' hp => (hpending hp).2⟩
  rcases List.mem_append.mp he' with he' | he'
  · exact hc.entries e' (List.mem_append_left _ (hf ▸ he'))
  · obtain ⟨id, hp⟩ := Dict.mem_values.mp he'
    exact (hpending hp).1

theorem Inv.publish (hi : s.Inv kind) (he : e.WellFormed)
    (hvalid : ∀ id body, resources.get? id = some body → Valid id body)
    (hpost : e.post = resources.get? e.path)
    (hother : ∀ id, id ≠ e.path → resources.get? id = (s.registries n).get? id)
    (hpre : e.pre = (s.registries n).get? e.path)
    (hgone : e.post = none → ∀ c, s.Following c → c.registry = n → ∀ e', c.pending.get? e.path = some e' →
      e'.pre = none → c.seen (s.view kind) e.path = none) :
    ((s.setRegistry n resources).publish n e).Inv kind := by
  have hvalid' (m : Nat) (id : String) (body : J) (h : (Function.update s.registries n resources m).get? id = some body) :
      Valid id body := by
    by_cases hm : m = n
    · subst m
      rw [Function.update_self] at h
      exact hvalid id body h
    · rw [Function.update_of_ne hm] at h
      exact hi.valid m id body h
  by_cases hcon : ∃ c, s.subscriber = .connected c ∧ c.registry = n ∧ c.isOpen
  · obtain ⟨c, hc, hn, ho⟩ := hcon
    rw [publish_of_connected (s := s.setRegistry n resources) hc ⟨hn, ho⟩]
    refine ⟨hvalid', hi.reply, fun c' hc' => ?_, ?_, fun c' hf => ?_⟩
    · cases hc'
      exact wellFormed_enqueue (hi.wf c hc) he
    · have hepoch : (c.enqueue e).epoch = c.epoch := by
        unfold Connection.enqueue
        split <;> rfl
      exact since_connected hi.since hc rfl rfl hepoch
    · cases hf.connected
      have hfollow : s.Following c := following_enqueue (s := s) hc ⟨rfl, hf.isOpen, hf.kept, hf.heard⟩
      have hr : (c.enqueue e).registry = n := by
        rw [← hn]
        unfold Connection.enqueue
        split <;> rfl
      rw [hr]
      change (c.enqueue e).UpToDate (s.view kind) (Function.update s.registries n resources n)
      rw [Function.update_self]
      refine (hn ▸ hi.upToDate c hfollow).enqueue hpost hother (fun _ => hpre) fun e' hp hnone hgone' => ?_
      exact hgone hgone' c hfollow hn e' hp hnone
  · rw [publish_of_not (s := s.setRegistry n resources) fun c hc h => hcon ⟨c, hc, h⟩]
    refine ⟨hvalid', hi.reply, hi.wf, hi.since, fun c hf => ?_⟩
    have hf : s.Following c := ⟨hf.connected, hf.isOpen, hf.kept, hf.heard⟩
    have hn : c.registry ≠ n := fun hn => hcon ⟨c, hf.connected, hn, hf.isOpen⟩
    change c.UpToDate (s.view kind) (Function.update s.registries n resources c.registry)
    rw [Function.update_of_ne hn]
    exact hi.upToDate c hf

end Publish

section Step

variable [FlowMatcher J P] [DecidableEq P]

theorem Inv.put {n : Nat} (hi : s.Inv kind) (e : s.step kind (.put n id body) = some s') : s'.Inv kind := by
  simp only [step, Option.ite_none_right_eq_some, Option.some.injEq] at e
  obtain ⟨hv, rfl⟩ := e
  have hother (id' : String) (hid : id' ≠ id) : (((s.registries n).erase id).set id body).get? id' = (s.registries n).get? id' := by
    rw [Dict.get?_set_of_ne hid, Dict.get?_erase, if_neg hid]
  refine hi.publish (fun b hb => ?_) (fun id' b hb => ?_) (by simp) hother rfl (fun h => by cases h)
  · rcases hb with hb | hb
    · exact hi.valid n id b hb
    · cases hb
      exact hv
  · by_cases hid : id' = id
    · subst id'
      rw [Dict.get?_set_self] at hb
      cases hb
      exact hv
    · exact hi.valid n id' b (hother id' hid ▸ hb)

theorem Inv.delete {n : Nat} (hi : s.Inv kind) (h : Regular kind s (.delete n id))
    (e : s.step kind (.delete n id) = some s') : s'.Inv kind := by
  obtain ⟨body, hb, e⟩ := Option.bind_eq_some_iff.mp e
  cases e
  refine hi.publish (fun b hb' => ?_) (fun id' b hb' => ?_) (by simp) (fun id' hid => ?_) hb.symm fun _ => h
  · rcases hb' with hb' | hb'
    · cases hb'
      exact hi.valid n id body hb
    · cases hb'
  · rw [Dict.get?_erase] at hb'
    exact hi.valid n id' b (Option.ite_none_left_eq_some.mp hb').2
  · rw [Dict.get?_erase, if_neg hid]

theorem Inv.drain (hi : s.Inv kind) (e : s.step kind .drain = some s') : s'.Inv kind := by
  simp only [step] at e
  split at e
  case h_2 => cases e
  case h_1 c hc =>
    rw [Option.ite_none_right_eq_some] at e
    obtain ⟨⟨ho, hp⟩, e⟩ := e
    cases e
    have hw := hi.wf c hc
    refine ⟨hi.valid, hi.reply, fun c' hc' => ?_, since_connected hi.since hc rfl rfl rfl, fun c' hf => ?_⟩
    · cases hc'
      refine ⟨fun e he => hw.entries e ?_, fun id e he => nomatch he⟩
      have he : e ∈ c.handling ++ (c.sent ++ [c.pending.values]).flatten ++ [] := he
      simpa [Connection.outstanding] using he
    · cases hf.connected
      have hepoch : c.epoch = s.selector.failures := hf.heard.resolve_right fun h => by simp at h
      exact (hi.upToDate c ⟨hc, ho, hf.kept, .inl hepoch⟩).drain

theorem Inv.take (hi : s.Inv kind) (e : s.step kind .take = some s') : s'.Inv kind := by
  simp only [step] at e
  split at e
  case h_2 => cases e
  case h_1 c hc =>
    split at e
    case h_2 => cases e
    case h_1 grain sent ho hh hs =>
      have hw := hi.wf c hc
      split at e
      · cases e
        exact hi.unfollowed rfl (fun r hr _ _ => hr) (fun _ h => nomatch h) trivial fun _ h => nomatch h.connected
      · rename_i hepoch
        cases e
        refine ⟨hi.valid, hi.reply, fun c' hc' => ?_, since_connected hi.since hc rfl rfl rfl, fun c' hf => ?_⟩
        · cases hc'
          refine ⟨fun e he => hw.entries e ?_, hw.paths⟩
          simpa [Connection.outstanding, hh, hs] using he
        · cases hf.connected
          exact (hi.upToDate c ⟨hc, ho, hf.kept, .inl (not_not.mp hepoch).symm⟩).take hh hs

theorem Inv.handle (hi : s.Inv kind) (e : s.step kind .handle = some s') : s'.Inv kind := by
  simp only [step] at e
  split at e
  case h_2 => cases e
  case h_1 c hc =>
    split at e
    case h_1 => cases e
    case h_2 ch es hh =>
      have hw := hi.wf c hc
      have hch : ch.WellFormed := hw.entries ch (by simp [Connection.outstanding, hh])
      split at e
      case h_2 cache hr =>
        cases e
        exact hi.unfollowed rfl (fun r hr _ _ => hr) (fun _ h => nomatch h) trivial fun _ h => nomatch h.connected
      case h_1 cache hr =>
        cases e
        have hview := view_handleEntry kind s.cache hch
        rw [Handler.leaves, hr] at hview
        refine ⟨hi.valid, hi.reply, fun c' hc' => ?_, since_connected hi.since hc rfl rfl rfl, fun c' hf => ?_⟩
        · cases hc'
          refine ⟨fun e he => hw.entries e ?_, hw.paths⟩
          have : e ∈ ch :: (es ++ c.sent.flatten ++ c.pending.values) := List.mem_cons_of_mem _ he
          simpa [Connection.outstanding, hh] using this
        · cases hf.connected
          have h := (hi.upToDate c ⟨hc, hf.isOpen, hf.kept, hf.heard⟩).handle hh
          change Connection.UpToDate _ (cache.storeFor kind).get? _
          rw [hview]
          exact h

-- The steps that leave the subscriber without a connection, or with a closed one.
theorem Inv.leave (hi : s.Inv kind) {a : FollowerAction J}
    (ha : a = .start ∨ a = .attempt ∨ a = .refused ∨ a = .broken ∨ a = .lost) (e : s.step kind a = some s') :
    s'.Inv kind := by
  have hleft {sub : Subscriber J} (hs : ∀ c, sub ≠ .connected c)
      (hsince : Since { s with subscriber := sub }) : Inv kind { s with subscriber := sub } :=
    hi.unfollowed rfl (fun r hr _ _ => hr) (fun c hc => absurd hc (hs c)) hsince fun c hf =>
      absurd hf.connected (hs c)
  rcases ha with rfl | rfl | rfl | rfl | rfl <;> simp only [step] at e
  · split at e
    case h_2 => cases e
    rw [Option.ite_none_right_eq_some] at e
    cases e.2
    exact hleft nofun trivial
  · split at e
    case h_2 => cases e
    cases e
    exact hleft nofun (Nat.le_refl _)
  · split at e
    case h_2 => cases e
    cases e
    exact hleft nofun trivial
  · split at e
    case h_2 => cases e
    case h_1 c hc =>
      cases e
      refine hi.unfollowed rfl (fun r hr _ _ => hr) (fun c' hc' => ?_) (since_connected hi.since hc rfl rfl rfl) fun c' hf => ?_
      · cases hc'
        exact ⟨(hi.wf c hc).entries, (hi.wf c hc).paths⟩
      · cases hf.connected
        cases hf.isOpen
  · split at e
    case h_2 => cases e
    rw [Option.ite_none_right_eq_some] at e
    cases e.2
    exact hleft nofun trivial

theorem Inv.connect (hi : s.Inv kind) (h : Regular kind s .connect) (e : s.step kind .connect = some s') :
    s'.Inv kind := by
  simp only [step] at e
  split at e
  case h_2 => cases e
  case h_1 registry epoch hs =>
    cases e
    have hsince : epoch ≤ s.selector.failures := by
      have h := hi.since
      rwa [Since, hs] at h
    refine ⟨hi.valid, hi.reply, fun c hc => ?_, hsince, fun c hf => ?_⟩
    · cases hc
      have hpending {id : String} {e : Change J}
          (hp : ((s.registries registry).map fun id body => (⟨id, some body, some body⟩ : Change J)).get? id = some e) :
          e.WellFormed ∧ e.path = id := by
        rw [Dict.get?_map] at hp
        obtain ⟨body, hb, rfl⟩ := Option.map_eq_some_iff.mp hp
        refine ⟨fun body' hb' => ?_, rfl⟩
        have hbody : body' = body := by simpa [eq_comm] using hb'
        exact hbody ▸ hi.valid registry id body hb
      refine ⟨fun e he => ?_, fun id e hp => (hpending hp).2⟩
      obtain ⟨id, hp⟩ := Dict.mem_values.mp (show e ∈ Dict.values _ from he)
      exact (hpending hp).1
    · cases hf.connected
      exact Connection.upToDate_sync (h registry epoch hs ⟨rfl, hf.isOpen, hf.kept, hf.heard⟩)

omit [Json J] [FlowMatcher J P] [DecidableEq P] in
theorem following_fail {target : Nat} (hs : s.Since)
    (hf : Following { s with selector := s.selector.fail target } c) : s.Following c := by
  refine ⟨hf.connected, hf.isOpen, hf.kept, ?_⟩
  have hle := since_of hs hf.connected
  refine hf.heard.imp_left fun h => ?_
  simp only [RegistrySelector.fail] at h
  split at h
  · exact h
  · change c.epoch = s.selector.failures + 1 at h
    omega

theorem Inv.fail {target : Nat} (hi : s.Inv kind) (e : s.step kind (.fail target) = some s') : s'.Inv kind := by
  have hle : s.selector.failures ≤ (s.selector.fail target).failures := by
    unfold RegistrySelector.fail
    split
    · exact Nat.le_refl _
    · exact Nat.le_succ _
  have hsince : Since { s with selector := s.selector.fail target } := by
    have h := hi.since
    unfold Since at h ⊢
    dsimp only
    cases hs : s.subscriber <;> simp only [hs] at h ⊢ <;> omega
  have hi' : Inv kind { s with selector := s.selector.fail target } :=
    ⟨hi.valid, hi.reply, hi.wf, hsince, fun c hf => hi.upToDate c (following_fail hi.since hf)⟩
  simp only [step] at e
  split at e
  case h_1 => cases e
  case h_2 =>
    cases e
    split
    case isFalse => exact hi'
    case isTrue =>
      rw [onSelectionMoved]
      dsimp only
      split
      case isTrue => exact hi'
      case isFalse =>
        refine ⟨hi.valid, fun d hd => hi.reply d ?_, hi.wf, hsince, fun c hf => ?_⟩
        · exact (List.mem_append.mp hd).resolve_right (by simp)
        · exact absurd trivial (hf.kept (.clear allKinds) (List.mem_append_right _ (by simp)))

section Resync

variable {i : Nat} {r : Resync J}

omit [Json J] [FlowMatcher J P] [DecidableEq P] in
theorem kept_of_set (r' : Resync J) (hr : s.resyncs[i]? = some r) (h : r.Dooms c → r'.Dooms c)
    (hk : ∀ r ∈ s.resyncs.set i r', ¬r.Dooms c) : ∀ r ∈ s.resyncs, ¬r.Dooms c := by
  obtain ⟨hlt, hr⟩ := List.getElem?_eq_some_iff.mp hr
  intro r'' hm hd
  obtain ⟨j, hj, rfl⟩ := List.mem_iff_getElem.mp hm
  by_cases hij : i = j
  · subst hij
    exact hk r' (List.mem_set hlt r') (h (hr ▸ hd))
  · refine hk _ (List.mem_iff_getElem.mpr ⟨j, by simpa using hj, ?_⟩) hd
    rw [List.getElem_set_ne hij]

omit [FlowMatcher J P] [DecidableEq P] in
-- A reaction goes on, and the cache is as before for the kind.
theorem Inv.goesOn {r' : Resync J} {cache : ResourceCache J P} (hi : s.Inv kind) (hr : s.resyncs[i]? = some r)
    (h : ∀ c, s.subscriber = .connected c → c.isOpen → r.Dooms c → r'.Dooms c)
    (hreply : ∀ d, r' = .install d → ∀ id body, d.get? id = some body → Valid id body)
    (hview : ∀ c, Following { s with resyncs := s.resyncs.set i r' } c → cache.storeFor kind = s.cache.storeFor kind) :
    Inv kind { s with cache, resyncs := s.resyncs.set i r' } := by
  refine ⟨hi.valid, fun d hd => ?_, hi.wf, hi.since, fun c hf => ?_⟩
  · rcases List.mem_or_eq_of_mem_set hd with hd | hd
    · exact hi.reply d hd
    · exact hreply d hd.symm
  · have hu := hi.upToDate c ⟨hf.connected, hf.isOpen, kept_of_set r' hr (h c hf.connected hf.isOpen) hf.kept, hf.heard⟩
    change c.UpToDate (cache.storeFor kind).get? _
    rwa [hview c ⟨hf.connected, hf.isOpen, hf.kept, hf.heard⟩]

theorem Inv.fetchFails (hi : s.Inv kind) (e : s.step kind (.fetchFails i) = some s') : s'.Inv kind := by
  simp only [step] at e
  split at e
  case h_2 => cases e
  case h_1 n hr =>
    cases e
    exact hi.goesOn hr (fun _ _ _ h => h) (fun _ h => nomatch h) fun _ _ => rfl

theorem Inv.resync (hi : s.Inv kind) (h : Regular kind s (.resync i))
    (e : s.step kind (.resync i) = some s') : s'.Inv kind := by
  obtain ⟨r, hr, e⟩ := Option.bind_eq_some_iff.mp e
  have h := h r hr
  cases r with
  | clear ks =>
    cases ks with
    | nil =>
      cases e
      exact hi.goesOn hr (fun _ _ _ h => h) (fun _ h => nomatch h) fun _ _ => rfl
    | cons k ks =>
      obtain ⟨events, cache, hrun⟩ := ResourceCache.replaceAll_nil k (c := s.cache) fun hk => by
        subst hk
        exact h
      simp only [advance, hrun, Option.some.injEq] at e
      subst e
      refine hi.goesOn hr (fun _ _ _ _ => trivial) (fun _ h => nomatch h) fun c hf => ?_
      exact absurd trivial (hf.kept (.clear ks) (List.mem_set (List.getElem?_eq_some_iff.mp hr).1 _))
  | dropSockets =>
    simp only [advance] at e
    split at e
    case h_1 c hc =>
      cases e
      refine hi.goesOn hr (fun c' hc' ho _ => ?_) (fun _ h => nomatch h) fun _ _ => rfl
      cases hc.symm.trans hc'
      rw [if_pos ho]
      rfl
    case h_2 hn =>
      cases e
      exact hi.goesOn hr (fun c hc => absurd hc (hn c)) (fun _ h => nomatch h) fun _ _ => rfl
  | close serial =>
    simp only [advance] at e
    split at e
    case h_1 c hc =>
      split at e
      case isTrue =>
        cases e
        refine hi.unfollowed rfl (fun r hr' d hd => ?_) (fun c' hc' => ?_) (since_connected hi.since hc rfl rfl rfl) fun c' hf => ?_
        · rcases List.mem_or_eq_of_mem_set hr' with hr' | rfl
          · exact hr'
          · cases hd
        · cases hc'
          exact ⟨(hi.wf c hc).entries, (hi.wf c hc).paths⟩
        · cases hf.connected
          cases hf.isOpen
      case isFalse hs =>
        cases e
        refine hi.goesOn hr (fun c' hc' _ hd => ?_) (fun _ h => nomatch h) fun _ _ => rfl
        cases hc.symm.trans hc'
        exact hs hd
    case h_2 hn =>
      cases e
      exact hi.goesOn hr (fun c hc => absurd hc (hn c)) (fun _ h => nomatch h) fun _ _ => rfl
  | reload =>
    cases e
    exact hi.goesOn hr (fun _ _ _ h => h) (fun _ h => nomatch h) fun _ _ => rfl
  | fetch n =>
    cases e
    refine hi.goesOn hr (fun _ _ _ h => h) (fun d h => ?_) fun _ _ => rfl
    cases h
    exact fun id body hb => hi.valid n id body (get?_firstPage hb)
  | install reply =>
    cases e
    have hmem : Resync.install reply ∈ s.resyncs := List.mem_of_getElem? hr
    refine ⟨hi.valid, fun d hd => ?_, hi.wf, hi.since, fun c hf => ?_⟩
    · rcases List.mem_or_eq_of_mem_set hd with hd | hd
      · exact hi.reply d hd
      · cases hd
    · have hfollow : s.Following c :=
        ⟨hf.connected, hf.isOpen, kept_of_set .finished hr (fun h => h) hf.kept, hf.heard⟩
      obtain ⟨hinstalls, hdecoded, hagrees⟩ := h c hfollow
      refine (hi.upToDate c hfollow).install fun id hn => ?_
      rw [← hagrees id hn]
      exact ResourceCache.get?_replaceAll (fun id r h => (hi.reply reply hmem id r h).2) hinstalls hdecoded
  | finished => cases e

end Resync

theorem storeFor_call {a : Call J} {cache : ResourceCache J P} (h : a.kind ≠ kind) :
    ((ResourceCache.call a).leaves cache).storeFor kind = cache.storeFor kind := by
  cases a with
  | upsert k r =>
    refine ResourceCache.storeFor_upsert.trans ?_
    cases ResourceCache.resourceId r with
    | none => rfl
    | some rid => exact if_neg (Ne.symm h)
  | remove k id => exact ResourceCache.storeFor_remove.trans (if_neg (Ne.symm h))
  | replaceAll k rs => exact ResourceCache.keeps_replaceAll (Ne.symm h) cache

theorem Inv.other {call : Call J} (hi : s.Inv kind) (e : s.step kind (.other call) = some s') : s'.Inv kind := by
  simp only [step, Option.ite_none_left_eq_some, Option.some.injEq] at e
  obtain ⟨hk, rfl⟩ := e
  refine ⟨hi.valid, hi.reply, hi.wf, hi.since, fun c hf => ?_⟩
  have hu := hi.upToDate c ⟨hf.connected, hf.isOpen, hf.kept, hf.heard⟩
  change c.UpToDate (((ResourceCache.call call).leaves s.cache).storeFor kind).get? _
  rwa [storeFor_call hk]

theorem Inv.step {a : FollowerAction J} (hi : s.Inv kind) (h : Regular kind s a) (e : s.step kind a = some s') :
    s'.Inv kind := by
  cases a with
  | put n id body => exact hi.put e
  | delete n id => exact hi.delete h e
  | drain => exact hi.drain e
  | start => exact hi.leave (.inl rfl) e
  | attempt => exact hi.leave (.inr (.inl rfl)) e
  | refused => exact hi.leave (.inr (.inr (.inl rfl))) e
  | connect => exact hi.connect h e
  | take => exact hi.take e
  | handle => exact hi.handle e
  | broken => exact hi.leave (.inr (.inr (.inr (.inl rfl)))) e
  | lost => exact hi.leave (.inr (.inr (.inr (.inr rfl)))) e
  | fail target => exact hi.fail e
  | resync i => exact hi.resync h e
  | fetchFails i => exact hi.fetchFails e
  | other call => exact hi.other e

end Step

-- The subscriber is connected to the selected registry, and every grain and reply has been handled.
def Quiescent (s : Follower J P) : Prop :=
  ∃ c, s.subscriber = .connected c ∧ c.isOpen ∧ c.registry = s.selector.current ∧
    c.pending.items = [] ∧ c.sent = [] ∧ c.handling = [] ∧ ∀ r ∈ s.resyncs, r.isFinished

def Converged (kind : ResourceKind) (s : Follower J P) : Prop :=
  ∀ id, (s.cache.storeFor kind).get? id = (s.registries s.selector.current).get? id

theorem Inv.converged (hi : s.Inv kind) (h : s.Quiescent) : s.Converged kind := by
  obtain ⟨c, hc, ho, hr, hpending, hsent, hhandling, hfinished⟩ := h
  have hkept (r : Resync J) (hm : r ∈ s.resyncs) : ¬r.Dooms c := by
    have h := hfinished r hm
    cases r <;> first | exact id | cases h
  have hu := hi.upToDate c ⟨hc, ho, hkept, .inr ⟨hpending, hsent⟩⟩
  intro id
  have hp : c.pending.get? id = none := by rw [Dict.get?, hpending]; rfl
  have hs := hu.settled id hp
  rw [Connection.seen, hhandling, hsent, hr] at hs
  exact hs

end Follower
end Controller
