import NmosReference.Raft.SnapshotCapture

namespace Raft

open Registry RegistryStore

variable {s₀ store : RegistryStore} {c c' : SnapshotCapture} {k : ResourceKey} {w w' : Walk}
variable {ts : List ResourceType} {r : RegisteredResource} {rs recs : List RegisteredResource}

def keyOf (r : RegisteredResource) : ResourceKey :=
  (r.resourceType, r.id)

-- Images of records of the pinned state, each once: those whose key satisfies `P`.
structure Pinned (s₀ : RegistryStore) (P : ResourceKey → Prop) (images : List Image)
    (recs : List RegisteredResource) : Prop where
  images : images = recs.map encodeResource
  nodup  : (recs.map keyOf).Nodup
  mem    : ∀ r, r ∈ recs ↔ s₀.record r.resourceType r.id = some r ∧ P (keyOf r)

namespace Pinned

variable {P Q : ResourceKey → Prop} {images : List Image}

theorem congr (h : Pinned s₀ P images recs)
    (hq : ∀ r, s₀.record r.resourceType r.id = some r → (P (keyOf r) ↔ Q (keyOf r))) :
    Pinned s₀ Q images recs where
  images := h.images
  nodup  := h.nodup
  mem r  := (h.mem r).trans <| and_congr_right fun hr => hq r hr

-- Adding what the pinned state holds under one more key.
theorem snoc (h : Pinned s₀ P images recs) (hw : s₀.WellFormed) (hk : ¬P k) :
    ∃ recs', Pinned s₀ (fun k' => k' = k ∨ P k')
      (images ++ ((s₀.record k.1 k.2).map encodeResource).toList) recs' := by
  cases hr : s₀.record k.1 k.2 with
  | none =>
    refine ⟨recs, by simpa using h.images, h.nodup, fun r => (h.mem r).trans <| and_congr_right ?_⟩
    rintro hr'
    refine ⟨.inr, Or.rec (fun hk' => ?_) id⟩
    rw [← hk'] at hr
    simp [keyOf, hr'] at hr
  | some q =>
    have hq : keyOf q = k := Prod.ext (hw.key _ _ _ hr).1 (hw.key _ _ _ hr).2
    refine ⟨recs ++ [q], by simp [h.images], ?_, fun r => ?_⟩
    · rw [List.map_append, List.nodup_append]
      refine ⟨h.nodup, by simp, ?_⟩
      rintro _ h₁ _ h₂ rfl
      simp only [List.map_cons, List.map_nil, List.mem_singleton] at h₂
      obtain ⟨r, hr, hrk⟩ := List.mem_map.mp h₁
      exact hk (hq ▸ h₂ ▸ hrk ▸ ((h.mem r).mp hr).2)
    · rw [List.mem_append, List.mem_singleton, h.mem]
      constructor
      · rintro (⟨hr, hp⟩ | rfl)
        · exact ⟨hr, .inr hp⟩
        · exact ⟨by rw [← hq] at hr; exact hr, .inl hq⟩
      · rintro ⟨hr', hk' | hp⟩
        · right
          rw [← hk'] at hr
          exact Option.some.inj (hr'.symm.trans hr)
        · exact .inl ⟨hr', hp⟩

-- Adding saved images of the pinned state under further keys.
theorem append (items : List (ResourceKey × Image)) (h : Pinned s₀ P images recs)
    (hw : s₀.WellFormed) (hd : (items.map Prod.fst).Nodup) (hn : ∀ p ∈ items, ¬P p.1)
    (hi : ∀ p ∈ items, ∃ r, s₀.record p.1.1 p.1.2 = some r ∧ p.2 = encodeResource r) :
    ∃ recs', Pinned s₀ (fun k => P k ∨ k ∈ items.map Prod.fst) (images ++ items.map Prod.snd)
      recs' := by
  induction items generalizing P images recs with
  | nil => exact ⟨recs, by simpa using h⟩
  | cons p items ih =>
    obtain ⟨r, hr, he⟩ := hi p (by simp)
    obtain ⟨recs₁, h₁⟩ := h.snoc hw (hn p (by simp))
    have hd' := List.nodup_cons.mp hd
    obtain ⟨recs₂, h₂⟩ := ih h₁ hd'.2
      (fun q hq => by
        rintro (e | hp)
        · exact hd'.1 (e ▸ List.mem_map_of_mem hq)
        · exact hn q (by simp [hq]) hp)
      fun q hq => hi q (by simp [hq])
    refine ⟨recs₂, ?_⟩
    have himg : images ++ ((s₀.record p.1.1 p.1.2).map encodeResource).toList ++
        items.map Prod.snd = images ++ (p :: items).map Prod.snd := by simp [hr, he]
    rw [himg] at h₂
    exact h₂.congr fun r _ => by simp only [List.map_cons, List.mem_cons]; tauto

end Pinned

-- Where a walk stands with respect to the pinned state.
structure Walked (s₀ : RegistryStore) (c : SnapshotCapture) (w : Walk) : Prop where
  records : ∃ recs, Pinned s₀ (· ∈ w.live) w.records recs
  -- What is live or about to be visited, and was not touched, is extant in the pinned state.
  live    : ∀ k ∈ w.live, ¬c.Touched k → ∃ r, s₀.get k.1 k.2 = some r
  current : ∀ r ∈ w.current, ¬c.Touched (keyOf r) → ∃ q, s₀.get r.resourceType r.id = some q
  -- Nothing is visited twice.
  fresh   : ∀ r ∈ w.current, keyOf r ∉ w.live
  nodup   : (w.current.map keyOf).Nodup
  types   : ∀ t ∈ w.types, (∀ k ∈ w.live, k.1 ≠ t) ∧ ∀ r ∈ w.current, r.resourceType ≠ t
  order   : w.types.Nodup
  -- Nothing that was not touched is left out.
  done    : ∀ k r, s₀.get k.1 k.2 = some r → ¬c.Touched k →
    k ∈ w.live ∨ k ∈ w.current.map keyOf ∨ k.1 ∈ w.types

namespace Walked

theorem start : Walked s₀ c .start where
  records := ⟨[], rfl, .nil, by simp [Walk.start]⟩
  live    := by simp [Walk.start]
  current := by simp [Walk.start]
  fresh   := by simp [Walk.start]
  nodup   := by simp [Walk.start]
  types   := by simp [Walk.start]
  order   := by decide
  done    := fun k _ _ _ => .inr <| .inr <| ResourceType.mem_all k.1

-- What is applied between two yields only touches more.
theorem touch (h : Walked s₀ c w) (ht : ∀ k, c.Touched k → c'.Touched k) : Walked s₀ c' w where
  records := h.records
  live    := fun k hk hn => h.live k hk (hn ∘ ht k)
  current := fun r hr hn => h.current r hr (hn ∘ ht _)
  fresh   := h.fresh
  nodup   := h.nodup
  types   := h.types
  order   := h.order
  done    := fun k r hr hn => h.done k r hr (hn ∘ ht k)

-- A visit writes what the pinned state holds under the key.
theorem imageOf_now (hi : CaptureInv s₀ store c) (hw : store.WellFormed)
    (hr : ¬c.Touched (keyOf r) → ∃ q, s₀.get r.resourceType r.id = some q) :
    keyOf (Walk.now store r) = keyOf r ∧
      c.imageOf (Walk.now store r) = (s₀.record r.resourceType r.id).map encodeResource := by
  have hk : keyOf (Walk.now store r) = keyOf r := by
    unfold Walk.now
    cases hs : store.record r.resourceType r.id with
    | none   => rfl
    | some q => exact Prod.ext (hw.key _ _ _ hs).1 (hw.key _ _ _ hs).2
  refine ⟨hk, ?_⟩
  have e : c.imageOf (Walk.now store r) = if keyOf r ∈ c.gone then none else
      some <| (c.pre.get? (keyOf r)).getD (encodeResource (Walk.now store r)) := by
    rw [← hk]; rfl
  rw [e]
  split
  case isTrue hg => simp [show s₀.record r.resourceType r.id = none from hi.gone _ hg]
  case isFalse hg =>
    cases hp : c.pre.get? (keyOf r) with
    | some image =>
      obtain ⟨q, hq, rfl⟩ := hi.pre _ _ hp
      simp [show s₀.record r.resourceType r.id = some q from hq]
    | none =>
      have hn : ¬c.Touched (keyOf r) := by simp [SnapshotCapture.Touched, Dict.contains, hp, hg]
      obtain ⟨q, hq⟩ := hr hn
      have hrec := (get_eq_some.mp hq).1
      have hs : store.record r.resourceType r.id = some q := (hi.untouched _ hn).trans hrec
      simp [Walk.now, hs, hrec]

theorem visit (h : Walked s₀ c { w with current := r :: rs, types := ts }) (hi : CaptureInv s₀ store c)
    (hw₀ : s₀.WellFormed) (hw : store.WellFormed) :
    Walked s₀ c { w.visit store c r with current := rs, types := ts } := by
  have ⟨hk, him⟩ := imageOf_now hi hw (h.current r (by simp))
  have hf : keyOf r ∉ w.live := h.fresh r (by simp)
  obtain ⟨recs, hrecs⟩ := h.records
  obtain ⟨recs', hrecs'⟩ := hrecs.snoc hw₀ (k := keyOf r) hf
  have hlive : (w.visit store c r).live = keyOf r :: w.live := congrArg (· :: w.live) hk
  have hrec : (w.visit store c r).records = w.records ++
      ((s₀.record (keyOf r).1 (keyOf r).2).map encodeResource).toList := by
    simp [Walk.visit, him, keyOf]
  have hnd := List.nodup_cons.mp h.nodup
  exact {
    records := ⟨recs', by simpa only [hlive, hrec, List.mem_cons] using hrecs'⟩
    live    := fun k hm hn => by
      simp only [hlive, List.mem_cons] at hm
      obtain rfl | hm := hm
      · exact h.current r (by simp) hn
      · exact h.live k hm hn
    current := fun q hq => h.current q (by simp [hq])
    fresh   := fun q hq => by
      simp only [hlive, List.mem_cons, not_or]
      exact ⟨fun e => hnd.1 (e ▸ List.mem_map_of_mem hq), h.fresh q (by simp [hq])⟩
    nodup   := hnd.2
    types   := fun t ht => by
      have ⟨h₁, h₂⟩ := h.types t ht
      simp only [hlive, List.mem_cons]
      refine ⟨?_, fun q hq => h₂ q (by simp [hq])⟩
      rintro k (rfl | hm)
      · exact h₂ r (by simp)
      · exact h₁ k hm
    order   := h.order
    done    := fun k q hq hn => by
      simp only [hlive, List.mem_cons]
      obtain hm | hm | ht := h.done k q hq hn
      · exact .inl (.inr hm)
      · obtain rfl | hm := List.mem_cons.mp hm
        · exact .inl (.inl rfl)
        · exact .inr (.inl hm)
      · exact .inr (.inr ht) }

theorem visitList (rs : List RegisteredResource) (ts : List ResourceType) (w : Walk)
    (h : Walked s₀ c { w with current := rs, types := ts })
    (hi : CaptureInv s₀ store c) (hw₀ : s₀.WellFormed) (hw : store.WellFormed) :
    Walked s₀ c { (Walk.visitList store c rs w).2 with types := ts } ∧
      ((Walk.visitList store c rs w).1 = false → (Walk.visitList store c rs w).2.current = []) := by
  induction rs generalizing w with
  | nil => exact ⟨h, fun _ => rfl⟩
  | cons r rs ih =>
    have hv := h.visit hi hw₀ hw
    simp only [Walk.visitList]
    split
    · exact ⟨hv, by simp⟩
    · exact ih _ hv

theorem visitList_types (store : RegistryStore) (c : SnapshotCapture) (rs : List RegisteredResource)
    (w : Walk) : (Walk.visitList store c rs w).2.types = w.types := by
  induction rs generalizing w with
  | nil => rfl
  | cons r rs ih =>
    simp only [Walk.visitList]
    split
    · rfl
    · exact ih _

theorem mem_sortedExtant {t : ResourceType} (hw : store.WellFormed) :
    r ∈ Walk.sortedExtant store t ↔ r.resourceType = t ∧ store.get t r.id = some r := by
  rw [Walk.sortedExtant, SortBy.mem, mem_iterExtant hw.keyed]
  exact ⟨fun h => ⟨(hw.key _ _ _ (get_eq_some.mp h).1).1, h⟩, And.right⟩

theorem nodup_sortedExtant {t : ResourceType} (hw : store.WellFormed) :
    ((Walk.sortedExtant store t).map keyOf).Nodup := by
  have hp : ((Walk.sortedExtant store t).map keyOf).Perm ((store.iterExtant t).map keyOf) :=
    SortBy.perm.map _
  refine hp.nodup_iff.mpr <| List.Nodup.of_map Prod.snd ?_
  rw [List.map_map]
  exact nodup_iterExtant hw.keyed

-- The walk comes to a type: what is extant of it now is what will be visited of it.
theorem enter {t : ResourceType} (hi : CaptureInv s₀ store c)
    (hw : store.WellFormed) (h : Walked s₀ c { w with current := [], types := t :: ts }) :
    Walked s₀ c { w with current := Walk.sortedExtant store t, types := ts } where
  records := h.records
  live    := h.live
  current := fun r hr hn => by
    have ⟨ht, hg⟩ := (mem_sortedExtant hw).mp hr
    have ⟨hrec, he⟩ := get_eq_some.mp (ht ▸ hg)
    exact ⟨r, get_eq_some.mpr ⟨(hi.untouched _ hn).symm.trans hrec, he⟩⟩
  fresh   := fun r hr hm => (h.types t (by simp)).1 _ hm ((mem_sortedExtant hw).mp hr).1
  nodup   := nodup_sortedExtant hw
  types   := fun t' ht' => by
    refine ⟨(h.types t' (by simp [ht'])).1, fun r hr e => ?_⟩
    have := ((mem_sortedExtant hw).mp hr).1.symm.trans e
    exact (List.nodup_cons.mp h.order).1 (this ▸ ht')
  order   := (List.nodup_cons.mp h.order).2
  done    := fun k r hr hn => by
    obtain hm | hm | ht := h.done k r hr hn
    · exact .inl hm
    · cases hm
    · obtain rfl | ht := List.mem_cons.mp ht
      · have ⟨hrec, he⟩ := get_eq_some.mp hr
        have hs : store.get k.1 k.2 = some r := get_eq_some.mpr ⟨(hi.untouched k hn).trans hrec, he⟩
        have hk := hw.key _ _ _ (get_eq_some.mp hs).1
        refine .inr <| .inl <| List.mem_map.mpr ⟨r, (mem_sortedExtant hw).mpr ⟨hk.1, hk.2 ▸ hs⟩, ?_⟩
        exact Prod.ext hk.1 hk.2
      · exact .inr (.inr ht)

theorem visitTypes (h : Walked s₀ c { w with types := ts }) (hcur : w.current = [])
    (hi : CaptureInv s₀ store c) (hw₀ : s₀.WellFormed) (hw : store.WellFormed) :
    Walked s₀ c (Walk.visitTypes store c ts w).2 ∧
      ((Walk.visitTypes store c ts w).1 = false → (Walk.visitTypes store c ts w).2.types = [] ∧
        (Walk.visitTypes store c ts w).2.current = []) := by
  induction ts generalizing w with
  | nil => exact ⟨h, fun _ => ⟨rfl, hcur⟩⟩
  | cons t ts ih =>
    have h' : Walked s₀ c { w with current := [], types := t :: ts } := hcur ▸ h
    have ⟨hv, hc⟩ := visitList _ ts w (h'.enter hi hw) hi hw₀ hw
    cases e : Walk.visitList store c (Walk.sortedExtant store t) w with
    | mk more w' =>
      rw [e] at hv hc
      cases more with
      | true  => simpa [Walk.visitTypes, e] using hv
      | false =>
        simp only [Walk.visitTypes, e]
        exact ih hv (hc rfl)

theorem resume (h : Walked s₀ c w) (hi : CaptureInv s₀ store c) (hw₀ : s₀.WellFormed)
    (hw : store.WellFormed) : Walked s₀ c (w.resume store c).2 ∧
      ((w.resume store c).1 = false → (w.resume store c).2.types = [] ∧
        (w.resume store c).2.current = []) := by
  have ⟨hv, hc⟩ := visitList w.current w.types w h hi hw₀ hw
  have ht := visitList_types store c w.current w
  cases e : Walk.visitList store c w.current w with
  | mk more w' =>
    rw [e] at hv hc ht
    simp only at ht
    rw [← ht] at hv
    cases more with
    | true  => exact ⟨by simpa [Walk.resume, e] using hv, by simp [Walk.resume, e]⟩
    | false => simpa only [Walk.resume, e] using visitTypes hv (hc rfl) hi hw₀ hw

-- At the end of the walk every record of the pinned state that is extant or was touched is written,
-- and nothing else.
theorem finish (h : Walked s₀ c w) (hi : CaptureInv s₀ store c) (hw₀ : s₀.WellFormed)
    (ht : w.types = []) (hc : w.current = []) :
    ∃ recs, Pinned s₀ (fun k => (∃ r, s₀.get k.1 k.2 = some r) ∨ c.Touched k)
      (c.finish w).records recs := by
  obtain ⟨recs, hrecs⟩ := h.records
  let items := sortBy (fun p => toLex (p.1.1.value, p.1.2)) (c.pre.items.filter (·.1 ∉ w.live))
  have hmem : ∀ p, p ∈ items ↔ c.pre.get? p.1 = some p.2 ∧ p.1 ∉ w.live := by
    simp [items, Dict.get?_eq_some]
  obtain ⟨recs', h'⟩ := hrecs.append items hw₀
    ((SortBy.perm.map _).nodup_iff.mpr <| c.pre.nodup.sublist (List.filter_sublist.map _))
    (fun p hp => ((hmem p).mp hp).2) (fun p hp => hi.pre _ _ ((hmem p).mp hp).1)
  refine ⟨recs', h'.congr fun r hr => ?_⟩
  have hkey : keyOf r ∈ items.map Prod.fst ↔ c.pre.contains (keyOf r) ∧ keyOf r ∉ w.live := by
    simp only [List.mem_map, hmem, Dict.contains_iff]
    constructor
    · rintro ⟨p, ⟨hp, hl⟩, e⟩
      exact ⟨⟨p.2, e ▸ hp⟩, e ▸ hl⟩
    · rintro ⟨⟨image, hp⟩, hl⟩
      exact ⟨(keyOf r, image), ⟨hp, hl⟩, rfl⟩
  -- A key that the pinned state holds is touched only by being photographed.
  have hgone : keyOf r ∉ c.gone := fun hg => by
    have := hi.gone _ hg
    simp [keyOf, hr] at this
  have htouch : c.Touched (keyOf r) ↔ c.pre.contains (keyOf r) := by
    simp [SnapshotCapture.Touched, hgone]
  rw [hkey, htouch]
  by_cases hp : c.pre.contains (keyOf r)
  · by_cases hl : keyOf r ∈ w.live <;> simp [hp, hl]
  · simp only [hp, Bool.false_eq_true, false_and, or_false]
    refine ⟨fun hl => h.live _ hl (htouch.not.mpr hp), fun hq => ?_⟩
    obtain ⟨q, hq⟩ := hq
    simpa [hc, ht] using h.done _ _ hq (htouch.not.mpr hp)

end Walked
end Raft
