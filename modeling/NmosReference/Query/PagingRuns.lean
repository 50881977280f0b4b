import NmosReference.Query.PagingWalk

-- Walks over the pages of a collection, from its first page on.
namespace Query

open Registry TransitionSystem

namespace Walk

section

variable [Python] [QueryFilter] {config : PagingConfig} {t : ResourceType} {o : Order}
variable {filters : List (String × String)} {limit n m : Nat} {c : TaiCursor} {w w' : Walk}
variable {asc : List RegisteredResource}

-- After `n` pages towards newer records.
structure Forward (config : PagingConfig) (t : ResourceType) (o : Order) (filters : List (String × String))
    (limit : Nat) (asc : List RegisteredResource) (n : Nat) (c : TaiCursor) (w : Walk) : Prop where
  heading : Heading config t filters limit o c w
  same    : matching w.store t o filters = asc
  length  : w.pages.length = n
  whole   : (∀ page ∈ w.pages, page.Whole o asc) → Cut o asc c (min asc.length (n * limit)) ∧
    w.pages.flatMap (·.resources.reverse) = asc.take (n * limit)

namespace Forward

theorem ascending (h : Forward config t o filters limit asc n c w) : Ascending o asc :=
  h.same ▸ ascending_matching h.heading.ordered

theorem follow (h : Forward config t o filters limit asc n c w) (hl : 0 < limit)
    (hm : limit ≤ config.maxLimit) :
    ∃ w', w.follow config t .next = some w' ∧
      Forward config t o filters limit asc (n + 1) (Heading.page t filters limit o c w).upTo w' := by
  obtain ⟨w', e⟩ := Option.isSome_iff_exists.mp h.heading.follow_isSome
  obtain ⟨hh, hby, hpages⟩ := h.heading.follow hm e
  refine ⟨w', e, hh, (matching_congr hby).trans h.same, by simp [hpages, h.length], fun hw => ?_⟩
  rw [hpages] at hw
  obtain ⟨hc, hall⟩ := h.whole fun page hp => hw page (List.mem_append_left _ hp)
  have hpage : Heading.page t filters limit o c w = forwardPage asc c (ask c limit o) := by
    rw [Heading.page, h.same]
  have hwhole := hw _ (List.mem_append_right _ (List.mem_singleton_self _))
  rw [hpage] at hwhole ⊢
  have hask : (ask c limit o).upTo = none := rfl
  have hmin : min asc.length (min asc.length (n * limit) + limit) = min asc.length ((n + 1) * limit) := by
    rw [Nat.add_one_mul]
    omega
  have hnext : Cut o asc _ (min asc.length (min asc.length (n * limit) + limit)) :=
    h.ascending.forward_next hask hc hl hwhole
  have hres : _ = (slice asc _ (min asc.length (min asc.length (n * limit) + limit))).reverse :=
    h.ascending.forwardPage_resources hask hc
  rw [hmin] at hnext hres
  refine ⟨hnext, ?_⟩
  rw [hpages, List.flatMap_append, hall, List.flatMap_singleton, hpage, hres, List.reverse_reverse]
  calc asc.take (n * limit) ++ slice asc (min asc.length (n * limit)) (min asc.length ((n + 1) * limit))
    _ = asc.take (min asc.length (n * limit)) ++ slice asc _ (min asc.length ((n + 1) * limit)) := by
      rw [List.take_eq_take_min, min_comm]
    _ = asc.take (min asc.length ((n + 1) * limit)) := take_append_slice (by rw [Nat.add_one_mul]; omega)
    _ = asc.take ((n + 1) * limit) := by rw [min_comm, ← List.take_eq_take_min]

end Forward

-- The request of a `prev` link.
abbrev askBelow (u : TaiCursor) (limit : Nat) (o : Order) : PagingRequest :=
  { since := none, upTo := some u, limit, order := o }

-- After `m` more pages, towards older records, once page `n` has reached the newest.
structure Backward (config : PagingConfig) (t : ResourceType) (o : Order) (filters : List (String × String))
    (limit : Nat) (asc : List RegisteredResource) (n m : Nat) (u : TaiCursor) (w : Walk) : Prop where
  ordered  : w.store.Ordered
  asks     : Asks config filters (askBelow u limit o) w.params
  same     : matching w.store t o filters = asc
  unsigned : u.Unsigned
  length   : n ≤ w.pages.length
  whole    : (∀ page ∈ w.pages, page.Whole o asc) →
    Cut o asc u (min asc.length (n * limit) - m * limit) ∧
    (w.pages.drop n).flatMap (·.resources) = (asc.drop (min asc.length (n * limit) - m * limit)).reverse

-- The last page, and its `prev` link.
theorem Forward.turn (h : Forward config t o filters limit asc n c w) (hl : 0 < limit)
    (hm : limit ≤ config.maxLimit) (hn : asc.length ≤ (n + 1) * limit) :
    ∃ w', w.follow config t .prev = some w' ∧ Backward config t o filters limit asc n 0 c w' := by
  have e := follow_eq t .prev h.heading.ordered h.heading.asks
  obtain ⟨ho, _, hb, _⟩ := h.heading.ordered.resort t o
  refine ⟨_, e, ho, ?_, (matching_congr hb).trans h.same, h.heading.unsigned _ h.heading.mem, ?_, ?_⟩
  · exact h.heading.asks.isFilters.link (Heading.page t filters limit o c w) .prev hm
      (h.heading.unsigned _ h.heading.mem) (h.heading.unsigned _ h.heading.upTo_mem)
  · simp [h.length]
  · intro hw
    obtain ⟨hc, _⟩ := h.whole fun page hp => hw page (List.mem_append_left _ hp)
    rw [Nat.zero_mul, Nat.sub_zero]
    refine ⟨hc, ?_⟩
    have hres : (Heading.page t filters limit o c w).resources =
        (slice asc (min asc.length (n * limit))
          (min asc.length (min asc.length (n * limit) + limit))).reverse := by
      rw [Heading.page, h.same]
      exact h.ascending.forwardPage_resources rfl hc
    have hmin : min asc.length (min asc.length (n * limit) + limit) = asc.length := by
      rw [Nat.add_one_mul] at hn
      omega
    rw [hmin] at hres
    rw [← h.length, List.drop_left, List.flatMap_singleton, h.length]
    exact hres.trans (by rw [slice, List.take_length])

namespace Backward

variable {u : TaiCursor}

theorem follow (h : Backward config t o filters limit asc n m u w) (hl : 0 < limit)
    (hm : limit ≤ config.maxLimit) (hu : ∀ r ∈ asc, (RegistryStore.cursorOf r o).Unsigned)
    (hmin : ∀ r ∈ asc, .min < RegistryStore.cursorOf r o) :
    ∃ u' w', w.follow config t .prev = some w' ∧
      Backward config t o filters limit asc n (m + 1) u' w' := by
  have e := follow_eq t .prev h.ordered h.asks
  have hasc : Ascending (askBelow u limit o).order asc := h.same ▸ ascending_matching h.ordered
  have hpage : answer w.store t filters (askBelow u limit o) = backwardPage asc u (askBelow u limit o) := by
    rw [← h.same]
    rfl
  have hsince : (backwardPage asc u (askBelow u limit o)).since.Unsigned := by
    obtain e | ⟨r, hr, e⟩ : (backwardPage asc u (askBelow u limit o)).since = _ ∨ _ := backwardPage_since hl
    · rw [e]
      decide
    · rw [e]
      exact hu r hr
  obtain ⟨ho, _, hb, _⟩ := h.ordered.resort t o
  refine ⟨_, _, e, ho, ?_, (matching_congr hb).trans h.same, hsince, ?_, ?_⟩
  · rw [hpage]
    exact h.asks.isFilters.link (backwardPage asc u (askBelow u limit o)) .prev hm hsince h.unsigned
  · simp only [List.length_append]
    exact h.length.trans (Nat.le_add_right _ _)
  · rw [hpage]
    intro hw
    obtain ⟨hc, hall⟩ := h.whole fun page hp => hw page (List.mem_append_left _ hp)
    have hprev : Cut o asc _ (min asc.length (n * limit) - m * limit - limit) :=
      hasc.backward_prev hc hl hmin (hw _ (by simp))
    have hres : _ = (slice asc (min asc.length (n * limit) - m * limit - limit) _).reverse :=
      hasc.backwardPage_resources hc hl
    rw [Nat.sub_sub, ← Nat.add_one_mul] at hprev hres
    refine ⟨hprev, ?_⟩
    rw [List.drop_append_of_le_length h.length, List.flatMap_append, hall, List.flatMap_singleton, hres,
      ← List.reverse_append, slice_append_drop]
    · rw [Nat.add_one_mul]
      omega
    · omega

end Backward

section

variable {s : RegistryStore} {params : Dict String String}

-- The first page asks for everything above 0:0.
theorem heading_init (hs : s.Ordered) (ha : Asks config filters (ask .min limit o) params)
    (hc : ∀ c ∈ cursors s t o, c.Unsigned) :
    Heading config t filters limit o .min (system config t o s params).init where
  ordered  := hs
  asks     := ha
  seen _   := List.mem_cons_of_mem _
  mem      := List.mem_cons_self
  unsigned := List.forall_mem_cons.mpr ⟨by decide, hc⟩

variable (hs : s.Ordered) (ha : Asks config filters (ask .min limit o) params)
  (hc : ∀ c ∈ cursors s t o, .min < c ∧ c.Unsigned) (hm : limit ≤ config.maxLimit) (hl : 0 < limit)

include hs ha hc hm

-- Some cursor leads the client on, whatever it has been through.
theorem heading_of_reaches
    (h : (system config t o s params).Reaches (fun w a => w.Onwards config t o filters a) w) :
    ∃ c, Heading config t filters limit o c w := by
  refine h.induct (I := fun w => ∃ c, Heading config t filters limit o c w)
    ⟨_, heading_init hs ha fun c h => (hc c h).2⟩ fun w a w' _ ⟨c, hh⟩ ho e => ?_
  cases a with
  | mutate op  =>
    cases e
    exact ⟨c, hh.mutate ho⟩
  | follow rel =>
    obtain ⟨rfl, _⟩ := ho
    exact ⟨_, (hh.follow hm e).1⟩

include hl

theorem ahead_of_reaches {id : String} (h : (system config t o s params).Reaches
    (fun w a => w.Held t filters id ∧ w.Onwards config t o filters a) w) :
    ∃ c, Heading config t filters limit o c w ∧ Ahead t o id c w := by
  refine h.induct (I := fun w => ∃ c, Heading config t filters limit o c w ∧ Ahead t o id c w)
    ⟨_, heading_init hs ha fun c h => (hc c h).2, ?_⟩ fun w a w' _ ⟨c, hh, hw⟩ ⟨hid, ho⟩ e => ?_
  · exact ⟨.inr fun r hr => (hc _ (cursorOf_mem (RegistryStore.get_eq_some.mp hr).1)).1, by simp [system]⟩
  · cases a with
    | mutate op  =>
      cases e
      exact ⟨c, hh.mutate ho, hw.mutate hh hid ho⟩
    | follow rel =>
      obtain ⟨rfl, hwhole⟩ := ho
      exact ⟨_, (hh.follow hm e).1, hw.follow hh hl hm hid hwhole e⟩

theorem forward_run (n : Nat) : ∃ c w,
    (system config t o s params).run (system config t o s params).init
      (List.replicate n (.follow .next)) = some w ∧
    Forward config t o filters limit (matching s t o filters) n c w := by
  induction n with
  | zero =>
    have hh := heading_init hs ha fun c h => (hc c h).2
    refine ⟨_, _, rfl, hh, rfl, rfl, fun _ => ⟨?_, by simp [system]⟩⟩
    rw [Nat.zero_mul, Nat.min_zero]
    exact .bot fun r hr =>
      (hc _ (cursorOf_mem (RegistryStore.get_eq_some.mp ((mem_matching hs).mp hr).1).1)).1
  | succ n hi =>
    obtain ⟨c, w, e, h⟩ := hi
    obtain ⟨w', e', h'⟩ := h.follow hl hm
    refine ⟨_, w', ?_, h'⟩
    rw [List.replicate_succ', run_append, e]
    simpa [run, system] using e'

theorem backward_run (n m : Nat) (hn : (matching s t o filters).length ≤ (n + 1) * limit) : ∃ u w,
    (system config t o s params).run (system config t o s params).init
      (List.replicate n (.follow .next) ++ List.replicate (m + 1) (.follow .prev)) = some w ∧
    Backward config t o filters limit (matching s t o filters) n m u w := by
  have hmem : ∀ r ∈ matching s t o filters, RegistryStore.cursorOf r o ∈ cursors s t o := fun r hr =>
    cursorOf_mem (RegistryStore.get_eq_some.mp ((mem_matching hs).mp hr).1).1
  induction m with
  | zero =>
    obtain ⟨c, w, e, h⟩ := forward_run hs ha hc hm hl n
    obtain ⟨w', e', h'⟩ := h.turn hl hm hn
    refine ⟨_, w', ?_, h'⟩
    rw [run_append, e]
    simpa [run, system] using e'
  | succ m hi =>
    obtain ⟨u, w, e, h⟩ := hi
    obtain ⟨u', w', e', h'⟩ := h.follow hl hm (fun r hr => (hc _ (hmem r hr)).2)
      fun r hr => (hc _ (hmem r hr)).1
    refine ⟨u', w', ?_, h'⟩
    rw [List.replicate_succ', ← List.append_assoc, run_append, e]
    simpa [run, system] using e'

end

-- A client that starts at 0:0 with any filters, limit and order. Whatever changes meanwhile, it has
-- received every resource that stayed by the time it gets an empty page; while nothing changes, the
-- pages add up to the matching resources in order, and back again.
theorem walk_complete (config : PagingConfig) (gc forget : Rat) (s : RegistryStore)
    (hs : (RegistryStore.orderSystem gc forget).Reachable s) (t : ResourceType)
    (params : Dict String String) (request : PagingRequest)
    (ha : checkRequest config params = .ok request) (h₀ : request.since = some .min)
    (h₁ : request.upTo = none) (hl : 0 < request.limit) (hm : request.limit ≤ config.maxLimit)
    (hc : ∀ c ∈ cursors s t request.order, .min < c ∧ c.Unsigned) :
    let T := system config t request.order s params
    let filters := filterParams params
    let asc := matching s t request.order filters
    (∀ id w, T.Reaches (fun w a => w.Held t filters id ∧ w.Onwards config t request.order filters a) w →
      (∃ page ∈ w.pages.getLast?, page.resources = []) → Received id w) ∧
    (∀ w, T.Reaches (fun w a => w.Onwards config t request.order filters a) w →
      (w.follow config t .next).isSome) ∧
    (∀ n, ∃ w, T.run T.init (List.replicate n (.follow .next)) = some w ∧
      ((∀ page ∈ w.pages, page.Whole request.order asc) →
        w.pages.flatMap (·.resources.reverse) = asc.take (n * request.limit))) ∧
    ∀ n m, asc.length ≤ (n + 1) * request.limit → n ≤ m → ∃ w,
      T.run T.init (List.replicate n (.follow .next) ++ List.replicate (m + 1) (.follow .prev)) = some w ∧
      ((∀ page ∈ w.pages, page.Whole request.order asc) →
        (w.pages.drop n).flatMap (·.resources) = asc.reverse) := by
  obtain ⟨since, upTo, limit, o⟩ := request
  cases h₀
  cases h₁
  have hs := RegistryStore.ordered_of_reachable hs
  have ha : Asks config (filterParams params) (ask .min limit o) params := ⟨ha, rfl⟩
  refine ⟨fun id w h => ?_, fun w h => ?_, fun n => ?_, fun n m hn hnm => ?_⟩
  · rintro ⟨page, hp, he⟩
    obtain ⟨c, _, hw⟩ := ahead_of_reaches hs ha hc hm hl h
    exact hw.done page hp he
  · obtain ⟨c, hh⟩ := heading_of_reaches hs ha hc hm h
    exact hh.follow_isSome
  · obtain ⟨c, w, e, h⟩ := forward_run hs ha hc hm hl n
    exact ⟨w, e, fun hw => (h.whole hw).2⟩
  · obtain ⟨u, w, e, h⟩ := backward_run hs ha hc hm hl n m hn
    refine ⟨w, e, fun hw => ?_⟩
    have hall := (h.whole hw).2
    have hle : min (matching s t o (filterParams params)).length (n * limit) ≤ m * limit :=
      (min_le_right _ _).trans (Nat.mul_le_mul_right _ hnm)
    rwa [Nat.sub_eq_zero_of_le hle, List.drop_zero] at hall

end
end Walk

-- Three Nodes, two of them with one cursor, and pages of one.
namespace OneByOne

def text (id : String) : String :=
  "\x7b\"id\": \"" ++ id ++ "\", \"version\": \"1:0\"\x7d"

local instance python : Python :=
  .ofTable <| ["a", "b", "c"].map fun id => (text id, [("id", id), ("version", "1:0")])

local instance queryFilter : QueryFilter where
  satisfies raw filters := filters.all fun p => raw.lookup p.1 = some p.2

def commit (id : String) (cursor : TaiCursor) : OrderOp :=
  .operate <| .commit .node ⟨text id⟩ cursor cursor (some 1) ⟨1, 0⟩

def params : Dict String String :=
  queryDict [(PARAM_SINCE, "0:0"), (PARAM_LIMIT, "1")]

def config : PagingConfig := {}

def walk (s : RegistryStore) : TransitionSystem Walk WalkOp :=
  Walk.system config .node .update s params

def nodes : List OrderOp :=
  [commit "a" ⟨5, 0⟩, commit "b" ⟨6, 0⟩, .iterOrdered .node .update]

-- The first Node is registered again while the second one is fetched.
def ops : List WalkOp :=
  [.follow .next, .mutate (commit "a" ⟨7, 0⟩), .follow .next, .follow .next, .follow .next]

theorem walk_complete_nodes : ∃ s, (RegistryStore.orderSystem 12 60).run (.new 12 60) nodes = some s ∧
    (∃ w, (walk s).runWhile (fun w a => w.Held .node [] "b" ∧ w.Onwards config .node .update [] a)
        (walk s).init ops = some w ∧
      w.pages.map (·.resources.map (·.id)) = [["a"], ["b"], ["a"], []] ∧ Walk.Received "b" w) ∧
    (∃ w, (walk s).run (walk s).init (.replicate 3 (.follow .next)) = some w ∧
      w.pages.flatMap (·.resources.reverse) = (Walk.matching s .node .update []).take (3 * 1)) ∧
    ∃ w, (walk s).run (walk s).init (.replicate 2 (.follow .next) ++ .replicate 3 (.follow .prev)) = some w ∧
      w.pages.map (·.resources.map (·.id)) = [["a"], ["b"], [], ["b"], ["a"]] ∧
      (w.pages.drop 2).flatMap (·.resources) = (Walk.matching s .node .update []).reverse := by
  have ⟨h₁, _, h₃, h₄⟩ := Walk.walk_complete config 12 60 _ (.of_run nodes rfl) .node params
    { since := some .min, upTo := none, limit := 1, order := .update } rfl rfl rfl (by decide) (by decide)
    (by decide)
  refine ⟨_, rfl, ⟨_, rfl, by decide, h₁ "b" _ (.of_runWhile ops rfl) ⟨_, rfl, rfl⟩⟩, ?_, ?_⟩
  · obtain ⟨w, e, h⟩ := h₃ 3
    cases e
    exact ⟨_, rfl, h (by decide)⟩
  · obtain ⟨w, e, h⟩ := h₄ 2 2 (by decide) (by decide)
    cases e
    exact ⟨_, rfl, by decide, h (by decide)⟩

def ties : List OrderOp :=
  [commit "a" ⟨5, 0⟩, commit "b" ⟨5, 0⟩]

-- The first page ends between two Nodes that share a cursor, and the second one begins after both.
theorem tie_skipped : ∃ s, (RegistryStore.orderSystem 12 60).run (.new 12 60) ties = some s ∧
    ∃ w, (walk s).run (walk s).init [.follow .next, .follow .next] = some w ∧
      w.pages.map (·.resources.map (·.id)) = [["a"], []] ∧
      w.store.record = s.record ∧ w.Held .node [] "b" ∧ ¬ Walk.Received "b" w :=
  ⟨_, rfl, _, rfl, by decide, rfl, by decide, by decide⟩

end OneByOne
end Query
