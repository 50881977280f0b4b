import NmosReference.Query.PageWindows
import NmosReference.Query.PagingLinks

-- A client that follows the links of a collection while the store changes.
namespace Query

open Registry TransitionSystem

-- The paging cursors of all resources of a type, extant or not.
def cursors (s : RegistryStore) (t : ResourceType) (o : Order) : List TaiCursor :=
  (s.byType t).values.map (RegistryStore.cursorOf · o)

theorem cursorOf_mem {s : RegistryStore} {t : ResourceType} {o : Order} {r : RegisteredResource}
    {id : String} (h : s.record t id = some r) : RegistryStore.cursorOf r o ∈ cursors s t o :=
  List.mem_map.mpr ⟨r, Dict.mem_values.mpr ⟨id, h⟩, rfl⟩

structure Walk where
  store  : RegistryStore
  -- The next request.
  params : Dict String String
  -- What was received, in that order.
  pages  : List Page
  -- Every cursor that a resource of the type has had, and 0:0.
  seen   : List TaiCursor

inductive WalkOp [Python]
  | mutate (op : OrderOp)
  | follow (rel : Rel)

namespace Walk

section

variable [Python] [QueryFilter]

-- Requests a page, and takes one of its links for the next request.
def follow (config : PagingConfig) (t : ResourceType) (w : Walk) (rel : Rel) : Option Walk :=
  match getCollection config w.store t w.params with
  | (.ok response, store) => some
    { w with store, params := queryDict (response.link rel), pages := w.pages ++ [response.page] }
  | (.error _, _)         => none

def mutate (t : ResourceType) (o : Order) (w : Walk) (op : OrderOp) : Walk :=
  let store := w.store.perform op
  { w with store, seen := w.seen ++ cursors store t o }

def system (config : PagingConfig) (t : ResourceType) (o : Order) (s : RegistryStore)
    (params : Dict String String) : TransitionSystem Walk WalkOp where
  init := { store := s, params, pages := [], seen := .min :: cursors s t o }
  step w
    | .mutate op  => w.mutate t o op
    | .follow rel => w.follow config t rel

-- The extant resources that pass the filters, by cursor and then by id.
def matching (s : RegistryStore) (t : ResourceType) (o : Order) (filters : List (String × String)) :
    List RegisteredResource :=
  sortBy (RegistryStore.cursorKey o) <|
    (s.iterExtant t).filter fun r => filters.isEmpty || QueryFilter.satisfies r.raw filters

-- The resource is extant and passes the filters.
def Held (t : ResourceType) (filters : List (String × String)) (id : String) (w : Walk) : Prop :=
  ∃ r ∈ w.store.get t id, filters.isEmpty || QueryFilter.satisfies r.raw filters

-- A cursor that a change gives out is larger than all before it.
def Fresh (t : ResourceType) (o : Order) (w : Walk) (op : OrderOp) : Prop :=
  ∀ r ∈ ((w.store.perform op).byType t).values,
    (∃ r₀ ∈ w.store.record t r.id, RegistryStore.cursorOf r₀ o = RegistryStore.cursorOf r o) ∨
      (RegistryStore.cursorOf r o).Unsigned ∧ ∀ c ∈ w.seen, c < RegistryStore.cursorOf r o

-- The page that the request is answered with parts no resources that share a cursor.
def Whole (config : PagingConfig) (t : ResourceType) (o : Order) (filters : List (String × String))
    (w : Walk) : Prop :=
  ∀ response ∈ (getCollection config w.store t w.params).1.toOption,
    response.page.Whole o (matching w.store t o filters)

-- The steps of a client that walks towards newer records.
def Onwards (config : PagingConfig) (t : ResourceType) (o : Order) (filters : List (String × String))
    (w : Walk) : WalkOp → Prop
  | .mutate op  => w.Fresh t o op
  | .follow rel => rel = .next ∧ w.Whole config t o filters

instance {t : ResourceType} {filters : List (String × String)} {id : String} {w : Walk} :
    Decidable (w.Held t filters id) :=
  inferInstanceAs <| Decidable (∃ _ ∈ _, _)

instance {t : ResourceType} {o : Order} {w : Walk} {op : OrderOp} : Decidable (w.Fresh t o op) :=
  inferInstanceAs <| Decidable (∀ _ ∈ _, (∃ _ ∈ _, _) ∨ _ ∧ ∀ _ ∈ _, _)

instance {config : PagingConfig} {t : ResourceType} {o : Order} {filters : List (String × String)}
    {w : Walk} : Decidable (w.Whole config t o filters) :=
  inferInstanceAs <| Decidable (∀ _ ∈ _, _)

instance {config : PagingConfig} {t : ResourceType} {o : Order} {filters : List (String × String)}
    {w : Walk} {a : WalkOp} : Decidable (w.Onwards config t o filters a) :=
  match a with
  | .mutate _ => inferInstanceAs <| Decidable (w.Fresh ..)
  | .follow _ => inferInstanceAs <| Decidable (_ ∧ w.Whole ..)

end

section

variable [Python] [QueryFilter] {s : RegistryStore} {t : ResourceType} {o : Order}
variable {filters : List (String × String)} {r : RegisteredResource}

theorem matched_eq (h : s.Ordered) :
    matched (s.iterOrdered t o).1 filters = matching s t o filters := by
  rw [matched, matching, h.iterOrdered_eq]
  cases he : filters.isEmpty
  · simpa using SortBy.filter h.cursorKey_inj
  · simp

theorem mem_matching (h : s.Ordered) : r ∈ matching s t o filters ↔
    s.get t r.id = some r ∧ (filters.isEmpty || QueryFilter.satisfies r.raw filters) := by
  rw [matching, SortBy.mem, List.mem_filter, RegistryStore.iterExtant, List.mem_filter, Dict.mem_values,
    RegistryStore.get, Option.filter_eq_some_iff]
  refine and_congr_left fun _ => and_congr_left fun _ => ⟨?_, fun hr => ⟨_, hr⟩⟩
  rintro ⟨id, hr⟩
  rw [(h.keyed _ _ _ hr).2]
  exact hr

theorem ascending_matching (h : s.Ordered) : Ascending o (matching s t o filters) where
  sorted := SortBy.pairwise.imp fun {a b} hab => by
    rw [RegistryStore.cursorKey, RegistryStore.cursorKey, Prod.Lex.toLex_le_toLex] at hab
    exact hab.elim le_of_lt fun e => e.1.le
  nodup  := SortBy.perm.nodup_iff.mpr <| .filter _ <| .filter _ <| .of_map _ h.nodup_values

variable {config : PagingConfig} {request : PagingRequest} {params : Dict String String} {w w' : Walk}
variable {c : TaiCursor} {id : String} {rel : Rel}

-- The page of a request.
def answer (s : RegistryStore) (t : ResourceType) (filters : List (String × String))
    (request : PagingRequest) : Page :=
  applyPaging (matching s t request.order filters) (s.iterOrdered t request.order).1 request true

theorem getCollection_eq (h : s.Ordered) (ha : Asks config filters request params) :
    getCollection config s t params =
      (.ok { page := answer s t filters request
             link := pagingLink (answer s t filters request) filters request.order },
        s.resort t request.order) := by
  simp only [getCollection, ha.check, ha.filters, answer, ← matched_eq h]
  rfl

theorem follow_eq (t : ResourceType) (rel : Rel) (h : w.store.Ordered)
    (ha : Asks config filters request w.params) :
    w.follow config t rel = some
      { store  := w.store.resort t request.order
        params := queryDict (pagingLink (answer w.store t filters request) filters request.order rel)
        pages  := w.pages ++ [answer w.store t filters request]
        seen   := w.seen } := by
  simp [follow, getCollection_eq h ha]

theorem whole_answer (h : w.store.Ordered) (ha : Asks config filters request w.params)
    (hw : w.Whole config t request.order filters) :
    (answer w.store t filters request).Whole request.order (matching w.store t request.order filters) :=
  hw _ (by rw [getCollection_eq h ha]; rfl)

theorem matching_congr {s' : RegistryStore} (h : s'.byType = s.byType) :
    matching s' t o filters = matching s t o filters := by
  rw [matching, RegistryStore.iterExtant, h]
  rfl

-- The request of a `next` link.
abbrev ask (c : TaiCursor) (limit : Nat) (o : Order) : PagingRequest :=
  { since := some c, upTo := none, limit, order := o }

-- A client that has seen everything up to a cursor, and asks for what comes above.
structure Heading (config : PagingConfig) (t : ResourceType) (filters : List (String × String))
    (limit : Nat) (o : Order) (c : TaiCursor) (w : Walk) : Prop where
  ordered  : w.store.Ordered
  asks     : Asks config filters (ask c limit o) w.params
  seen     : ∀ c ∈ cursors w.store t o, c ∈ w.seen
  unsigned : ∀ c ∈ w.seen, c.Unsigned
  mem      : c ∈ w.seen

namespace Heading

variable {limit : Nat}

-- The page that the client is about to receive.
abbrev page (t : ResourceType) (filters : List (String × String)) (limit : Nat) (o : Order)
    (c : TaiCursor) (w : Walk) : Page :=
  forwardPage (matching w.store t o filters) c (ask c limit o)

omit [QueryFilter] in
theorem mutate {op : OrderOp} (h : Heading config t filters limit o c w) (hf : w.Fresh t o op) :
    Heading config t filters limit o c (w.mutate t o op) where
  ordered := h.ordered.step op
  asks    := h.asks
  seen    := fun c hc => List.mem_append_right _ hc
  mem     := List.mem_append_left _ h.mem
  unsigned := by
    intro c hc
    obtain hc | hc := List.mem_append.mp hc
    · exact h.unsigned c hc
    · obtain ⟨r, hr, rfl⟩ := List.mem_map.mp hc
      obtain ⟨r₀, hr₀, e⟩ | ⟨hu, _⟩ := hf r hr
      · exact e ▸ h.unsigned _ (h.seen _ (cursorOf_mem hr₀))
      · exact hu

theorem cut (h : Heading config t filters limit o c w) :
    ∃ i, Cut o (matching w.store t o filters) c i :=
  ⟨_, Bisect.splits (ascending_matching h.ordered).sorted⟩

theorem upTo_mem (h : Heading config t filters limit o c w) :
    (page t filters limit o c w).upTo ∈ w.seen := by
  obtain ⟨i, hc⟩ := h.cut
  have e := (ascending_matching h.ordered).forwardPage_upTo (rfl : (ask c limit o).upTo = none) hc
  rw [page, e]
  cases e : (slice (matching w.store t o filters) i (min _ (i + limit))).getLast? with
  | none   => exact h.mem
  | some r =>
    have hm := List.mem_of_mem_take (List.mem_of_mem_drop (List.mem_of_getLast? e))
    exact h.seen _ (cursorOf_mem (RegistryStore.get_eq_some.mp ((mem_matching h.ordered).mp hm).1).1)

theorem follow (h : Heading config t filters limit o c w) (hl : limit ≤ config.maxLimit)
    (e : w.follow config t .next = some w') :
    Heading config t filters limit o (page t filters limit o c w).upTo w' ∧
      w'.store.byType = w.store.byType ∧ w'.pages = w.pages ++ [page t filters limit o c w] := by
  rw [follow_eq t .next h.ordered h.asks] at e
  cases e
  obtain ⟨ho, _, hb, _⟩ := h.ordered.resort t o
  refine ⟨⟨ho, ?_, ?_, h.unsigned, h.upTo_mem⟩, hb, rfl⟩
  · exact h.asks.isFilters.link (page t filters limit o c w) .next hl
      (h.unsigned _ h.mem) (h.unsigned _ h.upTo_mem)
  · exact fun c hc => h.seen c (by rw [cursors, hb] at hc; exact hc)

theorem follow_isSome (h : Heading config t filters limit o c w) :
    (w.follow config t .next).isSome := by
  rw [follow_eq t .next h.ordered h.asks]
  rfl

theorem whole (h : Heading config t filters limit o c w) (hw : w.Whole config t o filters) :
    (page t filters limit o c w).Whole o (matching w.store t o filters) :=
  whole_answer h.ordered h.asks hw

end Heading

-- The resource was received.
def Received (id : String) (w : Walk) : Prop :=
  ∃ page ∈ w.pages, ∃ r ∈ page.resources, r.id = id

instance : Decidable (Received id w) :=
  inferInstanceAs <| Decidable (∃ _ ∈ _, ∃ _ ∈ _, _)

-- Whatever was not received yet is still ahead.
structure Ahead (t : ResourceType) (o : Order) (id : String) (c : TaiCursor) (w : Walk) : Prop where
  ahead : Received id w ∨ ∀ r, w.store.get t id = some r → c < RegistryStore.cursorOf r o
  done  : ∀ page ∈ w.pages.getLast?, page.resources = [] → Received id w

namespace Ahead

variable {limit : Nat} {op : OrderOp}

theorem mutate (h : Ahead t o id c w) (hh : Heading config t filters limit o c w)
    (hid : w.Held t filters id) (hf : w.Fresh t o op) : Ahead t o id c (w.mutate t o op) where
  done  := h.done
  ahead := by
    refine h.ahead.imp_right fun hr r e => ?_
    obtain ⟨r₁, hr₁, _⟩ := hid
    have hrec := (RegistryStore.get_eq_some.mp e).1
    have hkey := (hh.ordered.step op).keyed _ _ _ hrec
    obtain ⟨r₀, hr₀, e₀⟩ | ⟨_, hlt⟩ := hf r (Dict.mem_values.mpr ⟨id, hrec⟩)
    · have h₀ : w.store.record t id = some r₀ := hkey.2 ▸ hr₀
      obtain rfl : r₁ = r₀ := Option.some.inj ((RegistryStore.get_eq_some.mp hr₁).1.symm.trans h₀)
      exact e₀ ▸ hr r₁ hr₁
    · exact hlt c hh.mem

theorem follow (h : Ahead t o id c w) (hh : Heading config t filters limit o c w) (hl : 0 < limit)
    (hm : limit ≤ config.maxLimit) (hid : w.Held t filters id) (hw : w.Whole config t o filters)
    (e : w.follow config t .next = some w') :
    Ahead t o id (Heading.page t filters limit o c w).upTo w' := by
  obtain ⟨_, hby, hpages⟩ := hh.follow hm e
  obtain ⟨r, hr, hp⟩ := hid
  have hid := (hh.ordered.keyed _ _ _ (RegistryStore.get_eq_some.mp hr).1).2
  have hmem : r ∈ matching w.store t o filters := (mem_matching hh.ordered).mpr ⟨hid ▸ hr, hp⟩
  have hasc : Ascending o (matching w.store t o filters) := ascending_matching hh.ordered
  obtain ⟨i, hc⟩ := hh.cut
  have hi := hc.le
  have hask : (ask c limit o).upTo = none := rfl
  have hnext := hasc.forward_next hask hc hl (hh.whole hw)
  have hres : (Heading.page t filters limit o c w).resources = (slice (matching w.store t o filters) i
      (min (matching w.store t o filters).length (i + limit))).reverse :=
    hasc.forwardPage_resources hask hc
  have hkeep : Received id w → Received id w' := by
    rintro ⟨page, hpage, h⟩
    exact ⟨page, by simp [hpages, hpage], h⟩
  -- It is on the page, or behind it.
  have hsplit : c < RegistryStore.cursorOf r o → Received id w' ∨
      r ∈ (matching w.store t o filters).drop (min (matching w.store t o filters).length (i + limit)) := by
    intro hlt
    have hdrop : r ∈ (matching w.store t o filters).drop i := by
      rw [← hc.filter_gt, List.mem_filter]
      exact ⟨hmem, by simpa using hlt⟩
    rw [← slice_append_drop (by omega) (min_le_left _ (i + limit)), List.mem_append] at hdrop
    refine hdrop.imp_left fun hs => ⟨Heading.page t filters limit o c w, by simp [hpages], r, ?_, hid⟩
    rw [hres]
    simpa using hs
  refine ⟨?_, fun page hpage hempty => ?_⟩
  · refine h.ahead.elim (fun h => .inl (hkeep h)) fun hlt => ?_
    refine (hsplit (hlt r hr)).imp_right fun hd r' hr' => ?_
    rw [RegistryStore.get, RegistryStore.record, hby] at hr'
    obtain rfl : r = r' := Option.some.inj (hr.symm.trans hr')
    exact hnext.above r hd
  · obtain rfl : Heading.page t filters limit o c w = page := by simpa [hpages] using hpage
    refine h.ahead.elim hkeep fun hlt => (hsplit (hlt r hr)).resolve_right fun hd => ?_
    -- An empty page is one with nothing behind it.
    have hlen := congrArg List.length (hres.symm.trans hempty)
    rw [List.length_reverse, length_slice (by omega), List.length_nil] at hlen
    have hd := List.length_pos_of_mem hd
    rw [List.length_drop] at hd
    omega

end Ahead

end
end Walk
end Query
