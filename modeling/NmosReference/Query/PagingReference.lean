import NmosReference.Query.PagingWalk
import NmosReference.Registry.StoreCursors

-- A page that is cut out of a maintained order is the one that a full sort gives.
namespace Query

open Registry

-- The newest of the cursors, or 0:0.
def newest (o : Order) (rs : List RegisteredResource) : TaiCursor :=
  rs.foldl (fun c r => max c (RegistryStore.cursorOf r o)) .min

-- The page as it is defined: filter, select the window, sort it, and truncate it to the limit, away from `since` where
-- that is given, and away from the upper end of the window otherwise.
def naivePage (extant : List RegisteredResource) (P : RegisteredResource → Bool) (request : PagingRequest) : Page :=
  let key := (RegistryStore.cursorOf · request.order)
  let ceiling := request.upTo.getD (newest request.order extant)
  let window (lower upper : Option TaiCursor) := sortBy (RegistryStore.cursorKey request.order) <|
    (extant.filter P).filter fun r => lower.all (· < key r) && upper.all (key r ≤ ·)
  match request.since with
  | some since =>
    let all := window since request.upTo
    let served := all.take request.limit
    let upTo :=
      match served.getLast? with
      | some last => if request.limit < all.length then key last else request.upTo.getD (key last)
      | none      => request.upTo.getD since
    { resources := served.reverse, since, upTo, limit := request.limit }
  | none =>
    let all := window none ceiling
    let below := all.take (all.length - request.limit)
    let since := if request.limit = 0 then ceiling else below.getLast?.elim .min key
    { resources := (all.drop (all.length - request.limit)).reverse, since, upTo := ceiling, limit := request.limit }

section Slices

variable {α : Type*} {l : List α} {i j n : Nat}

theorem slice_min_add : slice l i (min j (i + n)) = (slice l i j).take n := by
  rw [slice, slice, List.drop_take, List.drop_take, List.take_take]
  congr 1
  omega

theorem slice_of_le (h : j ≤ i) : slice l i j = [] := by
  rw [slice, List.drop_take, Nat.sub_eq_zero_of_le h, List.take_zero]

end Slices

section Windows

variable {asc : List RegisteredResource} {request : PagingRequest} {since ceiling : TaiCursor}
variable (hs : asc.Pairwise fun a b => RegistryStore.cursorOf a request.order ≤ RegistryStore.cursorOf b request.order)

include hs

omit hs in
theorem filter_take {i j : Nat} (h : Cut request.order asc since i) :
    (asc.take j).filter (since < RegistryStore.cursorOf · request.order) = slice asc i j := by
  conv_lhs => rw [← List.take_append_drop i (asc.take j)]
  rw [List.filter_append, List.filter_eq_nil_iff.mpr fun r hr => ?_, List.nil_append, List.filter_eq_self.mpr fun r hr => ?_]
  · rfl
  · rw [List.drop_take] at hr
    exact decide_eq_true (h.above r (List.mem_of_mem_take hr))
  · rw [List.take_take] at hr
    have hle := h.below r (List.take_subset_take_left _ (min_le_left _ _) hr)
    simpa using hle

-- What lies between two bounds is a slice of the order.
theorem filter_window : asc.filter (fun r => since < RegistryStore.cursorOf r request.order &&
      request.upTo.all (RegistryStore.cursorOf r request.order ≤ ·)) =
    slice asc (bisectRight (RegistryStore.cursorOf · request.order) asc since)
      (request.upTo.elim asc.length (bisectRight (RegistryStore.cursorOf · request.order) asc)) := by
  have hi := Bisect.splits (x := since) hs
  cases request.upTo with
  | none       =>
    have hf := hi.filter_gt
    simp only [Option.all_none, Bool.and_true, Option.elim_none, slice, List.take_length]
    exact hf
  | some upTo =>
    have hj := (Bisect.splits (x := upTo) hs).filter_le
    simp only [Option.all_some, Option.elim_some]
    rw [← List.filter_filter, hj, filter_take hi]

-- A page of the order is described by its window alone.
theorem forwardPage_eq (w : List RegisteredResource) (hw : w = asc.filter fun r =>
      since < RegistryStore.cursorOf r request.order && request.upTo.all (RegistryStore.cursorOf r request.order ≤ ·)) :
    forwardPage asc since request =
      { resources := (w.take request.limit).reverse, since
        upTo      := match (w.take request.limit).getLast? with
          | some last =>
            if request.limit < w.length then RegistryStore.cursorOf last request.order
            else request.upTo.getD (RegistryStore.cursorOf last request.order)
          | none      => request.upTo.getD since
        limit     := request.limit } := by
  rw [filter_window hs] at hw
  simp only [forwardPage]
  generalize bisectRight (RegistryStore.cursorOf · request.order) asc since = start at hw
  have hstop : request.upTo.elim asc.length (bisectRight (RegistryStore.cursorOf · request.order) asc) ≤ asc.length := by
    cases request.upTo with
    | none      => exact le_rfl
    | some upTo => exact (Bisect.splits hs).le
  generalize request.upTo.elim asc.length (bisectRight (RegistryStore.cursorOf · request.order) asc) = stop at hw hstop
  have hpage : slice asc start (min (if stop < start then start else stop) (start + request.limit)) =
      w.take request.limit := by
    rw [slice_min_add, hw]
    split
    case isTrue h  => rw [slice_of_le le_rfl, slice_of_le h.le]
    case isFalse h => rfl
  have hlength : (if stop < start then start else stop) - start = w.length := by
    rw [hw, length_slice hstop]
    split <;> omega
  rw [hpage, hlength]
  cases (w.take request.limit).getLast? <;> simp

theorem backwardPage_eq (w : List RegisteredResource)
    (hw : w = asc.filter fun r => RegistryStore.cursorOf r request.order ≤ ceiling) :
    backwardPage asc ceiling request =
      { resources := (w.drop (w.length - request.limit)).reverse
        since     := if request.limit = 0 then ceiling
          else (w.take (w.length - request.limit)).getLast?.elim .min (RegistryStore.cursorOf · request.order)
        upTo      := ceiling, limit := request.limit } := by
  have hcut := Bisect.splits (x := ceiling) hs
  rw [hcut.filter_le] at hw
  simp only [backwardPage]
  generalize bisectRight (RegistryStore.cursorOf · request.order) asc ceiling = size at hw hcut
  have hlength : w.length = size := by rw [hw, List.length_take_of_le hcut.le]
  have hpage : (if request.limit = 0 then [] else slice asc (size - request.limit) size) =
      w.drop (w.length - request.limit) := by
    rw [hlength]
    split
    case isTrue h  => rw [h, Nat.sub_zero, ← hlength, List.drop_length]
    case isFalse h => rw [hw]; rfl
  have hsince : (if request.limit < size then asc[size - request.limit - 1]?.elim TaiCursor.min
        (RegistryStore.cursorOf · request.order) else .min) =
      (w.take (w.length - request.limit)).getLast?.elim .min (RegistryStore.cursorOf · request.order) := by
    rw [hlength, List.getLast?_eq_getElem?, List.length_take, hlength, min_eq_left (Nat.sub_le _ _), hw, List.take_take,
      min_eq_left (Nat.sub_le _ _)]
    split
    case isTrue h  => rw [List.getElem?_take_of_lt (by omega)]
    case isFalse h => rw [Nat.sub_eq_zero_of_le (by omega : size ≤ request.limit), List.take_zero]; rfl
  rw [hpage, hsince]

end Windows

section Ceiling

variable {o : Order} {rs : List RegisteredResource} {c : TaiCursor}

theorem foldl_highest : rs.foldl (fun highest r =>
    if highest < RegistryStore.cursorOf r o then RegistryStore.cursorOf r o else highest) c =
      rs.foldl (fun c r => max c (RegistryStore.cursorOf r o)) c := by
  congr 1
  funext highest r
  split
  case isTrue h  => exact (max_eq_right h.le).symm
  case isFalse h => exact (max_eq_left (not_lt.mp h)).symm

theorem foldl_max_eq_iff {x : TaiCursor} : rs.foldl (fun c r => max c (RegistryStore.cursorOf r o)) c ≤ x ↔
    c ≤ x ∧ ∀ r ∈ rs, RegistryStore.cursorOf r o ≤ x := by
  induction rs generalizing c with
  | nil          => simp
  | cons r rs hi => rw [List.foldl_cons, hi, max_le_iff, List.forall_mem_cons, and_assoc]

-- The last of an order is the newest, as long as no cursor is below 0:0.
theorem newest_sorted (hmin : ∀ r ∈ rs, .min ≤ RegistryStore.cursorOf r o) :
    (sortBy (RegistryStore.cursorKey o) rs).getLast?.elim .min (RegistryStore.cursorOf · o) = newest o rs := by
  have hle : ∀ x, newest o rs ≤ x ↔ .min ≤ x ∧ ∀ r ∈ rs, RegistryStore.cursorOf r o ≤ x := fun _ => foldl_max_eq_iff
  cases e : (sortBy (RegistryStore.cursorKey o) rs).getLast? with
  | none      =>
    have hnil : rs = [] := (List.getLast?_eq_none_iff.mp e ▸ SortBy.perm.symm : rs.Perm []).eq_nil
    rw [hnil]
    rfl
  | some last =>
    obtain ⟨init, hinit⟩ := List.getLast?_eq_some_iff.mp e
    have hlast : last ∈ rs := SortBy.mem.mp (hinit ▸ List.mem_append_right _ (List.mem_singleton_self last))
    have hsorted : (init ++ [last]).Pairwise fun a b => RegistryStore.cursorKey o a ≤ RegistryStore.cursorKey o b :=
      hinit ▸ SortBy.pairwise
    refine le_antisymm (((hle _).mp le_rfl).2 last hlast) ((hle _).mpr ⟨hmin last hlast, fun r hr => ?_⟩)
    have hr : r ∈ init ++ [last] := hinit ▸ SortBy.mem.mpr hr
    rcases List.mem_append.mp hr with hr | hr
    · have hkey := (List.pairwise_append.mp hsorted).2.2 r hr last (List.mem_singleton_self last)
      exact (Prod.Lex.toLex_le_toLex.mp hkey).elim le_of_lt fun e => e.1.le
    · rw [List.mem_singleton.mp hr]
      rfl

end Ceiling

section

variable [Python] [QueryFilter] {s : RegistryStore} {t : ResourceType} {filters : List (String × String)}
variable {request : PagingRequest}

omit [Python] [QueryFilter] in
theorem maxCursor_eq (h : s.Ordered) (hmin : ∀ r ∈ s.iterExtant t, .min ≤ RegistryStore.cursorOf r request.order) :
    maxCursor (s.iterOrdered t request.order).1 request.order true = newest request.order (s.iterExtant t) := by
  rw [h.iterOrdered_eq]
  exact newest_sorted hmin

-- The page of the sorted list is the naive one, whatever the ceiling stands for.
theorem applyPaging_matching (h : s.Ordered) (collection : List RegisteredResource) (presorted : Bool)
    (hc : maxCursor collection request.order presorted = newest request.order (s.iterExtant t)) :
    (match request.since with
      | some since => forwardPage (Walk.matching s t request.order filters) since request
      | none       => backwardPage (Walk.matching s t request.order filters)
        (request.upTo.getD (maxCursor collection request.order presorted)) request) =
      naivePage (s.iterExtant t) (fun r => filters.isEmpty || QueryFilter.satisfies r.raw filters) request := by
  have hascending : Ascending request.order (Walk.matching s t request.order filters) := Walk.ascending_matching h
  have hsorted := hascending.sorted
  have hinj := h.cursorKey_inj (t := t) (o := request.order)
  have hwindow (W : RegisteredResource → Bool) : (Walk.matching s t request.order filters).filter W =
      sortBy (RegistryStore.cursorKey request.order) (((s.iterExtant t).filter fun r =>
        filters.isEmpty || QueryFilter.satisfies r.raw filters).filter W) :=
    SortBy.filter fun a ha b hb => hinj a (List.mem_filter.mp ha).1 b (List.mem_filter.mp hb).1
  unfold naivePage
  cases request.since with
  | some since =>
    simp only [Option.all_some]
    rw [← hwindow]
    exact forwardPage_eq hsorted _ rfl
  | none       =>
    simp only [Option.all_none, Bool.true_and, Option.all_some, hc]
    rw [← hwindow]
    exact backwardPage_eq hsorted _ rfl

-- The query handler cuts its page out of the maintained order, and gets what sorting all extant resources would give.
-- The cursors are taken from clocks and from text, so that none is below 0:0.
theorem applyPaging_naive (gc forget : Rat) (s : RegistryStore)
    (h : (RegistryStore.orderSystem gc forget).Reaches (fun _ op => op.Timely) s) (t : ResourceType)
    (filters : List (String × String)) (request : PagingRequest) :
    let ordered := (s.iterOrdered t request.order).1
    let page := applyPaging (matched ordered filters) ordered request true
    page = applyPaging (matched (s.iterExtant t) filters) (s.iterExtant t) request false ∧
      page = naivePage (s.iterExtant t) (fun r => filters.isEmpty || QueryFilter.satisfies r.raw filters) request := by
  have hs := RegistryStore.ordered_of_reachable <| h.mono fun _ _ _ => trivial
  have hmin (r : RegisteredResource) (hr : r ∈ s.iterExtant t) : .min ≤ RegistryStore.cursorOf r request.order :=
    (RegistryStore.timely_of_reaches h).min_le_cursorOf hr
  have hpage : applyPaging (matched (s.iterOrdered t request.order).1 filters) (s.iterOrdered t request.order).1 request
      true = naivePage (s.iterExtant t) (fun r => filters.isEmpty || QueryFilter.satisfies r.raw filters) request := by
    rw [applyPaging, if_pos rfl, Walk.matched_eq hs]
    exact applyPaging_matching hs _ true (maxCursor_eq hs hmin)
  refine ⟨?_, hpage⟩
  have hfull : sortBy (RegistryStore.cursorKey request.order) (matched (s.iterExtant t) filters) =
      Walk.matching s t request.order filters := by
    rw [matched, Walk.matching]
    cases filters.isEmpty <;> simp
  rw [hpage, applyPaging, if_neg Bool.false_ne_true, hfull]
  exact (applyPaging_matching hs _ false (foldl_highest (c := .min))).symm

end

-- Two Nodes that tie, one that a filter leaves out, and the page that ends between the first two.
namespace Truncated

def text (id : String) : String :=
  "\x7b\"id\": \"" ++ id ++ "\", \"version\": \"1:0\"\x7d"

local instance python : Python :=
  .ofTable <| ["a", "b", "c"].map fun id => (text id, [("id", id), ("version", "1:0")])

local instance queryFilter : QueryFilter where
  satisfies raw filters := filters.all fun p => raw.lookup p.1 ≠ some p.2

def commit (id : String) (cursor : TaiCursor) : OrderOp :=
  .operate <| .commit .node ⟨text id⟩ cursor cursor (some 1) ⟨1, 0⟩

def nodes : List OrderOp :=
  [commit "b" ⟨5, 0⟩, commit "c" ⟨7, 0⟩, commit "a" ⟨5, 0⟩]

def request : PagingRequest where
  since := none
  upTo  := none
  limit := 1
  order := .update

theorem applyPaging_naive_truncated : ∃ s, (RegistryStore.orderSystem 12 60).run (.new 12 60) nodes = some s ∧
    let ordered := (s.iterOrdered .node .update).1
    let page := applyPaging (matched ordered [("id", "c")]) ordered request true
    page = applyPaging (matched (s.iterExtant .node) [("id", "c")]) (s.iterExtant .node) request false ∧
      page = naivePage (s.iterExtant .node) (fun r => QueryFilter.satisfies r.raw [("id", "c")]) request ∧
      page.resources.map (·.id) = ["b"] ∧ (page.since, page.upTo) = (⟨5, 0⟩, ⟨7, 0⟩) := by
  have ⟨h₁, h₂⟩ := applyPaging_naive 12 60 _ (.of_runWhile nodes rfl) .node [("id", "c")] request
  exact ⟨_, rfl, h₁, h₂, by decide, by decide⟩

end Truncated
end Query
