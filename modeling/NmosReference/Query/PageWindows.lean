import NmosReference.Query.Paging

-- Which records a page has, by their positions in the order.
namespace Query

open Registry

variable {asc : List RegisteredResource} {o : Order} {c : TaiCursor} {i n : Nat} {request : PagingRequest}

section

variable {α : Type*} {l : List α} {i j : Nat}

theorem length_slice (hj : j ≤ l.length) : (slice l i j).length = j - i := by
  rw [slice, List.length_drop, List.length_take_of_le hj]

theorem slice_append_drop (hij : i ≤ j) (hj : j ≤ l.length) : slice l i j ++ l.drop j = l.drop i := by
  conv_rhs => rw [← List.take_append_drop j l]
  rw [List.drop_append_of_le_length (by rwa [List.length_take_of_le hj])]
  rfl

theorem take_append_slice (hij : i ≤ j) : l.take i ++ slice l i j = l.take j := by
  conv_rhs => rw [← List.take_append_drop i (l.take j), List.take_take, min_eq_left hij]
  rfl

end

-- No resource outside of the page has the cursor of one on it.
def Page.Whole (page : Page) (o : Order) (matched : List RegisteredResource) : Prop :=
  ∀ r ∈ page.resources, ∀ r' ∈ matched, r' ∉ page.resources →
    RegistryStore.cursorOf r o ≠ RegistryStore.cursorOf r' o

instance {page : Page} : Decidable (page.Whole o asc) :=
  inferInstanceAs <| Decidable (∀ _ ∈ _, ∀ _ ∈ _, _ → _)

-- Where cursors are distinct, every page is whole.
theorem Page.Whole.of_distinct {page : Page} (hp : ∀ r ∈ page.resources, r ∈ asc)
    (h : ∀ r ∈ asc, ∀ r' ∈ asc, RegistryStore.cursorOf r o = RegistryStore.cursorOf r' o → r = r') :
    page.Whole o asc :=
  fun r hr r' hr' hn e => hn <| h r (hp r hr) r' hr' e ▸ hr

abbrev Cut (o : Order) (asc : List RegisteredResource) (c : TaiCursor) (i : Nat) : Prop :=
  Bisect.Splits (RegistryStore.cursorOf · o) asc c i

structure Ascending (o : Order) (asc : List RegisteredResource) : Prop where
  sorted : asc.Pairwise fun r r' => RegistryStore.cursorOf r o ≤ RegistryStore.cursorOf r' o
  nodup  : asc.Nodup

theorem backwardPage_since (hl : 0 < request.limit) : (backwardPage asc c request).since = .min ∨
    ∃ r ∈ asc, (backwardPage asc c request).since = RegistryStore.cursorOf r request.order := by
  simp only [backwardPage]
  rw [if_neg (by omega)]
  split
  case isFalse => exact .inl rfl
  case isTrue  =>
    cases e : asc[bisectRight (RegistryStore.cursorOf · request.order) asc c - request.limit - 1]? with
    | none   => exact .inl rfl
    | some r => exact .inr ⟨r, List.mem_of_getElem? e, rfl⟩

namespace Ascending

section Forward

variable (ha : Ascending request.order asc) (hu : request.upTo = none) (hc : Cut request.order asc c i)

include ha hu hc

theorem forwardPage_resources : (forwardPage asc c request).resources =
    (slice asc i (min asc.length (i + request.limit))).reverse := by
  have hi := hc.le
  simp only [forwardPage, hu, Option.elim_none, Bisect.bisectRight_eq ha.sorted hc]
  rw [if_neg (by omega)]

theorem forwardPage_upTo : (forwardPage asc c request).upTo =
    (slice asc i (min asc.length (i + request.limit))).getLast?.elim c
      (RegistryStore.cursorOf · request.order) := by
  have hi := hc.le
  simp only [forwardPage, hu, Option.elim_none, Bisect.bisectRight_eq ha.sorted hc]
  rw [if_neg (by omega)]
  cases (slice asc i (min asc.length (i + request.limit))).getLast? <;> simp

-- The page is the next `limit` records, and its `next` link goes on right after them.
theorem forward_next (hl : 0 < request.limit)
    (hw : (forwardPage asc c request).Whole request.order asc) :
    Cut request.order asc (forwardPage asc c request).upTo (min asc.length (i + request.limit)) := by
  have hi := hc.le
  rw [ha.forwardPage_upTo hu hc]
  obtain hlt | rfl := Nat.lt_or_eq_of_le hi
  · have hij : i < min asc.length (i + request.limit) := by omega
    have hlt : min asc.length (i + request.limit) - 1 < asc.length := by omega
    have hlast : (slice asc i (min asc.length (i + request.limit))).getLast? =
        some asc[min asc.length (i + request.limit) - 1] := by
      rw [slice, List.getLast?_eq_getElem?, List.length_drop, List.length_take_of_le (by omega),
        List.getElem?_drop, List.getElem?_take_of_lt (by omega), ← List.getElem?_eq_getElem (by omega)]
      congr 1
      omega
    rw [hlast]
    refine Bisect.Splits.at_stop ha.sorted ha.nodup (by omega) hij ?_
    simpa [Page.Whole, ha.forwardPage_resources hu hc, slice] using hw
  · have hempty : slice asc asc.length (min asc.length (asc.length + request.limit)) = [] := by
      simp [slice]
    rw [hempty, show min asc.length (asc.length + request.limit) = asc.length by omega]
    exact hc

end Forward

section Backward

variable (ha : Ascending request.order asc) (hc : Cut request.order asc c i) (hl : 0 < request.limit)

include ha hc hl

theorem backwardPage_resources : (backwardPage asc c request).resources =
    (slice asc (i - request.limit) i).reverse := by
  simp only [backwardPage, Bisect.bisectRight_eq ha.sorted hc]
  rw [if_neg (by omega)]

-- The page is the `limit` records before, and its `prev` link goes on right before them.
theorem backward_prev (hmin : ∀ r ∈ asc, .min < RegistryStore.cursorOf r request.order)
    (hw : (backwardPage asc c request).Whole request.order asc) :
    Cut request.order asc (backwardPage asc c request).since (i - request.limit) := by
  have hi := hc.le
  simp only [backwardPage, Bisect.bisectRight_eq ha.sorted hc]
  rw [if_neg (by omega)]
  split
  case isTrue hlt =>
    rw [List.getElem?_eq_getElem (by omega)]
    refine Bisect.Splits.at_start ha.sorted ha.nodup hi (by omega) ?_ (by omega)
    simpa [Page.Whole, ha.backwardPage_resources hc hl, slice] using hw
  case isFalse hlt =>
    rw [show i - request.limit = 0 by omega]
    exact .bot hmin

end Backward
end Ascending
end Query
