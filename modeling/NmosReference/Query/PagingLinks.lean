import NmosReference.Query.Paging
import Mathlib

-- The links of a page ask for what they say.
namespace Query

open Registry

theorem intDigits_toDigits (n : Nat) : intDigits (Nat.toDigits 10 n) = .ok n := by
  rw [intDigits, if_neg (fun h => h.1 rfl), Text.decimal_toDigits]

-- An interpreter with a limit reads what it can print.
theorem intDigits_printable {n : Nat} {maxStrDigits : Nat} (h : (Nat.toDigits 10 n).length ≤ maxStrDigits) :
    intDigits (Nat.toDigits 10 n) maxStrDigits = .ok n := by
  rw [intDigits, if_neg (fun hm => absurd h (Nat.not_le.mpr hm.2)), Text.decimal_toDigits]

theorem parseCursor_text {c : TaiCursor} (h : c.Unsigned) : parseCursor c.text = .ok (some c) := by
  obtain ⟨s, ns, e, hspan⟩ := TaiCursor.span_text h
  simp only [parseCursor, hspan, Text.isDigits_toDigits, Bool.and_self, if_true, intDigits_toDigits]
  rw [e]
  rfl

-- What can be asked for besides pages.
structure IsFilters (filters : List (String × String)) : Prop where
  nodup : (filters.map Prod.fst).Nodup
  free  : ∀ p ∈ filters, p.1 ∉ PAGING_PARAMS ∧ ¬"query.".toList <+: p.1.toList

theorem isFilters_filterParams (params : Dict String String) : IsFilters (filterParams params) where
  nodup    := params.nodup.sublist (List.filter_sublist.map _)
  free _ h := by simpa using (List.mem_filter.mp h).2

theorem items_queryDict {query : List (String × String)} (h : (query.map Prod.fst).Nodup) :
    (queryDict query).items = query := by
  suffices hf : ∀ d : Dict String String, (d.keys ++ query.map Prod.fst).Nodup →
      (query.foldl (fun params p => if params.contains p.1 then params else params.set p.1 p.2) d).items =
        d.items ++ query from hf ∅ (by simpa using h)
  induction query with
  | nil => simp
  | cons p query hi =>
    intro d hd
    have hk : p.1 ∉ d.keys := fun hm => (List.nodup_append.mp hd).2.2 _ hm p.1 (by simp) rfl
    have hc : d.contains p.1 = false := by
      rw [Bool.eq_false_iff, ne_eq, Dict.contains_iff, ← Dict.mem_keys]
      exact hk
    have hitems : (d.set p.1 p.2).items = d.items ++ [p] := by rw [Dict.set, dif_neg hk]
    have hkeys := Dict.keys_set_of_not_mem (v := p.2) hk
    rw [List.foldl_cons, hc, if_neg Bool.false_ne_true]
    rw [hi (List.nodup_cons.mp h).2 _ (by rw [hkeys]; simpa using hd), hitems]
    simp

namespace Rel

-- The window a link leads to.

def since (page : Page) : Rel → Option TaiCursor
  | next  => some page.upTo
  | first => some .min
  | _     => none

def upTo (page : Page) : Rel → Option TaiCursor
  | prev => some page.since
  | _    => none

end Rel

section

variable {page : Page} {filters : List (String × String)} {o : Order} {rel : Rel}

-- The paging parameters of a link.
def ownParams (page : Page) (o : Order) (rel : Rel) : List (String × String) :=
  (match rel with
    | .next  => [(PARAM_SINCE, page.upTo.text)]
    | .prev  => [(PARAM_UNTIL, page.since.text)]
    | .first => [(PARAM_SINCE, TaiCursor.min.text)]
    | .last  => []) ++ [(PARAM_LIMIT, toString page.limit)] ++
  if o = .update then [] else [(PARAM_ORDER, orderName o)]

theorem pagingLink_eq : pagingLink page filters o rel = filters ++ ownParams page o rel := by
  cases rel <;> simp [pagingLink, ownParams]

theorem ownParams_names {p : String × String} (h : p ∈ ownParams page o rel) : p.1 ∈ PAGING_PARAMS := by
  cases rel <;> cases o <;> simp [ownParams] at h <;> simp [PAGING_PARAMS] <;> aesop

theorem ownParams_nodup : ((ownParams page o rel).map Prod.fst).Nodup := by
  cases rel <;> cases o <;> simp [ownParams, PARAM_SINCE, PARAM_UNTIL, PARAM_LIMIT, PARAM_ORDER]

theorem reserved_of_paging {name : String} (h : name ∈ PAGING_PARAMS) :
    ¬"query.".toList <+: name.toList := by
  revert name
  decide

theorem items_link (hf : IsFilters filters) :
    (queryDict (pagingLink page filters o rel)).items = filters ++ ownParams page o rel := by
  rw [items_queryDict, pagingLink_eq]
  rw [pagingLink_eq, List.map_append, List.nodup_append]
  refine ⟨hf.nodup, ownParams_nodup, ?_⟩
  rintro _ h₁ _ h₂ rfl
  obtain ⟨p, hp, e⟩ := List.mem_map.mp h₁
  obtain ⟨q, hq, e'⟩ := List.mem_map.mp h₂
  exact (hf.free p hp).1 (by rw [e, ← e']; exact ownParams_names hq)

theorem filterParams_link (hf : IsFilters filters) :
    filterParams (queryDict (pagingLink page filters o rel)) = filters := by
  rw [filterParams, items_link hf, List.filter_append, List.filter_eq_self.mpr, List.filter_eq_nil_iff.mpr,
    List.append_nil]
  · intro p hp
    simp [ownParams_names hp]
  · intro p hp
    simpa using hf.free p hp

-- The reserved parameters of a link are its own.
theorem get?_link (hf : IsFilters filters) {name : String}
    (h : name ∈ PAGING_PARAMS ∨ "query.".toList <+: name.toList) :
    (queryDict (pagingLink page filters o rel)).get? name =
      ((ownParams page o rel).find? (·.1 = name)).map Prod.snd := by
  have hn : filters.find? (·.1 = name) = none := by
    rw [List.find?_eq_none]
    rintro p hp hk
    obtain rfl : p.1 = name := by simpa using hk
    exact h.elim (hf.free p hp).1 (hf.free p hp).2
  rw [Dict.get?, items_link hf, List.find?_append, hn, Option.none_or]

theorem get?_link_query (hf : IsFilters filters) {name : String} (h : "query.".toList <+: name.toList) :
    (queryDict (pagingLink page filters o rel)).get? name = none := by
  rw [get?_link hf (.inr h), List.find?_eq_none.mpr]
  · rfl
  · rintro p hp hk
    obtain rfl : p.1 = name := by simpa using hk
    exact reserved_of_paging (ownParams_names hp) h

variable [Python] {config : PagingConfig}

theorem limitParam_link (hf : IsFilters filters) (hl : page.limit ≤ config.maxLimit) :
    limitParam (queryDict (pagingLink page filters o rel)) config.defaultLimit config.maxLimit =
      .ok page.limit := by
  have hg : (queryDict (pagingLink page filters o rel)).get? PARAM_LIMIT = some (toString page.limit) := by
    rw [get?_link hf (.inl (by decide))]
    cases rel <;> cases o <;>
      simp [ownParams, PARAM_SINCE, PARAM_UNTIL, PARAM_LIMIT, PARAM_ORDER]
  have hd : (toString page.limit).toList = Nat.toDigits 10 page.limit := by
    simp [toString, Nat.toList_repr]
  have hs : (Nat.toDigits 10 page.limit).dropWhile (· = '-') = Nat.toDigits 10 page.limit := by
    refine List.dropWhile_eq_self_iff.mpr fun h => ?_
    simpa using Text.toDigits_ne (by decide) (List.getElem_mem h)
  simp only [limitParam, hg, hd, hs, Text.isDigits_toDigits, Bool.not_true, if_true, intDigits_toDigits]
  simp only [Bool.false_eq_true, if_false]
  exact congrArg Except.ok (min_eq_left hl)

theorem orderParam_link (hf : IsFilters filters) :
    orderParam (queryDict (pagingLink page filters o rel)) = .ok o := by
  rw [orderParam, get?_link hf (.inl (by decide))]
  cases rel <;> cases o <;>
    simp [ownParams, PARAM_SINCE, PARAM_UNTIL, PARAM_LIMIT, PARAM_ORDER, orderName]

theorem cursorParam_link (hf : IsFilters filters) (hs : page.since.Unsigned) (hu : page.upTo.Unsigned) :
    cursorParam (queryDict (pagingLink page filters o rel)) PARAM_SINCE = .ok (rel.since page) ∧
      cursorParam (queryDict (pagingLink page filters o rel)) PARAM_UNTIL = .ok (rel.upTo page) := by
  have hm : parseCursor TaiCursor.min.text = .ok (some .min) := parseCursor_text (by decide)
  rw [cursorParam, get?_link hf (.inl (by decide)), cursorParam, get?_link hf (.inl (by decide))]
  cases rel <;> cases o <;> constructor <;>
    simp [ownParams, PARAM_SINCE, PARAM_UNTIL, PARAM_LIMIT, PARAM_ORDER, Rel.since, Rel.upTo,
      parseCursor_text hs, parseCursor_text hu, hm] <;> rfl

theorem checkRequest_link (hf : IsFilters filters) (hl : page.limit ≤ config.maxLimit)
    (hs : page.since.Unsigned) (hu : page.upTo.Unsigned) :
    checkRequest config (queryDict (pagingLink page filters o rel)) =
      .ok { since := rel.since page, upTo := rel.upTo page, limit := page.limit, order := o } := by
  have hq : ∀ p ∈ UNSUPPORTED_PARAMS, "query.".toList <+: p.1.toList := by decide
  have h₁ : checkUnsupported (queryDict (pagingLink page filters o rel)) = .ok () := by
    rw [checkUnsupported, List.find?_eq_none.mpr]
    intro p hp
    simp [Dict.contains, get?_link_query hf (hq p hp)]
  have h₂ : checkDowngrade (queryDict (pagingLink page filters o rel)) = .ok () := by
    rw [checkDowngrade, get?_link_query hf (by decide)]
  have h₃ : parsePaging (queryDict (pagingLink page filters o rel)) config.defaultLimit config.maxLimit =
      .ok { since := rel.since page, upTo := rel.upTo page, limit := page.limit, order := o } := by
    simp only [parsePaging, cursorParam_link hf hs hu, limitParam_link hf hl, orderParam_link hf]
    cases rel <;> rfl
  simp only [checkRequest, h₁, h₂, h₃]
  rfl

-- What the parameters of a request amount to.
structure Asks (config : PagingConfig) (filters : List (String × String)) (request : PagingRequest)
    (params : Dict String String) : Prop where
  check   : checkRequest config params = .ok request
  filters : filterParams params = filters

variable {request : PagingRequest} {params : Dict String String}

theorem Asks.isFilters (h : Asks config filters request params) : IsFilters filters :=
  h.filters ▸ isFilters_filterParams params

theorem IsFilters.link (page : Page) (rel : Rel) (hf : IsFilters filters) (hl : page.limit ≤ config.maxLimit)
    (hs : page.since.Unsigned) (hu : page.upTo.Unsigned) :
    Asks config filters { since := rel.since page, upTo := rel.upTo page, limit := page.limit, order := o }
      (queryDict (pagingLink page filters o rel)) :=
  ⟨checkRequest_link hf hl hs hu, filterParams_link hf⟩

end
end Query
