import NmosReference.Library.Handler
import NmosReference.Library.JsonReading

-- The exact text of the members of a JSON object.
namespace Registry
open Json

-- The text is not a JSON object, or ends part-way through one.
inductive JsonSpanError
  | textEnded (expected : Char)
  | found (expected : Char) (index : Nat) (c : Char)
  | badName (index : Nat)
  | badValue (name : Str) (start : Nat)
  | notClosed
  | separator (index : Nat) (c : Char)
  deriving DecidableEq, Repr

-- A member's name, the text of its value and its value.
structure Span where
  name  : Str
  text  : List Char
  value : Value

section

variable (source : List Char)

-- Where the part of the source that is left begins.
def offset (cs : List Char) : Nat :=
  source.length - cs.length

def require (expected : Char) (cs : List Char) : Except JsonSpanError (List Char) :=
  match cs with
  | []        => .error <| .textEnded expected
  | c :: rest => if c = expected then .ok rest else .error <| .found expected (offset source cs) c

def scanMember (cs : List Char) : Except JsonSpanError (Span × List Char) := do
  let rest ← require source '"' cs
  match scanString rest with
  | none              => .error <| .badName (offset source cs)
  | some (name, rest) =>
    let rest ← require source ':' (skipWs rest)
    let start := skipWs rest
    match rawDecode start with
    | none               => .error <| .badValue name (offset source start)
    | some (value, rest) => .ok (⟨name, start.take (start.length - rest.length), value⟩, rest)

-- No object has more members than its text is long.
def scanMembers : Nat → List Char → Except JsonSpanError (List Span)
  | 0, _      => .error .notClosed
  | n + 1, cs => do
    let (span, rest) ← scanMember source cs
    match skipWs rest with
    | []         => .error .notClosed
    | c :: rest' =>
      if c = ',' then
        let spans ← scanMembers n (skipWs rest')
        .ok (span :: spans)
      else if c = '}' then .ok [span]
      else .error <| .separator (offset source (c :: rest')) c

-- `_scan`
def scan : Except JsonSpanError (List Span) := do
  let rest ← require source '{' (skipWs source)
  match skipWs rest with
  | []      => scanMembers source 1 []
  | c :: cs => if c = '}' then .ok [] else scanMembers source (cs.length + 1) (c :: cs)

-- The last of the spans of a name is its own.
def memberText (key : Str) : Except JsonSpanError (Option (List Char)) := do
  let spans ← scan source
  .ok <| spans.foldl (fun found span => if span.name = key then some span.text else found) none

def memberSpans : Except JsonSpanError (Dict Str (List Char × Value)) := do
  let spans ← scan source
  .ok <| spans.foldl (fun d span => d.set span.name (span.text, span.value)) ∅

end

section

variable {source cs rest text : List Char} {span : Span} {spans : List Span} {n : Nat} {c : Char}

theorem require_ok {expected : Char} : require source expected cs = .ok rest ↔ cs = expected :: rest := by
  cases cs with
  | nil      => simp [require]
  | cons c _ =>
    by_cases hc : c = expected
    · simp [require, hc]
    · simp [require, hc]

-- A piece of the source that stands for a value, and for that value alone.
structure Cut (source text : List Char) (value : Value) : Prop where
  part : text <:+: source
  own  : loads text = some value

theorem Cut.mono {value : Value} (h : Cut cs text value) (hcs : cs <:+ source) : Cut source text value where
  part := h.part.trans hcs.isInfix
  own  := h.own

-- `scanMember` reads what the decoder reads, and notes where the value was.
theorem member_of_scanMember (h : scanMember source cs = .ok (span, rest)) :
    member rawDecode cs = some ((span.name, span.value), rest) ∧ Cut cs span.text span.value := by
  obtain ⟨cs₁, hquote, h⟩ := Except.bind_eq_ok.mp h
  obtain rfl := require_ok.mp hquote
  cases hname : scanString cs₁ with
  | none   =>
    simp only [hname] at h
    cases h
  | some r =>
    obtain ⟨name, cs₂⟩ := r
    simp only [hname] at h
    obtain ⟨cs₃, hcolon, h⟩ := Except.bind_eq_ok.mp h
    have hsep := require_ok.mp hcolon
    cases hvalue : rawDecode (skipWs cs₃) with
    | none   =>
      simp only [hvalue] at h
      cases h
    | some r =>
      obtain ⟨value, cs₄⟩ := r
      simp only [hvalue] at h
      cases h
      obtain ⟨used, hne, hstart, hr⟩ := rawDecode_used hvalue
      have htext : (skipWs cs₃).take ((skipWs cs₃).length - rest.length) = used := by simp [hstart]
      refine ⟨by simp [member, hname, hsep, hvalue], ?_, ?_⟩
      · have h₃ : skipWs cs₃ <:+ cs₂ := skipWs_suffix.trans ((List.suffix_cons ':' cs₃).trans (hsep ▸ skipWs_suffix))
        have h₁ : skipWs cs₃ <:+ '"' :: cs₁ := h₃.trans ((scanString_suffix hname).trans (List.suffix_cons '"' cs₁))
        exact (List.take_prefix _ _).isInfix.trans h₁.isInfix
      · dsimp only
        rw [htext]
        exact loads_used (hstart ▸ hvalue) hr (skipWs_part hstart)

theorem scanMember_of_member (source : List Char) {name : Str} {value : Value} (h : member rawDecode cs = some ((name, value), rest)) :
    ∃ text, scanMember source cs = .ok (⟨name, text, value⟩, rest) := by
  unfold member at h
  split at h
  case h_1 cs =>
    simp only [Option.bind_eq_bind, Option.bind_eq_some_iff] at h
    obtain ⟨⟨name', cs₁⟩, h₁, h⟩ := h
    dsimp only at h
    split at h
    case h_1 cs₂ hcolon =>
      rw [Option.bind_eq_some_iff] at h
      obtain ⟨⟨value', rest'⟩, h₂, e⟩ := h
      cases e
      let start := skipWs cs₂
      refine ⟨start.take (start.length - rest'.length), Except.bind_eq_ok.mpr ⟨cs, require_ok.mpr rfl, ?_⟩⟩
      simp only [h₁, hcolon]
      refine Except.bind_eq_ok.mpr ⟨cs₂, require_ok.mpr rfl, ?_⟩
      simp only [h₂]
      rfl
    case h_2 => cases h
  case h_2 => cases h

-- The members as the decoder reads them.
def Span.member (span : Span) : Str × Value :=
  (span.name, span.value)

theorem separated_of_scanMembers (h : scanMembers source n cs = .ok spans) :
    (∃ rest, separated (Json.member rawDecode) '}' n cs = some (spans.map Span.member, rest)) ∧
      ∀ span ∈ spans, Cut cs span.text span.value := by
  induction n generalizing cs spans with
  | zero      => cases h
  | succ n hi =>
    obtain ⟨⟨span, rest⟩, h₁, h⟩ := Except.bind_eq_ok.mp h
    obtain ⟨hmember, hcut⟩ := member_of_scanMember h₁
    dsimp only at h
    split at h
    case h_1             => cases h
    case h_2 c rest' hws =>
      split at h
      case isTrue hcomma =>
        subst hcomma
        obtain ⟨spans', h₂, e⟩ := Except.bind_eq_ok.mp h
        cases e
        obtain ⟨⟨rest₂, hsep⟩, hcuts⟩ := hi h₂
        refine ⟨⟨rest₂, by simp [separated, hmember, hws, hsep, Span.member]⟩, fun s hs => ?_⟩
        have hsuffix : skipWs rest' <:+ cs :=
          (skipWs_suffix.trans (List.suffix_cons ',' rest')).trans ((hws ▸ skipWs_suffix).trans (member_suffix hmember))
        obtain rfl | hs := List.mem_cons.mp hs
        · exact hcut
        · exact (hcuts s hs).mono hsuffix
      case isFalse =>
        split at h
        case isTrue hbrace =>
          subst hbrace
          cases h
          exact ⟨⟨rest', by simp [separated, hmember, hws, Span.member]⟩,
            fun s hs => List.mem_singleton.mp hs ▸ hcut⟩
        case isFalse => cases h

theorem scanMembers_of_separated (source : List Char) {ms : List (Str × Value)}
    (h : separated (Json.member rawDecode) '}' n cs = some (ms, rest)) : ∃ spans, scanMembers source n cs = .ok spans := by
  induction n generalizing cs ms rest with
  | zero      => cases h
  | succ n hi =>
    simp only [separated, Option.bind_eq_bind, Option.bind_eq_some_iff] at h
    obtain ⟨⟨⟨name, value⟩, cs₁⟩, h₁, h⟩ := h
    obtain ⟨text, hscan⟩ := scanMember_of_member source h₁
    dsimp only at h
    split at h
    case h_1            => cases h
    case h_2 c cs₂ hws =>
      split at h
      case isTrue hbrace =>
        subst hbrace
        exact ⟨[⟨name, text, value⟩], Except.bind_eq_ok.mpr ⟨_, hscan, by simp [hws]⟩⟩
      case isFalse =>
        split at h
        case isTrue hcomma =>
          subst hcomma
          rw [Option.bind_eq_some_iff] at h
          obtain ⟨⟨ms', rest'⟩, h₂, -⟩ := h
          obtain ⟨spans, hspans⟩ := hi h₂
          refine ⟨⟨name, text, value⟩ :: spans, Except.bind_eq_ok.mpr ⟨_, hscan, ?_⟩⟩
          simp only [hws, if_true]
          exact Except.bind_eq_ok.mpr ⟨spans, hspans, rfl⟩
        case isFalse => cases h

theorem bracketed_of_scan (h : scan source = .ok spans) :
    (∃ cs rest, skipWs source = '{' :: cs ∧ bracketed (Json.member rawDecode) '}' cs = some (spans.map Span.member, rest)) ∧
      ∀ span ∈ spans, Cut source span.text span.value := by
  obtain ⟨cs, hopen, h⟩ := Except.bind_eq_ok.mp h
  have hbrace := require_ok.mp hopen
  split at h
  case h_1 => cases h
  case h_2 c cs' hws =>
    split at h
    case isTrue hclose =>
      cases h
      exact ⟨⟨cs, cs', hbrace, by simp [bracketed, hws, hclose]⟩, nofun⟩
    case isFalse hclose =>
      obtain ⟨⟨rest, hsep⟩, hcuts⟩ := separated_of_scanMembers h
      have hsuffix : c :: cs' <:+ source :=
        (hws ▸ skipWs_suffix).trans ((List.suffix_cons '{' cs).trans (hbrace ▸ skipWs_suffix))
      exact ⟨⟨cs, rest, hbrace, by simp [bracketed, hws, hclose, hsep]⟩, fun s hs => (hcuts s hs).mono hsuffix⟩

theorem scan_of_bracketed {ms : List (Str × Value)} (hbrace : skipWs source = '{' :: cs)
    (h : bracketed (Json.member rawDecode) '}' cs = some (ms, rest)) : ∃ spans, scan source = .ok spans := by
  unfold bracketed at h
  have hopen : require source '{' (skipWs source) = .ok cs := require_ok.mpr hbrace
  split at h
  case h_1 => cases h
  case h_2 c cs' hws =>
    split at h
    case isTrue hclose =>
      exact ⟨[], Except.bind_eq_ok.mpr ⟨cs, hopen, by simp [hws, hclose]⟩⟩
    case isFalse hclose =>
      obtain ⟨spans, hspans⟩ := scanMembers_of_separated source h
      exact ⟨spans, Except.bind_eq_ok.mpr ⟨cs, hopen, by simp [hws, hclose, hspans]⟩⟩

theorem bracketed_of_rawDecode {items : List (Str × Value)} (h : rawDecode cs = some (.object items, rest)) :
    ∃ cs' ms, cs = '{' :: cs' ∧ bracketed (Json.member rawDecode) '}' cs' = some (ms, rest) ∧ items = (dictOf ms).items := by
  obtain ⟨cs', rfl⟩ := brace_of_rawDecode h
  rw [rawDecode_brace] at h
  obtain ⟨⟨ms, rest'⟩, hb, e⟩ := Option.map_eq_some_iff.mp h
  cases e
  exact ⟨cs', ms, rfl, hb, rfl⟩

theorem rawDecode_of_bracketed {ms : List (Str × Value)} (h : bracketed (Json.member rawDecode) '}' cs = some (ms, rest)) :
    rawDecode ('{' :: cs) = some (.object (dictOf ms).items, rest) := by
  rw [rawDecode_brace, object, h]
  rfl

-- The scanner accepts what begins with an object.
theorem memberSpans_ok : (∃ spans, memberSpans source = .ok spans) ↔
    ∃ items rest, rawDecode (skipWs source) = some (.object items, rest) := by
  constructor
  · rintro ⟨d, h⟩
    obtain ⟨spans, hscan, -⟩ := Except.bind_eq_ok.mp h
    obtain ⟨⟨cs, rest, hbrace, hb⟩, -⟩ := bracketed_of_scan hscan
    exact ⟨_, rest, hbrace ▸ rawDecode_of_bracketed hb⟩
  · rintro ⟨items, rest, h⟩
    obtain ⟨cs, ms, hbrace, hb, -⟩ := bracketed_of_rawDecode h
    obtain ⟨spans, hscan⟩ := scan_of_bracketed hbrace hb
    exact ⟨_, Except.bind_eq_ok.mpr ⟨spans, hscan, rfl⟩⟩

-- What `dict` makes of the spans.
def spansOf (spans : List Span) : Dict Str (List Char × Value) :=
  spans.foldl (fun d span => d.set span.name (span.text, span.value)) ∅

theorem map_spansOf : (spansOf spans).map (fun _ p => p.2) = dictOf (spans.map Span.member) := by
  have hfold (d : Dict Str (List Char × Value)) :
      (spans.foldl (fun d span => d.set span.name (span.text, span.value)) d).map (fun _ p => p.2) =
        (spans.map Span.member).foldl (fun d p => d.set p.1 p.2) (d.map fun _ p => p.2) := by
    induction spans generalizing d with
    | nil        => rfl
    | cons s l hi => rw [List.foldl_cons, hi, Dict.map_set]; rfl
  exact hfold ∅

theorem get?_spansOf {name : Str} {value : Value} (h : (spansOf spans).get? name = some (text, value)) :
    ∃ span ∈ spans, span.text = text ∧ span.value = value := by
  have hfold (d : Dict Str (List Char × Value)) (l : List Span)
      (hd : (l.foldl (fun d span => d.set span.name (span.text, span.value)) d).get? name = some (text, value)) :
      d.get? name = some (text, value) ∨ ∃ span ∈ l, span.text = text ∧ span.value = value := by
    induction l generalizing d with
    | nil         => exact .inl hd
    | cons s l hi =>
      obtain hset | ⟨span, hs, ht⟩ := hi _ hd
      · rw [Dict.get?_set] at hset
        split at hset
        case isTrue  => cases hset; exact .inr ⟨s, by simp, rfl, rfl⟩
        case isFalse => exact .inl hset
      · exact .inr ⟨span, List.mem_cons_of_mem _ hs, ht⟩
  exact (hfold ∅ spans h).resolve_left fun h => by cases h

theorem get?_spansOf_mem (hd : (spans.map Span.name).Nodup) (hs : span ∈ spans) :
    (spansOf spans).get? span.name = some (span.text, span.value) := by
  have hfold (d : Dict Str (List Char × Value)) (l : List Span) (hl : (l.map Span.name).Nodup) (hm : span ∈ l ∨
      span.name ∉ l.map Span.name ∧ d.get? span.name = some (span.text, span.value)) :
      (l.foldl (fun d span => d.set span.name (span.text, span.value)) d).get? span.name =
        some (span.text, span.value) := by
    induction l generalizing d with
    | nil         => exact (hm.resolve_left List.not_mem_nil).2
    | cons s l hi =>
      obtain ⟨hnot, hl⟩ := List.nodup_cons.mp hl
      refine hi _ hl ?_
      rw [List.mem_cons] at hm
      obtain (rfl | hm) | ⟨hno, hg⟩ := hm
      · exact .inr ⟨hnot, Dict.get?_set_self⟩
      · exact .inl hm
      · rw [List.map_cons, List.mem_cons, not_or] at hno
        exact .inr ⟨hno.2, (Dict.get?_set_of_ne hno.1).trans hg⟩
  exact hfold ∅ spans hd (.inl hs)

-- The spans are those of the object's members, each the text of its member's value.
structure Truthful (source : List Char) (spans : Dict Str (List Char × Value)) (items : List (Str × Value)) : Prop where
  members : (spans.map fun _ p => p.2).items = items
  cuts    : ∀ name text value, spans.get? name = some (text, value) → Cut source text value

theorem memberSpans_truthful {d : Dict Str (List Char × Value)} {items : List (Str × Value)}
    (h : memberSpans source = .ok d) (hr : rawDecode (skipWs source) = some (.object items, rest)) :
    Truthful source d items := by
  obtain ⟨spans, hscan, e⟩ := Except.bind_eq_ok.mp h
  cases e
  obtain ⟨⟨cs, rest', hbrace, hb⟩, hcuts⟩ := bracketed_of_scan hscan
  rw [hbrace, rawDecode_of_bracketed hb] at hr
  cases hr
  refine ⟨congrArg Dict.items map_spansOf, fun name text value hg => ?_⟩
  obtain ⟨span, hs, rfl, rfl⟩ := get?_spansOf hg
  exact hcuts span hs

theorem loads_object {items : List (Str × Value)} : loads source = some (.object items) ↔
    ∃ rest, rawDecode (skipWs source) = some (.object items, rest) ∧ skipWs rest = [] := by
  constructor
  · intro h
    unfold loads at h
    split at h
    case isTrue  => cases h
    case isFalse =>
      split at h
      case h_1 v rest hr =>
        split at h
        case isTrue hend => cases h; exact ⟨rest, hr, List.isEmpty_iff.mp hend⟩
        case isFalse     => cases h
      case h_2 => cases h
  · rintro ⟨rest, hr, hend⟩
    have hbom : source.head? ≠ some '\uFEFF' := by
      intro e
      obtain ⟨cs, hbrace⟩ := brace_of_rawDecode hr
      cases source with
      | nil      => cases e
      | cons c _ => cases e; cases hbrace
    rw [loads, if_neg hbom, hr]
    simp [hend]

-- The scanner accepts the objects and no other text, and tells the truth about them.
structure Exact (source : List Char) : Prop where
  accepts : (∃ spans, memberSpans source = .ok spans) ↔ ∃ items, loads source = some (.object items)
  tells   : ∀ spans items, memberSpans source = .ok spans → loads source = some (.object items) →
    Truthful source spans items

-- More follows the object that the text begins with.
def Trailing (source : List Char) : Prop :=
  ∃ items rest, rawDecode (skipWs source) = some (.object items, rest) ∧ skipWs rest ≠ []

def trailing (source : List Char) : Bool :=
  match rawDecode (skipWs source) with
  | some (.object _, rest) => skipWs rest ≠ []
  | _                      => false

theorem trailing_iff : trailing source ↔ Trailing source := by
  unfold trailing Trailing
  split
  case h_1 items rest hr => simp [hr]
  case h_2 hno           =>
    refine iff_of_false Bool.false_ne_true ?_
    rintro ⟨items, rest, hr, _⟩
    exact hno items rest hr

instance : Decidable (Trailing source) :=
  decidable_of_iff _ trailing_iff

theorem not_exact_of_trailing (h : Trailing source) : ¬Exact source := by
  rintro ⟨haccepts, -⟩
  obtain ⟨items, rest, hr, hmore⟩ := h
  obtain ⟨items', hloads⟩ := haccepts.mp (memberSpans_ok.mpr ⟨items, rest, hr⟩)
  obtain ⟨rest', hr', hend⟩ := loads_object.mp hloads
  rw [hr] at hr'
  cases hr'
  exact hmore hend

-- The scanner stops at the closing brace, and does not look at what follows it.
theorem memberSpans_exact : Exact source ↔ ¬Trailing source := by
  refine ⟨fun h ht => not_exact_of_trailing ht h, fun h => ⟨?_, fun d items hd hl => ?_⟩⟩
  · rw [memberSpans_ok]
    constructor
    · rintro ⟨items, rest, hr⟩
      refine ⟨items, loads_object.mpr ⟨rest, hr, ?_⟩⟩
      by_contra hmore
      exact h ⟨items, rest, hr, hmore⟩
    · rintro ⟨items, hl⟩
      obtain ⟨rest, hr, -⟩ := loads_object.mp hl
      exact ⟨items, rest, hr⟩
  · obtain ⟨rest, hr, -⟩ := loads_object.mp hl
    exact memberSpans_truthful hd hr

theorem memberSpans_garbage : ¬Exact "\x7b\"a\": 1\x7d x".toList :=
  not_exact_of_trailing (by decide +kernel)

-- The text of a member is the one its span has.
theorem memberText_eq {key : Str} :
    memberText source key = (memberSpans source).map fun d => (d.get? key).map Prod.fst := by
  have hfold (d : Dict Str (List Char × Value)) (l : List Span) :
      l.foldl (fun found span => if span.name = key then some span.text else found) ((d.get? key).map Prod.fst) =
        ((l.foldl (fun d span => d.set span.name (span.text, span.value)) d).get? key).map Prod.fst := by
    induction l generalizing d with
    | nil         => rfl
    | cons s l hi =>
      rw [List.foldl_cons, List.foldl_cons, ← hi, Dict.get?_set]
      simp only [eq_comm (a := s.name)]
      split <;> rfl
  unfold memberText memberSpans
  cases scan source with
  | error e  => rfl
  | ok spans => exact congrArg Except.ok (hfold ∅ spans)

end

end Registry
