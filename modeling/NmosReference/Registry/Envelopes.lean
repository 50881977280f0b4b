import NmosReference.Library.JsonWriting
import NmosReference.Library.Utf8
import NmosReference.Query.PagingLinks
import NmosReference.Registry.EtcdView
import NmosReference.Registry.Spans

-- What is stored for a resource: its body as it was sent, among metadata.
namespace Registry
open Json

def ENVELOPE_VERSION : Int := 1

structure StoredEnvelope extends Envelope where
  version : Int
  deriving DecidableEq, Repr

inductive EnvelopeError
  | notText
  | notJson (cause : JsonSpanError)
  | notObject
  | noVersion
  | newer (version : Int)
  | unknownType (typeName : Option Value)
  | noData
  | noCursor (field : String)
  | badCursor (field : String) (value : Str)
  -- `int` raised on digits that are not decimal, or `str` on an integer of too many digits.
  | valueError
  | noHealth

section

variable {source text t : List Char} {v : Value} {name : String}

-- The scan of what was written. A field is a name with the text of its value and the value.
def spanOf (m : String × List Char × Value) : Span :=
  ⟨Str.of m.1, m.2.1, m.2.2⟩

theorem scanMember_written (source : List Char) (name : String) (h : Written text v) (ht : Stops t) :
    scanMember source (dumpMember (name, text) ++ t) = .ok (⟨Str.of name, text, v⟩, t) := by
  have e : dumpMember (name, text) ++ t = '"' :: (name.toList.flatMap dumpChar ++ '"' :: ':' :: ' ' :: (text ++ t)) := by
    simp [dumpMember, dumpString]
  refine Except.bind_eq_ok.mpr ⟨_, require_ok.mpr e, ?_⟩
  simp only [scanString_dumpString]
  refine Except.bind_eq_ok.mpr ⟨_, require_ok.mpr rfl, ?_⟩
  have hskip : skipWs (' ' :: (text ++ t)) = text ++ t := h.skipWs_append
  simp [hskip, h.reads t ht]

theorem scanMembers_written (source : List Char) {ms : List (String × List Char × Value)} {n : Nat} (hne : ms ≠ []) (hn : ms.length ≤ n)
    (h : ∀ m ∈ ms, Written m.2.1 m.2.2) :
    scanMembers source n (dumpMembers (ms.map fun m => (m.1, m.2.1)) ++ '}' :: t) = .ok (ms.map spanOf) := by
  induction ms generalizing n with
  | nil         => contradiction
  | cons m l hi =>
    obtain ⟨n, rfl⟩ : ∃ n', n = n' + 1 := ⟨n - 1, by simp at hn; omega⟩
    have hm := h m List.mem_cons_self
    cases l with
    | nil       =>
      have hscan := scanMember_written source m.1 hm (t := '}' :: t) (stops_cons.mpr (by decide))
      have e : dumpMembers [(m.1, m.2.1)] = dumpMember (m.1, m.2.1) := by simp [dumpMembers]
      rw [List.map_singleton, e]
      exact Except.bind_eq_ok.mpr ⟨_, hscan, rfl⟩
    | cons m' l =>
      have hl := hi (List.cons_ne_nil _ _) (by simpa using hn) fun m hm => h m (List.mem_cons_of_mem _ hm)
      obtain ⟨cs, hstart⟩ := dumpMembers_start ((m' :: l).map fun m => (m.1, m.2.1)) (by simp)
      rw [hstart] at hl
      rw [List.map_cons, dumpMembers_cons (by simp), List.append_assoc, List.cons_append, List.cons_append, hstart]
      have hscan := scanMember_written source m.1 hm
        (t := ',' :: ' ' :: ('"' :: cs ++ '}' :: t)) (stops_cons.mpr (by decide))
      exact Except.bind_eq_ok.mpr ⟨_, hscan, Except.bind_eq_ok.mpr ⟨_, hl, rfl⟩⟩

theorem memberSpans_written {ms : List (String × List Char × Value)} (hne : ms ≠ [])
    (h : ∀ m ∈ ms, Written m.2.1 m.2.2) :
    memberSpans (dumpObject (ms.map fun m => (m.1, m.2.1))) = .ok (spansOf (ms.map spanOf)) := by
  have hlen := length_le_dumpMembers (ms.map fun m => (m.1, m.2.1))
  obtain ⟨cs, hstart⟩ := dumpMembers_start (ms.map fun m => (m.1, m.2.1)) (by simpa using hne)
  have hscan := scanMembers_written ('{' :: ('"' :: cs ++ ['}'])) (t := []) hne
    (n := (cs ++ ['}']).length + 1) (by simp [hstart] at hlen ⊢; omega) h
  rw [dumpObject, hstart]
  rw [hstart] at hscan
  refine Except.bind_eq_ok.mpr ⟨_, Except.bind_eq_ok.mpr ⟨_, require_ok.mpr rfl, hscan⟩, rfl⟩

-- No white space around it.
structure Trimmed (cs : List Char) : Prop where
  first : cs.head?.all fun c => !isWs c
  last  : cs.getLast?.all fun c => !isWs c

-- The text is that of an object.
def ObjectText (text : List Char) : Prop :=
  ∃ items, loads text = some (.object items)

def isObject (value : Option Value) : Bool :=
  match value with
  | some (.object _) => true
  | _                => false

theorem isObject_iff : isObject (loads text) ↔ ObjectText text := by
  unfold isObject ObjectText
  split
  case h_1 items h => simp [h]
  case h_2 hno     => exact iff_of_false Bool.false_ne_true fun h => h.elim hno

instance : Decidable (ObjectText text) :=
  decidable_of_iff _ isObject_iff

theorem written_of_loads {items : List (Str × Value)} (ht : Trimmed text) (h : loads text = some (.object items)) :
    Written text (.object items) := by
  obtain ⟨rest, hr, hend⟩ := loads_object.mp h
  have hstart : skipWs text = text := by
    cases text with
    | nil      => rfl
    | cons c _ => exact List.dropWhile_cons_of_neg (by simpa using ht.first)
  rw [hstart] at hr
  obtain ⟨used, hne, e, hu⟩ := rawDecode_used hr
  have hrest : rest = [] := by
    by_contra hne
    have hws := List.dropWhile_eq_nil_iff.mp hend _ (List.getLast_mem hne)
    have hlast := ht.last
    rw [e, List.getLast?_append_of_ne_nil _ hne, List.getLast?_eq_some_getLast hne] at hlast
    simp [hws] at hlast
  rw [hrest, List.append_nil] at e
  subst e
  exact ⟨hstart, hne, hu⟩

end

namespace StoredEnvelope

def encodeText (e : StoredEnvelope) : List Char :=
  let head := dumpObject [
    ("v", dumpInt e.version),
    ("type", dumpString e.resourceType.value),
    ("created", dumpString e.created.text),
    ("updated", dumpString e.updated.text),
    ("health", dumpInt e.health)
  ]
  head.dropLast ++ ", \"data\": ".toList ++ e.body.text.toList ++ ['}']

-- The integers that `dump_any` and the `str` of a cursor write.
def integers (e : StoredEnvelope) : List Int :=
  [e.version, e.created.seconds, e.created.nanoseconds, e.updated.seconds, e.updated.nanoseconds, e.health]

def encode (e : StoredEnvelope) : Except EnvelopeError (List UInt8) :=
  if ∀ n ∈ e.integers, Printable n then .ok <| Utf8.encode e.encodeText
  else .error .valueError

def fromSingular (name : Str) : Option ResourceType :=
  ResourceType.all.find? fun t => Str.of t.value = name

-- A surrogate is no part of a cursor, and neither is a null character.
def chars (s : Str) : List Char :=
  s.map Char.ofNat

abbrev Members :=
  Dict Str (List Char × Value)

def integer (value : Option (List Char × Value)) : Option Int :=
  match value with
  | some (_, .int n) => some n
  | _                => none

def cursor (members : Members) (field : String) : Except EnvelopeError TaiCursor :=
  match members.get? (Str.of field) with
  | some (_, .str value) =>
    match Query.parseCursor (String.ofList (chars value)) MAX_STR_DIGITS with
    | .ok (some c) => .ok c
    | .ok none     => .error <| .badCursor field value
    | .error _     => .error .valueError
  | _                    => .error <| .noCursor field

def decodeMembers (members : Members) : Except EnvelopeError StoredEnvelope := do
  let version ← match integer (members.get? (Str.of "v")) with
    | some n => .ok n
    | none   => .error .noVersion
  if ENVELOPE_VERSION < version then .error <| .newer version
  else
    let typeName := (members.get? (Str.of "type")).map Prod.snd
    let resourceType ← match typeName with
      | some (.str name) =>
        match fromSingular name with
        | some t => .ok t
        | none   => .error <| .unknownType typeName
      | _                => .error <| .unknownType typeName
    let body ← match members.get? (Str.of "data") with
      | some (text, .object _) => .ok ⟨String.ofList text⟩
      | _                      => .error .noData
    let created ← cursor members "created"
    let updated ← cursor members "updated"
    let health ← match integer (members.get? (Str.of "health")) with
      | some n => .ok n
      | none   => .error .noHealth
    .ok { version, resourceType, body, created, updated, health }

def decode (value : List UInt8) : Except EnvelopeError StoredEnvelope :=
  if Utf8.Valid value then
    let text := Utf8.decode value
    match memberSpans text with
    | .ok members  => decodeMembers members
    | .error cause =>
      match loads text with
      | some _ => .error .notObject
      | none   => .error <| .notJson cause
  else .error .notText

section

variable {e : StoredEnvelope} {items : List (Str × Value)}

-- The members of what is stored, the body last.
def fields (e : StoredEnvelope) (items : List (Str × Value)) : List (String × List Char × Value) :=
  [("v", dumpInt e.version, .int e.version),
    ("type", dumpString e.resourceType.value, .str (Str.of e.resourceType.value)),
    ("created", dumpString e.created.text, .str (Str.of e.created.text)),
    ("updated", dumpString e.updated.text, .str (Str.of e.updated.text)),
    ("health", dumpInt e.health, .int e.health),
    ("data", e.body.text.toList, .object items)]

theorem encodeText_eq (items : List (Str × Value)) : e.encodeText = dumpObject ((e.fields items).map fun m => (m.1, m.2.1)) := by
  have hsplice := dumpObject_append [
    ("v", dumpInt e.version),
    ("type", dumpString e.resourceType.value),
    ("created", dumpString e.created.text),
    ("updated", dumpString e.updated.text),
    ("health", dumpInt e.health)] ("data", e.body.text.toList) (by simp)
  have hdata : dumpMember ("data", e.body.text.toList) = "\"data\": ".toList ++ e.body.text.toList := by
    simp [dumpMember, dumpString, dumpChar, shortEscape]
  rw [hdata] at hsplice
  simpa [encodeText, fields] using hsplice

theorem chars_of {s : String} : String.ofList (chars (Str.of s)) = s := by
  have hmap : chars (Str.of s) = s.toList := by simp [chars, Str.of, Char.ofNat_toNat, Function.comp_def]
  rw [hmap, String.ofList_toList]

theorem fromSingular_value {t : ResourceType} : fromSingular (Str.of t.value) = some t := by
  cases t <;> decide

theorem parseCursor_printable {c : TaiCursor} (h : c.Unsigned) (hs : Printable c.seconds) (hns : Printable c.nanoseconds) :
    Query.parseCursor c.text MAX_STR_DIGITS = .ok (some c) := by
  obtain ⟨s, ns, rfl, hspan⟩ := TaiCursor.span_text h
  simp only [Query.parseCursor, hspan, Text.isDigits_toDigits, Bool.and_self, if_true,
    Query.intDigits_printable (show (Nat.toDigits 10 s).length ≤ MAX_STR_DIGITS from hs),
    Query.intDigits_printable (show (Nat.toDigits 10 ns).length ≤ MAX_STR_DIGITS from hns)]
  rfl

theorem cursor_text {members : Members} {field : String} {c : TaiCursor} {text : List Char}
    (hm : members.get? (Str.of field) = some (text, .str (Str.of c.text))) (h : c.Unsigned)
    (hs : Printable c.seconds) (hns : Printable c.nanoseconds) : cursor members field = .ok c := by
  simp [cursor, hm, chars_of, parseCursor_printable h hs hns]

theorem decode_written (ht : Trimmed e.body.text.toList) (hl : loads e.body.text.toList = some (.object items))
    (hp : ∀ n ∈ e.integers, Printable n) :
    e.encode >>= decode = decodeMembers (spansOf ((e.fields items).map spanOf)) := by
  have hversion := hp e.version (by simp [integers])
  have hhealth := hp e.health (by simp [integers])
  have hwritten : ∀ m ∈ e.fields items, Written m.2.1 m.2.2 := by
    simp only [fields, List.mem_cons, List.not_mem_nil, or_false]
    rintro m (rfl | rfl | rfl | rfl | rfl | rfl)
    · exact written_int hversion
    · exact written_string
    · exact written_string
    · exact written_string
    · exact written_int hhealth
    · exact written_of_loads ht hl
  have hspans : memberSpans e.encodeText = .ok (spansOf ((e.fields items).map spanOf)) := by
    rw [encodeText_eq items]
    exact memberSpans_written (List.cons_ne_nil _ _) hwritten
  rw [encode, if_pos hp]
  simp only [bind, Except.bind, decode, if_pos Utf8.valid_encode, Utf8.decode_encode, hspans]

theorem get?_fields (e : StoredEnvelope) (items : List (Str × Value)) : ∀ m ∈ e.fields items,
    (spansOf ((e.fields items).map spanOf)).get? (Str.of m.1) = some (m.2.1, m.2.2) := by
  intro m hm
  have hnodup : (((e.fields items).map spanOf).map Span.name).Nodup := by
    simp only [fields, List.map_cons, List.map_nil, spanOf]
    decide
  have hmem : spanOf m ∈ (e.fields items).map spanOf := List.mem_map_of_mem hm
  have hget := get?_spansOf_mem hnodup hmem
  exact hget

-- What was written is read back, with the body as it was.
theorem decode_encoded (ht : Trimmed e.body.text.toList) (hl : ObjectText e.body.text.toList)
    (hv : e.version ≤ ENVELOPE_VERSION) (hc : e.created.Unsigned) (hu : e.updated.Unsigned)
    (hp : ∀ n ∈ e.integers, Printable n) : e.encode >>= decode = .ok e := by
  obtain ⟨items, hl⟩ := hl
  have hget := get?_fields e items
  simp only [fields, List.forall_mem_cons] at hget
  obtain ⟨hversion, htype, hcreated, hupdated, hhealth, hdata, -⟩ := hget
  have hall := hp
  simp only [integers, List.forall_mem_cons] at hp
  obtain ⟨-, hcs, hcns, hus, huns, -⟩ := hp
  rw [decode_written ht hl hall]
  simp only [decodeMembers, fields, hversion, htype, cursor_text hcreated hc hcs hcns, cursor_text hupdated hu hus huns, hhealth, hdata,
    integer, Option.map_some, fromSingular_value, String.ofList_toList, bind, Except.bind]
  rw [if_neg (not_lt.mpr hv)]

-- A resource with its own ideas of what an envelope holds.
def mimic (version : Int) : StoredEnvelope where
  version      := version
  resourceType := .device
  body         := ⟨"\x7b\"data\": \x7b\"v\": 1e3\x7d, \"data\":[\"\\u00e9é\x7d\"]\x7d"⟩
  created      := ⟨1439299836, 10⟩
  updated      := ⟨1439299836, 11⟩
  health       := -3

theorem decode_encoded_mimic : (mimic 1).encode >>= decode = .ok (mimic 1) :=
  decode_encoded ⟨by decide +kernel, by decide +kernel⟩ (by decide +kernel) (by decide) (by decide) (by decide)
    (by decide +kernel)

-- A member does not read what a later version wrote.
theorem decode_newer (ht : Trimmed e.body.text.toList) (hl : ObjectText e.body.text.toList)
    (hv : ENVELOPE_VERSION < e.version) (hp : ∀ n ∈ e.integers, Printable n) :
    e.encode >>= decode = .error (.newer e.version) := by
  obtain ⟨items, hl⟩ := hl
  have hversion := get?_fields e items _ List.mem_cons_self
  rw [decode_written ht hl hp]
  simp only [decodeMembers, hversion, integer, bind, Except.bind]
  rw [if_pos hv]

theorem decode_encoded_newer : ¬∀ e : StoredEnvelope, Trimmed e.body.text.toList → ObjectText e.body.text.toList →
    e.encode >>= decode = .ok e := by
  intro h
  have ht : Trimmed (mimic 2).body.text.toList := ⟨by decide +kernel, by decide +kernel⟩
  have hl : ObjectText (mimic 2).body.text.toList := by decide +kernel
  have hok := h (mimic 2) ht hl
  rw [decode_newer ht hl (by decide) (by decide +kernel)] at hok
  cases hok

end

end StoredEnvelope

end Registry
