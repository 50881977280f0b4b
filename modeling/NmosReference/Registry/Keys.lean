import NmosReference.Library.Utf8
import NmosReference.Query.Subscriptions
import NmosReference.Registry.EtcdView

-- The layout of the keys in etcd.
namespace Registry

def META : String := "meta"
def CONFIG : String := "config"
def IDS : String := "ids"
def NODES : String := "nodes"
def DEVICES : String := "devices"
def SELF : String := "self"

def ResourceType.fromPlural (name : String) : Option ResourceType :=
  ResourceType.all.find? fun t => Query.plural t = name

theorem ResourceType.fromPlural_eq {name : String} {t : ResourceType} :
    ResourceType.fromPlural name = some t ↔ name = Query.plural t := by
  have hinj : ∀ t t' : ResourceType, Query.plural t = Query.plural t' → t = t' := by decide
  unfold fromPlural
  constructor
  · intro h
    exact (of_decide_eq_true (List.find?_some (p := fun t => decide (Query.plural t = name)) h)).symm
  · rintro rfl
    cases t <;> rfl

-- The configured leading part of all keys, and every key derived from it.
structure Namespace where
  leading : String
  starts  : ['/'] <+: leading.toList
  ends    : ¬['/'] <:+ leading.toList

namespace Namespace

variable (ns : Namespace)

def path (segments : List String) : List Char :=
  ns.leading.toList ++ '/' :: ['/'].intercalate (segments.map String.toList)

def key (segments : List String) : List UInt8 :=
  Utf8.encode (ns.path segments)

def metaConfig : List UInt8 :=
  ns.key [META, CONFIG]

def idClaim (resourceId : String) : List UInt8 :=
  ns.key [IDS, resourceId]

def node (nodeId : String) : List UInt8 :=
  ns.key [NODES, nodeId, SELF]

def device (nodeId deviceId : String) : List UInt8 :=
  ns.key [NODES, nodeId, DEVICES, deviceId, SELF]

-- The key of a Source, Flow, Sender or Receiver.
def child (t : ResourceType) (nodeId deviceId resourceId : String) : Except String (List UInt8) :=
  if t = .node ∨ t = .device then .error s!"{t.value} has its own key function"
  else .ok <| ns.key [NODES, nodeId, DEVICES, deviceId, Query.plural t, resourceId]

end Namespace

section

variable [Python]

-- What the segments of a key identify, if they are those of a resource.
def parseParts (text : String) (parts : List String) : Except String (Option ParsedKey) :=
  let malformed := .error s!"malformed resource key: {Python.repr text}"
  match parts with
  | []            => malformed
  | first :: rest =>
    if first = META ∨ first = IDS then .ok none
    else if first ≠ NODES then .error s!"unrecognised key section {Python.repr first}: {Python.repr text}"
    else
      match rest with
      | [nodeId, self]                                      =>
        if self = SELF then .ok <| some ⟨.node, nodeId, nodeId, none⟩
        else malformed
      | [nodeId, devices, deviceId, self]                   =>
        if devices = DEVICES ∧ self = SELF then .ok <| some ⟨.device, deviceId, nodeId, deviceId⟩
        else malformed
      | [nodeId, devices, deviceId, collection, resourceId] =>
        if devices = DEVICES then
          match ResourceType.fromPlural collection with
          | some t => .ok <| some ⟨t, resourceId, nodeId, deviceId⟩
          | none   => .error s!"unknown collection {Python.repr collection} in key {Python.repr text}"
        else malformed
      | _                                                   => malformed

-- Bytes that are not text are replaced before they are looked at.
def Namespace.parse (ns : Namespace) (key : List UInt8) : Except String (Option ParsedKey) :=
  let text := Utf8.decode key
  if ns.leading.toList ++ ['/'] <+: text then
    parseParts (.ofList text) <| ((text.drop (ns.leading.toList.length + 1)).splitOn '/').map String.ofList
  else
    .error s!"key outside namespace {Python.repr ns.leading}: {Python.repr (.ofList text)}"

end

namespace Namespace

variable {ns : Namespace} {segments : List String} {key : List UInt8} {k : ParsedKey} {t : ResourceType}
variable {nodeId deviceId resourceId : String}

-- The key that is constructed of the parts of a parsed key.
inductive Builds (ns : Namespace) : ParsedKey → List UInt8 → Prop
  | node (nodeId : String) : Builds ns ⟨.node, nodeId, nodeId, none⟩ (ns.node nodeId)
  | device (nodeId deviceId : String) : Builds ns ⟨.device, deviceId, nodeId, deviceId⟩ (ns.device nodeId deviceId)
  | child {t : ResourceType} {nodeId deviceId resourceId : String} {key : List UInt8} :
    ns.child t nodeId deviceId resourceId = .ok key → Builds ns ⟨t, resourceId, nodeId, deviceId⟩ key

-- A segment that does not end one.
def Segment (s : String) : Prop :=
  '/' ∉ s.toList

-- The key is that of a child, but in the collection of the Nodes or of the Devices.
def Misplaced (ns : Namespace) (key : List UInt8) : Prop :=
  ∃ nodeId deviceId resourceId : String, ∃ t ∈ [ResourceType.node, .device],
    Segment nodeId ∧ Segment deviceId ∧ Segment resourceId ∧
      Utf8.decode key = ns.path [NODES, nodeId, DEVICES, deviceId, Query.plural t, resourceId]

@[simp] theorem segment_meta : Segment META := by unfold Segment; decide
@[simp] theorem segment_config : Segment CONFIG := by unfold Segment; decide
@[simp] theorem segment_ids : Segment IDS := by unfold Segment; decide
@[simp] theorem segment_nodes : Segment NODES := by unfold Segment; decide
@[simp] theorem segment_devices : Segment DEVICES := by unfold Segment; decide
@[simp] theorem segment_self : Segment SELF := by unfold Segment; decide

@[simp] theorem segment_plural : Segment (Query.plural t) := by
  unfold Segment
  cases t <;> decide

theorem not_mem_of_mem_splitOn {cs l : List Char} {c : Char} (h : l ∈ cs.splitOn c) : c ∉ l := by
  induction cs generalizing l with
  | nil          =>
    rw [List.splitOn_nil, List.mem_singleton] at h
    exact h ▸ List.not_mem_nil
  | cons x cs hi =>
    rw [List.splitOn_cons_eq_if_modifyHead] at h
    split at h
    case isTrue     =>
      rcases List.mem_cons.mp h with rfl | h
      · exact List.not_mem_nil
      · exact hi h
    case isFalse hx =>
      cases e : cs.splitOn c with
      | nil            => exact absurd e (List.splitOn_ne_nil _ _)
      | cons first rest =>
        rw [e, List.modifyHead_cons] at h
        rcases List.mem_cons.mp h with rfl | h
        · exact List.not_mem_cons_of_ne_of_not_mem (fun he => hx (by simp [he])) (hi (e ▸ List.mem_cons_self))
        · exact hi (e ▸ List.mem_cons_of_mem _ h)

theorem split_path (h : ∀ s ∈ segments, Segment s) (hne : segments ≠ []) :
    (((ns.path segments).drop (ns.leading.toList.length + 1)).splitOn '/').map String.ofList = segments := by
  have hdrop : (ns.path segments).drop (ns.leading.toList.length + 1) = ['/'].intercalate (segments.map String.toList) := by
    rw [path, ← List.drop_drop, List.drop_left, List.drop_one, List.tail_cons]
  have hseg : ∀ l ∈ segments.map String.toList, '/' ∉ l := fun l hl => by
    obtain ⟨s, hs, rfl⟩ := List.mem_map.mp hl
    exact h s hs
  rw [hdrop, List.splitOn_intercalate _ hseg (by simpa using hne), List.map_map]
  exact (List.map_congr_left fun s _ => String.ofList_toList).trans (List.map_id _)

theorem leading_path : ns.leading.toList ++ ['/'] <+: ns.path segments :=
  ⟨_, List.append_cons .. |>.symm⟩

-- Text in the namespace is the path of its segments, none of which has a separator.
theorem path_split {text : List Char} (h : ns.leading.toList ++ ['/'] <+: text) :
    ns.path (((text.drop (ns.leading.toList.length + 1)).splitOn '/').map String.ofList) = text := by
  obtain ⟨rest, rfl⟩ := h
  have hdrop : (ns.leading.toList ++ ['/'] ++ rest).drop (ns.leading.toList.length + 1) = rest :=
    List.drop_left' (by simp)
  rw [hdrop, path, List.map_map, show String.toList ∘ String.ofList = id from funext fun _ => String.toList_ofList,
    List.map_id, List.intercalate_splitOn, List.append_assoc]
  rfl

theorem path_injective {segments' : List String} (h : ∀ s ∈ segments, Segment s) (h' : ∀ s ∈ segments', Segment s)
    (hne : segments ≠ []) (hne' : segments' ≠ []) (e : ns.path segments = ns.path segments') : segments = segments' := by
  have hsplit : (((ns.path segments).drop (ns.leading.toList.length + 1)).splitOn '/').map String.ofList = segments :=
    split_path h hne
  rw [← hsplit, e, split_path h' hne']

variable [Python]

theorem parse_key (h : ∀ s ∈ segments, Segment s) (hne : segments ≠ []) :
    ns.parse (ns.key segments) = parseParts (.ofList (ns.path segments)) segments := by
  rw [parse, Namespace.key, Utf8.decode_encode]
  simp only [if_pos leading_path, split_path h hne]

theorem parseParts_some {text : String} : parseParts text segments = .ok (some k) →
    (∃ nodeId, segments = [NODES, nodeId, SELF] ∧ k = ⟨.node, nodeId, nodeId, none⟩) ∨
    (∃ nodeId deviceId, segments = [NODES, nodeId, DEVICES, deviceId, SELF] ∧ k = ⟨.device, deviceId, nodeId, deviceId⟩) ∨
    ∃ nodeId deviceId resourceId t, segments = [NODES, nodeId, DEVICES, deviceId, Query.plural t, resourceId] ∧
      k = ⟨t, resourceId, nodeId, deviceId⟩ := by
  intro h
  unfold parseParts at h
  split at h
  case h_1 => cases h
  case h_2 first rest =>
    split at h
    case isTrue => cases h
    case isFalse =>
      split at h
      case isTrue => cases h
      case isFalse hfirst =>
        obtain rfl := not_not.mp hfirst
        split at h
        case h_1 nodeId self =>
          split at h
          case isTrue hs  => cases h; exact .inl ⟨nodeId, by rw [hs], rfl⟩
          case isFalse    => cases h
        case h_2 nodeId devices deviceId self =>
          split at h
          case isTrue hs  => cases h; exact .inr (.inl ⟨nodeId, deviceId, by rw [hs.1, hs.2], rfl⟩)
          case isFalse    => cases h
        case h_3 nodeId devices deviceId collection resourceId =>
          split at h
          case isTrue hs  =>
            split at h
            case h_1 t ht =>
              cases h
              exact .inr (.inr ⟨nodeId, deviceId, resourceId, t, by rw [hs, ResourceType.fromPlural_eq.mp ht], rfl⟩)
            case h_2      => cases h
          case isFalse    => cases h
        case h_4 => cases h

-- What the constructors build is parsed as what it was built from.

theorem parse_node (h : Segment nodeId) : ns.parse (ns.node nodeId) = .ok (some ⟨.node, nodeId, nodeId, none⟩) := by
  rw [node, parse_key (by simp [h]) (by simp)]
  rfl

theorem parse_device (hn : Segment nodeId) (hd : Segment deviceId) :
    ns.parse (ns.device nodeId deviceId) = .ok (some ⟨.device, deviceId, nodeId, deviceId⟩) := by
  rw [device, parse_key (by simp [hn, hd]) (by simp)]
  rfl

theorem parseParts_child {text : String} :
    parseParts text [NODES, nodeId, DEVICES, deviceId, Query.plural t, resourceId] =
      .ok (some ⟨t, resourceId, nodeId, deviceId⟩) := by
  unfold parseParts
  simp only [ResourceType.fromPlural_eq.mpr rfl]
  rfl

theorem parse_child (hn : Segment nodeId) (hd : Segment deviceId) (hr : Segment resourceId)
    (h : ns.child t nodeId deviceId resourceId = .ok key) :
    ns.parse key = .ok (some ⟨t, resourceId, nodeId, deviceId⟩) := by
  unfold child at h
  split at h
  case isTrue => cases h
  case isFalse =>
    cases h
    rw [parse_key (by simp [hn, hd, hr]) (by simp), parseParts_child]

theorem parse_idClaim (h : Segment resourceId) : ns.parse (ns.idClaim resourceId) = .ok none := by
  rw [idClaim, parse_key (by simp [h]) (by simp)]
  rfl

theorem parse_metaConfig : ns.parse ns.metaConfig = .ok none := by
  rw [metaConfig, parse_key (by simp) (by simp)]
  rfl

-- What is accepted in a key is text, segment by segment.
theorem parse_some (h : ns.parse key = .ok (some k)) : ∃ segments, (∀ s ∈ segments, Segment s) ∧ segments ≠ [] ∧
    Utf8.decode key = ns.path segments ∧ parseParts (.ofList (Utf8.decode key)) segments = .ok (some k) := by
  unfold parse at h
  dsimp only at h
  split at h
  case isTrue hp =>
    refine ⟨_, fun s hs => ?_, by simp, (path_split hp).symm, h⟩
    obtain ⟨l, hl, rfl⟩ := List.mem_map.mp hs
    rw [Segment, String.toList_ofList]
    exact not_mem_of_mem_splitOn hl
  case isFalse => cases h

omit [Python] in
theorem Builds.key_eq (h : ns.Builds k key) : ∃ segments, key = ns.key segments := by
  cases h
  case node   => exact ⟨_, rfl⟩
  case device => exact ⟨_, rfl⟩
  case child h =>
    unfold Namespace.child at h
    split at h
    case isTrue  => cases h
    case isFalse => cases h; exact ⟨_, rfl⟩

omit [Python] in
theorem child_eq (ht : t ≠ .node ∧ t ≠ .device) : ns.child t nodeId deviceId resourceId =
    .ok (ns.key [NODES, nodeId, DEVICES, deviceId, Query.plural t, resourceId]) :=
  if_neg (not_or.mpr ht)

omit [Python] in
-- A misplaced key is none that is constructed.
theorem Builds.not_misplaced (h : ns.Builds ⟨t, resourceId, nodeId, deviceId⟩ key) (hn : Segment nodeId)
    (hd : Segment deviceId) (hr : Segment resourceId)
    (hk : Utf8.decode key = ns.path [NODES, nodeId, DEVICES, deviceId, Query.plural t, resourceId]) :
    t ≠ .node ∧ t ≠ .device := by
  cases h
  case device =>
    rw [Namespace.device, Namespace.key, Utf8.decode_encode] at hk
    have hseg := path_injective (by simp [hn, hd]) (by simp [hn, hd]) (by simp) (by simp) hk
    simp at hseg
  case child h =>
    unfold Namespace.child at h
    split at h
    case isTrue     => cases h
    case isFalse ht => exact not_or.mp ht

-- The keys of the constructors are parsed as what they were built from. A key that is parsed is the one that is built of
-- its parts, as long as it is text and no Node or Device is placed among the children of a Device.
theorem parse_layout (ns : Namespace) :
    (∀ nodeId, Segment nodeId → ns.parse (ns.node nodeId) = .ok (some ⟨.node, nodeId, nodeId, none⟩)) ∧
    (∀ nodeId deviceId, Segment nodeId → Segment deviceId →
      ns.parse (ns.device nodeId deviceId) = .ok (some ⟨.device, deviceId, nodeId, deviceId⟩)) ∧
    (∀ t nodeId deviceId resourceId key, Segment nodeId → Segment deviceId → Segment resourceId →
      ns.child t nodeId deviceId resourceId = .ok key →
      ns.parse key = .ok (some ⟨t, resourceId, nodeId, deviceId⟩)) ∧
    (∀ resourceId, Segment resourceId → ns.parse (ns.idClaim resourceId) = .ok none) ∧
    ns.parse ns.metaConfig = .ok none ∧
    ∀ key k, ns.parse key = .ok (some k) → (ns.Builds k key ↔ Utf8.Valid key ∧ ¬ns.Misplaced key) := by
  refine ⟨fun _ => parse_node, fun _ _ => parse_device, fun _ _ _ _ _ => parse_child, fun _ => parse_idClaim,
    parse_metaConfig, fun key k h => ?_⟩
  obtain ⟨segments, hseg, hne, htext, hparts⟩ := parse_some h
  constructor
  · intro hb
    obtain ⟨built, rfl⟩ := hb.key_eq
    refine ⟨Utf8.valid_encode, ?_⟩
    rintro ⟨nodeId, deviceId, resourceId, t, ht, hn, hd, hr, hk⟩
    obtain rfl := path_injective hseg (by simp [hn, hd, hr]) hne (by simp) (htext.symm.trans hk)
    cases parseParts_child.symm.trans hparts
    have hother := hb.not_misplaced hn hd hr hk
    simp [hother] at ht
  · rintro ⟨hvalid, hplaced⟩
    have hkey : ns.key segments = key := by
      rw [Namespace.key, ← htext]
      exact hvalid
    rcases parseParts_some hparts with ⟨nodeId, rfl, rfl⟩ | ⟨nodeId, deviceId, rfl, rfl⟩ | ⟨nodeId, deviceId, resourceId, t, rfl, rfl⟩
    · exact hkey ▸ .node nodeId
    · exact hkey ▸ .device nodeId deviceId
    · have ht : t ≠ .node ∧ t ≠ .device := by
        simp only [List.forall_mem_cons] at hseg
        refine not_or.mp fun ht => hplaced ⟨nodeId, deviceId, resourceId, t, by simpa using ht, hseg.2.1, hseg.2.2.2.1,
          hseg.2.2.2.2.2.1, htext⟩
      exact .child (hkey ▸ child_eq ht)

end Namespace

-- A Node among the children of a Device, and the key it should have.
namespace Stray

local instance python : Python := .ofTable []

def nmos : Namespace where
  leading := "/nmos"
  starts  := by decide
  ends    := by decide

def stray : List UInt8 :=
  nmos.key [NODES, "n1", DEVICES, "d1", "nodes", "n2"]

theorem segment_of_decide {s : String} (h : s.toList.contains '/' = false) : Namespace.Segment s := by
  simpa [Namespace.Segment] using h

theorem stray_parsed : nmos.parse stray = .ok (some ⟨.node, "n2", "n1", "d1"⟩) ∧
    ¬nmos.Builds ⟨.node, "n2", "n1", "d1"⟩ stray ∧
    nmos.parse (nmos.node "n2") = .ok (some ⟨.node, "n2", "n2", none⟩) ∧ stray ≠ nmos.node "n2" := by
  refine ⟨by decide +kernel, fun h => ?_, by decide +kernel, by decide +kernel⟩
  exact (h.not_misplaced (segment_of_decide (by decide)) (segment_of_decide (by decide)) (segment_of_decide (by decide))
    (Utf8.decode_encode _)).1 rfl

theorem parse_layout_sender : nmos.parse (nmos.key [NODES, "n1", DEVICES, "d1", "senders", "s1"]) =
      .ok (some ⟨.sender, "s1", "n1", "d1"⟩) ∧
    Utf8.Valid (nmos.key [NODES, "n1", DEVICES, "d1", "senders", "s1"]) ∧
    ¬nmos.Misplaced (nmos.key [NODES, "n1", DEVICES, "d1", "senders", "s1"]) := by
  have ⟨_, _, h, _, _, hb⟩ := nmos.parse_layout
  have hparse := h .sender "n1" "d1" "s1" _ (segment_of_decide (by decide)) (segment_of_decide (by decide))
    (segment_of_decide (by decide)) rfl
  exact ⟨hparse, (hb _ _ hparse).mp (.child rfl)⟩

end Stray
end Registry
