import NmosReference.Library.Text
import Mathlib

-- What the registry takes from its runtime: `json.loads`, the accesses it makes to the result, and
-- `repr` for the texts of its errors. Any functions will do.
class Python where
  Json   : Type
  loads  : String → Json
  -- `raw.get(key)`, when that is a string.
  getStr : Json → String → Option String
  -- `==` on parsed values, which identifies `1`, `1.0` and `true`.
  jsonEq : Json → Json → Bool
  repr   : String → String

-- A runtime that knows the parsed form of a few texts: objects with strings for members.
@[reducible] def Python.ofTable (table : List (String × List (String × String))) : Python where
  Json           := List (String × String)
  loads text     := (table.lookup text).getD []
  getStr j key   := j.lookup key
  jsonEq j₁ j₂   := j₁ == j₂
  repr text      := "'" ++ text ++ "'"

namespace Registry

-- Declaration order is the registration dependency order, which the snapshot walk follows.
inductive ResourceType
  | node | device | source | flow | sender | receiver
  deriving DecidableEq, Repr

namespace ResourceType

def all : List ResourceType :=
  [node, device, source, flow, sender, receiver]

theorem mem_all (t : ResourceType) : t ∈ all := by
  cases t <;> simp [all]

instance : Fintype ResourceType where
  elems    := ⟨all, by decide⟩
  complete := mem_all

def value : ResourceType → String
  | node     => "node"
  | device   => "device"
  | source   => "source"
  | flow     => "flow"
  | sender   => "sender"
  | receiver => "receiver"

theorem value_injective : Function.Injective value := by
  intro t₁ t₂
  cases t₁ <;> cases t₂ <;> simp [value]

def parentKey : ResourceType → Option String
  | node   => none
  | device => "node_id"
  | _      => "device_id"

def parentType : ResourceType → Option ResourceType
  | node   => none
  | device => node
  | _      => device

-- How deep below a Node a resource of this type sits.
def depth : ResourceType → Nat
  | node   => 0
  | device => 1
  | _      => 2

theorem depth_parentType {t p : ResourceType} (h : t.parentType = some p) :
    t.depth = p.depth + 1 := by
  cases t <;> cases h <;> rfl

theorem parentKey_eq_none {t : ResourceType} : t.parentKey = none ↔ t.parentType = none := by
  cases t <;> simp [parentKey, parentType]

theorem depth_le {t : ResourceType} : t.depth ≤ 2 := by
  cases t <;> simp [depth]

end ResourceType

-- A TAI instant used as a paging cursor, ordered by seconds and then nanoseconds.
@[ext]
structure TaiCursor where
  seconds     : Int
  nanoseconds : Int
  deriving DecidableEq, Repr, Inhabited

namespace TaiCursor

variable {c c₁ c₂ : TaiCursor}

def key (c : TaiCursor) : Int ×ₗ Int :=
  toLex (c.seconds, c.nanoseconds)

instance : LinearOrder TaiCursor :=
  .lift' key fun _ _ h => by simpa [key, TaiCursor.ext_iff] using h

theorem lt_def : c₁ < c₂ ↔
    c₁.seconds < c₂.seconds ∨ c₁.seconds = c₂.seconds ∧ c₁.nanoseconds < c₂.nanoseconds :=
  Prod.Lex.toLex_lt_toLex

def min : TaiCursor :=
  { seconds := 0, nanoseconds := 0 }

def next (c : TaiCursor) : TaiCursor :=
  if c.nanoseconds ≥ 999999999 then
    { seconds := c.seconds + 1, nanoseconds := 0 }
  else
    { c with nanoseconds := c.nanoseconds + 1 }

-- `<seconds>:<nanoseconds>`, both halves unsigned. A digit that is not a decimal one (a superscript
-- passes `isdigit` but not `int`) gives no cursor either.
def parse (text : String) : Option TaiCursor :=
  match text.toList.span (· ≠ ':') with
  | (head, _ :: tail) => do
    let seconds ← Text.decimal head
    let nanoseconds ← Text.decimal tail
    some { seconds, nanoseconds }
  | (_, [])           => none

example : parse "1439299836:10" = some ⟨1439299836, 10⟩ := by decide

-- The cursors that survive being written as text: `parse` accepts no sign.
def Unsigned (c : TaiCursor) : Prop :=
  0 ≤ c.seconds ∧ 0 ≤ c.nanoseconds

instance : Decidable c.Unsigned :=
  inferInstanceAs <| Decidable (_ ∧ _)

def text (c : TaiCursor) : String :=
  s!"{c.seconds}:{c.nanoseconds}"

theorem span_text (h : c.Unsigned) : ∃ s ns : Nat, c = ⟨s, ns⟩ ∧
    c.text.toList.span (· ≠ ':') = (Nat.toDigits 10 s, ':' :: Nat.toDigits 10 ns) := by
  obtain ⟨s, ns⟩ := c
  obtain ⟨s, rfl⟩ := Int.eq_ofNat_of_zero_le h.1
  obtain ⟨ns, rfl⟩ := Int.eq_ofNat_of_zero_le h.2
  have e : (text ⟨s, ns⟩).toList = Nat.toDigits 10 s ++ ':' :: Nat.toDigits 10 ns := by
    simp [text, toString, Int.repr, Nat.toList_repr]
  have hs : ∀ x ∈ Nat.toDigits 10 s, decide (x ≠ ':') = true := fun x hx => by
    simpa using Text.toDigits_ne (by decide) hx
  refine ⟨s, ns, rfl, ?_⟩
  rw [e, List.span_eq_takeWhile_dropWhile, List.takeWhile_append_of_pos hs,
    List.dropWhile_append_of_pos hs]
  simp

theorem parse_text (h : c.Unsigned) : parse c.text = some c := by
  obtain ⟨s, ns, e, hspan⟩ := span_text h
  simp only [parse, hspan, Text.decimal_toDigits]
  rw [e]
  rfl

end TaiCursor

-- A resource body: the source text, which is authoritative, and its parsed form on demand.
structure Body where
  text : String
  deriving DecidableEq, Repr

def Body.data [Python] (body : Body) : Python.Json :=
  Python.loads body.text

-- One resource held by the registry.
structure RegisteredResource where
  resourceType : ResourceType
  id           : String
  body         : Body
  -- The resource's own `version` attribute, controlled by the Node.
  version      : String
  created      : TaiCursor
  updated      : TaiCursor
  parentId     : Option String
  -- False once deleted or collected, until forgotten.
  extant       : Bool := true
  -- Liveness timestamp in TAI seconds.
  health       : Int := 0
  deriving DecidableEq, Repr

namespace RegisteredResource

def raw [Python] (r : RegisteredResource) : Python.Json :=
  r.body.data

def versionCursor (r : RegisteredResource) : Option TaiCursor :=
  TaiCursor.parse r.version

end RegisteredResource

inductive EventKind
  | added | removed | modified | sync
  deriving DecidableEq, Repr

-- A single change to a single resource.
structure ResourceEvent where
  kind         : EventKind
  resourceType : ResourceType
  resourceId   : String
  pre          : Option Body
  post         : Option Body
  deriving DecidableEq, Repr

namespace ResourceEvent

def added (r : RegisteredResource) : ResourceEvent :=
  ⟨.added, r.resourceType, r.id, none, r.body⟩

def removed (r : RegisteredResource) : ResourceEvent :=
  ⟨.removed, r.resourceType, r.id, r.body, none⟩

def modified (pre : Body) (r : RegisteredResource) : ResourceEvent :=
  ⟨.modified, r.resourceType, r.id, pre, r.body⟩

def sync (r : RegisteredResource) : ResourceEvent :=
  ⟨.sync, r.resourceType, r.id, r.body, r.body⟩

end ResourceEvent

-- The conditions under which a registration is refused.
inductive RegistrationError
  | schema | idTypeConflict | versionRegression | parentChanged | parentMissing
  deriving DecidableEq, Repr

-- A registration that has passed validation but has not been applied.
structure PreparedRegistration where
  resourceType : ResourceType
  resourceId   : String
  version      : String
  parentId     : Option String
  -- Adds a resource rather than updating one.
  creates      : Bool
  -- The id exists but is non-extant.
  reviving     : Bool
  deriving DecidableEq, Repr

structure RegistrationResult where
  created : Bool
  events  : List ResourceEvent := []
  error   : Option RegistrationError := none
  detail  : String := ""
  deriving DecidableEq, Repr

namespace RegistrationResult

def ok (r : RegistrationResult) : Bool :=
  r.error.isNone

def failure (error : RegistrationError) (detail : String) : RegistrationResult :=
  { created := false, error, detail }

end RegistrationResult
end Registry
