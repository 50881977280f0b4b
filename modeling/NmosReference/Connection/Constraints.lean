import NmosReference.Library.Json
import Mathlib

-- The constraints of a transport parameter, and the two checkers of them.
namespace Constraints

-- A float that is a rational number. Zero has two signs.
inductive Rational
  | positive (q : Rat)
  | negativeZero
deriving DecidableEq

def Rational.value : Rational → Rat
  | positive q   => q
  | negativeZero => 0

-- What a transport parameter holds when it is checked, and what an enumeration lists.
inductive Scalar
  | null
  | bool (b : Bool)
  | int (i : Int)
  | float (x : Rational)
  | str (s : String)
deriving DecidableEq

-- What `float` reads from a text, and what bounds are.
inductive Number
  | finite (q : Rat)
  | infinite (negative : Bool)
  | nan
deriving DecidableEq

namespace Number

def lt : Number → Number → Bool
  | finite q,       finite r            => q < r
  | finite _,       infinite negative   => !negative
  | infinite minus, finite _            => minus
  | infinite minus, infinite negative   => minus && !negative
  | _,              _                   => false

def le : Number → Number → Bool
  | finite q,       finite r            => q ≤ r
  | finite _,       infinite negative   => !negative
  | infinite minus, finite _            => minus
  | infinite minus, infinite negative   => minus || !negative
  | _,              _                   => false

end Number

inductive PyError
  | attributeError (typeName name : String)
  | valueError
  | overflowError
  | reError
deriving DecidableEq

-- What is relied on of the language: the text of a float, the number in a text, and the regular expressions, which
-- may be malformed.
class Texts where
  floatStr    : Rational → String
  readFloat   : String → Option Number
  reMatch     : (pattern text : String) → Except PyError Bool
  reFullmatch : (pattern text : String) → Except PyError Bool
  -- A finite float is written with these characters only.
  floatStr_chars : ∀ x, (floatStr x).toList.all ("+-.0123456789e".toList.contains ·)

namespace Scalar

-- The value of a number, with the truth values counted among them.
def number? : Scalar → Option Rat
  | bool b  => some b.toNat
  | int i   => some i
  | float x => some x.value
  | _       => none

-- `==`, which identifies `1`, `1.0` and `True`.
def pyEq (a b : Scalar) : Bool :=
  match a.number?, b.number? with
  | some q, some r => q = r
  | _,      _      => a = b

-- An integer may be too long to be written.
def Writable : Scalar → Prop
  | int i => Json.Printable i
  | _     => True

instance {a : Scalar} : Decidable a.Writable :=
  match a with
  | int i                             => inferInstanceAs (Decidable (Json.Printable i))
  | null | bool _ | float _ | str _ => .isTrue trivial

variable [Texts]

-- `str(value)`.
def text (a : Scalar) : Except PyError String :=
  match a with
  | null       => .ok "None"
  | bool true  => .ok "True"
  | bool false => .ok "False"
  | int i      => if Json.Printable i then .ok (toString i) else .error .valueError
  | float x    => .ok (Texts.floatStr x)
  | str s      => .ok s

end Scalar

structure Constraint where
  minimum : Option Number
  maximum : Option Number
  enum    : Option (List Scalar)
  pattern : Option String

-- `int` of a float, which rounds towards zero.
def truncated : Number → Except PyError Int
  | .finite q   => .ok (if 0 ≤ q then ⌊q⌋ else ⌈q⌉)
  | .infinite _ => .error .overflowError
  | .nan        => .error .valueError

inductive InvalidData
  | nullNotInEnum
  | notInEnum (actual : Scalar)
  | below (actual : Scalar) (minimum : Number)
  | above (actual : Scalar) (maximum : Number)
  | noMatch (actual : String)
deriving DecidableEq

inductive Raised
  | invalidData (error : InvalidData)
  | python (error : PyError)
deriving DecidableEq

-- The message has the value in it.
def reject (actual : Scalar) (error : InvalidData) : Except Raised Unit :=
  .error (if actual.Writable then .invalidData error else .python .valueError)

def checkEnum (cv : Constraint) (actual : Scalar) (error : InvalidData) : Except Raised Unit :=
  match cv.enum with
  | none      => .ok ()
  | some enum => if enum.any (actual.pyEq ·) then .ok () else reject actual error

-- A bound that is given, by how a number lies beyond it.
def checkBound (actual : Scalar) (beyond : Number → Except PyError Bool) (error : Number → InvalidData) :
    Option Number → Except Raised Unit
  | none       => .ok ()
  | some bound =>
    match beyond bound with
    | .error error => .error (.python error)
    | .ok true     => reject actual (error bound)
    | .ok false    => .ok ()

def checkNumber (cv : Constraint) (actual : Scalar) (below above : Number → Except PyError Bool) :
    Except Raised Unit := do
  checkBound actual below (.below actual) cv.minimum
  checkBound actual above (.above actual) cv.maximum
  checkEnum cv actual (.notInEnum actual)

section Checkers

variable [Texts]

def checkMatch (cv : Constraint) (s : String) : Except Raised Unit :=
  match cv.pattern with
  | none         => .ok ()
  | some pattern =>
    match Texts.reMatch pattern s with
    | .error error => .error (.python error)
    | .ok false    => reject (.str s) (.noMatch s)
    | .ok true     => .ok ()

def checkConstraint (constraint : Option Constraint) (actual : Scalar) : Except Raised Unit :=
  match constraint with
  | none    => .ok ()
  | some cv =>
    if cv.minimum = none ∧ cv.maximum = none ∧ cv.enum = none ∧ cv.pattern = none then
      .ok ()
    else if actual = .str "auto" then
      .ok ()
    else
      match actual with
      | .null    => checkEnum cv actual .nullNotInEnum
      | .bool _  => checkEnum cv actual (.notInEnum actual)
      | .int i   =>
        checkNumber cv actual (fun m => (truncated m).map (i < ·)) (fun m => (truncated m).map (· < i))
      | .float x =>
        checkNumber cv actual (fun m => .ok ((Number.finite x.value).lt m)) (fun m => .ok (m.lt (.finite x.value)))
      | .str s   => do
        checkMatch cv s
        checkEnum cv actual (.notInEnum actual)

-- What the other checker answers.
inductive Violation
  | nullNotAllowed
  | notInEnum (value : String) (enum : List String)
  | below (num : Number) (minimum : Number)
  | above (num : Number) (maximum : Number)
  | noMatch (value pattern : String)
deriving DecidableEq

-- Looks for `_value` in a wrapper. The slots of the wrappers are `_defined` and `_inner`.
def underscoreValue {α : Type} (typeName : String) (_wrapped : α) : Except PyError α :=
  .error (.attributeError typeName "_value")

-- The value itself, or what `float` makes of it. Nothing if it makes nothing of it.
def toNumber : Scalar → Option Number
  | .str s => Texts.readFloat s
  | value  => value.number?.map .finite

-- Whether the text is that of an element. There is a second comparison of the truth values.
def found (val : Scalar) (text : String) : List Scalar → Except PyError Bool
  | []        => .ok false
  | a :: enum =>
    if a = .null then
      found val text enum
    else do
      if text = (← a.text) ∨ (a = val ∧ (a = .bool true ∨ a = .bool false)) then
        return true
      found val text enum

def checkBounds (cv : Constraint) (val : Scalar) : Except PyError (Option Violation) :=
  if cv.minimum = none ∧ cv.maximum = none then
    .ok none
  else
    match toNumber val with
    | none     => .ok none
    | some num => do
      if let some minimum := cv.minimum then
        let minimum ← underscoreValue "NFloat" minimum
        if num.lt minimum then
          return some (.below num minimum)
      if let some maximum := cv.maximum then
        let maximum ← underscoreValue "NFloat" maximum
        if maximum.lt num then
          return some (.above num maximum)
      return none

def checkPattern (cv : Constraint) (text : String) : Except PyError (Option Violation) :=
  match cv.pattern with
  | none         => .ok none
  | some pattern => do
    let pattern ← underscoreValue "NString" pattern
    return if ← Texts.reFullmatch pattern text then none else some (.noMatch text pattern)

-- What is checked behind the enumeration.
def checkRest (cv : Constraint) (val : Scalar) (text : String) : Except PyError (Option Violation) := do
  match ← checkBounds cv val with
  | some violation => return some violation
  | none           => checkPattern cv text

-- `_check_constraint`. An enumeration without elements counts as none.
def checkConstraintValue (cv : Constraint) (val : Scalar) : Except PyError (Option Violation) :=
  let enum := cv.enum.getD []
  if cv.minimum = none ∧ cv.maximum = none ∧ enum = [] ∧ cv.pattern = none then
    .ok none
  else if val = .null then
    .ok (if enum ≠ [] ∧ .null ∉ enum then some .nullNotAllowed else none)
  else do
    let text ← val.text
    if text = "auto" then
      return none
    if enum ≠ [] ∧ !(← found val text enum) then
      return some (.notInEnum text (← enum.mapM Scalar.text))
    checkRest cv val text

end Checkers

end Constraints
