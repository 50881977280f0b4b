import NmosReference.Library.Handler
import Mathlib

-- The ranges of capabilities and constraints.
namespace Ccf

inductive RangeType
  | untyped | bool | string | int | float | rational
  deriving DecidableEq, Repr

-- What a range is made of. `none` is what `null` becomes.
inductive Val (F : Type)
  | none
  | bool (b : Bool)
  | int (n : Int)
  | float (f : F)
  -- A floating point number that is none. It equals no other object, and one that was made of text is found nowhere else.
  | nan (object : Option Nat)
  | rational (q : Rat)
  | str (s : String)
  deriving DecidableEq, Repr

namespace Val

variable {F : Type}

-- The integer that a value is, which `True` and `False` are.
def integer? : Val F → Option Int
  | bool b => some b.toInt
  | int n  => some n
  | _      => Option.none

-- `<`, between values of one type.
def lt [LT F] [DecidableLT F] (v w : Val F) : Bool :=
  match v.integer?, w.integer? with
  | some m, some n => m < n
  | _,      _      =>
    match v, w with
    | float f,    float g    => f < g
    | rational p, rational q => p < q
    | str s,      str t      => s < t
    | _,          _          => false

-- `<=`, between values of one type.
def le [LE F] [DecidableLE F] (v w : Val F) : Bool :=
  match v.integer?, w.integer? with
  | some m, some n => m ≤ n
  | _,      _      =>
    match v, w with
    | float f,    float g    => f ≤ g
    | rational p, rational q => p ≤ q
    | str s,      str t      => s ≤ t
    | _,          _          => false

def isBool : Val F → Bool
  | bool _ => true
  | _      => false

def isStr : Val F → Bool
  | str _ => true
  | _     => false

def isNan : Val F → Bool
  | nan _ => true
  | _     => false

def type : Val F → RangeType
  | none       => .untyped
  | bool _     => .bool
  | int _      => .int
  | float _    => .float
  | nan _      => .float
  | rational _ => .rational
  | str _      => .string

end Val

inductive RangeError (F : Type)
  | infiniteAndEmpty
  | notIntegral (v : Val F)
  | noRange (type : RangeType)
  | untypedEnumerated (enumerated : List (Val F))
  | outOfBounds (invalid : List (Val F))
  | typesMismatch (t₁ t₂ : RangeType)
  | valueMismatch (type : RangeType) (v : Val F)
  -- `int`, `float` or `Fraction` raised `ValueError`, or something else.
  | conversion (type : RangeType) (v : Val F)
  | foreign (type : RangeType) (v : Val F)
  deriving DecidableEq, Repr

-- Floating point numbers, NaN apart, and what the interpreter makes of values of another type.
class Interpreter (F : Type) extends LinearOrder F where
  nonempty : Nonempty F
  -- The number that it is, unless it is infinite.
  number : F → Option Rat
  -- `next(iter(set(values)))`
  first : List (Val F) → Option (Val F)
  -- The order in which a set of names is gone through.
  order : List String → List String
  -- `float(v).is_integer()`
  isInteger : Val F → Except (RangeError F) Bool
  int : Val F → Except (RangeError F) Int
  float : Val F → Except (RangeError F) (Val F)
  fraction : Val F → Except (RangeError F) Rat
  bool : Val F → Bool
  str : Val F → String
  number_inj {f g : F} {q : Rat} : number f = some q → number g = some q → f = g
  order_perm (names : List String) : (order names).Perm names
  int_int (n : Int) : int (.int n) = .ok n
  isInteger_int {v : Val F} {n : Int} : isInteger v = .ok true → int v = .ok n → isInteger (.int n) = .ok true
  float_float {v : Val F} : v.type = .float → float v = .ok v
  type_float {v w : Val F} : float v = .ok w → w.type = .float
  fraction_rational (q : Rat) : fraction (.rational q) = .ok q
  bool_bool (b : Bool) : bool (.bool b) = b
  str_str (s : String) : str (.str s) = s

-- Floating point numbers without rounding, where numbers are not written as text.
@[reducible] def Interpreter.exact : Interpreter Rat where
  toLinearOrder := inferInstance
  nonempty      := ⟨0⟩
  number        := some
  first         := List.head?
  order         := id
  isInteger
    | .bool _               => .ok true
    | .int _                => .ok true
    | .float q
    | .rational q           => .ok (q.den = 1)
    | .nan _                => .ok false
    | v                     => .error <| if v = .none then .foreign .float v else .conversion .float v
  int
    | .bool b               => .ok b.toInt
    | .int n                => .ok n
    | .float q
    | .rational q           => .ok (q.num.tdiv q.den)
    | v                     => .error <| if v = .none then .foreign .int v else .conversion .int v
  float
    | .bool b               => .ok <| .float b.toInt
    | .int n                => .ok <| .float n
    | .float q
    | .rational q           => .ok <| .float q
    | .nan object           => .ok <| .nan object
    | v                     => .error <| if v = .none then .foreign .float v else .conversion .float v
  fraction
    | .bool b               => .ok b.toInt
    | .int n                => .ok n
    | .float q
    | .rational q           => .ok q
    | v                     => .error <| if v = .none then .foreign .rational v else .conversion .rational v
  bool
    | .none                 => false
    | .bool b               => b
    | .int n                => n ≠ 0
    | .float q
    | .rational q           => q ≠ 0
    | .nan _                => true
    | .str s                => s ≠ ""
  str
    | .none                 => "None"
    | .bool b               => if b then "True" else "False"
    | .int n                => toString n
    | .float q
    | .rational q           => toString q
    | .nan _                => "nan"
    | .str s                => s
  number_inj h h'     := Option.some.inj (h.trans h'.symm)
  order_perm _        := .refl _
  int_int _           := rfl
  isInteger_int _ _   := rfl
  float_float {v} h   := by cases v <;> first | rfl | cases h
  type_float {v w} h  := by cases v <;> cases h <;> rfl
  fraction_rational _ := rfl
  bool_bool _         := rfl
  str_str _           := rfl

namespace Val

variable {F : Type} [Interpreter F]

def number : Val F → Option Rat
  | bool b     => some b.toInt
  | int n      => some n
  | float f    => Interpreter.number f
  | rational q => some q
  | _          => Option.none

-- The one is the other, or `==`. A number equals one of another type.
def same (v w : Val F) : Bool :=
  match v.number, w.number with
  | some p,      some q      => p = q
  | Option.none, Option.none => v = w ∧ v ≠ nan Option.none
  | _,           _           => false

-- `set(values)`, which holds the first of what is equal.
def distinct : List (Val F) → List (Val F)
  | []      => []
  | v :: vs => v :: (distinct vs).filter fun w => !v.same w

end Val

structure RangeValue (F : Type) where
  infinite   : Bool
  empty      : Bool
  type       : RangeType
  min        : Option (Val F)
  max        : Option (Val F)
  -- As they were given, and as they are held.
  values     : Option (List (Val F))
  enumerated : List (Val F)
  deriving DecidableEq, Repr

-- The arguments of the constructor, with their defaults.
structure RangeArgs (F : Type) where
  values   : Option (List (Val F)) := none
  infinite : Bool := false
  empty    : Bool := false
  type     : RangeType := .untyped
  min      : Option (Val F) := none
  max      : Option (Val F) := none

namespace RangeValue

variable {F : Type} [Interpreter F]

def isInfinite (r : RangeValue F) : Bool :=
  r.infinite

def isEmpty (r : RangeValue F) : Bool :=
  r.empty

def hasEnumException (r : RangeValue F) : Bool :=
  r.values = some []

section Constructor

-- `min` or `max` is favoured over the enumeration.
def inferType (args : RangeArgs F) : RangeType :=
  if args.type ≠ .untyped then args.type
  else
    match args.min.or args.max, Val.distinct (args.values.getD []) with
    | some probe, _      => probe.type
    | none,       []     => .untyped
    | none,       values => ((Interpreter.first values).map Val.type).getD .untyped

-- `v` as a value of the type.
def coerce (type : RangeType) (v : Val F) : Except (RangeError F) (Val F) :=
  match type with
  | .untyped  => .ok v
  | .bool     => .ok <| .bool <| Interpreter.bool v
  | .string   => .ok <| .str <| Interpreter.str v
  | .int      => Except.map .int (Interpreter.int v)
  | .float    => Interpreter.float v
  | .rational => Except.map .rational (Interpreter.fraction v)

def coerceAll (type : RangeType) : List (Val F) → Except (RangeError F) (List (Val F))
  | []      => .ok []
  | v :: vs => do
    let w ← coerce type v
    let ws ← coerceAll type vs
    .ok (w :: ws)

-- The enumeration, as it is held.
def coerceSet (type : RangeType) (values : List (Val F)) : Except (RangeError F) (List (Val F)) :=
  Except.map Val.distinct <| coerceAll type <| Val.distinct values

-- A bound of integers is integral.
def checkBound (type : RangeType) (bound : Option (Val F)) : Except (RangeError F) Unit :=
  match bound with
  | none   => .ok ⟨⟩
  | some v =>
    match type with
    | .int    => do if ← Interpreter.isInteger v then .ok ⟨⟩ else .error <| .notIntegral v
    | .string
    | .bool   => .error <| .noRange type
    | _       => .ok ⟨⟩

def coerceBound (type : RangeType) (bound : Option (Val F)) : Except (RangeError F) (Option (Val F)) :=
  match bound with
  | none   => .ok none
  | some v => Except.map some (coerce type v)

def cleared (infinite empty : Bool) (type : RangeType) : RangeValue F :=
  { infinite, empty, type, min := none, max := none, values := none, enumerated := [] }

-- The bounds let a number pass.
def bounded (min max : Option (Val F)) (v : Val F) : Bool :=
  v.isBool || v.isStr || (min.all fun m => !v.lt m) && max.all fun m => !m.lt v

-- What is enumerated has to compare with them.
def within (min max : Option (Val F)) (v : Val F) : Bool :=
  v.isBool || v.isStr || (min.all fun m => m.le v) && max.all fun m => v.le m

def crossed (min max : Option (Val F)) : Bool :=
  match min, max with
  | some min, some max => max.lt min
  | _,        _        => false

-- `__post_init__`
def postInit (r : RangeValue F) : Except (RangeError F) (RangeValue F) :=
  if r.infinite then .ok <| cleared true false r.type
  else if r.empty then .ok <| cleared false true r.type
  else if crossed r.min r.max then .ok <| cleared false true r.type
  else check r
where
  check (r : RangeValue F) : Except (RangeError F) (RangeValue F) :=
    let invalid := r.enumerated.filter fun v => !within r.min r.max v
    if invalid = [] then .ok r else .error <| .outOfBounds invalid

def construct (args : RangeArgs F) : Except (RangeError F) (RangeValue F) := do
  if args.infinite ∧ args.empty then .error .infiniteAndEmpty
  else
    let infinite := args.infinite || !args.empty && args.values.isNone && args.min.isNone && args.max.isNone
    let type := inferType args
    checkBound type args.min
    checkBound type args.max
    let min ← coerceBound type args.min
    let max ← coerceBound type args.max
    let enumerated ← coerceSet type (args.values.getD [])
    if type = .untyped ∧ enumerated ≠ [] then .error <| .untypedEnumerated enumerated
    else postInit { infinite, empty := args.empty, type, min, max, values := args.values, enumerated }

-- `None` is no bound.
def present (bound : Option (Val F)) : Option (Val F) :=
  bound.filter (·.type ≠ .untyped)

-- `__init__`
def make (args : RangeArgs F) : Except (RangeError F) (RangeValue F) :=
  construct { args with min := present args.min, max := present args.max }

-- The arguments that make the range again.
def args (r : RangeValue F) (type : RangeType) : RangeArgs F :=
  { infinite := r.infinite, empty := r.empty, type, min := r.min, max := r.max, values := r.values }

end Constructor

def verifySameType (r₁ r₂ : RangeValue F) : Except (RangeError F) Unit :=
  if r₁.type = .untyped ∨ r₂.type = .untyped then .ok ⟨⟩
  else if r₁.type ≠ r₂.type then .error <| .typesMismatch r₁.type r₂.type
  else .ok ⟨⟩

-- `isinstance` takes booleans for integers.
def admits (type : RangeType) (v : Val F) : Bool :=
  match type with
  | .untyped => true
  | .int     => v.type = .int ∨ v.type = .bool
  | type     => v.type = type

def verifyValueType (r : RangeValue F) (v : Val F) : Except (RangeError F) Unit :=
  if admits r.type v then .ok ⟨⟩ else .error <| .valueMismatch r.type v

-- `v in self.enumerated`
def enumerates (r : RangeValue F) (v : Val F) : Bool :=
  r.enumerated.any v.same

def includesValue (r : RangeValue F) (v : Val F) (finite : Bool := false) : Except (RangeError F) Bool := do
  verifyValueType r v
  .ok <|
    if finite && r.infinite then false
    else if r.empty then false
    else if r.infinite then true
    else bounded r.min r.max v && (r.enumerates v || r.values.isNone)

section Inclusion

variable (self other : RangeValue F)

-- A bound of the other range is within those of this one.
def includesBound (bound : Val F) : Bool :=
  (self.min.all fun m => !bound.lt m) && self.max.all fun m => !m.lt bound

-- An enumeration has all values between bounds only if these are integers, and there are two bounds.
def enumerationMay (opposite : Option (Val F)) : Bool :=
  if other.type = .int then !(self.values.isSome && opposite.isNone) else self.values.isNone

-- `range(int(min), int(max + 1))`
def integersBetween (min max : Option (Val F)) : List (Val F) :=
  match min.bind Val.integer?, max.bind Val.integer? with
  | some m, some n => (List.range (n + 1 - m).toNat).map fun i : Nat => .int (m + i)
  | _,      _      => []

def includesFinite : Bool :=
  (other.min.all fun m => self.includesBound m && enumerationMay self other other.max) &&
    (other.max.all fun m => self.includesBound m && enumerationMay self other other.min) &&
    (!(other.type = .int && self.values.isSome) || (integersBetween other.min other.max).all self.enumerates) &&
    (other.values.isNone || other.enumerated.all fun v =>
      bounded self.min self.max v && (self.enumerates v || self.values.isNone))

-- `other <= self`: every value of `other` is included in `self`.
def includesRange (finite : Bool := false) : Except (RangeError F) Bool := do
  verifySameType self other
  .ok <|
    if finite && self.infinite then false
    else if other.empty then true
    else if self.empty then false
    else if self.infinite then true
    else if other.infinite then false
    else includesFinite self other

end Inclusion

section Intersection

-- The larger of two minima and the smaller of two maxima.
def joinMin (m₁ m₂ : Option (Val F)) : Option (Val F) :=
  match m₁, m₂ with
  | some m₁, some m₂ => if m₁.lt m₂ then some m₂ else some m₁
  | some m₁, none    => some m₁
  | none,    m₂      => m₂

def joinMax (m₁ m₂ : Option (Val F)) : Option (Val F) :=
  match m₁, m₂ with
  | some m₁, some m₂ => if m₂.lt m₁ then some m₂ else some m₁
  | some m₁, none    => some m₁
  | none,    m₂      => m₂

-- What is left of an enumeration between bounds. It needs no bounds of its own.
def discrete (type : RangeType) (min max : Option (Val F)) (enumerated : List (Val F)) :
    Except (RangeError F) (RangeValue F) :=
  let common := enumerated.filter (within min max)
  if common = [] then make { empty := true, type }
  else make { type, values := some common }

def newType (self other : RangeValue F) : RangeType :=
  if self.type ≠ .untyped then self.type else other.type

def intersection (self other : RangeValue F) : Except (RangeError F) (RangeValue F) := do
  verifySameType self other
  let type := newType self other
  if self.empty ∨ other.empty then make { empty := true, type }
  else if self.infinite ∧ other.infinite then make { infinite := true, type }
  else if self.infinite then make (other.args type)
  else if other.infinite then make (self.args type)
  else
    let min := joinMin self.min other.min
    let max := joinMax self.max other.max
    if crossed min max then make { empty := true, type }
    else
      match self.values, other.values with
      | none,   none   => make { type, min, max }
      | none,   some _ => discrete type min max other.enumerated
      | some _, none   => discrete type min max self.enumerated
      | some _, some _ => discrete type min max (self.enumerated.filter other.enumerates)

end Intersection

end RangeValue

end Ccf
