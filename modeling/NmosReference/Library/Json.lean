import NmosReference.Library.Dict
import Mathlib

-- Reading JSON, as `json.decoder` does.
namespace Json

-- Code points. A string may hold surrogates, which characters are not.
abbrev Str :=
  List Nat

def Str.of (text : String) : Str :=
  text.toList.map Char.toNat

-- A number with a fraction or an exponent stands for what `float` makes of it.
inductive Value
  | null
  | bool (b : Bool)
  | int (n : Int)
  | float (numeral : List Char)
  | str (s : Str)
  | array (values : List Value)
  | object (items : List (Str × Value))

-- What is read off the front of a text, and what is left of it.
abbrev Reader (α : Type) :=
  List Char → Option (α × List Char)

def isWs (c : Char) : Bool :=
  c = ' ' || c = '\t' || c = '\n' || c = '\r'

def skipWs (cs : List Char) : List Char :=
  cs.dropWhile isWs

section Strings

def hexDigit (c : Char) : Option Nat :=
  if '0' ≤ c ∧ c ≤ '9' then some (c.toNat - '0'.toNat)
  else if 'a' ≤ c ∧ c ≤ 'f' then some (c.toNat - 'a'.toNat + 10)
  else if 'A' ≤ c ∧ c ≤ 'F' then some (c.toNat - 'A'.toNat + 10)
  else none

def hex4 (a b c d : Char) : Option Nat := do
  some <| 4096 * (← hexDigit a) + 256 * (← hexDigit b) + 16 * (← hexDigit c) + (← hexDigit d)

def unescape (c : Char) : Option Nat :=
  match c with
  | '"' | '\\' | '/' => some c.toNat
  | 'b'              => some 0x08
  | 'f'              => some 0x0c
  | 'n'              => some 0x0a
  | 'r'              => some 0x0d
  | 't'              => some 0x09
  | _                => none

-- The units of a string up to its closing quote. Control characters must be escaped.
def scanUnits : List Char → Option (Str × List Char)
  | []      => none
  | c :: cs =>
    if c = '"' then some ([], cs)
    else if c = '\\' then
      match cs with
      | []      => none
      | e :: cs =>
        if e = 'u' then
          match cs with
          | a :: b :: c :: d :: cs =>
            match hex4 a b c d, scanUnits cs with
            | some u, some (us, rest) => some (u :: us, rest)
            | _,      _               => none
          | _                      => none
        else
          match unescape e, scanUnits cs with
          | some u, some (us, rest) => some (u :: us, rest)
          | _,      _               => none
    else if c.toNat < 0x20 then none
    else
      match scanUnits cs with
      | some (us, rest) => some (c.toNat :: us, rest)
      | none            => none

-- Two halves of a surrogate pair are one code point.
def joinSurrogates : List Nat → Str
  | hi :: lo :: us =>
    if 0xd800 ≤ hi ∧ hi ≤ 0xdbff ∧ 0xdc00 ≤ lo ∧ lo ≤ 0xdfff then
      (0x10000 + (hi - 0xd800) * 0x400 + (lo - 0xdc00)) :: joinSurrogates us
    else
      hi :: joinSurrogates (lo :: us)
  | us             => us

-- `scanstring`, from after the opening quote.
def scanString (cs : List Char) : Option (Str × List Char) :=
  (scanUnits cs).map fun r => (joinSurrogates r.1, r.2)

end Strings

section Numbers

-- The interpreter neither reads nor writes longer integers (`sys.get_int_max_str_digits`): they are a `ValueError`.
def MAX_STR_DIGITS : Nat :=
  4300

def Printable (n : Int) : Prop :=
  (Nat.toDigits 10 n.natAbs).length ≤ MAX_STR_DIGITS

instance {n : Int} : Decidable (Printable n) :=
  inferInstanceAs (Decidable (_ ≤ _))

theorem printable_iff {n : Int} : Printable n ↔ n.natAbs < 10 ^ MAX_STR_DIGITS :=
  Nat.length_toDigits_le_iff (by decide) (by decide)

def scanInt : Reader (List Char)
  | '0' :: cs => some (['0'], cs)
  | cs        =>
    match cs.span Char.isDigit with
    | ([], _)      => none
    | (digits, cs) => some (digits, cs)

-- `.` and digits, if there are.
def scanFraction (cs : List Char) : List Char × List Char :=
  match cs with
  | '.' :: cs' =>
    match cs'.span Char.isDigit with
    | ([], _)      => ([], cs)
    | (digits, cs) => ('.' :: digits, cs)
  | _          => ([], cs)

def scanSign (cs : List Char) : List Char × List Char :=
  match cs with
  | '+' :: cs => (['+'], cs)
  | '-' :: cs => (['-'], cs)
  | _         => ([], cs)

-- `e`, a sign and digits, if there are.
def scanExponent (cs : List Char) : List Char × List Char :=
  match cs with
  | e :: cs' =>
    if e = 'e' ∨ e = 'E' then
      let (sign, cs') := scanSign cs'
      match cs'.span Char.isDigit with
      | ([], _)      => ([], cs)
      | (digits, cs) => (e :: sign ++ digits, cs)
    else ([], cs)
  | _        => ([], cs)

def intValue (digits : List Char) : Int :=
  Nat.ofDigitChars 10 digits 0

def scanUnsigned (negative : Bool) (cs : List Char) : Option (Value × List Char) :=
  match scanInt cs with
  | none              => none
  | some (digits, cs) =>
    let (fraction, cs) := scanFraction cs
    let (exponent, cs) := scanExponent cs
    if fraction.isEmpty && exponent.isEmpty then
      if MAX_STR_DIGITS < digits.length then none
      else some (.int (if negative then -intValue digits else intValue digits), cs)
    else
      some (.float ((if negative then ['-'] else []) ++ digits ++ fraction ++ exponent), cs)

def scanNumber (cs : List Char) : Option (Value × List Char) :=
  match cs with
  | '-' :: cs => scanUnsigned true cs
  | _         => scanUnsigned false cs

end Numbers

-- `dict(pairs)`
def dictOf (pairs : List (Str × Value)) : Dict Str Value :=
  pairs.foldl (fun d p => d.set p.1 p.2) ∅

section Containers

-- Items up to a closing character, with commas between them.
def separated {α : Type} (item : Reader α) (close : Char) : Nat → Reader (List α)
  | 0, _      => none
  | n + 1, cs => do
    let (a, cs) ← item cs
    match skipWs cs with
    | []      => none
    | c :: cs =>
      if c = close then some ([a], cs)
      else if c = ',' then
        let (as, cs) ← separated item close n (skipWs cs)
        some (a :: as, cs)
      else none

-- Items from after an opening character on, if there are any.
def bracketed {α : Type} (item : Reader α) (close : Char) (cs : List Char) : Option (List α × List Char) :=
  match skipWs cs with
  | []      => none
  | c :: cs => if c = close then some ([], cs) else separated item close (cs.length + 1) (c :: cs)

variable (value : Reader Value)

-- A name, a colon and a value.
def member (cs : List Char) : Option ((Str × Value) × List Char) :=
  match cs with
  | '"' :: cs => do
    let (name, cs) ← scanString cs
    match skipWs cs with
    | ':' :: cs =>
      let (v, cs) ← value (skipWs cs)
      some ((name, v), cs)
    | _         => none
  | _         => none

def array (cs : List Char) : Option (Value × List Char) :=
  (bracketed value ']' cs).map fun r => (.array r.1, r.2)

def object (cs : List Char) : Option (Value × List Char) :=
  (bracketed (member value) '}' cs).map fun r => (.object (dictOf r.1).items, r.2)

end Containers

-- The names of constants.
def constants : List (String × Value) :=
  [("null", .null), ("true", .bool true), ("false", .bool false), ("NaN", .float "NaN".toList),
    ("Infinity", .float "Infinity".toList), ("-Infinity", .float "-Infinity".toList)]

def scanConstant (cs : List Char) : Option (Value × List Char) :=
  (constants.find? fun p => p.1.toList.isPrefixOf cs).map fun p => (p.2, cs.drop p.1.length)

-- `scan_once`, for values that are nested no deeper than that.
def scanOnce : Nat → Reader Value
  | 0, _            => none
  | _ + 1, '"' :: cs => (scanString cs).map fun r => (.str r.1, r.2)
  | n + 1, '{' :: cs => object (scanOnce n) cs
  | n + 1, '[' :: cs => array (scanOnce n) cs
  | _ + 1, cs        => (scanConstant cs).or (scanNumber cs)

-- No value is nested deeper than it is long.
def rawDecode : Reader Value :=
  fun cs => scanOnce cs.length cs

-- `json.loads`
def loads (cs : List Char) : Option Value :=
  if cs.head? = some '\uFEFF' then none
  else
    match rawDecode (skipWs cs) with
    | some (v, rest) => if (skipWs rest).isEmpty then some v else none
    | none           => none

end Json
