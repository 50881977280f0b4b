import NmosReference.Library.JsonLayout
import Mathlib

open Json

-- The encoder, in plain mode.
namespace JsonEngine

def MAX_NESTED_LEVELS : Nat :=
  256

-- `InvalidObject`, by its reason, and the `ValueError` of an integer that cannot be printed.
inductive EngineError
  | tooManyNestedLevels
  | tooComplex
  | invalidNestedLevels
  | valueError
deriving DecidableEq

structure Level where
  content : Bool
  indent  : Int
  count   : Nat
  text    : List (List Char)
deriving DecidableEq

def Level.new : Level where
  content := false
  indent  := 0
  count   := 0
  text    := []

structure Engine where
  levelIndentation : Int
  output           : List Char
  currentLevel     : Nat
  levels           : Nat → Level

namespace Engine

-- An engine after `reset`, which keeps how it is configured.
def reset (levelIndentation : Int) : Engine where
  levelIndentation
  output       := []
  currentLevel := 0
  levels _     := .new

variable (e : Engine)

abbrev current : Level :=
  e.levels e.currentLevel

def modify (level : Nat) (f : Level → Level) : Engine :=
  { e with levels := Function.update e.levels level (f (e.levels level)) }

def append (parts : List (List Char)) : Engine :=
  { e with output := e.output ++ parts.flatten }

def appendToLevel (level : Nat) (parts : List (List Char)) : Except EngineError Engine :=
  if MAX_NESTED_LEVELS ≤ level then
    .error .tooComplex
  else if level = 0 then
    .ok (e.append parts)
  else
    .ok <| e.modify level fun lvl => { lvl with text := lvl.text ++ parts }

def outputNewline (before : List Char) : List Char :=
  if e.levelIndentation = 0 then before else before ++ '\n' :: .replicate e.current.indent.toNat ' '

def writeName (level : Nat) (name : Option String) : Except EngineError Engine :=
  match name with
  | none      => .ok e
  | some name => e.appendToLevel level [dumpString name, [':']]

def writeHeader (level : Nat) : Except EngineError Engine :=
  if e.current.count ≠ 0 then e.appendToLevel level [e.outputNewline [',']] else .ok e

def flushLevel (level : Nat) : Engine :=
  if (e.levels level).text ≠ [] then
    (e.append (e.levels level).text).modify level fun lvl => { lvl with text := [], content := true }
  else
    e

def flush : Except EngineError Engine :=
  ((List.range (e.currentLevel + 1)).foldl flushLevel e).writeHeader 0

def openAggregate (name : Option String) (array omitEmpty : Bool) : Except EngineError Engine := do
  let c := if array then ['['] else ['{']
  if MAX_NESTED_LEVELS ≤ e.currentLevel + 1 then
    throw .tooManyNestedLevels
  let e := e.modify (e.currentLevel + 1) fun lvl => { lvl with text := [] }
  let e ← (if e.current.content then e.writeHeader (e.currentLevel + 1) else .ok e)
  let indent := e.current.indent + e.levelIndentation
  let e := { e with currentLevel := e.currentLevel + 1 }
  let e := e.modify e.currentLevel fun lvl => { lvl with indent, count := 0, content := false }
  let e ← e.writeName e.currentLevel name
  let e ← e.appendToLevel e.currentLevel [e.outputNewline c]
  if omitEmpty then return e else e.flush

def closeAggregate (array : Bool) : Except EngineError Engine :=
  let c := if array then [']'] else ['}']
  if e.currentLevel = 0 then
    .error .invalidNestedLevels
  else if e.current.content then
    let e := e.modify e.currentLevel fun lvl => { lvl with content := false }
    let e := { e with currentLevel := e.currentLevel - 1 }
    let e := e.modify e.currentLevel fun lvl => { lvl with count := lvl.count + 1 }
    .ok <| (e.append [e.outputNewline []]).append [c]
  else
    .ok { e with currentLevel := e.currentLevel - 1 }

def openStruct (name : Option String) (omitEmpty : Bool) : Except EngineError Engine :=
  e.openAggregate name false omitEmpty

def closeStruct : Except EngineError Engine :=
  e.closeAggregate false

def openArray (name : Option String) (omitEmpty : Bool) : Except EngineError Engine :=
  e.openAggregate name true omitEmpty

def closeArray : Except EngineError Engine :=
  e.closeAggregate true

-- A value, by its text, which `str` may refuse to make.
def writeValue (name : Option String) (text : Option (List Char)) : Except EngineError Engine := do
  let e ← e.flush
  let e ← e.writeName 0 name
  let some text := text | throw .valueError
  let e ← e.appendToLevel 0 [text]
  return e.modify e.currentLevel fun lvl => { lvl with count := lvl.count + 1 }

def writeString (name : Option String) (value : String) : Except EngineError Engine :=
  e.writeValue name (some (dumpString value))

def writeInt (name : Option String) (value : Int) : Except EngineError Engine :=
  e.writeValue name (strInt value)

def writeBool (name : Option String) (value : Bool) : Except EngineError Engine :=
  e.writeValue name (some (if value then "true" else "false").toList)

def writeNull (name : Option String) : Except EngineError Engine :=
  e.writeValue name (some "null".toList)

end Engine

inductive Kind
  | struct
  | array
deriving DecidableEq

-- The members of a struct have names, and the elements of an array have none.
abbrev Kind.Label : Kind → Type
  | struct => String
  | array  => Unit

def Kind.name : {kind : Kind} → kind.Label → Option String
  | struct, name => some name
  | array,  _    => none

mutual

inductive Tree
  | null
  | bool (b : Bool)
  | int (n : Int)
  | str (s : String)
  | aggregate (kind : Kind) (omitEmpty : Bool) (children : Forest kind)

inductive Forest : Kind → Type
  | nil {kind : Kind} : Forest kind
  | cons {kind : Kind} (label : kind.Label) (tree : Tree) (rest : Forest kind) : Forest kind

end

namespace Engine

def openKind (e : Engine) (kind : Kind) (name : Option String) (omitEmpty : Bool) : Except EngineError Engine :=
  match kind with
  | .struct => e.openStruct name omitEmpty
  | .array  => e.openArray name omitEmpty

def closeKind (e : Engine) (kind : Kind) : Except EngineError Engine :=
  match kind with
  | .struct => e.closeStruct
  | .array  => e.closeArray

end Engine

mutual

-- The calls that correspond to a tree.
def Tree.drive (name : Option String) (e : Engine) : Tree → Except EngineError Engine
  | .null   => e.writeNull name
  | .bool b => e.writeBool name b
  | .int n  => e.writeInt name n
  | .str s  => e.writeString name s
  | .aggregate kind omitEmpty children => do
    let e ← e.openKind kind name omitEmpty
    let e ← children.drive e
    e.closeKind kind

def Forest.drive {kind : Kind} (e : Engine) : Forest kind → Except EngineError Engine
  | .nil                   => .ok e
  | .cons label tree rest => do
    let e ← tree.drive (kind.name label) e
    rest.drive e

end

def encode (levelIndentation : Int) (top : Tree) : Except EngineError (List Char) :=
  (top.drive none (.reset levelIndentation)).map (·.output)

end JsonEngine
