import NmosReference.Json.Engine

open Json

namespace JsonEngine

-- The line break before a line at an indentation, if there is one.
def newline (levelIndentation indent : Int) : List Char :=
  if levelIndentation = 0 then [] else '\n' :: .replicate indent.toNat ' '

def Kind.opening : Kind → Char
  | struct => '{'
  | array  => '['

def Kind.closing : Kind → Char
  | struct => '}'
  | array  => ']'

def nameParts (name : Option String) : List (List Char) :=
  match name with
  | none      => []
  | some name => [dumpString name, [':']]

def nameText (name : Option String) : List Char :=
  (nameParts name).flatten

mutual

-- The text of a tree within a level of that indentation. Nothing if it is left out.
def Tree.text (levelIndentation indent : Int) : Tree → Option (List Char)
  | .null   => some "null".toList
  | .bool b => some (if b then "true" else "false").toList
  | .int n  => some (dumpInt n)
  | .str s  => some (dumpString s)
  | .aggregate kind omitEmpty children =>
    let ws := newline levelIndentation (indent + levelIndentation)
    let texts := children.texts levelIndentation (indent + levelIndentation)
    if omitEmpty ∧ texts = [] then
      none
    else
      some (kind.opening :: (ws ++ ((',' :: ws).intercalate texts ++
        (newline levelIndentation indent ++ [kind.closing]))))

def Forest.texts (levelIndentation indent : Int) {kind : Kind} : Forest kind → List (List Char)
  | .nil                  => []
  | .cons label tree rest =>
    match tree.text levelIndentation indent with
    | some text => (nameText (kind.name label) ++ text) :: rest.texts levelIndentation indent
    | none      => rest.texts levelIndentation indent

end

mutual

-- How many aggregates are within each other.
def Tree.depth : Tree → Nat
  | .aggregate _ _ children => children.depth + 1
  | _                       => 0

def Forest.depth {kind : Kind} : Forest kind → Nat
  | .nil              => 0
  | .cons _ tree rest => max tree.depth rest.depth

end

mutual

-- Every integer in it can be printed.
def Tree.printable : Tree → Bool
  | .int n                  => decide (Json.Printable n)
  | .aggregate _ _ children => children.printable
  | _                       => true

def Forest.printable {kind : Kind} : Forest kind → Bool
  | .nil              => true
  | .cons _ tree rest => tree.printable && rest.printable

end

namespace Engine

variable {e e' e'' : Engine} {text text' : List Char} {n n' : Nat}

-- What is held back, from the outermost level on.
def pending (e : Engine) : List Char :=
  (List.range (e.currentLevel + 1)).flatMap fun i => (e.levels i).text.flatten

def separator (e : Engine) : List Char :=
  ',' :: newline e.levelIndentation e.current.indent

-- What stands between the values before and the next one.
def header (e : Engine) : List Char :=
  if e.current.count ≠ 0 then e.separator else []

-- What holds between any two calls. A level that is held back has no values, and the root is never held back.
structure Ready (e : Engine) : Prop where
  root    : (e.levels 0).content = false ∧ (e.levels 0).text = []
  content : ∀ i, 0 < i → i ≤ e.currentLevel → ((e.levels i).content = true ↔ (e.levels i).text = [])
  count   : ∀ i ≤ e.currentLevel, (e.levels i).content = false → (e.levels i).count = 0
  level   : e.currentLevel < MAX_NESTED_LEVELS

-- Nothing has happened to the levels that are open.
structure Same (e e' : Engine) : Prop where
  indentation : e'.levelIndentation = e.levelIndentation
  output      : e'.output = e.output
  current     : e'.currentLevel = e.currentLevel
  levels      : ∀ i ≤ e.currentLevel, e'.levels i = e.levels i

-- What was held back has been written, and then the text, which is that of a number of values.
structure Wrote (text : List Char) (n : Nat) (e e' : Engine) : Prop where
  indentation : e'.levelIndentation = e.levelIndentation
  output      : e'.output = e.output ++ e.pending ++ text
  current     : e'.currentLevel = e.currentLevel
  indent      : ∀ i ≤ e.currentLevel, (e'.levels i).indent = (e.levels i).indent
  text        : ∀ i ≤ e.currentLevel, (e'.levels i).text = []
  content     : ∀ i ≤ e.currentLevel, (e'.levels i).content = decide (0 < i)
  below       : ∀ i < e.currentLevel, (e'.levels i).count = (e.levels i).count
  count       : e'.current.count = e.current.count + n

section Modify

variable {level i : Nat} {f : Level → Level}

@[simp] theorem modify_currentLevel : (e.modify level f).currentLevel = e.currentLevel := rfl

@[simp] theorem modify_self : (e.modify level f).levels level = f (e.levels level) := Function.update_self ..

theorem modify_of_ne (h : i ≠ level) : (e.modify level f).levels i = e.levels i := Function.update_of_ne h ..

-- What a modification leaves alone.
theorem modify_field {α : Type} (field : Level → α) (h : ∀ lvl, field (f lvl) = field lvl) :
    field ((e.modify level f).levels i) = field (e.levels i) := by
  rcases eq_or_ne i level with rfl | hne
  · rw [modify_self, h]
  · rw [modify_of_ne hne]

end Modify

theorem outputNewline_eq (e : Engine) (before : List Char) :
    e.outputNewline before = before ++ newline e.levelIndentation e.current.indent := by
  rw [outputNewline, newline]
  split <;> simp

@[simp]
theorem appendToLevel_zero (e : Engine) (parts : List (List Char)) : e.appendToLevel 0 parts = .ok (e.append parts) := by
  simp [appendToLevel, MAX_NESTED_LEVELS]

theorem appendToLevel_pos {level : Nat} (h : 0 < level) (hl : level < MAX_NESTED_LEVELS) (parts : List (List Char)) :
    e.appendToLevel level parts = .ok (e.modify level fun lvl => { lvl with text := lvl.text ++ parts }) := by
  rw [appendToLevel, if_neg (by omega), if_neg (by omega)]

-- A level after it has been flushed.
def flushed (lvl : Level) : Level :=
  if lvl.text ≠ [] then { lvl with text := [], content := true } else lvl

theorem foldl_flushLevel (e : Engine) (n : Nat) : (List.range n).foldl flushLevel e =
    { e with
      output := e.output ++ (List.range n).flatMap fun i => (e.levels i).text.flatten
      levels := fun i => if i < n then flushed (e.levels i) else e.levels i } := by
  induction n with
  | zero => simp
  | succ n ih =>
    rw [List.range_succ, List.foldl_append, ih, List.foldl_cons, List.foldl_nil, flushLevel]
    simp only [lt_irrefl, if_false, List.flatMap_append, List.flatMap_singleton]
    split
    case isTrue h =>
      simp only [append, modify, lt_irrefl, if_false, List.append_assoc, Engine.mk.injEq, true_and]
      funext i
      rcases Nat.lt_trichotomy i n with hi | rfl | hi
      · rw [Function.update_of_ne (by omega), if_pos hi, if_pos (by omega)]
      · rw [Function.update_self, if_pos (by omega), flushed, if_pos h]
      · rw [Function.update_of_ne (by omega), if_neg (by omega), if_neg (by omega)]
    case isFalse h =>
      have ht : (e.levels n).text.flatten = [] := by rw [not_not.mp h, List.flatten_nil]
      simp only [ht, List.append_nil, Engine.mk.injEq, true_and]
      funext i
      rcases Nat.lt_trichotomy i n with hi | rfl | hi
      · rw [if_pos hi, if_pos (by omega)]
      · rw [if_neg (by omega), if_pos (by omega), flushed, if_neg h]
      · rw [if_neg (by omega), if_neg (by omega)]

theorem Ready.flushed_text (h : Ready e) (i : Nat) (hi : i ≤ e.currentLevel) :
    (flushed (e.levels i)).text = [] ∧ (flushed (e.levels i)).content = decide (0 < i) := by
  obtain rfl | hpos := Nat.eq_zero_or_pos i
  case inl => simp [flushed, h.root]
  case inr =>
    rw [flushed]
    split
    case isTrue    => simp [hpos]
    case isFalse hn =>
      have ht := not_not.mp hn
      simp [ht, hpos, (h.content i hpos hi).mpr ht]

theorem flushed_count (lvl : Level) : (flushed lvl).count = lvl.count := by
  rw [flushed]
  split <;> rfl

theorem flushed_indent (lvl : Level) : (flushed lvl).indent = lvl.indent := by
  rw [flushed]
  split <;> rfl

-- The engine after a flush that ends with a text.
def drained (e : Engine) (text : List Char) : Engine :=
  { e with
    output := e.output ++ e.pending ++ text
    levels := fun i => if i < e.currentLevel + 1 then flushed (e.levels i) else e.levels i }

theorem drained_levels {i : Nat} (hi : i ≤ e.currentLevel) : (e.drained text).levels i = flushed (e.levels i) :=
  if_pos (Nat.lt_succ_of_le hi)

theorem Ready.drained (h : Ready e) (text : List Char) : Wrote text 0 e (e.drained text) where
  indentation  := rfl
  output       := rfl
  current      := rfl
  indent i hi  := by rw [drained_levels hi, flushed_indent]
  text i hi    := by rw [drained_levels hi, (h.flushed_text i hi).1]
  content i hi := by rw [drained_levels hi, (h.flushed_text i hi).2]
  below i hi   := by rw [drained_levels hi.le, flushed_count]
  count        := by
    have hc : (e.drained text).current = flushed e.current := drained_levels le_rfl
    rw [hc, flushed_count, Nat.add_zero]

theorem flush_eq (e : Engine) : e.flush = .ok (e.drained e.header) := by
  have hf : (List.range (e.currentLevel + 1)).foldl flushLevel e = e.drained [] := by
    rw [foldl_flushLevel, Engine.drained, pending, List.append_nil]
  have hc : (e.drained []).current = flushed e.current := drained_levels le_rfl
  rw [Engine.flush, hf, writeHeader, hc, flushed_count]
  split
  case isTrue hn =>
    have hs : e.header = ',' :: newline e.levelIndentation e.current.indent := if_pos hn
    rw [appendToLevel_zero, outputNewline_eq, hc, flushed_indent, hs]
    simp [Engine.drained, append]
  case isFalse hn =>
    have hs : e.header = [] := if_neg hn
    rw [hs]

theorem Wrote.pending (h : Wrote text n e e') : e'.pending = [] := by
  rw [Engine.pending, h.current, List.flatMap_eq_nil_iff]
  intro i hi
  rw [h.text i (Nat.le_of_lt_succ (List.mem_range.mp hi)), List.flatten_nil]

theorem Same.pending (h : Same e e') : e'.pending = e.pending := by
  rw [Engine.pending, Engine.pending, h.current]
  refine List.flatMap_congr fun i hi => ?_
  rw [h.levels i (Nat.le_of_lt_succ (List.mem_range.mp hi))]

theorem Same.now (h : Same e e') : e'.current = e.current := by
  change e'.levels e'.currentLevel = _
  rw [h.current, h.levels _ le_rfl]

theorem Same.header (h : Same e e') : e'.header = e.header := by
  rw [Engine.header, separator, h.now, h.indentation]
  rfl

theorem Same.refl : Same e e :=
  ⟨rfl, rfl, rfl, fun _ _ => rfl⟩

theorem Same.trans (h : Same e e') (h' : Same e' e'') : Same e e'' where
  indentation := h'.indentation.trans h.indentation
  output      := h'.output.trans h.output
  current     := h'.current.trans h.current
  levels i hi := (h'.levels i (h.current ▸ hi)).trans (h.levels i hi)

theorem Same.wrote (h : Same e e') (h' : Wrote text n e' e'') : Wrote text n e e'' where
  indentation  := h'.indentation.trans h.indentation
  output       := by rw [h'.output, h.output, h.pending]
  current      := h'.current.trans h.current
  indent i hi  := by rw [h'.indent i (h.current ▸ hi), h.levels i hi]
  text i hi    := h'.text i (h.current ▸ hi)
  content i hi := h'.content i (h.current ▸ hi)
  below i hi   := by rw [h'.below i (h.current ▸ hi), h.levels i hi.le]
  count        := by rw [h'.count, h.now]

theorem Wrote.same (h : Wrote text n e e') (h' : Same e' e'') : Wrote text n e e'' where
  indentation  := h'.indentation.trans h.indentation
  output       := h'.output.trans h.output
  current      := h'.current.trans h.current
  indent i hi  := by rw [h'.levels i (h.current ▸ hi), h.indent i hi]
  text i hi    := by rw [h'.levels i (h.current ▸ hi), h.text i hi]
  content i hi := by rw [h'.levels i (h.current ▸ hi), h.content i hi]
  below i hi   := by rw [h'.levels i (h.current ▸ hi.le), h.below i hi]
  count        := by rw [h'.now, h.count]

theorem Wrote.trans (h : Wrote text n e e') (h' : Wrote text' n' e' e'') : Wrote (text ++ text') (n + n') e e'' where
  indentation  := h'.indentation.trans h.indentation
  output       := by rw [h'.output, h.output, h.pending, List.append_nil, List.append_assoc]
  current      := h'.current.trans h.current
  indent i hi  := by rw [h'.indent i (h.current ▸ hi), h.indent i hi]
  text i hi    := h'.text i (h.current ▸ hi)
  content i hi := h'.content i (h.current ▸ hi)
  below i hi   := by rw [h'.below i (h.current ▸ hi), h.below i hi]
  count        := by rw [h'.count, h.count, Nat.add_assoc]

theorem Same.ready (h : Same e e') (hr : Ready e) : Ready e' where
  root            := by rw [h.levels 0 (Nat.zero_le _)]; exact hr.root
  content i hi hl := by rw [h.levels i (h.current ▸ hl)]; exact hr.content i hi (h.current ▸ hl)
  count i hl hc   := by
    rw [h.levels i (h.current ▸ hl)] at hc ⊢
    exact hr.count i (h.current ▸ hl) hc
  level           := h.current ▸ hr.level

-- Within an aggregate, more can be written.
theorem Wrote.ready (h : Wrote text n e e') (hr : Ready e) (hl : 0 < e.currentLevel) : Ready e' where
  root            := by simp [h.content 0 (Nat.zero_le _), h.text 0 (Nat.zero_le _)]
  content i hi hl := by
    have hl := h.current ▸ hl
    simp [h.content i hl, h.text i hl, hi]
  count i hi hc   := by
    have hi := h.current ▸ hi
    rw [h.content i hi, decide_eq_false_iff_not] at hc
    obtain rfl : i = 0 := by omega
    rw [h.below 0 hl, hr.count 0 (Nat.zero_le _) hr.root.1]
  level           := h.current ▸ hr.level

theorem Wrote.counted (h : Wrote text n e e') :
    Wrote text (n + 1) e (e'.modify e'.currentLevel fun lvl => { lvl with count := lvl.count + 1 }) := by
  have hl {i : Nat} (hi : i < e.currentLevel) : i ≠ e'.currentLevel := by
    rw [h.current]
    omega
  refine ⟨h.indentation, h.output, h.current, fun i hi => ?_, fun i hi => ?_, fun i hi => ?_, fun i hi => ?_, ?_⟩
  · exact Eq.trans (modify_field Level.indent (by intro; rfl)) (h.indent i hi)
  · exact Eq.trans (modify_field Level.text (by intro; rfl)) (h.text i hi)
  · exact Eq.trans (modify_field Level.content (by intro; rfl)) (h.content i hi)
  · rw [← h.below i hi, modify_of_ne (hl hi)]
  · change ((modify e' e'.currentLevel _).levels e'.currentLevel).count = _
    rw [modify_self]
    exact congrArg (· + 1) h.count

theorem writeName_zero (e : Engine) (name : Option String) : e.writeName 0 name = .ok (e.append [nameText name]) := by
  cases name with
  | none      => simp [writeName, nameText, nameParts, append]
  | some name => simp [writeName, nameText, nameParts, append]

theorem append_drained (e : Engine) (text : List Char) (parts : List (List Char)) :
    (e.drained text).append parts = e.drained (text ++ parts.flatten) := by
  simp [drained, append]

theorem Ready.writeValue (h : Ready e) (name : Option String) (value : List Char) :
    ∃ e', e.writeValue name (some value) = .ok e' ∧ Wrote (e.header ++ (nameText name ++ value)) 1 e e' := by
  have hw := (h.drained (e.header ++ (nameText name ++ value))).counted
  refine ⟨_, ?_, hw⟩
  simp [Engine.writeValue, flush_eq, writeName_zero, append_drained, bind, Except.bind, pure, Except.pure]

theorem writeName_pos {level : Nat} (h : 0 < level) (hl : level < MAX_NESTED_LEVELS) (name : Option String) :
    e.writeName level name = .ok (e.modify level fun lvl => { lvl with text := lvl.text ++ nameParts name }) := by
  cases name with
  | none      => simp [writeName, nameParts, modify]
  | some name => exact appendToLevel_pos h hl _

def headerParts (e : Engine) : List (List Char) :=
  if e.current.count ≠ 0 then [e.separator] else []

theorem flatten_headerParts : e.headerParts.flatten = e.header := by
  rw [headerParts, Engine.header]
  split <;> simp

-- The engine with an aggregate that is open but held back: its level has the text up to where its first value goes.
def opened (e : Engine) (name : Option String) (array : Bool) : Engine :=
  let indent := e.current.indent + e.levelIndentation
  let first := (if array then ['['] else ['{']) ++ newline e.levelIndentation indent
  { e with
    currentLevel := e.currentLevel + 1
    levels := Function.update e.levels (e.currentLevel + 1)
      { content := false, indent, count := 0, text := e.headerParts ++ (nameParts name ++ [first]) } }

theorem modify_modify {level : Nat} (f g : Level → Level) :
    (e.modify level f).modify level g = e.modify level fun lvl => g (f lvl) := by
  simp [modify]

-- The separator goes into the level that is opened, unless that level is held back itself.
theorem Ready.writeHeader (h : Ready e) (hl : e.currentLevel + 1 < MAX_NESTED_LEVELS) :
    let e' := e.modify (e.currentLevel + 1) fun lvl => { lvl with text := [] }
    (if e'.current.content then e'.writeHeader (e.currentLevel + 1) else .ok e') =
      .ok (e.modify (e.currentLevel + 1) fun lvl => { lvl with text := e.headerParts }) := by
  intro e'
  have hc : e'.current = e.current := modify_of_ne (Nat.succ_ne_self _).symm
  rw [hc, Engine.writeHeader, hc, headerParts]
  split
  case isTrue =>
    split
    case isTrue  =>
      rw [appendToLevel_pos (Nat.succ_pos _) hl, modify_modify, outputNewline_eq, hc]
      rfl
    case isFalse => rfl
  case isFalse hn =>
    rw [if_neg (not_not.mpr (h.count _ le_rfl (Bool.eq_false_iff.mpr hn)))]

theorem Ready.openAggregate (h : Ready e) (hl : e.currentLevel + 1 < MAX_NESTED_LEVELS) (name : Option String)
    (array omitEmpty : Bool) : e.openAggregate name array omitEmpty =
      if omitEmpty then .ok (e.opened name array) else (e.opened name array).flush := by
  have hh := h.writeHeader hl
  have hpos : 0 < e.currentLevel + 1 := Nat.succ_pos _
  rw [Engine.openAggregate]
  simp only [if_neg (Nat.not_le.mpr hl), modify_currentLevel]
  rw [hh]
  simp only [bind, Except.bind, modify_currentLevel, writeName_pos hpos hl, appendToLevel_pos hpos hl]
  have hne : e.currentLevel ≠ e.currentLevel + 1 := (Nat.succ_ne_self _).symm
  simp only [outputNewline_eq, modify, current, Function.update_idem, Function.update_self, Function.update_of_ne hne,
    List.append_assoc]
  rfl

section Opened

variable {name : Option String} {array : Bool} {body : List Char}

-- The text up to where the first value of an aggregate goes.
def opening (e : Engine) (name : Option String) (array : Bool) : List Char :=
  e.header ++ (nameText name ++
    ((if array then ['['] else ['{']) ++ newline e.levelIndentation (e.current.indent + e.levelIndentation)))

theorem opened_levels {i : Nat} (hi : i ≤ e.currentLevel) : (e.opened name array).levels i = e.levels i :=
  Function.update_of_ne (by omega) ..

theorem opened_current : (e.opened name array).current =
    { content := false
      indent  := e.current.indent + e.levelIndentation
      count   := 0
      text    := e.headerParts ++ (nameParts name ++
        [(if array then ['['] else ['{']) ++ newline e.levelIndentation (e.current.indent + e.levelIndentation)]) } :=
  Function.update_self ..

theorem pending_opened : (e.opened name array).pending = e.pending ++ e.opening name array := by
  have hl : (List.range (e.currentLevel + 1)).flatMap (fun i => ((e.opened name array).levels i).text.flatten) =
      e.pending := by
    refine List.flatMap_congr fun i hi => ?_
    rw [opened_levels (Nat.le_of_lt_succ (List.mem_range.mp hi))]
  have hc : ((e.opened name array).levels (e.currentLevel + 1)).text.flatten = e.opening name array := by
    refine (congrArg (fun lvl => lvl.text.flatten) opened_current).trans ?_
    rw [opening, nameText, ← flatten_headerParts]
    simp
  rw [pending, show (e.opened name array).currentLevel + 1 = e.currentLevel + 1 + 1 from rfl, List.range_succ,
    List.flatMap_append, hl, List.flatMap_singleton, hc]

theorem Ready.opened (h : Ready e) (hl : e.currentLevel + 1 < MAX_NESTED_LEVELS) (name : Option String) (array : Bool) :
    Ready (e.opened name array) where
  root            := by rw [opened_levels (Nat.zero_le _)]; exact h.root
  content i hi hl := by
    rcases Nat.lt_or_eq_of_le hl with hl | rfl
    case inl =>
      have hl := Nat.le_of_lt_succ hl
      rw [opened_levels hl]
      exact h.content i hi hl
    case inr =>
      change (e.opened name array).current.content = true ↔ (e.opened name array).current.text = []
      simp [opened_current]
  count i hl hc   := by
    rcases Nat.lt_or_eq_of_le hl with hl | rfl
    case inl =>
      have hl := Nat.le_of_lt_succ hl
      rw [opened_levels hl] at hc ⊢
      exact h.count i hl hc
    case inr => exact congrArg Level.count opened_current
  level           := hl

-- Closing an aggregate in which something was written.
theorem Wrote.close (h : Wrote body n (e.opened name array) e') :
    ∃ e'', e'.closeAggregate array = .ok e'' ∧ Wrote (e.opening name array ++ (body ++
      (newline e.levelIndentation e.current.indent ++ (if array then [']'] else ['}'])))) 1 e e'' := by
  have hl : e'.currentLevel = e.currentLevel + 1 := h.current
  have hc : e'.current.content := by
    change (e'.levels e'.currentLevel).content = true
    rw [hl, h.content (e.currentLevel + 1) le_rfl]
    simp
  -- the aggregate is behind, and it is one more value of the level it stands in
  let e₁ := { e'.modify e'.currentLevel fun lvl => { lvl with content := false } with currentLevel := e.currentLevel }
  let e₂ := e₁.modify e.currentLevel fun lvl => { lvl with count := lvl.count + 1 }
  have h₁ {i : Nat} (hi : i ≤ e.currentLevel) : e₁.levels i = e'.levels i :=
    Function.update_of_ne (show i ≠ e'.currentLevel by omega) ..
  have hindent {i : Nat} (hi : i ≤ e.currentLevel) : (e₂.levels i).indent = (e.levels i).indent := by
    refine Eq.trans (modify_field Level.indent (by intro; rfl)) ?_
    rw [h₁ hi, h.indent i (Nat.le_succ_of_le hi), opened_levels hi]
  have hclose : e'.closeAggregate array =
      .ok ((e₂.append [e₂.outputNewline []]).append [if array then [']'] else ['}']]) := by
    rw [closeAggregate, if_neg (by omega), if_pos hc]
    simp only [e₂, e₁, modify_currentLevel, hl, Nat.add_sub_cancel]
  refine ⟨_, hclose, h.indentation, ?_, rfl, fun i hi => hindent hi, fun i hi => ?_, fun i hi => ?_, fun i hi => ?_, ?_⟩
  · change e'.output ++ [e₂.outputNewline []].flatten ++ [if array then [']'] else ['}']].flatten = _
    have hcur : e₂.current.indent = e.current.indent := hindent le_rfl
    have hind : e₂.levelIndentation = e.levelIndentation := h.indentation
    rw [outputNewline_eq, hcur, hind, h.output, pending_opened]
    simp [show (e.opened name array).output = e.output from rfl]
  · change (e₂.levels i).text = []
    refine Eq.trans (modify_field Level.text (by intro; rfl)) ?_
    rw [h₁ hi, h.text i (Nat.le_succ_of_le hi)]
  · change (e₂.levels i).content = decide (0 < i)
    refine Eq.trans (modify_field Level.content (by intro; rfl)) ?_
    rw [h₁ hi, h.content i (Nat.le_succ_of_le hi)]
  · change (e₂.levels i).count = (e.levels i).count
    refine (congrArg Level.count (modify_of_ne (Nat.ne_of_lt hi))).trans ?_
    rw [h₁ hi.le, h.below i (Nat.lt_succ_of_lt hi), opened_levels hi.le]
  · have hcount : (e₂.levels e.currentLevel).count = (e₁.levels e.currentLevel).count + 1 := by
      rw [modify_self]
    refine hcount.trans ?_
    rw [h₁ le_rfl, h.below e.currentLevel (Nat.lt_succ_self _), opened_levels le_rfl]

-- Closing an aggregate in which nothing was, and which was to be left out then.
theorem Same.close (h : Same (e.opened name array) e') :
    ∃ e'', e'.closeAggregate array = .ok e'' ∧ Same e e'' := by
  have hc : e'.current.content = false := by
    rw [h.now]
    exact congrArg Level.content opened_current
  refine ⟨{ e' with currentLevel := e.currentLevel }, ?_, h.indentation, h.output, rfl, fun i hi => ?_⟩
  · rw [closeAggregate, if_neg (by rw [h.current]; exact Nat.succ_ne_zero _), hc, h.current]
    rfl
  · exact (h.levels i (Nat.le_succ_of_le hi)).trans (opened_levels hi)

end Opened

end Engine

open Engine

-- What one step of a drive does: the texts are written after what was held back, or there are none and nothing happens.
structure Puts (texts : List (List Char)) (e e' : Engine) : Prop where
  some : texts ≠ [] → Wrote (e.header ++ e.separator.intercalate texts) texts.length e e'
  none : texts = [] → Same e e'

theorem intercalate_append {sep : List Char} {texts texts' : List (List Char)} (h : texts ≠ []) (h' : texts' ≠ []) :
    sep.intercalate (texts ++ texts') = sep.intercalate texts ++ (sep ++ sep.intercalate texts') := by
  induction texts with
  | nil => contradiction
  | cons text texts ih =>
    cases texts with
    | nil =>
      obtain ⟨text', texts', rfl⟩ := List.exists_cons_of_ne_nil h'
      simp [List.intercalate_cons_cons]
    | cons text' texts =>
      rw [List.cons_append, List.cons_append, List.intercalate_cons_cons, List.intercalate_cons_cons, ← List.cons_append,
        ih (List.cons_ne_nil _ _)]
      simp

section Drive

variable {e e' e'' : Engine} {text : List Char} {texts texts' : List (List Char)} {n : Nat}

theorem Puts.ready (h : Puts texts e e') (hr : Ready e) (hl : 0 < e.currentLevel) : Ready e' := by
  by_cases ht : texts = []
  case pos => exact (h.none ht).ready hr
  case neg => exact (h.some ht).ready hr hl

theorem Puts.levels (h : Puts texts e e') : e'.currentLevel = e.currentLevel ∧
    e'.levelIndentation = e.levelIndentation ∧ e'.current.indent = e.current.indent := by
  by_cases ht : texts = []
  case pos => exact ⟨(h.none ht).current, (h.none ht).indentation, congrArg Level.indent (h.none ht).now⟩
  case neg =>
    have hw := h.some ht
    refine ⟨hw.current, hw.indentation, ?_⟩
    change (e'.levels e'.currentLevel).indent = _
    rw [hw.current, hw.indent _ le_rfl]

theorem Puts.separator (h : Puts texts e e') : e'.separator = e.separator := by
  rw [Engine.separator, Engine.separator, h.levels.2.1, h.levels.2.2]

-- One after the other.
theorem Puts.append (h : Puts texts e e') (h' : Puts texts' e' e'') : Puts (texts ++ texts') e e'' := by
  by_cases ht : texts = []
  case pos =>
    have hs := h.none ht
    refine ⟨fun hne => ?_, fun hn => ?_⟩
    · have hw := hs.wrote (h'.some (by simpa [ht] using hne))
      rwa [hs.header, h.separator, ← List.nil_append texts', ← ht] at hw
    · exact hs.trans (h'.none (by simpa [ht] using hn))
  case neg =>
    have hw := h.some ht
    refine ⟨fun _ => ?_, fun hn => absurd (List.append_eq_nil_iff.mp hn).1 ht⟩
    by_cases ht' : texts' = []
    case pos =>
      rw [ht', List.append_nil]
      exact hw.same (h'.none ht')
    case neg =>
      have hcount : e'.current.count ≠ 0 := by
        have hlen := List.length_pos_of_ne_nil ht
        rw [hw.count]
        omega
      have hheader : e'.header = e.separator := (if_pos hcount).trans h.separator
      have hww := hw.trans (h'.some ht')
      rw [hheader, h.separator, List.append_assoc, ← intercalate_append ht ht', ← List.length_append] at hww
      exact hww

theorem Puts.value {value : List Char} (h : Wrote (e.header ++ value) 1 e e') : Puts [value] e e' :=
  ⟨fun _ => by simpa using h, nofun⟩

theorem texts_cons {kind : Kind} {levelIndentation indent : Int} {label : kind.Label} {tree : Tree}
    {rest : Forest kind} : (Forest.cons label tree rest).texts levelIndentation indent =
      ((tree.text levelIndentation indent).toList.map (nameText (kind.name label) ++ ·)) ++
        rest.texts levelIndentation indent := by
  rw [Forest.texts]
  cases tree.text levelIndentation indent <;> rfl

def Kind.isArray : Kind → Bool
  | struct => false
  | array  => true

theorem openKind_eq (e : Engine) (kind : Kind) (name : Option String) (omitEmpty : Bool) :
    e.openKind kind name omitEmpty = e.openAggregate name kind.isArray omitEmpty := by
  cases kind <;> rfl

theorem closeKind_eq (e : Engine) (kind : Kind) : e.closeKind kind = e.closeAggregate kind.isArray := by
  cases kind <;> rfl

theorem opening_eq (kind : Kind) : (if kind.isArray then ['['] else ['{']) = [kind.opening] := by
  cases kind <;> rfl

theorem closing_eq (kind : Kind) : (if kind.isArray then [']'] else ['}']) = [kind.closing] := by
  cases kind <;> rfl

theorem header_of_count (h : e.current.count = 0) : e.header = [] :=
  if_neg (not_not.mpr h)

variable {name : Option String} {kind : Kind} {omitEmpty : Bool}

-- An aggregate that is open, whether it is held back or not.
theorem Engine.Ready.openKind (h : Ready e) (hl : e.currentLevel + 1 < MAX_NESTED_LEVELS) (name : Option String) (kind : Kind)
    (omitEmpty : Bool) : ∃ e', e.openKind kind name omitEmpty = .ok e' ∧ Ready e' ∧ e'.header = [] ∧
      if omitEmpty then Same (e.opened name kind.isArray) e' else Wrote [] 0 (e.opened name kind.isArray) e' := by
  have ho := h.opened hl name kind.isArray
  have hheader : (e.opened name kind.isArray).header = [] := header_of_count (congrArg Level.count opened_current)
  rw [openKind_eq, h.openAggregate hl]
  cases omitEmpty with
  | true  => exact ⟨_, rfl, ho, hheader, .refl⟩
  | false =>
    have hw := ho.drained []
    refine ⟨_, (flush_eq _).trans (by rw [hheader]), hw.ready ho (Nat.succ_pos _), header_of_count ?_, hw⟩
    rw [hw.count]
    exact congrArg Level.count opened_current

theorem opened_facts (ho : if omitEmpty then Same (e.opened name kind.isArray) e' else
    Wrote [] 0 (e.opened name kind.isArray) e') : e'.currentLevel = e.currentLevel + 1 ∧
      e'.levelIndentation = e.levelIndentation ∧ e'.current.indent = e.current.indent + e.levelIndentation := by
  have hindent : (e.opened name kind.isArray).current.indent = e.current.indent + e.levelIndentation :=
    congrArg Level.indent opened_current
  cases omitEmpty with
  | true  => exact ⟨ho.current, ho.indentation, (congrArg Level.indent ho.now).trans hindent⟩
  | false =>
    refine ⟨ho.current, ho.indentation, Eq.trans ?_ hindent⟩
    change (e'.levels e'.currentLevel).indent = _
    rw [ho.current, ho.indent _ le_rfl]

-- What becomes of an aggregate once its children have been driven.
theorem closeKind_puts {body : List (List Char)} (h₁ : e'.header = [])
    (ho : if omitEmpty then Same (e.opened name kind.isArray) e' else Wrote [] 0 (e.opened name kind.isArray) e')
    (hb : Puts body e' e'') : ∃ e₃, e''.closeKind kind = .ok e₃ ∧
      Puts (if omitEmpty ∧ body = [] then [] else [nameText name ++ kind.opening ::
        (newline e.levelIndentation (e.current.indent + e.levelIndentation) ++
          ((',' :: newline e.levelIndentation (e.current.indent + e.levelIndentation)).intercalate body ++
            (newline e.levelIndentation e.current.indent ++ [kind.closing])))]) e e₃ := by
  obtain ⟨-, hind, hcur⟩ := opened_facts ho
  have hsep : e'.separator = ',' :: newline e.levelIndentation (e.current.indent + e.levelIndentation) := by
    rw [separator, hind, hcur]
  rw [closeKind_eq]
  split
  case isTrue hleft =>
    obtain ⟨homit, rfl⟩ := hleft
    subst homit
    obtain ⟨e₃, hc, hs⟩ := (ho.trans (hb.none rfl)).close
    exact ⟨e₃, hc, nofun, fun _ => hs⟩
  case isFalse hkept =>
    have hw : ∃ n, Wrote (e'.separator.intercalate body) n (e.opened name kind.isArray) e'' := by
      by_cases hne : body = []
      case pos =>
        obtain rfl : omitEmpty = false := Bool.eq_false_iff.mpr fun homit => hkept ⟨homit, hne⟩
        subst hne
        exact ⟨0, ho.same (hb.none rfl)⟩
      case neg =>
        have hbody := hb.some hne
        rw [h₁, List.nil_append] at hbody
        cases omitEmpty with
        | true  => exact ⟨_, ho.wrote hbody⟩
        | false => exact ⟨_, ho.trans hbody⟩
    obtain ⟨n, hw⟩ := hw
    obtain ⟨e₃, hc, hw⟩ := hw.close
    refine ⟨e₃, hc, .value ?_⟩
    rw [hsep, opening, opening_eq, closing_eq] at hw
    simpa using hw

mutual

-- Driving a tree puts its text, or nothing if it is left out.
theorem Tree.drive_puts (name : Option String) {e : Engine} (hr : Ready e) : (tree : Tree) → tree.printable →
    e.currentLevel + tree.depth < MAX_NESTED_LEVELS → ∃ e', tree.drive name e = .ok e' ∧
      Puts ((tree.text e.levelIndentation e.current.indent).toList.map (nameText name ++ ·)) e e'
  | .null,   _, _  => by
    obtain ⟨e', h, hw⟩ := hr.writeValue name "null".toList
    exact ⟨e', h, .value hw⟩
  | .bool b, _, _  => by
    obtain ⟨e', h, hw⟩ := hr.writeValue name (if b then "true" else "false").toList
    exact ⟨e', h, .value hw⟩
  | .int n,  hp, _ => by
    obtain ⟨e', h, hw⟩ := hr.writeValue name (dumpInt n)
    have htext : strInt n = some (dumpInt n) := if_pos (of_decide_eq_true hp)
    exact ⟨e', by rw [Tree.drive, Engine.writeInt, htext, h], .value hw⟩
  | .str s,  _, _  => by
    obtain ⟨e', h, hw⟩ := hr.writeValue name (dumpString s)
    exact ⟨e', h, .value hw⟩
  | .aggregate kind omitEmpty children, hp, hd => by
    rw [Tree.depth] at hd
    obtain ⟨e₁, h₁, hr₁, hheader, ho⟩ := hr.openKind (by omega) name kind omitEmpty
    obtain ⟨hl, hind, hcur⟩ := opened_facts ho
    obtain ⟨e₂, h₂, hp₂⟩ := children.drive_puts hr₁ (by omega) hp (by omega)
    obtain ⟨e₃, h₃, hp₃⟩ := closeKind_puts hheader ho hp₂
    refine ⟨e₃, by simp [Tree.drive, h₁, h₂, h₃, bind, Except.bind], ?_⟩
    rw [hind, hcur] at hp₃
    rw [Tree.text]
    split
    case isTrue h  => simpa [h] using hp₃
    case isFalse h =>
      rw [if_neg h] at hp₃
      exact hp₃

theorem Forest.drive_puts {kind : Kind} {e : Engine} (hr : Ready e) (hl : 0 < e.currentLevel) : (children : Forest kind) →
    children.printable → e.currentLevel + children.depth < MAX_NESTED_LEVELS → ∃ e', children.drive e = .ok e' ∧
      Puts (children.texts e.levelIndentation e.current.indent) e e'
  | .nil,                  _,  _  => ⟨e, rfl, nofun, fun _ => .refl⟩
  | .cons label tree rest, hp, hd => by
    rw [Forest.depth] at hd
    obtain ⟨hpt, hpr⟩ := Bool.and_eq_true_iff.mp hp
    obtain ⟨e₁, h₁, hp₁⟩ := tree.drive_puts (kind.name label) hr hpt (by omega)
    obtain ⟨hcl, hind, hcur⟩ := hp₁.levels
    obtain ⟨e₂, h₂, hp₂⟩ := rest.drive_puts (hp₁.ready hr hl) (by omega) hpr (by omega)
    rw [hind, hcur] at hp₂
    refine ⟨e₂, by simp [Forest.drive, h₁, h₂, bind, Except.bind], ?_⟩
    rw [texts_cons]
    exact hp₁.append hp₂

end

mutual

-- What is too deep is refused.
theorem Tree.drive_deep (name : Option String) {e : Engine} (hr : Ready e) : (tree : Tree) → tree.printable →
    MAX_NESTED_LEVELS ≤ e.currentLevel + tree.depth → tree.drive name e = .error .tooManyNestedLevels
  | .null,   _, hd => absurd hr.level (Nat.not_lt.mpr hd)
  | .bool b, _, hd => absurd hr.level (Nat.not_lt.mpr hd)
  | .int n,  _, hd => absurd hr.level (Nat.not_lt.mpr hd)
  | .str s,  _, hd => absurd hr.level (Nat.not_lt.mpr hd)
  | .aggregate kind omitEmpty children, hp, hd => by
    rw [Tree.depth] at hd
    by_cases hl : e.currentLevel + 1 < MAX_NESTED_LEVELS
    case pos =>
      obtain ⟨e₁, h₁, hr₁, -, ho⟩ := hr.openKind hl name kind omitEmpty
      obtain ⟨hcl, -⟩ := opened_facts ho
      have hdeep := children.drive_deep hr₁ (by omega) hp (by omega)
      simp [Tree.drive, h₁, hdeep, bind, Except.bind]
    case neg =>
      have hopen : e.openKind kind name omitEmpty = .error .tooManyNestedLevels := by
        rw [openKind_eq, openAggregate]
        simp only [if_pos (Nat.not_lt.mp hl)]
        rfl
      simp [Tree.drive, hopen, bind, Except.bind]

theorem Forest.drive_deep {kind : Kind} {e : Engine} (hr : Ready e) (hl : 0 < e.currentLevel) : (children : Forest kind) →
    children.printable → MAX_NESTED_LEVELS ≤ e.currentLevel + children.depth → children.drive e = .error .tooManyNestedLevels
  | .nil,                  _,  hd => absurd hr.level (Nat.not_lt.mpr hd)
  | .cons label tree rest, hp, hd => by
    rw [Forest.depth] at hd
    obtain ⟨hpt, hpr⟩ := Bool.and_eq_true_iff.mp hp
    by_cases ht : e.currentLevel + tree.depth < MAX_NESTED_LEVELS
    case pos =>
      obtain ⟨e₁, h₁, hp₁⟩ := tree.drive_puts (kind.name label) hr hpt ht
      obtain ⟨hcl, -⟩ := hp₁.levels
      have hdeep := rest.drive_deep (hp₁.ready hr hl) (by omega) hpr (by omega)
      simp [Forest.drive, h₁, hdeep, bind, Except.bind]
    case neg =>
      have hdeep := tree.drive_deep (kind.name label) hr hpt (Nat.not_lt.mp ht)
      simp [Forest.drive, hdeep, bind, Except.bind]

end

end Drive
end JsonEngine
