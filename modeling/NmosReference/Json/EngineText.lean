import NmosReference.Json.EngineRuns

open Json

namespace JsonEngine

-- What the children of an aggregate make. A name that is there twice counts once, with its last value.
def Kind.value : (kind : Kind) → List (kind.Label × Value) → Value
  | struct, members  => .object (dictOf <| members.map fun m => (Str.of m.1, m.2)).items
  | array,  elements => .array (elements.map (·.2))

mutual

-- The tree without the aggregates that are to be left out if they are empty, and are. Nothing if it is one itself.
def Tree.pruned : Tree → Option Value
  | .null   => some .null
  | .bool b => some (.bool b)
  | .int n  => some (.int n)
  | .str s  => some (.str (Str.of s))
  | .aggregate kind omitEmpty children =>
    if omitEmpty ∧ children.pruned.isEmpty then none else some (kind.value children.pruned)

def Forest.pruned {kind : Kind} : Forest kind → List (kind.Label × Value)
  | .nil                  => []
  | .cons label tree rest => (tree.pruned.map ((label, ·))).toList ++ rest.pruned

end

theorem blank_newline (levelIndentation indent : Int) : Blank (newline levelIndentation indent) := by
  intro c hc
  rw [newline] at hc
  split at hc
  case isTrue  => cases hc
  case isFalse =>
    rcases List.mem_cons.mp hc with rfl | hc
    case inl => rfl
    case inr => rw [(List.mem_replicate.mp hc).2]; rfl

-- The text of a child: its name, if it has one, and its value.
def Child {kind : Kind} (text : List Char) (child : kind.Label × Value) : Prop :=
  ∃ value, text = nameText (kind.name child.1) ++ value ∧ Written value child.2

theorem written_kind {kind : Kind} {ws ws' : List Char} {texts : List (List Char)} {children : List (kind.Label × Value)}
    (hw : Blank ws) (hw' : Blank ws') (h : List.Forall₂ Child texts children) :
    Written (kind.opening :: (ws ++ ((',' :: ws).intercalate texts ++ (ws' ++ [kind.closing])))) (kind.value children) := by
  cases kind with
  | struct =>
    refine written_object hw hw' (List.forall₂_map_right_iff.mpr (h.imp ?_))
    rintro text ⟨name, v⟩ ⟨value, rfl, hv⟩
    simpa [nameText, nameParts, Kind.name] using member_laid hv
  | array  =>
    refine written_array hw hw' (List.forall₂_map_right_iff.mpr (h.imp ?_))
    rintro text ⟨name, v⟩ ⟨value, rfl, hv⟩
    simpa [nameText, nameParts, Kind.name] using hv

mutual

-- The text of a tree is that of the pruned tree.
theorem Tree.text_written (levelIndentation indent : Int) : (tree : Tree) → tree.printable →
    Option.Rel Written (tree.text levelIndentation indent) tree.pruned
  | .null,   _  => .some written_null
  | .bool _, _  => .some written_bool
  | .int _,  hp => .some (written_int (of_decide_eq_true hp))
  | .str _,  _  => .some written_string
  | .aggregate kind omitEmpty children, hp => by
    have h := children.texts_written levelIndentation (indent + levelIndentation) hp
    have he : children.pruned.isEmpty ↔ children.texts levelIndentation (indent + levelIndentation) = [] := by
      rw [List.isEmpty_iff, ← List.length_eq_zero_iff, ← List.length_eq_zero_iff, h.length_eq]
    rw [Tree.text, Tree.pruned]
    simp only [he]
    split
    case isTrue  => exact .none
    case isFalse => exact .some (written_kind (blank_newline _ _) (blank_newline _ _) h)

theorem Forest.texts_written (levelIndentation indent : Int) {kind : Kind} : (children : Forest kind) → children.printable →
    List.Forall₂ Child (children.texts levelIndentation indent) children.pruned
  | .nil,                  _  => .nil
  | .cons label tree rest, hp => by
    obtain ⟨hpt, hpr⟩ := Bool.and_eq_true_iff.mp hp
    have ht := tree.text_written levelIndentation indent hpt
    have hr := rest.texts_written levelIndentation indent hpr
    rw [texts_cons, Forest.pruned]
    revert ht
    generalize tree.text levelIndentation indent = text
    generalize tree.pruned = value
    rintro (hv | -)
    case some => exact .cons ⟨_, rfl, hv⟩ hr
    case none => exact hr

end

theorem ready_reset (levelIndentation : Int) : (Engine.reset levelIndentation).Ready where
  root           := ⟨rfl, rfl⟩
  content _ hi h := absurd hi (Nat.not_lt.mpr h)
  count _ _ _    := rfl
  level          := Nat.succ_pos 255

-- The text that is written is the text of the tree, and nothing if the tree is left out.
theorem encode_text (levelIndentation : Int) {top : Tree} (hp : top.printable) (h : top.depth < MAX_NESTED_LEVELS) :
    encode levelIndentation top = .ok ((top.text levelIndentation 0).getD []) := by
  have hd : (Engine.reset levelIndentation).currentLevel + top.depth < MAX_NESTED_LEVELS := by
    change 0 + top.depth < _
    omega
  obtain ⟨e, he, hputs⟩ := top.drive_puts none (ready_reset levelIndentation) hp hd
  rw [encode, he]
  refine congrArg Except.ok ?_
  change Puts ((top.text levelIndentation 0).toList.map _) _ e at hputs
  cases ht : top.text levelIndentation 0 with
  | none      =>
    rw [ht] at hputs
    exact (hputs.none rfl).output
  | some text =>
    rw [ht] at hputs
    have hw := (hputs.some (List.cons_ne_nil _ _)).output
    simpa [Engine.reset, Engine.pending, Engine.header, Level.new, nameText, nameParts] using hw

-- What is written is read as the tree without what is left out, and what is too deep is refused.
theorem encode_exact (levelIndentation : Int) (top : Tree) (hp : top.printable) :
    (top.depth < MAX_NESTED_LEVELS → ∃ text, encode levelIndentation top = .ok text ∧
      match top.pruned with
      | some value => loads text = some value
      | none       => text = []) ∧
    (MAX_NESTED_LEVELS ≤ top.depth → encode levelIndentation top = .error .tooManyNestedLevels) := by
  refine ⟨fun h => ⟨_, encode_text levelIndentation hp h, ?_⟩, fun h => ?_⟩
  · have hw := top.text_written levelIndentation 0 hp
    revert hw
    generalize top.text levelIndentation 0 = text
    generalize top.pruned = value
    rintro (hv | -)
    case some => exact loads_written hv
    case none => rfl
  · have hdeep := top.drive_deep none (ready_reset levelIndentation) hp (h.trans (Nat.le_add_left _ _))
    rw [encode, hdeep]
    rfl

-- A struct with a label, a negative version, tags that are left out, and a list that is not.
def labelled : Tree :=
  .aggregate .struct false <|
    .cons "tags" (.aggregate .struct true (.cons "none" (.aggregate .array true .nil) .nil)) <|
    .cons "label" (.str "a") <|
    .cons "version" (.int (-12)) <|
    .cons "parents" (.aggregate .array false .nil) .nil

example : encode 2 labelled =
    .ok "\x7b\n  \"label\":\"a\",\n  \"version\":-12,\n  \"parents\":[\n    \n  ]\n\x7d".toList := by
  decide +kernel

theorem encode_exact_labelled : ∃ text, encode 2 labelled = .ok text ∧
    loads text = some (.object [(Str.of "label", .str (Str.of "a")), (Str.of "version", .int (-12)),
      (Str.of "parents", .array [])]) :=
  (encode_exact 2 labelled (by decide)).1 (by decide)

-- The least integer with more digits than are printed.
def overlong : Tree :=
  .int (10 ^ MAX_STR_DIGITS)

theorem overlong_raises : overlong.depth < MAX_NESTED_LEVELS ∧ encode 0 overlong = .error .valueError := by
  have hp : ¬Printable (10 ^ MAX_STR_DIGITS) := by
    have hten : (10 : Int).natAbs = 10 := rfl
    rw [printable_iff, Int.natAbs_pow, hten]
    exact lt_irrefl (10 ^ MAX_STR_DIGITS)
  have htext : strInt (10 ^ MAX_STR_DIGITS) = none := if_neg hp
  refine ⟨by decide, ?_⟩
  rw [encode, overlong, Tree.drive, Engine.writeInt, htext]
  rfl

end JsonEngine
