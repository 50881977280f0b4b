import NmosReference.Library.JsonWriting

-- Texts of arrays and objects with white space between the items, as an indenting writer lays them out.
namespace Json

-- Nothing but white space.
def Blank (ws : List Char) : Prop :=
  ∀ c ∈ ws, isWs c

section Items

variable {α : Type} {item : Reader α} {close : Char} {ws ws' cs t : List Char}

theorem Blank.skipWs_append (h : Blank ws) : skipWs (ws ++ cs) = skipWs cs :=
  List.dropWhile_append_of_pos h

theorem Blank.append (h : Blank ws) (h' : Blank ws') : Blank (ws ++ ws') := by
  intro c hc
  exact (List.mem_append.mp hc).elim (h c) (h' c)

theorem Blank.stops (h : Blank ws) {c : Char} (hc : Stops (c :: t)) : Stops (ws ++ c :: t) :=
  stops_ws h hc

-- The text of an item, however it is followed. It does not look like what ends the items.
structure Reads (item : Reader α) (close : Char) (text : List Char) (a : α) : Prop where
  start : ∃ c cs, text = c :: cs ∧ isWs c = false ∧ c ≠ close
  read  : ∀ t, Stops t → item (text ++ t) = some (a, t)

theorem Reads.skipWs_append {text : List Char} {a : α} (h : Reads item close text a) : skipWs (text ++ t) = text ++ t := by
  obtain ⟨c, cs, rfl, hc, -⟩ := h.start
  exact List.dropWhile_cons_of_neg (by simp [hc])

-- A closing character that neither a number nor another item goes on with.
structure Closing (close : Char) : Prop where
  stops : Stops [close]
  comma : close ≠ ','
  plain : isWs close = false

theorem Closing.stops_cons (h : Closing close) : Stops (close :: t) :=
  Json.stops_cons.mpr (Json.stops_cons.mp h.stops)

theorem Closing.skipWs_cons (h : Closing close) : skipWs (close :: t) = close :: t :=
  List.dropWhile_cons_of_neg (by simp [h.plain])

theorem closing_brace : Closing '}' :=
  ⟨stops_brace, by decide, rfl⟩

theorem closing_bracket : Closing ']' :=
  ⟨stops_bracket, by decide, rfl⟩

theorem intercalate_start (sep text : List Char) (texts : List (List Char)) :
    ∃ cs, sep.intercalate (text :: texts) = text ++ cs := by
  cases texts with
  | nil      => exact ⟨[], by simp⟩
  | cons _ _ => exact ⟨_, List.intercalate_cons_cons.trans (List.append_assoc _ _ _)⟩

theorem separated_laid {texts : List (List Char)} {as : List α} {k : Nat} (hc : Closing close) (hw : Blank ws)
    (hw' : Blank ws') (hne : texts ≠ []) (hk : texts.length ≤ k) (h : List.Forall₂ (Reads item close) texts as) :
    separated item close k ((',' :: ws).intercalate texts ++ (ws' ++ close :: t)) = some (as, t) := by
  induction h generalizing k with
  | nil => contradiction
  | @cons text a texts as hr hrs ih =>
    obtain ⟨k, rfl⟩ : ∃ k', k = k' + 1 := ⟨k - 1, by simp at hk; omega⟩
    cases texts with
    | nil =>
      cases hrs
      have hread := hr.read _ (hw'.stops (hc.stops_cons (t := t)))
      simp [separated, hread, hw'.skipWs_append, hc.skipWs_cons]
    | cons text' texts =>
      have hih := ih (List.cons_ne_nil _ _) (by simpa using hk)
      obtain ⟨cs, hcs⟩ := intercalate_start (',' :: ws) text' texts
      cases hrs with
      | cons hr' hrs =>
        have hstart := hr'.skipWs_append (t := cs ++ (ws' ++ close :: t))
        have hread := hr.read (',' :: (ws ++ (text' ++ (cs ++ (ws' ++ close :: t))))) (Json.stops_cons.mpr (by decide))
        have hcomma {t : List Char} : skipWs (',' :: t) = ',' :: t := List.dropWhile_cons_of_neg (by decide)
        rw [hcs, List.append_assoc] at hih
        rw [List.intercalate_cons_cons, hcs]
        simp only [List.append_assoc, List.cons_append] at hread hih ⊢
        simp [separated, hread, hcomma, hc.comma.symm, hw.skipWs_append, hstart, hih]

theorem length_le_intercalate {texts : List (List Char)} {as : List α} (sep : List Char)
    (h : List.Forall₂ (Reads item close) texts as) : texts.length ≤ (sep.intercalate texts).length := by
  induction h with
  | nil                        => simp
  | @cons text a texts as hr _ ih =>
    obtain ⟨c, cs, rfl, -⟩ := hr.start
    cases texts with
    | nil      => simp
    | cons _ _ =>
      rw [List.intercalate_cons_cons]
      simp only [List.length_append, List.length_cons] at ih ⊢
      omega

-- Items between an opening character and the closing one.
theorem bracketed_laid {texts : List (List Char)} {as : List α} (hc : Closing close) (hw : Blank ws) (hw' : Blank ws')
    (h : List.Forall₂ (Reads item close) texts as) :
    bracketed item close (ws ++ ((',' :: ws).intercalate texts ++ (ws' ++ close :: t))) = some (as, t) := by
  have hsep (hne : texts ≠ []) {k : Nat} (hk : texts.length ≤ k) := separated_laid (t := t) hc hw hw' hne hk h
  cases h with
  | nil => simp [bracketed, hw.skipWs_append, hw'.skipWs_append, hc.skipWs_cons]
  | @cons text a texts as hr hrs =>
    have hlen := length_le_intercalate (',' :: ws) (.cons hr hrs)
    obtain ⟨c, cs, rfl, hws, hcl⟩ := hr.start
    obtain ⟨cs', hcs⟩ := intercalate_start (',' :: ws) (c :: cs) texts
    rw [hcs] at hlen hsep ⊢
    have hskip : skipWs (c :: (cs ++ (cs' ++ (ws' ++ close :: t)))) = c :: (cs ++ (cs' ++ (ws' ++ close :: t))) :=
      List.dropWhile_cons_of_neg (by simp [hws])
    have hread := hsep (List.cons_ne_nil _ _) (k := (cs ++ (cs' ++ (ws' ++ close :: t))).length + 1) (by
      simp at hlen ⊢
      omega)
    simp only [List.append_assoc, List.cons_append] at hread ⊢
    rw [bracketed, hw.skipWs_append, hskip]
    simp only [if_neg hcl, hread]

end Items

section Values

variable {text ws ws' cs t : List Char} {v : Value}

theorem rawDecode_plain {c : Char} (hq : c ≠ '"') (ho : c ≠ '{') (ha : c ≠ '[') :
    rawDecode (c :: cs) = (scanConstant (c :: cs)).or (scanNumber (c :: cs)) :=
  scanOnce_plain hq ho ha

-- No value begins with what ends an array or an object.
theorem rawDecode_close {c : Char} (h : c = ']' ∨ c = '}') : rawDecode (c :: cs) = none := by
  have hint (hd : c.isDigit = false) (h0 : c ≠ '0') : scanInt (c :: cs) = none := by
    simp [scanInt, List.span_eq_takeWhile_dropWhile, hd, h0]
  obtain rfl | rfl := h
  all_goals
    rw [rawDecode_plain (by decide) (by decide) (by decide)]
    simp [scanConstant, constants, scanNumber, scanUnsigned, hint rfl (by decide)]

theorem Written.item {close : Char} (h : Written text v) (hc : close = ']' ∨ close = '}') :
    Reads rawDecode close text v where
  start := by
    obtain ⟨c, cs, rfl⟩ := List.exists_cons_of_ne_nil h.nonempty
    refine ⟨c, cs, rfl, ?_, ?_⟩
    · simpa using List.dropWhile_eq_self_iff.mp h.start
    · rintro rfl
      have hread := h.reads [] stops_nil
      rw [List.cons_append, rawDecode_close hc] at hread
      cases hread
  read := h.reads

theorem member_laid {name : String} (h : Written text v) :
    Reads (member rawDecode) '}' (dumpString name ++ ':' :: text) (Str.of name, v) where
  start := ⟨'"', _, rfl, rfl, by decide⟩
  read t ht := by
    have e : dumpString name ++ ':' :: text ++ t = '"' :: (name.toList.flatMap dumpChar ++ '"' :: ':' :: (text ++ t)) := by
      simp [dumpString]
    have hcolon : skipWs (':' :: (text ++ t)) = ':' :: (text ++ t) := List.dropWhile_cons_of_neg (by decide)
    rw [e, member]
    simp [scanString_dumpString, hcolon, h.skipWs_append, h.reads t ht]

theorem rawDecode_bracket : rawDecode ('[' :: cs) = array rawDecode cs := by
  change array (scanOnce cs.length) cs = _
  unfold array
  rw [bracketed_congr (fun t ht => scanOnce_eq_rawDecode ht.length_le) fun t v t' => rawDecode_suffix]

-- How an array is laid out. The text of an element is that of its value.
theorem written_array {texts : List (List Char)} {vs : List Value} (hw : Blank ws) (hw' : Blank ws')
    (h : List.Forall₂ Written texts vs) :
    Written ('[' :: (ws ++ ((',' :: ws).intercalate texts ++ (ws' ++ [']'])))) (.array vs) where
  start    := rfl
  nonempty := List.cons_ne_nil _ _
  reads t _ := by
    have hb := bracketed_laid (t := t) closing_bracket hw hw' (h.imp fun text v hv => hv.item (.inl rfl))
    simp only [List.cons_append, List.append_assoc, List.nil_append]
    rw [rawDecode_bracket, array, hb]
    rfl

-- How an object is laid out. The text of a member is its name, a colon and the text of its value.
theorem written_object {texts : List (List Char)} {ms : List (Str × Value)} (hw : Blank ws) (hw' : Blank ws')
    (h : List.Forall₂ (Reads (member rawDecode) '}') texts ms) :
    Written ('{' :: (ws ++ ((',' :: ws).intercalate texts ++ (ws' ++ ['}'])))) (.object (dictOf ms).items) where
  start    := rfl
  nonempty := List.cons_ne_nil _ _
  reads t _ := by
    have hb := bracketed_laid (t := t) closing_brace hw hw' h
    simp only [List.cons_append, List.append_assoc, List.nil_append]
    rw [rawDecode_brace, object, hb]
    rfl

theorem loads_written (h : Written text v) : loads text = some v := by
  have hread := h.reads [] stops_nil
  exact loads_used hread h.reads h.start

theorem written_constant {p : String × Value} (h : p ∈ constants) : Written p.1.toList p.2 := by
  simp only [constants, List.mem_cons, List.not_mem_nil, or_false] at h
  obtain rfl | rfl | rfl | rfl | rfl | rfl := h
  all_goals exact ⟨rfl, by decide, fun t _ => (rawDecode_plain (by decide) (by decide) (by decide)).trans rfl⟩

theorem written_bool {b : Bool} : Written (if b then "true" else "false").toList (.bool b) := by
  cases b with
  | true  => exact written_constant (p := ("true", _)) (by simp [constants])
  | false => exact written_constant (p := ("false", _)) (by simp [constants])

theorem written_null : Written "null".toList .null :=
  written_constant (p := ("null", _)) (by simp [constants])

end Values
end Json
