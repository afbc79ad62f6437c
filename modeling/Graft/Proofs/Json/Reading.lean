import Mathlib.Data.List.DropRight
import Graft.Proofs.Json.Written

/-! # What is written is read

The reader gives the tree of a value that is written out and stops behind it, as long as nothing
follows that could belong to a number (`Delimited`).  The induction is on the bound of the reader, for
a value, for the items of an array and for the members of an object at once (`Reads`); a whole text
has room for all of it (`ofText_text`). -/

namespace Graft.Json

open Text (joinWith joinWith_cons joinWith_singleton)

variable {t u rest : Text} {fuel : Nat}

/-! ### White space -/

theorem skipSpace_append (s : Space) (t : Text) : skipSpace (s.1 ++ t) = skipSpace t :=
  List.dropWhile_append_of_pos (List.all_eq_true.mp s.2)

theorem skipSpace_cons {c : Char} (h : isSpace c = false) (t : Text) :
    skipSpace (c :: t) = c :: t := by
  unfold skipSpace
  rw [List.dropWhile_cons, h, if_neg Bool.false_ne_true]

theorem skipSpace_skipSpace (t : Text) : skipSpace (skipSpace t) = skipSpace t :=
  List.dropWhile_idempotent isSpace t

theorem delimited_append (s : Space) (h : Delimited t) : Delimited (s.1 ++ t) := by
  intro c hc
  cases hs : s.1 with
  | nil =>
      rw [hs] at hc
      exact h c hc
  | cons d ds =>
      rw [hs] at hc
      have hspace := List.all_eq_true.mp s.2 d (by rw [hs]; exact List.mem_cons_self)
      exact .inl (by rwa [← Option.some.inj hc])

theorem delimited_space (s : Space) : Delimited s.1 := by
  have h := delimited_append s delimited_nil
  rwa [List.append_nil] at h

theorem delimited_cons {c : Char} (h : c = ',' ∨ c = ']' ∨ c = '}') (t : Text) :
    Delimited (c :: t) := by
  intro d hd
  rw [← Option.some.inj hd]
  exact .inr h

theorem read_skipSpace (fuel : Nat) (t : Text) :
    Node.read fuel (skipSpace t) = Node.read fuel t := by
  cases fuel with
  | zero => rfl
  | succ fuel =>
      unfold Node.read
      rw [skipSpace_skipSpace]

theorem read_append (s : Space) (fuel : Nat) (t : Text) :
    Node.read fuel (s.1 ++ t) = Node.read fuel t := by
  rw [← read_skipSpace, skipSpace_append, read_skipSpace]

/-! ### Values -/

theorem word_append (w : List Char) (rest : Text) : word w (w ++ rest) = .ok rest := by
  induction w with
  | nil => rfl
  | cons c w ih =>
      rw [List.cons_append, word, if_pos rfl, ih]

theorem ofWord_append (w : List Char) (n : Node) (rest : Text) :
    Node.ofWord w n (w ++ rest) = (n, rest) := by
  unfold Node.ofWord
  rw [word_append]

theorem ofString_marks (ms : List Mark) (rest : Text) :
    Node.ofString (marksText ms ++ '"' :: rest) = (.string (Mark.meaning ms), rest) := by
  unfold Node.ofString
  rw [skipString_marks, readString_meaning]

theorem ofNumber_text (n : Numeral) (h : Delimited rest) :
    Node.ofNumber (n.text ++ rest) = (.number ((readNumber n.text).map (·.1)), rest) := by
  unfold Node.ofNumber
  rw [skipNumber_text n h, readNumber_text n h]

theorem read_quote (fuel : Nat) (t : Text) : Node.read (fuel + 1) ('"' :: t) = Node.ofString t := rfl

theorem read_bracket_close (h : skipSpace t = ']' :: rest) (fuel : Nat) :
    Node.read (fuel + 1) ('[' :: t) = (.array [] .closed, rest) := by
  rw [Node.read, skipSpace_cons (by decide)]
  simp only [h]
  rfl

theorem read_bracket_items {c : Char} (h : skipSpace t = c :: u) (hc : c ≠ ']') (fuel : Nat) :
    Node.read (fuel + 1) ('[' :: t) =
      (.array (Node.readItems fuel (skipSpace t)).1 (Node.readItems fuel (skipSpace t)).2.1,
        (Node.readItems fuel (skipSpace t)).2.2) := by
  have hdigit : '['.isDigit = false := by decide
  rw [Node.read, skipSpace_cons (by decide)]
  simp only [Char.reduceEq, if_false, if_true, decide_false, Bool.false_or, hdigit,
    Bool.false_eq_true, h]
  split
  · next heq => exact absurd (List.cons.inj heq).1 hc
  · next heq => simp at heq
  · rfl

theorem read_brace_close (h : skipSpace t = '}' :: rest) (fuel : Nat) :
    Node.read (fuel + 1) ('{' :: t) = (.object [] .closed, rest) := by
  rw [Node.read, skipSpace_cons (by decide)]
  simp only [h]
  rfl

theorem read_brace_members (h : (skipSpace t).head? ≠ some '}') (fuel : Nat) :
    Node.read (fuel + 1) ('{' :: t) =
      (.object (Node.readMembers fuel (skipSpace t)).1 (Node.readMembers fuel (skipSpace t)).2.1,
        (Node.readMembers fuel (skipSpace t)).2.2) := by
  have hdigit : '{'.isDigit = false := by decide
  rw [Node.read, skipSpace_cons (by decide)]
  simp only [Char.reduceEq, if_false, if_true, decide_false, Bool.false_or, hdigit,
    Bool.false_eq_true]
  split
  · next heq => exact absurd (by rw [heq]; rfl) h
  · rfl

theorem isSpace_numberHead {c : Char} (h : c = '-' ∨ c.isDigit) : isSpace c = false := by
  rcases h with rfl | h
  · decide
  · rw [Bool.eq_false_iff]
    exact fun hspace => Bool.false_ne_true ((isDigit_of_isSpace hspace).symm.trans h)

theorem read_number {c : Char} (h : c = '-' ∨ c.isDigit) (fuel : Nat) (t : Text) :
    Node.read (fuel + 1) (c :: t) = Node.ofNumber (c :: t) := by
  have hne : ∀ d : Char, (d == '-' || d.isDigit) = false → c ≠ d := by
    rintro d hd rfl
    rcases h with rfl | h
    · exact absurd hd (by decide)
    · rw [h, Bool.or_true] at hd
      exact absurd hd (by decide)
  have hstart : (c = '-' || c.isDigit) = true := by
    rw [Bool.or_eq_true, decide_eq_true_iff]
    exact h
  rw [Node.read, skipSpace_cons (isSpace_numberHead h)]
  simp only [hne 'n' (by decide), hne 't' (by decide), hne 'f' (by decide), hne '"' (by decide),
    if_false, hstart, if_true]

namespace Written

/-- A value starts with a character that is neither white space nor the end of an array. -/
theorem exists_cons (w : Written) :
    ∃ c t, w.text = c :: t ∧ isSpace c = false ∧ c ≠ ']' := by
  cases w with
  | null => exact ⟨'n', _, by rw [text], by decide, by decide⟩
  | boolean b =>
      cases b with
      | false => exact ⟨'f', _, by rw [text], by decide, by decide⟩
      | true => exact ⟨'t', _, by rw [text], by decide, by decide⟩
  | number n =>
      obtain ⟨c, t, hc, hstart⟩ := n.exists_cons
      refine ⟨c, t, by rw [text, hc], isSpace_numberHead hstart, ?_⟩
      rintro rfl
      exact absurd hstart (by decide)
  | string ms => exact ⟨'"', _, by rw [text], by decide, by decide⟩
  | array space items => exact ⟨'[', _, by rw [text], by decide, by decide⟩
  | object space members => exact ⟨'{', _, by rw [text], by decide, by decide⟩

end Written

/-! ### Lists and objects -/

section

variable {n : Node}

theorem readItems_close (hread : Node.read fuel t = (n, u)) (hn : n.isBroken = false)
    (hu : skipSpace u = ']' :: rest) :
    Node.readItems (fuel + 1) t = ([n], .closed, rest) := by
  rw [Node.readItems]
  simp only [hread, hn, hu, Bool.false_eq_true, if_false]

theorem readItems_comma {c : Char} {v w : Text} (hread : Node.read fuel t = (n, u))
    (hn : n.isBroken = false) (hu : skipSpace u = ',' :: v) (hv : skipSpace v = c :: w)
    (hc : c ≠ ']') :
    Node.readItems (fuel + 1) t =
      (n :: (Node.readItems fuel (skipSpace v)).1, (Node.readItems fuel (skipSpace v)).2.1,
        (Node.readItems fuel (skipSpace v)).2.2) := by
  rw [Node.readItems]
  simp only [hread, hn, hu, hv, Bool.false_eq_true, if_false]
  split
  · next heq => simp at heq
  · next heq => exact absurd (List.cons.inj heq).1 hc
  · rfl

theorem readMembers_close {key : List Mark} {v w : Text} (hu : skipSpace u = ':' :: v)
    (hread : Node.read fuel v = (n, w)) (hn : n.isBroken = false)
    (hw : skipSpace w = '}' :: rest) :
    Node.readMembers (fuel + 1) ('"' :: (marksText key ++ '"' :: u)) =
      ([(Mark.meaning key, n)], .closed, rest) := by
  rw [Node.readMembers]
  simp only [skipString_marks, readString_meaning, hread, hn, hu, hw, Bool.false_eq_true, if_false]

theorem readMembers_comma {key : List Mark} {v w : Text} (hu : skipSpace u = ':' :: v)
    (hread : Node.read fuel v = (n, w)) (hn : n.isBroken = false)
    (hw : skipSpace w = ',' :: rest) :
    Node.readMembers (fuel + 1) ('"' :: (marksText key ++ '"' :: u)) =
      ((Mark.meaning key, n) :: (Node.readMembers fuel (skipSpace rest)).1,
        (Node.readMembers fuel (skipSpace rest)).2.1,
        (Node.readMembers fuel (skipSpace rest)).2.2) := by
  rw [Node.readMembers]
  simp only [skipString_marks, readString_meaning, hread, hn, hu, hw, Bool.false_eq_true, if_false]

end

namespace Written

variable {items : List (Spaced Written)} {members : List (Named Written)}

theorem isBroken_node (w : Written) : w.node.isBroken = false := by
  cases w <;> rw [node] <;> rfl

/-- The last item of an array, and what follows it. -/
theorem joinWith_itemTexts_singleton (i : Spaced Written) (u : Text) :
    joinWith [','] (itemTexts [i]) ++ u = i.before.1 ++ (i.value.text ++ (i.after.1 ++ u)) := by
  rw [itemTexts, itemTexts, joinWith_singleton, List.append_assoc, List.append_assoc]

/-- An item of an array and a comma, and what follows it. -/
theorem joinWith_itemTexts_cons (i : Spaced Written) (hne : items ≠ []) (u : Text) :
    joinWith [','] (itemTexts (i :: items)) ++ u =
      i.before.1 ++ (i.value.text ++ (i.after.1 ++
        ',' :: (joinWith [','] (itemTexts items) ++ u))) := by
  obtain ⟨j, js, rfl⟩ := List.exists_cons_of_ne_nil hne
  have htexts : itemTexts (j :: js) ≠ [] := by
    rw [itemTexts]
    exact List.cons_ne_nil _ _
  rw [itemTexts, joinWith_cons htexts]
  simp only [List.append_assoc]
  rfl

/-- The member of an object, as it stands from its key on. -/
def memberText (m : Named Written) : Text :=
  '"' :: (marksText m.key ++ '"' :: (m.after.1 ++
    ':' :: (m.item.before.1 ++ (m.item.value.text ++ m.item.after.1))))

theorem memberText_append (m : Named Written) (u : Text) :
    memberText m ++ u =
      '"' :: (marksText m.key ++ '"' :: (m.after.1 ++
        ':' :: (m.item.before.1 ++ (m.item.value.text ++ (m.item.after.1 ++ u))))) := by
  unfold memberText
  simp only [List.append_assoc, List.cons_append]

theorem skipSpace_memberText (m : Named Written) (u : Text) :
    skipSpace (memberText m ++ u) = memberText m ++ u := skipSpace_cons (by decide) _

theorem joinWith_memberTexts_singleton (m : Named Written) (u : Text) :
    joinWith [','] (memberTexts [m]) ++ u = m.before.1 ++ (memberText m ++ u) := by
  rw [memberTexts, memberTexts, joinWith_singleton, List.append_assoc]
  rfl

theorem joinWith_memberTexts_cons (m : Named Written) (hne : members ≠ []) (u : Text) :
    joinWith [','] (memberTexts (m :: members)) ++ u =
      m.before.1 ++ (memberText m ++ ',' :: (joinWith [','] (memberTexts members) ++ u)) := by
  obtain ⟨j, js, rfl⟩ := List.exists_cons_of_ne_nil hne
  have htexts : memberTexts (j :: js) ≠ [] := by
    rw [memberTexts]
    exact List.cons_ne_nil _ _
  rw [memberTexts, joinWith_cons htexts]
  simp only [List.append_assoc]
  rfl

/-- Where members are due, a key starts. -/
theorem skipSpace_memberTexts (hne : members ≠ []) (u : Text) :
    (skipSpace (joinWith [','] (memberTexts members) ++ u)).head? = some '"' := by
  obtain ⟨m, ms, rfl⟩ := List.exists_cons_of_ne_nil hne
  cases ms with
  | nil =>
      rw [joinWith_memberTexts_singleton, skipSpace_append, skipSpace_memberText]
      rfl
  | cons m' ms =>
      rw [joinWith_memberTexts_cons m (List.cons_ne_nil m' ms), skipSpace_append,
        skipSpace_memberText]
      rfl

/-- Where items are due, one starts. -/
theorem skipSpace_itemTexts (hne : items ≠ []) (u : Text) :
    ∃ c t, skipSpace (joinWith [','] (itemTexts items) ++ u) = c :: t ∧ c ≠ ']' := by
  obtain ⟨i, is, rfl⟩ := List.exists_cons_of_ne_nil hne
  obtain ⟨c, t, hc, hspace, hclose⟩ := i.value.exists_cons
  have hstart : ∀ v : Text, skipSpace (i.before.1 ++ (i.value.text ++ v)) = c :: (t ++ v) := by
    intro v
    rw [skipSpace_append, hc, List.cons_append, skipSpace_cons hspace]
  cases is with
  | nil => exact ⟨c, _, by rw [joinWith_itemTexts_singleton, hstart], hclose⟩
  | cons j js =>
      exact ⟨c, _, by rw [joinWith_itemTexts_cons i (List.cons_ne_nil j js), hstart], hclose⟩

end Written

/-! ### The reader on what is written -/

/-- The reader gives the tree of what is written, as far as its bound goes.  Each character allows for
two steps, as a value and the list or object it stands in take one each. -/
structure Reads (fuel : Nat) : Prop where
  value : ∀ (w : Written) (rest : Text), Delimited rest → 2 * w.text.length ≤ fuel →
    Node.read fuel (w.text ++ rest) = (w.node, rest)
  items : ∀ (items : List (Spaced Written)) (rest : Text), items ≠ [] →
    2 * (joinWith [','] (Written.itemTexts items)).length + 1 ≤ fuel →
    Node.readItems fuel (skipSpace (joinWith [','] (Written.itemTexts items) ++ ']' :: rest)) =
      (Written.itemNodes items, .closed, rest)
  members : ∀ (members : List (Named Written)) (rest : Text), members ≠ [] →
    2 * (joinWith [','] (Written.memberTexts members)).length + 1 ≤ fuel →
    Node.readMembers fuel
        (skipSpace (joinWith [','] (Written.memberTexts members) ++ '}' :: rest)) =
      (Written.memberNodes members, .closed, rest)

theorem reads_zero : Reads 0 where
  value w rest _ hlen := by
    obtain ⟨c, t, hw, -⟩ := w.exists_cons
    rw [hw] at hlen
    simp at hlen
  items _ _ _ hlen := absurd hlen (by omega)
  members _ _ _ hlen := absurd hlen (by omega)

theorem read_array_succ (h : Reads fuel) (space : Space) (items : List (Spaced Written)) (rest : Text)
    (hlen : 2 * (Written.array space items).text.length ≤ fuel + 1) :
    Node.read (fuel + 1) ((Written.array space items).text ++ rest) =
      ((Written.array space items).node, rest) := by
  rw [Written.text, List.length_cons, List.length_append, List.length_append] at hlen
  rw [Written.text, Written.node, List.cons_append, List.append_assoc, List.append_assoc,
    List.singleton_append]
  cases items with
  | nil =>
      have hclose : skipSpace (space.1 ++ (joinWith [','] (Written.itemTexts []) ++ ']' :: rest)) =
          ']' :: rest := by
        rw [skipSpace_append]
        rfl
      rw [read_bracket_close hclose]
      rfl
  | cons i items =>
      obtain ⟨c, u, hstart, hc⟩ :=
        Written.skipSpace_itemTexts (List.cons_ne_nil i items) (']' :: rest)
      have hread := h.items (i :: items) rest (List.cons_ne_nil i items) (by omega)
      rw [← skipSpace_append space] at hstart hread
      rw [read_bracket_items hstart hc, hread]

theorem read_object_succ (h : Reads fuel) (space : Space) (members : List (Named Written))
    (rest : Text) (hlen : 2 * (Written.object space members).text.length ≤ fuel + 1) :
    Node.read (fuel + 1) ((Written.object space members).text ++ rest) =
      ((Written.object space members).node, rest) := by
  rw [Written.text, List.length_cons, List.length_append, List.length_append] at hlen
  rw [Written.text, Written.node, List.cons_append, List.append_assoc, List.append_assoc,
    List.singleton_append]
  cases members with
  | nil =>
      have hclose :
          skipSpace (space.1 ++ (joinWith [','] (Written.memberTexts []) ++ '}' :: rest)) =
            '}' :: rest := by
        rw [skipSpace_append]
        rfl
      rw [read_brace_close hclose]
      rfl
  | cons m members =>
      have hne := List.cons_ne_nil m members
      have hstart := Written.skipSpace_memberTexts hne ('}' :: rest)
      have hread := h.members (m :: members) rest hne (by omega)
      rw [← skipSpace_append space] at hstart hread
      rw [read_brace_members (by rw [hstart]; decide), hread]

theorem read_value_succ (h : Reads fuel) (w : Written) (hrest : Delimited rest)
    (hlen : 2 * w.text.length ≤ fuel + 1) :
    Node.read (fuel + 1) (w.text ++ rest) = (w.node, rest) := by
  cases w with
  | null =>
      rw [Written.text, Written.node]
      exact ofWord_append ['u', 'l', 'l'] .null rest
  | boolean b =>
      cases b with
      | false =>
          rw [Written.text, Written.node]
          exact ofWord_append ['a', 'l', 's', 'e'] (.boolean false) rest
      | true =>
          rw [Written.text, Written.node]
          exact ofWord_append ['r', 'u', 'e'] (.boolean true) rest
  | number n =>
      obtain ⟨c, t, hc, hstart⟩ := n.exists_cons
      rw [Written.text, Written.node, hc, List.cons_append, read_number hstart, ← List.cons_append,
        ← hc, ofNumber_text n hrest]
  | string ms =>
      rw [Written.text, Written.node, List.cons_append, List.append_assoc, read_quote]
      exact ofString_marks ms rest
  | array space items => exact read_array_succ h space items rest hlen
  | object space members => exact read_object_succ h space members rest hlen

theorem readItems_succ (h : Reads fuel) {items : List (Spaced Written)} (hne : items ≠ [])
    (hlen : 2 * (joinWith [','] (Written.itemTexts items)).length + 1 ≤ fuel + 1) (rest : Text) :
    Node.readItems (fuel + 1)
        (skipSpace (joinWith [','] (Written.itemTexts items) ++ ']' :: rest)) =
      (Written.itemNodes items, .closed, rest) := by
  obtain ⟨i, is, rfl⟩ := List.exists_cons_of_ne_nil hne
  have hafter : ∀ {c : Char} (v : Text), isSpace c = false →
      skipSpace (i.after.1 ++ c :: v) = c :: v := by
    intro c v hc
    rw [skipSpace_append, skipSpace_cons hc]
  have hvalue : ∀ v : Text, Delimited v → 2 * i.value.text.length ≤ fuel →
      Node.read fuel (skipSpace (i.before.1 ++ (i.value.text ++ (i.after.1 ++ v)))) =
        (i.value.node, i.after.1 ++ v) := by
    intro v hv hlen
    rw [read_skipSpace, read_append]
    exact h.value i.value _ (delimited_append i.after hv) hlen
  cases is with
  | nil =>
      have hsize : (joinWith [','] (Written.itemTexts [i])).length =
          i.before.1.length + (i.value.text.length + i.after.1.length) := by
        simp [Written.itemTexts, joinWith_singleton]
      rw [Written.joinWith_itemTexts_singleton,
        readItems_close (hvalue _ (delimited_cons (by decide) rest) (by omega))
          i.value.isBroken_node (hafter rest (by decide))]
      rfl
  | cons j js =>
      have hne' := List.cons_ne_nil j js
      obtain ⟨c, u, hstart, hc⟩ := Written.skipSpace_itemTexts hne' (']' :: rest)
      have hsize := congrArg List.length (Written.joinWith_itemTexts_cons i hne' [])
      simp only [List.append_nil, List.length_append, List.length_cons] at hsize
      rw [Written.joinWith_itemTexts_cons i hne',
        readItems_comma (hvalue _ (delimited_cons (by decide) _) (by omega))
          i.value.isBroken_node (hafter _ (by decide)) hstart hc,
        h.items (j :: js) rest hne' (by omega)]
      rfl

theorem readMembers_succ (h : Reads fuel) {members : List (Named Written)} (hne : members ≠ [])
    (hlen : 2 * (joinWith [','] (Written.memberTexts members)).length + 1 ≤ fuel + 1) (rest : Text) :
    Node.readMembers (fuel + 1)
        (skipSpace (joinWith [','] (Written.memberTexts members) ++ '}' :: rest)) =
      (Written.memberNodes members, .closed, rest) := by
  obtain ⟨m, ms, rfl⟩ := List.exists_cons_of_ne_nil hne
  have hcolon : ∀ v : Text, skipSpace (m.after.1 ++ ':' :: v) = ':' :: v := by
    intro v
    rw [skipSpace_append, skipSpace_cons (by decide)]
  have hafter : ∀ {c : Char} (v : Text), isSpace c = false →
      skipSpace (m.item.after.1 ++ c :: v) = c :: v := by
    intro c v hc
    rw [skipSpace_append, skipSpace_cons hc]
  have hvalue : ∀ v : Text, Delimited v → 2 * m.item.value.text.length ≤ fuel →
      Node.read fuel (m.item.before.1 ++ (m.item.value.text ++ (m.item.after.1 ++ v))) =
        (m.item.value.node, m.item.after.1 ++ v) := by
    intro v hv hlen
    rw [read_append]
    exact h.value m.item.value _ (delimited_append m.item.after hv) hlen
  cases ms with
  | nil =>
      have hsize := congrArg List.length (Written.joinWith_memberTexts_singleton m [])
      rw [Written.memberText_append] at hsize
      simp only [List.append_nil, List.length_append, List.length_cons] at hsize
      rw [Written.joinWith_memberTexts_singleton, skipSpace_append, Written.skipSpace_memberText,
        Written.memberText_append,
        readMembers_close (hcolon _) (hvalue _ (delimited_cons (by decide) rest) (by omega))
          m.item.value.isBroken_node (hafter rest (by decide))]
      rfl
  | cons m' ms =>
      have hne' := List.cons_ne_nil m' ms
      have hsize := congrArg List.length (Written.joinWith_memberTexts_cons m hne' [])
      rw [Written.memberText_append] at hsize
      simp only [List.append_nil, List.length_append, List.length_cons] at hsize
      rw [Written.joinWith_memberTexts_cons m hne', skipSpace_append, Written.skipSpace_memberText,
        Written.memberText_append,
        readMembers_comma (hcolon _) (hvalue _ (delimited_cons (by decide) _) (by omega))
          m.item.value.isBroken_node (hafter _ (by decide)),
        h.members (m' :: ms) rest hne' (by omega)]
      rfl

theorem reads (fuel : Nat) : Reads fuel := by
  induction fuel with
  | zero => exact reads_zero
  | succ fuel ih =>
      exact ⟨fun w rest hrest hlen => read_value_succ ih w hrest hlen,
        fun items rest hne hlen => readItems_succ ih hne hlen rest,
        fun members rest hne hlen => readMembers_succ ih hne hlen rest⟩

/-- What is written is read. -/
theorem ofText_text (d : Document) : Node.ofText d.text = (d.node, d.after.1) := by
  unfold Node.ofText Document.text
  rw [read_append]
  refine (reads _).value d.value d.after.1 (delimited_space d.after) ?_
  rw [List.length_append, List.length_append]
  omega

end Graft.Json
