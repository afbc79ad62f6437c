import Graft.Json.Scalar

/-! # How numbers are written

A number is written as a sign, digits, a fraction and an exponent, of which only the digits have to
be there.  The lenient reader steps over exactly the numerals (`skipNumber_text`, `exists_numeral`),
and what the strict one answers does not depend on what follows (`readNumber_text`). -/

namespace Graft.Json

/-- Decimal digits, at least one. -/
structure IsDigits (t : Text) : Prop where
  ne_nil : t ≠ []
  all : t.all Char.isDigit

/-- The exponent of a number. -/
structure Exponent where
  letter : Char
  sign : Text
  digits : Text
  isLetter : letter = 'e' ∨ letter = 'E'
  isSign : sign = [] ∨ sign = ['+'] ∨ sign = ['-']
  isDigits : IsDigits digits

/-- A number as it is written. -/
structure Numeral where
  negative : Bool
  whole : Text
  /-- The digits behind the point. -/
  fraction : Option { digits : Text // IsDigits digits }
  exponent : Option Exponent
  isDigits : IsDigits whole
  /-- A number does not start with a zero for nothing. -/
  eq_zero : whole.head? = some '0' → whole = ['0']

def Exponent.text (e : Exponent) : Text := e.letter :: (e.sign ++ e.digits)

namespace Numeral

def signText (n : Numeral) : Text := if n.negative then ['-'] else []

def fractionText (n : Numeral) : Text :=
  match n.fraction with
  | some digits => '.' :: digits.1
  | none => []

def exponentText (n : Numeral) : Text :=
  match n.exponent with
  | some e => e.text
  | none => []

def text (n : Numeral) : Text :=
  n.signText ++ (n.whole ++ (n.fractionText ++ n.exponentText))

end Numeral

/-- What can follow a value: nothing, white space, a comma or a closing bracket. -/
def Delimited (t : Text) : Prop :=
  ∀ c, t.head? = some c → isSpace c ∨ c = ',' ∨ c = ']' ∨ c = '}'

variable {t u rest digits : Text} {n : Numeral}

theorem Delimited.head?_ne {c : Char} (h : Delimited t)
    (hc : (isSpace c || c == ',' || c == ']' || c == '}') = false) : t.head? ≠ some c := by
  intro hhead
  simp only [Bool.or_eq_false_iff, beq_eq_false_iff_ne] at hc
  obtain ⟨⟨⟨hspace, hcomma⟩, hbracket⟩, hbrace⟩ := hc
  rcases h c hhead with h | h | h | h
  · rw [hspace] at h
    exact absurd h Bool.false_ne_true
  · exact hcomma h
  · exact hbracket h
  · exact hbrace h

theorem delimited_nil : Delimited [] := fun _ h => nomatch h

theorem isDigit_of_isSpace {c : Char} (h : isSpace c) : c.isDigit = false := by
  unfold isSpace at h
  simp only [Bool.or_eq_true, decide_eq_true_eq] at h
  rcases h with ((rfl | rfl) | rfl) | rfl <;> decide

theorem Delimited.isDigit_head {c : Char} (h : Delimited t) (hc : t.head? = some c) :
    c.isDigit = false := by
  rcases h c hc with h | rfl | rfl | rfl
  · exact isDigit_of_isSpace h
  · decide
  · decide
  · decide

/-! ### Digits -/

theorem IsDigits.exists_cons (h : IsDigits t) : ∃ c u, t = c :: u ∧ c.isDigit := by
  obtain ⟨c, u, rfl⟩ := List.exists_cons_of_ne_nil h.ne_nil
  exact ⟨c, u, rfl, List.all_eq_true.mp h.all c List.mem_cons_self⟩

/-- Digits end where something else starts. -/
def EndsDigits (t : Text) : Prop := ∀ c, t.head? = some c → c.isDigit = false

theorem Delimited.endsDigits (h : Delimited t) : EndsDigits t := fun _ => h.isDigit_head

theorem endsDigits_cons {c : Char} (h : c.isDigit = false) (t : Text) : EndsDigits (c :: t) := by
  intro d hd
  rwa [← Option.some.inj hd]

theorem takeWhile_digits (h : digits.all Char.isDigit) (hu : EndsDigits u) :
    (digits ++ u).takeWhile Char.isDigit = digits := by
  rw [List.takeWhile_append_of_pos (List.all_eq_true.mp h)]
  cases u with
  | nil => exact List.append_nil digits
  | cons c u => rw [List.takeWhile_cons, hu c rfl, if_neg Bool.false_ne_true, List.append_nil]

theorem dropWhile_digits (h : digits.all Char.isDigit) (hu : EndsDigits u) :
    (digits ++ u).dropWhile Char.isDigit = u := by
  rw [List.dropWhile_append_of_pos (List.all_eq_true.mp h)]
  cases u with
  | nil => rfl
  | cons c u => rw [List.dropWhile_cons, hu c rfl, if_neg Bool.false_ne_true]

theorem skipDigits_append (h : IsDigits digits) (hu : EndsDigits u) :
    skipDigits (digits ++ u) = some u := by
  obtain ⟨c, u', rfl, hc⟩ := h.exists_cons
  unfold skipDigits
  rw [dropWhile_digits h.all hu, List.cons_append, List.head?_cons, Option.any_some, if_pos hc]

theorem exists_digits_of_skipDigits (h : skipDigits t = some rest) :
    ∃ digits, IsDigits digits ∧ t = digits ++ rest := by
  unfold skipDigits at h
  split at h
  · next hhead =>
      obtain rfl := Option.some.inj h
      refine ⟨t.takeWhile Char.isDigit, ⟨?_, List.all_takeWhile⟩,
        List.takeWhile_append_dropWhile.symm⟩
      cases t with
      | nil => simp at hhead
      | cons c t =>
          have hc : c.isDigit := by simpa using hhead
          rw [List.takeWhile_cons, if_pos hc]
          exact List.cons_ne_nil _ _
  · simp at h

/-! ### Stepping over a number -/

/-- Steps over the digits before the point. -/
def skipWhole (t : Text) : Option Text :=
  if t.head? = some '0' then
    if (t.drop 1).head?.any Char.isDigit then none else some (t.drop 1)
  else skipDigits t

/-- Steps over the fraction, if there is one. -/
def skipFraction (t : Text) : Option Text :=
  match t with
  | '.' :: rest => skipDigits rest
  | rest => some rest

theorem skipNumber_eq (t : Text) :
    skipNumber t = (skipWhole (if t.head? = some '-' then t.drop 1 else t)).bind fun rest =>
      (skipFraction rest).bind skipExponent := by
  unfold skipNumber skipWhole
  generalize (if t.head? = some '-' then t.drop 1 else t) = t
  have hafter : ∀ rest : Text, (skipFraction rest).bind skipExponent =
      match rest with
      | '.' :: rest => (skipDigits rest).bind skipExponent
      | rest => skipExponent rest := by
    intro rest
    unfold skipFraction
    split <;> rfl
  by_cases hzero : t.head? = some '0'
  · by_cases hdigit : (t.drop 1).head?.any Char.isDigit
    · simp only [hzero, hdigit, decide_true, Bool.and_self, if_true, Option.bind_eq_bind,
        Option.bind_some, Option.bind_none]
    · simp only [hzero, hdigit, decide_true, Bool.and_false, if_true, if_false, Option.bind_eq_bind,
        Option.bind_some, hafter, Bool.false_eq_true]
      rfl
  · simp only [hzero, decide_false, Bool.false_and, if_false, Option.bind_eq_bind, Option.bind_some,
      hafter, Bool.false_eq_true]
    rfl

/-- The sign of an exponent, if it has one, and what follows it. -/
def splitSign (t : Text) : Bool × Text :=
  match t with
  | '+' :: t => (false, t)
  | '-' :: t => (true, t)
  | t => (false, t)

theorem splitSign_text (e : Exponent) (rest : Text) :
    splitSign (e.sign ++ (e.digits ++ rest)) = (decide (e.sign = ['-']), e.digits ++ rest) := by
  rcases e.isSign with h | h | h
  · obtain ⟨d, ds, hds, hd⟩ := e.isDigits.exists_cons
    rw [h, hds, List.nil_append, List.cons_append]
    unfold splitSign
    split
    · next heq =>
        rw [(List.cons.inj heq).1] at hd
        exact absurd hd (by decide)
    · next heq =>
        rw [(List.cons.inj heq).1] at hd
        exact absurd hd (by decide)
    · rfl
  · rw [h]
    rfl
  · rw [h]
    rfl

theorem skipExponent_cons (c : Char) (t : Text) :
    skipExponent (c :: t) =
      if c = 'e' || c = 'E' then skipDigits (splitSign t).2 else some (c :: t) := by
  unfold skipExponent
  by_cases hc : (c = 'e' || c = 'E') = true
  · simp only [if_pos hc]
    split
    · rfl
    · rfl
    · next hplus hminus => rw [splitSign.eq_3 t hplus hminus]
  · simp only [if_neg hc]

theorem Exponent.letter_eq (e : Exponent) : (e.letter = 'e' || e.letter = 'E') = true := by
  rw [Bool.or_eq_true, decide_eq_true_iff, decide_eq_true_iff]
  exact e.isLetter

theorem skipExponent_text (e : Exponent) (hrest : EndsDigits rest) :
    skipExponent (e.text ++ rest) = some rest := by
  unfold Exponent.text
  rw [List.cons_append, List.append_assoc, skipExponent_cons, if_pos e.letter_eq, splitSign_text]
  exact skipDigits_append e.isDigits hrest

theorem skipExponent_of_delimited (h : Delimited t) : skipExponent t = some t := by
  cases t with
  | nil => rfl
  | cons c t =>
      have hc : (c = 'e' || c = 'E') = false := by
        rw [Bool.or_eq_false_iff, decide_eq_false_iff_not, decide_eq_false_iff_not]
        exact ⟨fun e => h.head?_ne (c := 'e') (by decide) (by rw [e]; rfl),
          fun e => h.head?_ne (c := 'E') (by decide) (by rw [e]; rfl)⟩
      rw [skipExponent_cons, if_neg (by rw [hc]; exact Bool.false_ne_true)]

namespace Numeral

/-- What stands behind the digits of a number does not start with a digit. -/
theorem endsDigits_exponentText (n : Numeral) (h : Delimited rest) :
    EndsDigits (n.exponentText ++ rest) := by
  unfold exponentText
  split
  · next e _ =>
      have hletter : e.letter.isDigit = false := by
        rcases e.isLetter with h | h <;> rw [h] <;> decide
      exact endsDigits_cons hletter _
  · exact h.endsDigits

theorem endsDigits_fractionText (n : Numeral) (h : Delimited rest) :
    EndsDigits (n.fractionText ++ (n.exponentText ++ rest)) := by
  unfold fractionText
  split
  · exact endsDigits_cons (by decide) _
  · exact n.endsDigits_exponentText h

theorem skipExponent_exponentText (n : Numeral) (h : Delimited rest) :
    skipExponent (n.exponentText ++ rest) = some rest := by
  unfold exponentText
  split
  · next e _ => exact skipExponent_text e h.endsDigits
  · exact skipExponent_of_delimited h

theorem head?_exponentText_ne_point (n : Numeral) (h : Delimited rest) :
    (n.exponentText ++ rest).head? ≠ some '.' := by
  unfold exponentText
  split
  · next e _ =>
      intro hhead
      have hpoint : e.letter = '.' := Option.some.inj hhead
      rcases e.isLetter with h | h <;> rw [h] at hpoint <;> exact absurd hpoint (by decide)
  · exact h.head?_ne (by decide)

theorem skipFraction_fractionText (n : Numeral) (h : Delimited rest) :
    skipFraction (n.fractionText ++ (n.exponentText ++ rest)) = some (n.exponentText ++ rest) := by
  unfold fractionText
  split
  · next digits _ => exact skipDigits_append digits.2 (n.endsDigits_exponentText h)
  · rw [List.nil_append]
    unfold skipFraction
    split
    · next heq => exact absurd (by rw [heq]; rfl) (n.head?_exponentText_ne_point h)
    · rfl

theorem skipWhole_append (n : Numeral) (hu : EndsDigits u) :
    skipWhole (n.whole ++ u) = some u := by
  obtain ⟨d, ds, hds, -⟩ := n.isDigits.exists_cons
  unfold skipWhole
  by_cases hzero : d = '0'
  · have hwhole : n.whole = ['0'] := n.eq_zero (by rw [hds, hzero]; rfl)
    have hnot : u.head?.any Char.isDigit = false := by
      cases u with
      | nil => rfl
      | cons c u => exact hu c rfl
    rw [hwhole]
    show (if u.head?.any Char.isDigit then none else some u) = some u
    rw [hnot, if_neg Bool.false_ne_true]
  · have hhead : (n.whole ++ u).head? ≠ some '0' := by
      rw [hds]
      exact fun e => hzero (Option.some.inj e)
    rw [if_neg hhead, skipDigits_append n.isDigits hu]

theorem drop_signText (n : Numeral) (u : Text) :
    (if (n.signText ++ (n.whole ++ u)).head? = some '-' then (n.signText ++ (n.whole ++ u)).drop 1
      else n.signText ++ (n.whole ++ u)) = n.whole ++ u := by
  unfold signText
  split
  · rfl
  · obtain ⟨d, ds, hds, hd⟩ := n.isDigits.exists_cons
    have hhead : ([] ++ (n.whole ++ u)).head? ≠ some '-' := by
      rw [hds]
      intro e
      rw [Option.some.inj e] at hd
      exact absurd hd (by decide)
    rw [if_neg hhead, List.nil_append]

/-- A number starts with a sign or with a digit. -/
theorem exists_cons (n : Numeral) : ∃ c t, n.text = c :: t ∧ (c = '-' ∨ c.isDigit) := by
  obtain ⟨d, ds, hds, hd⟩ := n.isDigits.exists_cons
  unfold text signText
  split
  · exact ⟨'-', _, rfl, .inl rfl⟩
  · exact ⟨d, _, by rw [hds]; rfl, .inr hd⟩

theorem text_append (n : Numeral) (rest : Text) :
    n.text ++ rest =
      n.signText ++ (n.whole ++ (n.fractionText ++ (n.exponentText ++ rest))) := by
  unfold text
  simp only [List.append_assoc]

end Numeral

theorem skipNumber_text (n : Numeral) (h : Delimited rest) :
    skipNumber (n.text ++ rest) = some rest := by
  rw [n.text_append, skipNumber_eq, n.drop_signText,
    n.skipWhole_append (n.endsDigits_fractionText h), Option.bind_some,
    n.skipFraction_fractionText h, Option.bind_some, n.skipExponent_exponentText h]

/-! ### The value of a number -/

/-- A reader's answer with more behind what it left. -/
def carry (rest : Text) (answer : Except Fault (Number × Text)) : Except Fault (Number × Text) :=
  answer.map fun p => (p.1, p.2 ++ rest)

theorem float_append (negative : Bool) (s : Nat) (e : Int) (u rest : Text) :
    float negative s e (u ++ rest) = carry rest (float negative s e u) := by
  unfold float
  split <;> rfl

theorem integer_append (negative : Bool) (s : Nat) (u rest : Text) :
    integer negative s (u ++ rest) = carry rest (integer negative s u) := by
  unfold integer
  split
  · rfl
  · split <;> rfl

theorem readExponent_append (negative : Bool) (s : Nat) (i : Int) (e : Exponent)
    (hrest : EndsDigits rest) :
    readExponent negative s i (e.sign ++ e.digits ++ rest) =
      carry rest (readExponent negative s i (e.sign ++ e.digits)) := by
  have hread : ∀ t, readExponent negative s i t =
      if ((splitSign t).2.takeWhile Char.isDigit).isEmpty then .error (unexpected (splitSign t).2)
      else
        let n := ((splitSign t).2.takeWhile Char.isDigit).foldl (fun n c => n * 10 + digitValue c) 0
        if maxExponent < n then
          if s ≠ 0 && !(splitSign t).1 then .error .malformed
          else .ok (.float negative .zero, (splitSign t).2.dropWhile Char.isDigit)
        else float negative s (if (splitSign t).1 then i - n else i + n)
          ((splitSign t).2.dropWhile Char.isDigit) := fun _ => rfl
  have hsome : e.digits.isEmpty = false := List.isEmpty_eq_false_iff.mpr e.isDigits.ne_nil
  have hend : EndsDigits [] := delimited_nil.endsDigits
  have htake := takeWhile_digits e.isDigits.all hend
  have hdrop := dropWhile_digits e.isDigits.all hend
  have hsplit := splitSign_text e []
  rw [List.append_nil] at htake hdrop hsplit
  rw [hread, hread, List.append_assoc, splitSign_text, hsplit]
  simp only [takeWhile_digits e.isDigits.all hrest, dropWhile_digits e.isDigits.all hrest, htake,
    hdrop, hsome, Bool.false_eq_true, if_false]
  split
  · split <;> rfl
  · exact float_append negative s _ [] rest

/-- Reads an exponent if there is one, and finishes the number without one otherwise. -/
def readTail (negative : Bool) (s : Nat) (e : Int) (plain : Text → Except Fault (Number × Text))
    (t : Text) : Except Fault (Number × Text) :=
  match t with
  | 'e' :: t => readExponent negative s e t
  | 'E' :: t => readExponent negative s e t
  | t => plain t

theorem readTail_exponentText (n : Numeral) (h : Delimited rest) (negative : Bool) (s : Nat)
    (e : Int) {plain : Text → Except Fault (Number × Text)} (hplain : plain rest = carry rest (plain [])) :
    readTail negative s e plain (n.exponentText ++ rest) =
      carry rest (readTail negative s e plain n.exponentText) := by
  unfold Numeral.exponentText
  split
  · next x _ =>
      have happend := readExponent_append negative s e x h.endsDigits
      unfold Exponent.text
      rcases x.isLetter with hletter | hletter <;> rw [hletter] <;> exact happend
  · rw [List.nil_append]
    refine Eq.trans ?_ hplain
    unfold readTail
    split
    · exact absurd rfl (h.head?_ne (c := 'e') (by decide))
    · exact absurd rfl (h.head?_ne (c := 'E') (by decide))
    · rfl

theorem readFraction_eq (negative : Bool) (s : Nat) (i : Int) (t : Text) :
    readFraction negative s i t =
      if (t.takeWhile Char.isDigit).isEmpty then .error (unexpected t)
      else
        let (s, dropped) := appendDigits s (t.takeWhile Char.isDigit)
        let e := i - ((t.takeWhile Char.isDigit).length - dropped : Nat)
        readTail negative s e (float negative s e) (t.dropWhile Char.isDigit) := by
  have htail : ∀ (s : Nat) (e : Int) (u : Text), readTail negative s e (float negative s e) u =
      match u with
      | 'e' :: t => readExponent negative s e t
      | 'E' :: t => readExponent negative s e t
      | _ => float negative s e u := by
    intro s e u
    unfold readTail
    split <;> rfl
  simp only [htail]
  rfl

theorem readFraction_append (n : Numeral) (h : Delimited rest) (negative : Bool) (s : Nat) (i : Int)
    (hdigits : IsDigits digits) :
    readFraction negative s i (digits ++ (n.exponentText ++ rest)) =
      carry rest (readFraction negative s i (digits ++ n.exponentText)) := by
  have hsome : digits.isEmpty = false := List.isEmpty_eq_false_iff.mpr hdigits.ne_nil
  have hend := n.endsDigits_exponentText h
  have hend' := n.endsDigits_exponentText delimited_nil
  rw [List.append_nil] at hend'
  rw [readFraction_eq, readFraction_eq, takeWhile_digits hdigits.all hend,
    dropWhile_digits hdigits.all hend, takeWhile_digits hdigits.all hend',
    dropWhile_digits hdigits.all hend', hsome, if_neg Bool.false_ne_true, if_neg Bool.false_ne_true]
  exact readTail_exponentText n h negative _ _ (float_append negative _ _ [] rest)

/-- Reads what follows the digits before the point. -/
def readRest (negative : Bool) (s : Nat) (e : Int) (plain : Text → Except Fault (Number × Text))
    (t : Text) : Except Fault (Number × Text) :=
  match t with
  | '.' :: t => readFraction negative s e t
  | t => readTail negative s e plain t

theorem readRest_text (n : Numeral) (h : Delimited rest) (negative : Bool) (s : Nat) (e : Int)
    {plain : Text → Except Fault (Number × Text)} (hplain : plain rest = carry rest (plain [])) :
    readRest negative s e plain (n.fractionText ++ (n.exponentText ++ rest)) =
      carry rest (readRest negative s e plain (n.fractionText ++ n.exponentText)) := by
  have hnot : ∀ u, u.head? ≠ some '.' →
      readRest negative s e plain u = readTail negative s e plain u := by
    intro u hu
    unfold readRest
    split
    · exact absurd rfl hu
    · rfl
  have hpoint := n.head?_exponentText_ne_point delimited_nil
  rw [List.append_nil] at hpoint
  unfold Numeral.fractionText
  split
  · next digits _ => exact readFraction_append n h negative s e digits.2
  · rw [List.nil_append, List.nil_append, hnot _ (n.head?_exponentText_ne_point h), hnot _ hpoint]
    exact readTail_exponentText n h negative s e hplain

theorem readUnsigned_eq (negative : Bool) (t : Text) :
    readUnsigned negative t =
      if (t.takeWhile Char.isDigit).isEmpty then .error (unexpected t)
      else if (t.takeWhile Char.isDigit).head? = some '0' &&
          1 < (t.takeWhile Char.isDigit).length then
        .error .malformed
      else
        let (s, dropped) := appendDigits 0 (t.takeWhile Char.isDigit)
        readRest negative s dropped
          (fun t => if dropped = 0 then integer negative s t else float negative s dropped t)
          (t.dropWhile Char.isDigit) := by
  unfold readUnsigned
  simp only
  split
  · rfl
  split
  · rfl
  · generalize t.dropWhile Char.isDigit = u
    split
    · rfl
    · rfl
    · rfl
    · next hpoint hlower hupper =>
        rw [readRest.eq_2 _ _ _ _ _ hpoint, readTail.eq_3 _ _ _ _ _ hlower hupper]

theorem readUnsigned_append (n : Numeral) (h : Delimited rest) (negative : Bool) :
    readUnsigned negative (n.whole ++ (n.fractionText ++ (n.exponentText ++ rest))) =
      carry rest (readUnsigned negative (n.whole ++ (n.fractionText ++ n.exponentText))) := by
  have hsome : n.whole.isEmpty = false := List.isEmpty_eq_false_iff.mpr n.isDigits.ne_nil
  have hend := n.endsDigits_fractionText h
  have hend' := n.endsDigits_fractionText delimited_nil
  rw [List.append_nil] at hend'
  rw [readUnsigned_eq, readUnsigned_eq, takeWhile_digits n.isDigits.all hend,
    dropWhile_digits n.isDigits.all hend, takeWhile_digits n.isDigits.all hend',
    dropWhile_digits n.isDigits.all hend', hsome, if_neg Bool.false_ne_true,
    if_neg Bool.false_ne_true]
  split
  · rfl
  · refine readRest_text n h negative _ _ ?_
    split
    · exact integer_append negative _ [] rest
    · exact float_append negative _ _ [] rest

/-- The value of a number does not depend on what follows it. -/
theorem readNumber_text (n : Numeral) (h : Delimited rest) :
    (readNumber (n.text ++ rest)).map (·.1) = (readNumber n.text).map (·.1) := by
  have hcarry : ∀ r : Except Fault (Number × Text), (carry rest r).map (·.1) = r.map (·.1) :=
    fun r => by cases r <;> rfl
  have hread : ∀ u, readNumber (n.signText ++ (n.whole ++ u)) =
      readUnsigned n.negative (n.whole ++ u) := by
    intro u
    unfold Numeral.signText readNumber
    cases n.negative with
    | true => rfl
    | false =>
        obtain ⟨d, ds, hds, hd⟩ := n.isDigits.exists_cons
        rw [hds]
        split
        · next heq =>
            rw [(List.cons.inj heq).1] at hd
            exact absurd hd (by decide)
        · rfl
  rw [n.text_append, hread, readUnsigned_append n h, hcarry, ← hread]
  rfl

/-! ### What is stepped over -/

theorem exists_exponent (h : skipExponent t = some rest) :
    ∃ exponent : Option Exponent,
      t = (match exponent with | some e => e.text | none => []) ++ rest := by
  cases t with
  | nil =>
      obtain rfl := Option.some.inj h
      exact ⟨none, rfl⟩
  | cons c t =>
      rw [skipExponent_cons] at h
      split at h
      · next hletter =>
          rw [Bool.or_eq_true, decide_eq_true_iff, decide_eq_true_iff] at hletter
          obtain ⟨digits, hdigits, hsplit⟩ := exists_digits_of_skipDigits h
          have hsign : ∃ sign, (sign = [] ∨ sign = ['+'] ∨ sign = ['-']) ∧
              t = sign ++ (splitSign t).2 := by
            unfold splitSign
            split
            · exact ⟨['+'], .inr (.inl rfl), rfl⟩
            · exact ⟨['-'], .inr (.inr rfl), rfl⟩
            · exact ⟨[], .inl rfl, rfl⟩
          obtain ⟨sign, hsign, ht⟩ := hsign
          refine ⟨some ⟨c, sign, digits, hletter, hsign, hdigits⟩, ?_⟩
          rw [ht, hsplit]
          simp [Exponent.text]
      · obtain rfl := Option.some.inj h
        exact ⟨none, rfl⟩

theorem exists_fraction (h : skipFraction t = some rest) :
    ∃ fraction : Option { digits : Text // IsDigits digits },
      t = (match fraction with | some digits => '.' :: digits.1 | none => []) ++ rest := by
  unfold skipFraction at h
  split at h
  · obtain ⟨digits, hdigits, rfl⟩ := exists_digits_of_skipDigits h
    exact ⟨some ⟨digits, hdigits⟩, rfl⟩
  · obtain rfl := Option.some.inj h
    exact ⟨none, rfl⟩

theorem exists_whole (h : skipWhole t = some rest) :
    ∃ whole, IsDigits whole ∧ (whole.head? = some '0' → whole = ['0']) ∧ t = whole ++ rest := by
  unfold skipWhole at h
  split at h
  · next hzero =>
      split at h
      · simp at h
      · obtain rfl := Option.some.inj h
        obtain ⟨u, rfl⟩ := List.head?_eq_some_iff.mp hzero
        exact ⟨['0'], ⟨by decide, by decide⟩, fun _ => rfl, rfl⟩
  · next hzero =>
      obtain ⟨digits, hdigits, rfl⟩ := exists_digits_of_skipDigits h
      refine ⟨digits, hdigits, fun hhead => absurd ?_ hzero, rfl⟩
      rw [List.head?_append, hhead]
      rfl

/-- What the lenient reader steps over is a number as it is written. -/
theorem exists_numeral (h : skipNumber t = some rest) : ∃ n : Numeral, t = n.text ++ rest := by
  rw [skipNumber_eq] at h
  obtain ⟨u, hwhole, h⟩ := Option.bind_eq_some_iff.mp h
  obtain ⟨v, hfraction, hexponent⟩ := Option.bind_eq_some_iff.mp h
  obtain ⟨whole, hdigits, hzero, hsplit⟩ := exists_whole hwhole
  obtain ⟨fraction, rfl⟩ := exists_fraction hfraction
  obtain ⟨exponent, rfl⟩ := exists_exponent hexponent
  refine ⟨⟨t.head? = some '-', whole, fraction, exponent, hdigits, hzero⟩, ?_⟩
  have hsign : t = (if t.head? = some '-' then ['-'] else []) ++
      (if t.head? = some '-' then t.drop 1 else t) := by
    split
    · next hhead =>
        obtain ⟨s, rfl⟩ := List.head?_eq_some_iff.mp hhead
        rfl
    · rfl
  rw [Numeral.text_append]
  unfold Numeral.signText Numeral.fractionText Numeral.exponentText
  simp only [decide_eq_true_eq]
  rw [← hsplit]
  exact hsign

end Graft.Json
