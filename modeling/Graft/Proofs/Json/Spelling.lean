import Graft.Json.Scalar

/-! # How strings are written

A string is written as a row of marks: characters as they are, a backslash with a letter, and code
units in hexadecimal digits.  `Mark.spelled?` is the text that some marks stand for, if they stand
for one: halves of surrogate pairs may be written but mean nothing on their own.  The lenient reader
steps over exactly the rows of marks (`skipString_marks`, `exists_marks`), and the strict one gives
what they stand for (`readString_marks`). -/

namespace Graft.Json

/-- A character that can stand in a string as it is. -/
abbrev IsPlain (c : Char) : Prop := c ≠ '"' ∧ c ≠ '\\' ∧ 0x20 ≤ c.toNat

/-- The four digits of a code unit. -/
structure IsUnit (digits : Text) : Prop where
  length : digits.length = 4
  all : digits.all fun c => (hexValue? c).isSome

/-- What can be written between the quotes of a string. -/
inductive Mark where
  | plain (c : Char) (h : IsPlain c)
  /-- A backslash and a letter. -/
  | escape (c : Char) (h : (simpleEscape? c).isSome)
  /-- A code unit in four digits. -/
  | unit (digits : Text) (h : IsUnit digits)

namespace Mark

/-- The code unit that some digits stand for. -/
def unitValue (digits : Text) : Nat :=
  digits.foldl (fun n c => n * 16 + (hexValue? c).getD 0) 0

def text : Mark → Text
  | plain c _ => [c]
  | escape c _ => ['\\', c]
  | unit digits _ => '\\' :: 'u' :: digits

/-- The character of two halves of a pair. -/
def pairChar (high low : Nat) : Char :=
  Char.ofNat (0x10000 + (high - 0xD800) * 0x400 + (low - 0xDC00))

/-- The text that some marks stand for. -/
def spelled? : List Mark → Option Text
  | [] => some []
  | plain c _ :: ms => (spelled? ms).map (c :: ·)
  | escape c h :: ms => (spelled? ms).map ((simpleEscape? c).get h :: ·)
  | unit high _ :: ms =>
    if isTrailing (unitValue high) then none
    else if isLeading (unitValue high) then
      match ms with
      | unit low _ :: ms =>
        if isTrailing (unitValue low) then
          (spelled? ms).map (pairChar (unitValue high) (unitValue low) :: ·)
        else none
      | _ => none
    else (spelled? ms).map (Char.ofNat (unitValue high) :: ·)

end Mark

open Mark (spelled? unitValue)

variable {t rest : Text} {ms : List Mark} {fuel : Nat}

/-- The text of some marks. -/
def marksText (ms : List Mark) : Text := ms.flatMap Mark.text

@[simp] theorem marksText_nil : marksText [] = [] := rfl

@[simp] theorem marksText_cons (m : Mark) (ms : List Mark) :
    marksText (m :: ms) = m.text ++ marksText ms := rfl

/-! ### Code units -/

theorem foldlM_hexValue? {digits : Text} (h : digits.all fun c => (hexValue? c).isSome) (n : Nat) :
    digits.foldlM (fun n c => (hexValue? c).map (n * 16 + ·)) n =
      some (digits.foldl (fun n c => n * 16 + (hexValue? c).getD 0) n) := by
  induction digits generalizing n with
  | nil => rfl
  | cons c digits ih =>
      rw [List.all_cons, Bool.and_eq_true] at h
      obtain ⟨v, hv⟩ := Option.isSome_iff_exists.mp h.1
      rw [List.foldlM_cons, List.foldl_cons, hv, Option.map_some, Option.getD_some]
      exact ih h.2 _

theorem all_of_foldlM_hexValue? {digits : Text} {n v : Nat}
    (h : digits.foldlM (fun n c => (hexValue? c).map (n * 16 + ·)) n = some v) :
    digits.all fun c => (hexValue? c).isSome := by
  induction digits generalizing n with
  | nil => rfl
  | cons c digits ih =>
      rw [List.foldlM_cons, Option.bind_eq_bind, Option.bind_eq_some_iff] at h
      obtain ⟨w, hw, h⟩ := h
      obtain ⟨u, hu, -⟩ := Option.map_eq_some_iff.mp hw
      rw [List.all_cons, ih h, hu]
      rfl

theorem readUnit_append {digits : Text} (h : IsUnit digits) (rest : Text) :
    readUnit (digits ++ rest) = .ok (unitValue digits, rest) := by
  obtain ⟨hlen, hall⟩ := h
  have hlong : ¬(digits ++ rest).length < 4 := by
    rw [List.length_append]
    omega
  unfold readUnit
  rw [← hlen, List.take_left, List.drop_left, foldlM_hexValue? hall, hlen]
  simp only [hlong, if_false]
  rfl

theorem exists_digits_of_readUnit {n : Nat} (h : readUnit t = .ok (n, rest)) :
    ∃ digits, t = digits ++ rest ∧ IsUnit digits := by
  cases hv : (t.take 4).foldlM (fun n c => (hexValue? c).map (n * 16 + ·)) 0 with
  | none =>
      simp only [readUnit, hv] at h
      simp at h
  | some v =>
      simp only [readUnit, hv] at h
      split at h
      · simp at h
      · next hlen =>
          obtain ⟨-, rfl⟩ := Prod.mk.inj (Except.ok.inj h)
          refine ⟨t.take 4, (List.take_append_drop 4 t).symm, ?_, all_of_foldlM_hexValue? hv⟩
          rw [List.length_take]
          omega

/-! ### Stepping over a string -/

theorem skipEscape_letter {c : Char} (h : (simpleEscape? c).isSome) (rest : Text) :
    skipEscape (c :: rest) = .ok rest := by
  have hu : c ≠ 'u' := by
    rintro rfl
    simp [simpleEscape?] at h
  unfold skipEscape
  split
  · next heq => simp at heq
  · next heq => exact absurd (List.cons.inj heq).1 hu
  · next heq =>
      obtain ⟨rfl, rfl⟩ := List.cons.inj heq
      rw [if_pos h]

theorem skipStringFrom_marks (h : ms.length < fuel) :
    skipStringFrom fuel (marksText ms ++ '"' :: rest) = .ok rest := by
  induction ms generalizing fuel with
  | nil =>
      obtain ⟨k, rfl⟩ := Nat.exists_eq_add_of_lt h
      rfl
  | cons m ms ih =>
      obtain ⟨k, rfl⟩ : ∃ k, fuel = k + 1 := ⟨fuel - 1, by simp at h; omega⟩
      have ih : skipStringFrom k (marksText ms ++ '"' :: rest) = .ok rest :=
        ih (by simp at h; omega)
      rw [marksText_cons, List.append_assoc]
      cases m with
      | plain c hc =>
          obtain ⟨hquote, hback, hlow⟩ := hc
          show skipStringFrom (k + 1) (c :: (marksText ms ++ '"' :: rest)) = .ok rest
          rw [skipStringFrom, if_neg hquote, if_neg hback, if_neg (by omega)]
          exact ih
      | escape c hc =>
          show skipStringFrom (k + 1) ('\\' :: (c :: (marksText ms ++ '"' :: rest))) = .ok rest
          rw [skipStringFrom, if_neg (by decide), if_pos rfl, skipEscape_letter hc]
          exact ih
      | unit digits hd =>
          show skipStringFrom (k + 1) ('\\' :: ('u' :: (digits ++ (marksText ms ++ '"' :: rest)))) =
            .ok rest
          rw [skipStringFrom, if_neg (by decide), if_pos rfl, skipEscape, readUnit_append hd]
          exact ih

theorem length_le_marksText (ms : List Mark) : ms.length ≤ (marksText ms).length := by
  induction ms with
  | nil => exact Nat.le_refl 0
  | cons m ms ih =>
      have hm : 1 ≤ m.text.length := by cases m <;> simp [Mark.text]
      rw [marksText_cons, List.length_append, List.length_cons]
      omega

theorem skipString_marks (ms : List Mark) (rest : Text) :
    skipString (marksText ms ++ '"' :: rest) = .ok rest := by
  have hlen := length_le_marksText ms
  refine skipStringFrom_marks ?_
  rw [List.length_append]
  omega

/-- What is stepped over behind a backslash is the rest of a mark. -/
theorem exists_mark_of_skipEscape (h : skipEscape t = .ok rest) :
    ∃ m : Mark, '\\' :: t = m.text ++ rest := by
  unfold skipEscape at h
  split at h
  · simp at h
  · next t =>
      cases hunit : readUnit t with
      | error f => simp [hunit, Except.map] at h
      | ok p =>
          obtain ⟨n, u⟩ := p
          obtain ⟨digits, rfl, hdigits⟩ := exists_digits_of_readUnit hunit
          rw [hunit] at h
          obtain rfl : u = rest := Except.ok.inj h
          exact ⟨.unit digits hdigits, rfl⟩
  · next c t _ =>
      split at h
      · next hletter =>
          obtain rfl := Except.ok.inj h
          exact ⟨.escape c hletter, rfl⟩
      · simp at h

theorem exists_marks_of_skipStringFrom (h : skipStringFrom fuel t = .ok rest) :
    ∃ ms, t = marksText ms ++ '"' :: rest := by
  induction fuel generalizing t with
  | zero => simp [skipStringFrom] at h
  | succ fuel ih =>
      cases t with
      | nil => simp [skipStringFrom] at h
      | cons c t =>
          rw [skipStringFrom] at h
          split at h
          · next hquote =>
              obtain rfl := Except.ok.inj h
              exact ⟨[], by rw [hquote]; rfl⟩
          next hquote =>
          split at h
          · next hback =>
              cases hescape : skipEscape t with
              | error f => simp [hescape, bind, Except.bind] at h
              | ok u =>
                  rw [hescape] at h
                  obtain ⟨ms, rfl⟩ := ih h
                  obtain ⟨m, hm⟩ := exists_mark_of_skipEscape hescape
                  exact ⟨m :: ms, by rw [hback, hm, marksText_cons, List.append_assoc]⟩
          next hback =>
          split at h
          · simp at h
          · next hlow =>
              obtain ⟨ms, rfl⟩ := ih h
              exact ⟨.plain c ⟨hquote, hback, by omega⟩ :: ms, rfl⟩

/-- What the lenient reader steps over is a row of marks. -/
theorem exists_marks (h : skipString t = .ok rest) : ∃ ms, t = marksText ms ++ '"' :: rest :=
  exists_marks_of_skipStringFrom h

/-! ### What a string stands for -/

/-- What the strict reader answers for a string that stands for `value?`. -/
def spelling (value? : Option Text) (rest : Text) : Except Fault (Text × Text) :=
  match value? with
  | some s => .ok (s, rest)
  | none => .error .malformed

theorem readStringFrom_plain {c : Char} (h : IsPlain c)
    {value? : Option Text} (ht : readStringFrom fuel t = spelling value? rest) :
    readStringFrom (fuel + 1) (c :: t) = spelling (value?.map (c :: ·)) rest := by
  obtain ⟨hquote, hback, hlow⟩ := h
  rw [readStringFrom, if_neg hquote, if_neg hback, if_neg (by omega), ht]
  cases value? <;> rfl

theorem readStringFrom_escape {c : Char} {s : Text} (hs : readEscape s = .ok (c, t))
    {value? : Option Text} (ht : readStringFrom fuel t = spelling value? rest) :
    readStringFrom (fuel + 1) ('\\' :: s) = spelling (value?.map (c :: ·)) rest := by
  rw [readStringFrom, if_neg (by decide), if_pos rfl, hs]
  show (readStringFrom fuel t >>= fun p => pure (c :: p.1, p.2)) = _
  rw [ht]
  cases value? <;> rfl

theorem readStringFrom_malformed {s : Text} (hs : readEscape s = .error .malformed) (fuel : Nat)
    (rest : Text) : readStringFrom (fuel + 1) ('\\' :: s) = spelling none rest := by
  rw [readStringFrom, if_neg (by decide), if_pos rfl, hs]
  rfl

theorem readEscape_letter {c : Char} (h : (simpleEscape? c).isSome) (t : Text) :
    readEscape (c :: t) = .ok ((simpleEscape? c).get h, t) := by
  have hu : c ≠ 'u' := by
    rintro rfl
    simp [simpleEscape?] at h
  obtain ⟨d, hd⟩ := Option.isSome_iff_exists.mp h
  simp only [readEscape, hd, Option.get_some]

theorem readEscape_unit {digits : Text} (h : IsUnit digits) (t : Text) :
    readEscape ('u' :: (digits ++ t)) = readPair (unitValue digits) t := by
  rw [readEscape, readUnit_append h]
  rfl

theorem readPair_trailing {n : Nat} (hn : isTrailing n) (t : Text) :
    readPair n t = .error .malformed := by
  unfold readPair
  rw [if_pos hn]

theorem readPair_single {n : Nat} (hn : ¬isTrailing n) (hlead : ¬isLeading n) (t : Text) :
    readPair n t = .ok (Char.ofNat n, t) := by
  unfold readPair
  rw [if_neg hn, if_neg hlead]

/-- The first half of a pair has to be followed by a code unit. -/
theorem readPair_of_not_unit {n : Nat} (hn : ¬isTrailing n) (hlead : isLeading n) {c : Char}
    (h : c = '\\' → ∃ d s, t = d :: s ∧ d ≠ 'u') : readPair n (c :: t) = .error .malformed := by
  unfold readPair
  rw [if_neg hn, if_pos hlead]
  split
  · next heq =>
      obtain ⟨hc, rfl⟩ := List.cons.inj heq
      obtain ⟨d, s, hs, hd⟩ := h hc
      exact absurd (List.cons.inj hs).1.symm hd
  · next heq => simp at heq
  · next heq =>
      obtain ⟨hc, rfl⟩ := List.cons.inj heq
      obtain ⟨d, s, hs, -⟩ := h hc
      simp at hs
  · rfl

theorem readPair_unit {n : Nat} (hn : ¬isTrailing n) (hlead : isLeading n) {digits : Text}
    (h : IsUnit digits) (t : Text) :
    readPair n ('\\' :: 'u' :: (digits ++ t)) =
      if isTrailing (unitValue digits) then
        .ok (Mark.pairChar n (unitValue digits), t)
      else .error .malformed := by
  unfold readPair
  rw [if_neg hn, if_pos hlead]
  simp only [readUnit_append h]
  rfl

theorem marksText_unit_append {digits : Text} (h : IsUnit digits) (ms : List Mark)
    (rest : Text) :
    marksText (.unit digits h :: ms) ++ rest =
      '\\' :: 'u' :: (digits ++ (marksText ms ++ rest)) := by
  rw [marksText_cons, List.append_assoc]
  rfl

/-- What follows the first half of a pair where no code unit follows. -/
theorem exists_not_unit
    (h : ∀ low hlow ms', ms = Mark.unit low hlow :: ms' → False) (rest : Text) :
    ∃ c t, marksText ms ++ '"' :: rest = c :: t ∧ (c = '\\' → ∃ d s, t = d :: s ∧ d ≠ 'u') := by
  cases ms with
  | nil => exact ⟨'"', rest, rfl, fun e => absurd e (by decide)⟩
  | cons m ms =>
      cases m with
      | plain c hc => exact ⟨c, marksText ms ++ '"' :: rest, rfl, fun e => absurd e hc.2.1⟩
      | escape c hc =>
          refine ⟨'\\', c :: (marksText ms ++ '"' :: rest), rfl, fun _ => ⟨c, _, rfl, ?_⟩⟩
          rintro rfl
          simp [simpleEscape?] at hc
      | unit low hlow => exact (h low hlow ms rfl).elim

/-- The strict reader gives what the marks stand for. -/
theorem readStringFrom_marks (h : ms.length ≤ fuel) :
    readStringFrom (fuel + 1) (marksText ms ++ '"' :: rest) = spelling (spelled? ms) rest := by
  fun_induction spelled? ms generalizing fuel with
  | case1 => rfl
  | case2 c hc ms ih =>
      obtain ⟨k, rfl⟩ : ∃ k, fuel = k + 1 := ⟨fuel - 1, by simp at h; omega⟩
      exact readStringFrom_plain hc (ih (by simpa using h))
  | case3 c hc ms ih =>
      obtain ⟨k, rfl⟩ : ∃ k, fuel = k + 1 := ⟨fuel - 1, by simp at h; omega⟩
      exact readStringFrom_escape (readEscape_letter hc _) (ih (by simpa using h))
  | case4 high hhigh ms hn =>
      rw [marksText_unit_append]
      refine readStringFrom_malformed ?_ fuel rest
      rw [readEscape_unit hhigh, readPair_trailing hn]
  | case5 high hhigh hn hlead low hlow ms hm ih =>
      obtain ⟨k, rfl⟩ : ∃ k, fuel = k + 1 := ⟨fuel - 1, by simp at h; omega⟩
      rw [marksText_unit_append, marksText_unit_append]
      refine readStringFrom_escape ?_ (ih (by simp at h; omega))
      rw [readEscape_unit hhigh, readPair_unit hn hlead hlow,
        if_pos hm]
  | case6 high hhigh hn hlead low hlow ms hm =>
      rw [marksText_unit_append, marksText_unit_append]
      refine readStringFrom_malformed ?_ fuel rest
      rw [readEscape_unit hhigh, readPair_unit hn hlead hlow,
        if_neg hm]
  | case7 high hhigh ms hn hlead hms =>
      obtain ⟨c, t, hnext, hc⟩ := exists_not_unit hms rest
      rw [marksText_unit_append, hnext]
      refine readStringFrom_malformed ?_ fuel rest
      rw [readEscape_unit hhigh, readPair_of_not_unit hn hlead hc]
  | case8 high hhigh ms hn hlead ih =>
      obtain ⟨k, rfl⟩ : ∃ k, fuel = k + 1 := ⟨fuel - 1, by simp at h; omega⟩
      rw [marksText_unit_append]
      refine readStringFrom_escape ?_ (ih (by simpa using h))
      rw [readEscape_unit hhigh, readPair_single hn hlead]

theorem readString_marks (ms : List Mark) (rest : Text) :
    readString (marksText ms ++ '"' :: rest) = spelling (spelled? ms) rest := by
  have hlen := length_le_marksText ms
  refine readStringFrom_marks ?_
  rw [List.length_append]
  omega

end Graft.Json
