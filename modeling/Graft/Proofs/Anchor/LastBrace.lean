import Graft.Proofs.Anchor
import Graft.Proofs.Brace.Backward

/-! # The last closing brace

The search backwards from a closing brace counts the braces that are open.  Wherever it arrives, the
count is the depth there over the depth behind the brace that it started from (`Arrives`), and it is
at least one, so that no brace that opens takes it below zero (`exists_arrives`).  The brace it finds
is the one whose partner it started from, and the last closing brace of a text makes an anchor exactly
when it closes something (`openingOf?_agrees`). -/

namespace Graft

namespace Brace

variable {t : Text} {c i n o : Nat} {d : Char}

theorem partner?_backward_open_zero (s : Text) : partner? '}' '{' 0 ('{' :: s) = some 0 := rfl

theorem partner?_backward_open_succ (n : Nat) (s : Text) :
    partner? '}' '{' (n + 1) ('{' :: s) = (partner? '}' '{' n s).map (· + 1) := rfl

theorem partner?_backward_close (n : Nat) (s : Text) :
    partner? '}' '{' n ('}' :: s) = (partner? '}' '{' (n + 1) s).map (· + 1) := by
  cases n <;> rfl

theorem partner?_backward_other (h : d ≠ '{' ∧ d ≠ '}') (n : Nat) (s : Text) :
    partner? '}' '{' n (d :: s) = (partner? '}' '{' n s).map (· + 1) := by
  cases n <;> rw [partner?, if_neg h.2, if_neg h.1]

/-- The search backwards from the closing brace at `c` goes on before position `i`, and it has
counted `n + 1` braces that are open there. -/
structure Arrives (t : Text) (c i n : Nat) : Prop where
  le : i ≤ c
  goesOn : openingOf? t c = (partner? '}' '{' n (t.take i).reverse).map (i - 1 - ·)
  count : (n : Int) + 1 = depthAt t i - depthAt t (c + 1)

/-- The search starts at the brace, which is open before it. -/
theorem arrives_start (hc : t[c]? = some '}') : Arrives t c c 0 where
  le := Nat.le_refl c
  goesOn := rfl
  count := by
    rw [depthAt_succ_of_close hc]
    omega

/-- One step back: the search ends at a brace that opens when no other one is open, and goes on
with the new count else. -/
theorem Arrives.step (h : Arrives t c (i + 1) n) (hlen : i < t.length) :
    (openingOf? t c = some i ∧ n = 0 ∧ t[i]? = some '{') ∨ ∃ m, Arrives t c i m := by
  have hread : (t.take (i + 1)).reverse = t[i] :: (t.take i).reverse := by
    rw [List.take_succ_eq_append_getElem hlen, List.reverse_append]
    rfl
  have hat : t[i]? = some t[i] := List.getElem?_eq_getElem hlen
  have hgoes := h.goesOn
  rw [hread] at hgoes
  have hcount := h.count
  have hle := h.le
  have hfurther : ∀ m, ((partner? '}' '{' m (t.take i).reverse).map (· + 1)).map (i + 1 - 1 - ·) =
      (partner? '}' '{' m (t.take i).reverse).map (i - 1 - ·) := by
    intro m
    rw [Option.map_map]
    congr 1
    funext k
    show i + 1 - 1 - (k + 1) = i - 1 - k
    omega
  obtain hopen | hclose | hother := brace_cases t[i]
  · rw [hopen] at hgoes hat
    have hdepth := depthAt_succ_of_open hat
    cases n with
    | zero =>
        rw [partner?_backward_open_zero] at hgoes
        exact .inl ⟨hgoes, rfl, hat⟩
    | succ n =>
        rw [partner?_backward_open_succ, hfurther] at hgoes
        exact .inr ⟨n, by omega, hgoes, by push_cast at hcount; omega⟩
  · rw [hclose] at hgoes hat
    have hdepth := depthAt_succ_of_close hat
    rw [partner?_backward_close, hfurther] at hgoes
    exact .inr ⟨n + 1, by omega, hgoes, by push_cast; omega⟩
  · rw [partner?_backward_other hother, hfurther] at hgoes
    have hdepth : depthAt t (i + 1) = depthAt t i := by
      rw [depthAt_succ, hat, Option.toList_some, depth_cons, depth_nil]
      unfold delta
      rw [if_neg hother.1, if_neg hother.2]
      omega
    exact .inr ⟨n, by omega, hgoes, by omega⟩

/-- The search arrives at every position behind the brace it finds, at all of them if it finds
none. -/
theorem exists_arrives (hc : t[c]? = some '}') (hi : i ≤ c)
    (hfound : ∀ o, openingOf? t c = some o → o < i) : ∃ n, Arrives t c i n := by
  induction hn : c - i generalizing i with
  | zero =>
      obtain rfl : i = c := by omega
      exact ⟨0, arrives_start hc⟩
  | succ k ih =>
      have hlen : c < t.length := (List.getElem?_eq_some_iff.mp hc).1
      obtain ⟨n, hn⟩ := ih (by omega) (fun o ho => Nat.lt_succ_of_lt (hfound o ho)) (by omega)
      obtain ⟨hend, -⟩ | hgoes := hn.step (by omega)
      · exact absurd (hfound i hend) (Nat.lt_irrefl i)
      · exact hgoes

/-- The search ends at the position it finds with one brace open, the one it started from. -/
theorem arrives_of_openingOf? (hc : t[c]? = some '}') (h : openingOf? t c = some o) :
    Arrives t c (o + 1) 0 := by
  have hmatched := (openingOf?_eq_some_iff_matched hc).mp h
  have hlt := hmatched.lt
  obtain ⟨n, hn⟩ := exists_arrives hc (i := o + 1) hlt fun o' ho' => by
    rw [h] at ho'
    rw [← Option.some.inj ho']
    exact Nat.lt_succ_self o
  have hcount := hn.count
  have hup := depthAt_succ_of_open hmatched.opens
  have hlevel := hmatched.level
  obtain rfl : n = 0 := by omega
  exact hn

/-- The last closing brace of a text is at `c`. -/
structure IsLastClose (t : Text) (c : Nat) : Prop where
  closes : t[c]? = some '}'
  last : ∀ j, c < j → t[j]? ≠ some '}'

theorem findLast?_eq_some_iff_isLastClose :
    Text.findLast? ['}'] t = some c ↔ IsLastClose t c := by
  have hlast : ∀ {c}, Text.findLast? ['}'] t = some c → IsLastClose t c := by
    intro c h
    obtain ⟨x, y, rfl, hy, rfl⟩ := exists_of_textFindLast? h
    refine ⟨by simp, fun j hj hat => hy ?_⟩
    rw [List.getElem?_append_right (Nat.le_of_lt hj),
      show j - x.length = (j - x.length - 1) + 1 by omega, List.getElem?_cons_succ] at hat
    exact List.mem_of_getElem? hat
  refine ⟨hlast, fun h => ?_⟩
  cases hfind : Text.findLast? ['}'] t with
  | none => exact absurd (List.mem_of_getElem? h.closes) (textFindLast?_eq_none hfind)
  | some d =>
      have hd := hlast hfind
      obtain hlt | rfl | hlt : c < d ∨ d = c ∨ d < c := by omega
      · exact absurd hd.closes (h.last d hlt)
      · rfl
      · exact absurd h.closes (hd.last c hlt)

end Brace

open Brace

theorem Recognizer.isSome_recognize?_lastBrace (name : String) (t : Text) :
    ((Recognizer.lastBrace name).recognize? t).isSome ↔
      ∃ c o, IsLastClose t c ∧ closingOf? t o = some c := by
  unfold Recognizer.recognize? Recognizer.lastBrace Locator.find?
  rw [Option.isSome_map, Option.isSome_iff_exists]
  simp only [Option.bind_eq_bind, Option.bind_eq_some_iff, findLast?_eq_some_iff_isLastClose]
  constructor
  · rintro ⟨place, c, hc, o, ho, -⟩
    exact ⟨c, o, hc, closingOf?_eq_some_iff_matched.mpr
      ((openingOf?_eq_some_iff_matched hc.closes).mp ho)⟩
  · rintro ⟨c, o, hc, ho⟩
    exact ⟨_, c, hc, o, (openingOf?_eq_some_iff_matched hc.closes).mpr
      (closingOf?_eq_some_iff_matched.mp ho), rfl⟩

/-- The search backwards from a closing brace finds the brace whose partner it is, with a count that
stays positive all the way; so the last closing brace makes an anchor exactly when it closes
something. -/
theorem openingOf?_agrees (t : Text) :
    (∀ c, t[c]? = some '}' →
      (∀ o, openingOf? t c = some o ↔ closingOf? t o = some c) ∧
      (openingOf? t c = none ↔ ∀ o, closingOf? t o ≠ some c) ∧
      (∀ i ≤ c, (∀ o, openingOf? t c = some o → o < i) → ∃ n, Arrives t c i n) ∧
      ∀ o, openingOf? t c = some o → Arrives t c (o + 1) 0) ∧
    ∀ name, ((Recognizer.lastBrace name).recognize? t).isSome ↔
      ∃ c o, IsLastClose t c ∧ closingOf? t o = some c := by
  refine ⟨fun c hc => ?_, fun name => Recognizer.isSome_recognize?_lastBrace name t⟩
  have hagree : ∀ o, openingOf? t c = some o ↔ closingOf? t o = some c := fun o =>
    (openingOf?_eq_some_iff_matched hc).trans closingOf?_eq_some_iff_matched.symm
  refine ⟨hagree, ?_, fun i hi hfound => exists_arrives hc hi hfound,
    fun o ho => arrives_of_openingOf? hc ho⟩
  rw [Option.eq_none_iff_forall_ne_some]
  exact forall_congr' fun o => not_congr (hagree o)

end Graft
