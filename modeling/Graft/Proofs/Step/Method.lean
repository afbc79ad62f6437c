import Graft.Proofs.Fragment
import Graft.Proofs.Replacement
import Graft.Step.Insertion

/-! # Steps that replace a method

A step takes the first form of its method whose scope the text has, and puts the body of that form
in place of the scope (`MethodStep.apply_fst_of_whole`), or inserts a body when there is no such form
(`MethodStep.apply_of_none_cases`). -/

namespace Graft

open Text (Body Insertion Spliced squeeze)
open Brace (isBalanced)

variable {t p q x l g inner b : Text} {ls : List Text}

/-- A form of a method whose body consists of the given lines, in which the braces match. -/
structure MethodVariant.HasLines (v : MethodVariant) (ls : List Text) : Prop where
  flat : v.header.Flat
  body_eq : v.body = Text.joinLines ls
  body : Body ls
  balanced : isBalanced (squeeze ls.flatten)

theorem MethodVariant.HasLines.unique {v : MethodVariant} {ls' : List Text} (h : v.HasLines ls)
    (h' : v.HasLines ls') : ls = ls' := by
  rw [← Text.lines_joinLines h.body.1, ← h.body_eq, h'.body_eq, Text.lines_joinLines h'.body.1]

namespace MethodStep

variable {s : MethodStep} {v : MethodVariant}

/-- The first form of the method whose scope the text has. -/
def located? (s : MethodStep) (t : Text) : Option MethodVariant :=
  s.variants.find? fun v => (Scope.find? v.header t).isSome

/-- The text that the step replaces, if it replaces any. -/
def replaced? (s : MethodStep) (t : Text) : Option Text := do
  let v ← s.located? t
  let scope ← Scope.find? v.header t
  if Text.sameLines (scope.whole t) v.body then none else some (scope.whole t)

/-- Every form has a body of some lines, and the recognizers find breaks. -/
structure Proper (s : MethodStep) : Prop where
  variants : ∀ v ∈ s.variants, ∃ ls, v.HasLines ls
  chain : ProperChain s.chain

theorem mem_of_located? (h : s.located? t = some v) : v ∈ s.variants :=
  List.mem_of_find?_eq_some h

theorem exists_whole_of_located? (h : s.located? t = some v) (hv : v.header.Flat) :
    ∃ x l g inner b, WholeScope v.header t x l g inner b := by
  have hsome : (Scope.find? v.header t).isSome := by simpa using List.find?_some h
  obtain ⟨scope, hscope⟩ := Option.isSome_iff_exists.mp hsome
  obtain ⟨a, g, inner, b, hat, -⟩ := (scopeFind?_eq_some_iff hv).mp hscope
  obtain ⟨x, l, rfl, hwhole⟩ := hat.exists_whole
  exact ⟨x, l, g, inner, b, hwhole⟩

theorem mem_of_insertionBody? {body : Text} (h : s.insertionBody? t = some body) :
    ∃ v ∈ s.variants, v.body = body := by
  obtain ⟨v, hv, rfl⟩ := Option.map_eq_some_iff.mp h
  rw [Option.orElse_eq_or, Option.or_eq_some_iff] at hv
  rcases hv with hv | ⟨-, hv⟩
  · exact ⟨v, List.mem_of_find?_eq_some hv, rfl⟩
  · exact ⟨v, List.mem_of_find?_eq_some hv, rfl⟩

/-! ### What the step does -/

theorem apply_fst_of_located (h : s.located? t = some v) (sink : Sink) :
    (s.apply t sink).1 = (replaceScope v.header v.body t).text := by
  rw [located?] at h
  rw [apply, h]

/-- The fragment that is inserted when no form of the method is found. -/
def fragment (s : MethodStep) (body : Text) : Fragment :=
  (Fragment.ofText s.method body).withBlankLineBefore

theorem apply_fst_of_none (h : s.located? t = none) (sink : Sink) :
    (s.apply t sink).1 = (s.insertionBody? t).elim t fun body =>
      (inject (s.fragment body) (resolve? s.chain t) none t).text := by
  rw [located?] at h
  rw [apply, h]
  simp only [fragment]
  cases s.insertionBody? t with
  | none => rfl
  | some body =>
      simp only [Option.elim_some]
      split <;> rfl

/-- The body of a form takes the place of its scope, unless that has the same lines. -/
theorem apply_fst_of_whole (h : s.located? t = some v) (hv : v.HasLines ls)
    (hwhole : WholeScope v.header t x l g inner b) (sink : Sink) :
    (s.apply t sink).1 =
      if Text.sameLines (wholeText l g inner) v.body then t
      else x ++ Text.joinLines (ls.map (t.indentAt x.length ++ ·)) ++ b := by
  rw [apply_fst_of_located h, hwhole.replaceScope_eq hv.flat, apply_ite Injection.text,
    ← Text.reindent_joinLines hv.body, hv.body_eq]

/-- When no form is found, the text stays as it is, or a body comes in at the place of the anchor. -/
theorem apply_of_none_spliced (hchain : ProperChain s.chain) (h : s.located? t = none)
    (sink : Sink) :
    (s.apply t sink).1 = t ∨ ∃ body a p lead q, s.insertionBody? t = some body ∧
      resolve? s.chain t = some a ∧ PlaceAt t p q a.place ∧
      Spliced body p lead a.place.indent q t (s.apply t sink).1 := by
  rw [apply_fst_of_none h]
  cases hbody : s.insertionBody? t with
  | none => exact .inl rfl
  | some body =>
      rw [Option.elim_some]
      by_cases hpresent : (s.fragment body).isPresent t
      · rw [inject_of_isPresent hpresent]
        exact .inl rfl
      · rw [Bool.not_eq_true] at hpresent
        cases ha : resolve? s.chain t with
        | none =>
            rw [inject_none hpresent rfl]
            exact .inl rfl
        | some a =>
            obtain ⟨p, q, hat, hbreak⟩ := exists_break_of_resolve? hchain ha
            obtain ⟨lead, hspliced⟩ := exists_spliced hat hbreak body true
            rw [inject_some hpresent rfl]
            exact .inr ⟨body, a, p, lead, q, rfl, rfl, hat, hspliced⟩

/-- When no form is found, the text stays as it is, or the lines of a body come in. -/
theorem apply_of_none_cases (hp : s.Proper) (h : s.located? t = none) (sink : Sink) :
    (s.apply t sink).1 = t ∨ ∃ v ∈ s.variants, ∃ ls, v.HasLines ls ∧
      s.insertionBody? t = some v.body ∧ ∃ p lead indent q,
        Insertion ls p lead indent q t (s.apply t sink).1 := by
  rcases apply_of_none_spliced hp.chain h sink with e | ⟨body, a, p, lead, q, hbody, -, -, hspliced⟩
  · exact .inl e
  · obtain ⟨v, hv, rfl⟩ := mem_of_insertionBody? hbody
    obtain ⟨ls, hls⟩ := hp.variants v hv
    rw [hls.body_eq] at hspliced
    exact .inr ⟨v, hv, ls, hls, hbody, p, lead, a.place.indent, q, hspliced.insertion hls.body⟩

theorem replaced?_of_whole (h : s.located? t = some v) (hv : v.header.Flat)
    (hwhole : WholeScope v.header t x l g inner b) :
    s.replaced? t = if Text.sameLines (wholeText l g inner) v.body then none
      else some (wholeText l g inner) := by
  simp only [replaced?, h, hwhole.scope.find?_eq hv, Option.bind_eq_bind, Option.bind_some,
    hwhole.whole_eq]

theorem replaced?_of_none (h : s.located? t = none) : s.replaced? t = none := by
  rw [replaced?, h]
  rfl

end MethodStep

end Graft
