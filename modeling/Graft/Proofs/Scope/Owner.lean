import Graft.Integration.Delegate
import Graft.Proofs.Step.Method

/-! # Whose scope is found

The scope of a header is the next one in the text, however far it is.  It belongs to the header, with
no statement or block ending in between, exactly when the match is followed by an opening brace
before any semicolon and closing brace (`Scope.belongsTo_iff_opens`).  A replacement takes everything
from the line of the header to the end of that scope, so behind a mere declaration it takes the next
scope along (`replaced_scope_belongsTo_iff`). -/

namespace Graft

open Text (AtLineStart)
open Brace (isBalanced)

variable {header : Pattern} {t a g inner b y r : Text} {m : Match} {s : Scope}

/-- No semicolon and no closing brace lies between the end of a match and the brace of a scope. -/
def Scope.BelongsTo (s : Scope) (m : Match) (t : Text) : Prop :=
  ∀ c ∈ t.slice m.stop s.openAt, c ≠ ';' ∧ c ≠ '}'

instance (s : Scope) (m : Match) (t : Text) : Decidable (s.BelongsTo m t) :=
  List.decidableBAll (fun c => c ≠ ';' ∧ c ≠ '}') _

/-- Whether a match holds an opening brace, or one comes before the next semicolon and closing
brace. -/
def Match.opens (m : Match) (t : Text) : Bool :=
  (m.text t).contains '{' ||
    List.find? (fun c => c == '{' || c == ';' || c == '}') (t.drop m.stop) == some '{'

/-! ### The gap before the brace -/

theorem find?_brace_iff (hy : '{' ∉ y) :
    List.find? (fun c => c == '{' || c == ';' || c == '}') (y ++ '{' :: r) = some '{' ↔
      ∀ c ∈ y, c ≠ ';' ∧ c ≠ '}' := by
  induction y with
  | nil => simp
  | cons c y ih =>
      rw [List.mem_cons, not_or] at hy
      have hc : c ≠ '{' := Ne.symm hy.1
      rw [List.cons_append, List.find?_cons, List.forall_mem_cons, ← ih hy.2]
      by_cases hstop : c = ';' ∨ c = '}'
      · have hfound : (c == '{' || c == ';' || c == '}') = true := by
          rcases hstop with rfl | rfl <;> rfl
        rw [hfound]
        simp only [Option.some.injEq]
        refine iff_of_false hc ?_
        rintro ⟨⟨h1, h2⟩, -⟩
        exact hstop.elim h1 h2
      · rw [not_or] at hstop
        have hskip : (c == '{' || c == ';' || c == '}') = false := by
          simp [hc, hstop.1, hstop.2]
        rw [hskip]
        exact (and_iff_right hstop).symm

/-- The match holds the brace of the scope, or it lies in the gap before that brace. -/
theorem Scope.Cuts.match_cases {u z : Text} (h : s.Cuts t a g inner b) (e : t = a ++ u ++ z) :
    ('{' ∈ u ∧ s.openAt < (a ++ u).length) ∨
      ('{' ∉ u ∧ ∃ y, g = u ++ y ∧ z = y ++ '{' :: (inner ++ '}' :: b)) := by
  have e' : g ++ '{' :: (inner ++ '}' :: b) = u ++ z := by
    have e1 : a ++ (g ++ '{' :: (inner ++ '}' :: b)) = a ++ (u ++ z) := by
      rw [← List.append_assoc, ← List.append_assoc, ← h.split, e]
    exact List.append_cancel_left e1
  by_cases hu : '{' ∈ u
  · refine .inl ⟨hu, ?_⟩
    obtain ⟨v, w, rfl, hv⟩ := List.eq_append_cons_of_mem hu
    have e2 : v ++ '{' :: (w ++ z) = g ++ '{' :: (inner ++ '}' :: b) := by
      rw [e']
      simp
    obtain ⟨rfl, -⟩ := Text.append_cons_inj hv h.gap e2
    rw [h.openAt_eq]
    simp only [List.length_append, List.length_cons]
    omega
  · exact .inr ⟨hu, Text.prefix_before e' hu⟩

theorem Scope.belongsTo_iff_opens (hm : header.find? t = some m) (hs : find? header t = some s) :
    s.BelongsTo m t ↔ m.opens t := by
  obtain ⟨m', a, g, inner, b, hm', hstart, hcuts⟩ := exists_cuts hs
  obtain rfl := Option.some.inj (hm.symm.trans hm')
  obtain ⟨a', u, z, e, hstart', hstop, htext⟩ := Pattern.exists_split_of_find? hm
  obtain rfl : a = a' := by
    have h1 : t = a ++ (g ++ '{' :: (inner ++ '}' :: b)) := by
      rw [← List.append_assoc]
      exact hcuts.split
    have h2 : t = a' ++ (u ++ z) := by
      rw [← List.append_assoc]
      exact e
    exact (List.append_inj (h1.symm.trans h2) (hstart.symm.trans hstart')).1
  have hdrop : t.drop m.stop = z := by
    rw [hstop, e]
    exact List.drop_left
  unfold BelongsTo Match.opens
  rw [htext, hdrop, Bool.or_eq_true, List.contains_iff_mem, beq_iff_eq]
  rcases hcuts.match_cases e with ⟨hu, hlt⟩ | ⟨hu, y, rfl, rfl⟩
  · -- The brace is part of the match, so nothing lies in between.
    have hnil : t.slice m.stop s.openAt = [] := by
      unfold Text.slice
      rw [List.drop_eq_nil_iff, List.length_take, hstop]
      omega
    rw [hnil]
    exact iff_of_true (fun c hc => absurd hc List.not_mem_nil) (.inl hu)
  · have hgap := hcuts.gap
    rw [List.mem_append, not_or] at hgap
    have hslice : t.slice m.stop s.openAt = y := by
      have := Text.slice_append (a ++ u) y ('{' :: (inner ++ '}' :: b))
      have hlen : (a ++ (u ++ y)).length = (a ++ u).length + y.length := by
        rw [← List.append_assoc, List.length_append]
      rw [hstop, hcuts.openAt_eq, e, hlen, ← List.append_assoc]
      exact this
    rw [hslice, find?_brace_iff hgap.2, or_iff_right hu]

/-! ### What a replacement takes -/

theorem splice_sublist (t : Text) (pos : Nat) (piece indent : Text) (blank : Bool) :
    t.Sublist (splice t pos piece indent blank) := by
  conv => lhs; rw [← List.take_append_drop pos t]
  have hskip : ∀ u : Text, (t.drop pos).Sublist (u ++ '\n' :: t.drop pos) := fun u =>
    (List.sublist_cons_self ..).trans (List.sublist_append_right ..)
  simp only [splice, List.append_assoc]
  refine (List.Sublist.refl _).append ?_
  rw [← List.append_assoc, ← List.append_assoc]
  exact hskip _

theorem inject_sublist (f : Fragment) (anchor : Option Anchor) (fallback : Option Recognizer)
    (t : Text) : t.Sublist (inject f anchor fallback t).text := by
  unfold inject
  split
  · exact List.Sublist.refl t
  · split
    · exact List.Sublist.refl t
    · exact splice_sublist ..

/-- A step that locates no form of its method takes nothing away. -/
theorem MethodStep.sublist_of_none {step : MethodStep} (h : step.located? t = none) (sink : Sink) :
    t.Sublist (step.apply t sink).1 := by
  rw [apply_fst_of_none h]
  cases step.insertionBody? t with
  | none => exact List.Sublist.refl t
  | some body => exact inject_sublist ..

/-- The scope that is found belongs to its header exactly when the match is followed by an opening
brace before any semicolon and closing brace.  Whether it does or not, a replacement takes the rest
`l` of the line before the header, the gap `g` and the scope; a step does the same that locates a
form with this header, and takes nothing when it locates none. -/
theorem replaced_scope_belongsTo_iff (hm : header.find? t = some m)
    (hs : Scope.find? header t = some s) :
    (s.BelongsTo m t ↔ m.opens t) ∧
      ∃ x l g inner b, t = x ++ wholeText l g inner ++ b ∧ s = .of (x ++ l) g inner ∧
        AtLineStart x ∧ '\n' ∉ l ∧ '{' ∉ g ∧ isBalanced inner ∧
        let replaced := fun body => if Text.sameLines (wholeText l g inner) body then t
          else x ++ Text.reindent body (t.indentAt x.length) ++ b
        (∀ body, (replaceScope header body t).text = replaced body) ∧
        ∀ (step : MethodStep) (sink : Sink),
          (∀ v, step.located? t = some v → v.header = header →
            (step.apply t sink).1 = replaced v.body) ∧
          (step.located? t = none → t.Sublist (step.apply t sink).1) := by
  obtain ⟨x, l, g, inner, b, hx, hl, hcuts, hreplace⟩ := exists_replaceScope_text hs
  refine ⟨Scope.belongsTo_iff_opens hm hs, x, l, g, inner, b, hcuts.split_whole, hcuts.eq, hx, hl,
    hcuts.gap, hcuts.balanced, hreplace, fun step sink => ⟨?_, ?_⟩⟩
  · rintro v hloc rfl
    rw [MethodStep.apply_fst_of_located hloc]
    exact hreplace v.body
  · intro hloc
    exact MethodStep.sublist_of_none hloc sink

/-- A method that is defined. -/
def definedBundleUrl : Text :=
  "- (NSURL *)bundleURL\n\x7b\x7d\n".toList

/-- The same method only declared, and another one behind it. -/
def declaredBundleUrl : Text :=
  "- (NSURL *)bundleURL;\n- (void)f \x7b\n\x7d\n".toList

theorem replaced_scope_belongsTo_iff_definedBundleUrl :
    ∃ m s, Delegate.objcBundleUrl.find? definedBundleUrl = some m ∧
      Scope.find? Delegate.objcBundleUrl definedBundleUrl = some s ∧
      s.BelongsTo m definedBundleUrl := by
  have hsome : (Scope.find? Delegate.objcBundleUrl definedBundleUrl).isSome := by decide +kernel
  obtain ⟨s, hs⟩ := Option.isSome_iff_exists.mp hsome
  obtain ⟨m, a, g, inner, b, hm, -⟩ := Scope.exists_cuts hs
  have hopens : ∀ m, Delegate.objcBundleUrl.find? definedBundleUrl = some m →
      m.opens definedBundleUrl := by decide +kernel
  exact ⟨m, s, hm, hs, (replaced_scope_belongsTo_iff hm hs).1.mpr (hopens m hm)⟩

/-- The step takes the other method for the scope of the declaration. -/
theorem not_belongsTo_declaredBundleUrl :
    ∃ m s, Delegate.objcBundleUrl.find? declaredBundleUrl = some m ∧
      Scope.find? Delegate.objcBundleUrl declaredBundleUrl = some s ∧
      ¬s.BelongsTo m declaredBundleUrl ∧
      ¬"(void)f".toList <:+:
        ((Delegate.bundleUrlStep .standard).apply declaredBundleUrl .empty).1 := by
  refine ⟨⟨0, 20, []⟩, ⟨0, 32, 34⟩, by decide +kernel, by decide +kernel, by decide +kernel, ?_⟩
  rw [← Text.occursIn_iff]
  decide +kernel

end Graft
