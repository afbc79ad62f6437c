import Graft.Proofs.Fragment

/-! # Lines at the start of a scope

The place of `scopeStart` is the start of the line behind the opening brace.  It is inside the scope
exactly when the scope has a line break inside; a scope on one line ends before it, and what goes to
the place goes behind the scope (`Recognizer.scopeStart_inside_iff`). -/

namespace Graft

open Text (Spliced inset)
open Brace (isBalanced)

variable {header : Pattern} {t a g inner b p q new : Text} {s : Scope}

/-- What lies from `start` to `stop` is between the brace at `openAt` and the one that closes it. -/
def Brace.Encloses (t : Text) (openAt start stop : Nat) : Prop :=
  ∃ close, closingOf? t openAt = some close ∧ openAt < start ∧ stop ≤ close

theorem Brace.encloses_iff {openAt close start stop : Nat} (h : closingOf? t openAt = some close) :
    Encloses t openAt start stop ↔ openAt < start ∧ stop ≤ close := by
  unfold Encloses
  rw [h]
  simp

namespace Scope.Cuts

/-- A balanced text that comes in between the braces moves the closing one. -/
theorem closingOf?_inside (h : s.Cuts t a g (p ++ q) b) (hnew : isBalanced new) :
    Brace.closingOf? (a ++ g ++ '{' :: p ++ new ++ (q ++ '}' :: b)) s.openAt =
      some (s.closeAt + new.length) := by
  have hin : isBalanced (p ++ new ++ q) := by
    unfold isBalanced
    rw [Brace.closes_insert hnew]
    exact h.balanced
  refine Brace.closingOf?_eq_some_iff.mpr ⟨a ++ g, p ++ new ++ q, b, ?_, hin, h.openAt_eq.symm, ?_⟩
  · simp only [List.append_assoc, List.cons_append]
  · rw [h.closeAt_eq, h.openAt_eq]
    simp only [List.length_append]
    omega

/-- What comes in behind a scope leaves its braces where they are. -/
theorem closingOf?_behind (h : s.Cuts t a g inner b) (x : Text) :
    Brace.closingOf? (a ++ g ++ '{' :: inner ++ '}' :: x) s.openAt = some s.closeAt := by
  refine Brace.closingOf?_eq_some_iff.mpr ⟨a ++ g, inner, x, rfl, h.balanced, h.openAt_eq.symm, ?_⟩
  rw [h.closeAt_eq, h.openAt_eq]

/-- The next line starts behind the opening brace, and before the closing one when the scope has a
line break. -/
theorem nextLineStart_bounds (h : s.Cuts t a g inner b) :
    s.openAt < t.nextLineStart s.openAt ∧
      (t.nextLineStart s.openAt ≤ s.closeAt ↔ '\n' ∈ inner) := by
  obtain ⟨p, q, -, hp, hcases⟩ := h.lineEnd_cases
  rw [hp, h.openAt_eq, h.closeAt_eq]
  rcases hcases with ⟨hnl, x, y, rfl, rfl, -⟩ | ⟨hnl, x, rfl, -⟩
  · simp only [List.length_append, List.length_cons]
    refine ⟨by omega, iff_of_true ?_ hnl⟩
    omega
  · simp only [List.length_append, List.length_cons]
    refine ⟨by omega, iff_of_false ?_ hnl⟩
    omega

/-- A balanced text that comes in where the next line starts is inside the scope exactly when the
scope has a line break. -/
theorem encloses_iff (h : s.Cuts t a g inner b) (hsplit : t = p ++ q)
    (hp : p.length = t.nextLineStart s.openAt) (hnew : isBalanced new) :
    Brace.Encloses (p ++ new ++ q) s.openAt p.length (p ++ new).length ↔ '\n' ∈ inner := by
  obtain ⟨hopen, hclose⟩ := h.nextLineStart_bounds
  rw [← hp] at hopen hclose
  have hstop : (p ++ new).length = p.length + new.length := List.length_append
  rw [hstop]
  obtain ⟨p', q', hsplit', hp', hcases⟩ := h.lineEnd_cases
  obtain ⟨rfl, rfl⟩ := List.append_inj (hsplit.symm.trans hsplit') (hp.trans hp')
  rcases hcases with ⟨hnl, x, y, rfl, rfl, rfl⟩ | ⟨hnl, x, rfl, rfl⟩
  · rw [Brace.encloses_iff (h.closingOf?_inside hnew)]
    have hle := hclose.mpr hnl
    exact iff_of_true ⟨hopen, by omega⟩ hnl
  · have e : a ++ g ++ '{' :: inner ++ '}' :: x ++ new ++ q =
        a ++ g ++ '{' :: inner ++ '}' :: (x ++ new ++ q) := by
      simp only [List.append_assoc, List.cons_append]
    rw [e, Brace.encloses_iff (h.closingOf?_behind _)]
    refine iff_of_false ?_ hnl
    rintro ⟨-, hle⟩
    exact hnl (hclose.mp (by omega))

end Scope.Cuts

/-- The place at the start of a scope lies behind the opening brace, and before the closing one
exactly when the scope has a line break inside; otherwise it is where the line behind the closing
brace starts.  So a fragment that goes there, with braces that match, is inside the scope if and only
if the scope has a line break. -/
theorem Recognizer.scopeStart_inside_iff (h : Scope.find? header t = some s) (name : String) :
    ∃ anchor, (scopeStart name header).recognize? t = some anchor ∧
      s.openAt < anchor.place.insertAt ∧
      (anchor.place.insertAt ≤ s.closeAt ↔ '\n' ∈ s.inner t) ∧
      ('\n' ∉ s.inner t → anchor.place.insertAt = t.nextLineStart s.closeAt) ∧
      ∀ (f : Fragment) (fallback : Option Recognizer), f.isPresent t = false →
        let out := (inject f (some anchor) fallback t).text
        ∃ p lead q, Spliced f.text p lead anchor.place.indent q t out ∧
          p.length = anchor.place.insertAt ∧
          (isBalanced f.text →
            (Brace.Encloses out s.openAt p.length
              (p ++ inset lead anchor.place.indent f.text).length ↔ '\n' ∈ s.inner t)) := by
  obtain ⟨m, a, g, inner, b, -, -, hcuts⟩ := Scope.exists_cuts h
  have hrec : (scopeStart name header).recognize? t = some ⟨.methodHeader, name, ⟨s.headerStart,
      s.openAt + 1, t.nextLineStart s.openAt, s.memberIndent t⟩⟩ := by
    unfold recognize? scopeStart
    simp only [Locator.find?, h, Option.map_some]
  obtain ⟨hopen, hclose⟩ := hcuts.nextLineStart_bounds
  rw [hcuts.inner_eq]
  refine ⟨_, hrec, hopen, hclose, fun hnl => (hcuts.nextLineStart_closeAt hnl).symm, ?_⟩
  intro f fallback hpresent
  obtain ⟨p, q, hat, hline⟩ : ∃ p q, PlaceAt t p q ⟨s.headerStart, s.openAt + 1,
      t.nextLineStart s.openAt, s.memberIndent t⟩ ∧ AtLine p q :=
    exists_atLine_nextLineStart rfl (s.all_memberIndent t)
  obtain ⟨lead, hspliced⟩ := exists_spliced hat (Edge.break (.inl hline)) f.text f.blankLineBefore
  rw [inject_some hpresent rfl]
  refine ⟨p, lead, q, hspliced, hat.insertAt_eq.symm, fun hbalanced => ?_⟩
  rw [hspliced.target]
  exact hcuts.encloses_iff hat.split hat.insertAt_eq.symm (hspliced.isBalanced_inset hbalanced)

/-- A method with its braces on two lines. -/
def brokenScope : Text := "f() \x7b\n\x7d\n".toList

/-- A method with its braces on one line. -/
def flatScope : Text := "f() \x7b\x7d\n".toList

/-- A call to be put into a method. -/
def sampleCall : Fragment := .ofText "call" "g();".toList

theorem Recognizer.scopeStart_inside_iff_brokenScope :
    ∃ anchor, (scopeStart "header" (Pattern.lit "f()")).recognize? brokenScope = some anchor ∧
      4 < anchor.place.insertAt ∧ anchor.place.insertAt ≤ 6 ∧
      ∃ p lead : Text, Brace.Encloses (inject sampleCall (some anchor) none brokenScope).text 4
        p.length (p ++ inset lead anchor.place.indent sampleCall.text).length := by
  have hfind : Scope.find? (Pattern.lit "f()") brokenScope = some ⟨0, 4, 6⟩ := by decide +kernel
  have hnl : '\n' ∈ Scope.inner ⟨0, 4, 6⟩ brokenScope := by decide +kernel
  obtain ⟨anchor, hrec, hopen, hclose, -, hinject⟩ := scopeStart_inside_iff hfind "header"
  obtain ⟨p, lead, q, -, -, hinside⟩ := hinject sampleCall none (by decide +kernel)
  exact ⟨anchor, hrec, hopen, hclose.mpr hnl, p, lead, (hinside (by decide +kernel)).mpr hnl⟩

/-- The place is behind the scope, which ends at its closing brace. -/
theorem Recognizer.scopeStart_behind_flatScope :
    ∃ s anchor, Scope.find? (Pattern.lit "f()") flatScope = some s ∧
      (scopeStart "header" (Pattern.lit "f()")).recognize? flatScope = some anchor ∧
      s.closeAt < anchor.place.insertAt :=
  ⟨⟨0, 4, 5⟩, ⟨.methodHeader, "header", ⟨0, 5, 7, indentUnit⟩⟩, by decide +kernel,
    by decide +kernel, by decide⟩

end Graft
