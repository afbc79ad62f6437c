import Graft.Proofs.Integration.DelegateBalance
import Graft.Proofs.Integration.DelegateSettled

/-! # A replaced method

Replacing a scope exchanges the lines from its header to its closing brace for others and leaves what
is around them.  When the header is found again on the new lines, replacing it once more does nothing;
the Swift method with its standard body is found again wherever it was found before
(`replaceScope_relocates`). -/

namespace Graft.Delegate

variable {t : Text}

/-- The Swift method is found again where its standard body has replaced it. -/
theorem foundAgain_swiftBundleUrl {s : Scope} (hfind : Scope.find? swiftBundleUrl t = some s) :
    FoundAgain swiftBundleUrl (t.take (t.lineStart s.headerStart))
      (Text.reindent Payload.standard.iosBundleUrlSwift (t.indentAt (t.lineStart s.headerStart)))
      (t.drop (s.closeAt + 1)) :=
  isForm_swift.foundAgain hfind

theorem replaceScope_again_swiftBundleUrl {s : Scope}
    (hfind : Scope.find? swiftBundleUrl t = some s) :
    let o := (replaceScope swiftBundleUrl Payload.standard.iosBundleUrlSwift t).text
    replaceScope swiftBundleUrl Payload.standard.iosBundleUrlSwift o = ⟨o, .alreadyPresent⟩ := by
  obtain ⟨hnone, -⟩ | ⟨s', hs', ⟨-, heq⟩ | ⟨-, heq⟩⟩ :=
    replaceScope_outcomes swiftBundleUrl Payload.standard.iosBundleUrlSwift t
  · rw [hfind] at hnone
    simp at hnone
  · simp only [heq]
  · simp only [heq]
    exact (foundAgain_swiftBundleUrl hs').replaceScope_eq
      (Text.fullLines_reindent (all_indentAt t _) _)

/-- A scope with other lines gives way to those of the new text, and nothing else changes.  When the
header is found again from the first of these lines to the last, it stays as it is, and this is so for
the Swift method with its standard body. -/
theorem replaceScope_relocates (header : Pattern) (body t : Text) :
    ((replaceScope header body t).outcome = .replaced ↔ ∃ s,
      Scope.find? header t = some s ∧ Text.fullLines (s.whole t) ≠ Text.fullLines body) ∧
    ((replaceScope header body t).outcome = .replaced → ∃ s x new b,
      Scope.find? header t = some s ∧ x = t.take (t.lineStart s.headerStart) ∧
      b = t.drop (s.closeAt + 1) ∧ (replaceScope header body t).text = x ++ new ++ b ∧
      Text.fullLines new = Text.fullLines body ∧
      (FoundAgain header x new b →
        replaceScope header body (x ++ new ++ b) = ⟨x ++ new ++ b, .alreadyPresent⟩) ∧
      (header = swiftBundleUrl → body = Payload.standard.iosBundleUrlSwift →
        FoundAgain header x new b)) ∧
    ((replaceScope header body t).outcome ≠ .replaced → (replaceScope header body t).text = t) ∧
    (header = swiftBundleUrl → body = Payload.standard.iosBundleUrlSwift →
      (Scope.find? header t).isSome →
        let o := (replaceScope header body t).text
        replaceScope header body o = ⟨o, .alreadyPresent⟩) := by
  refine ⟨replaceScope_replaced_iff, fun h => ?_, replaceScope_text_of_not_replaced, ?_⟩
  · obtain ⟨s, hfind, htext⟩ := exists_scope_of_replaced h
    have hlines := Text.fullLines_reindent (all_indentAt t (t.lineStart s.headerStart)) body
    refine ⟨s, _, _, _, hfind, rfl, rfl, htext, hlines,
      fun hagain => hagain.replaceScope_eq hlines, ?_⟩
    rintro rfl rfl
    exact foundAgain_swiftBundleUrl hfind
  · rintro rfl rfl hsome
    obtain ⟨s, hfind⟩ := Option.isSome_iff_exists.mp hsome
    exact replaceScope_again_swiftBundleUrl hfind

theorem replaceScope_relocates_roomyDelegate :
    (replaceScope swiftBundleUrl Payload.standard.iosBundleUrlSwift roomyDelegate).outcome =
        .replaced ∧
      let o := (replaceScope swiftBundleUrl Payload.standard.iosBundleUrlSwift roomyDelegate).text
      replaceScope swiftBundleUrl Payload.standard.iosBundleUrlSwift o = ⟨o, .alreadyPresent⟩ :=
  ⟨by decide +kernel, (replaceScope_relocates swiftBundleUrl Payload.standard.iosBundleUrlSwift
    roomyDelegate).2.2.2 rfl rfl (by decide +kernel)⟩

end Graft.Delegate
