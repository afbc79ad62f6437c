import Graft.Proofs.Integration.DelegateBalance

/-! # The dialect of a delegate

Whatever the payload is, the import step leaves a delegate alone or brings in the line of its dialect
where a line starts (`afterImport_cases`), and the method that comes in is the one of the dialect
(`insertionBody?_eq`).  A method that gives way is replaced by the first form that is located, the
Swift one before the other, and that need not be the form of the dialect
(`written_in_dialect_iff`). -/

namespace Graft.Delegate

open Text (Spliced Whole)

variable {payload : Payload} {t : Text}

/-! ### The import -/

/-- The import of a payload in the dialect of a text. -/
def importIn (payload : Payload) (t : Text) : Text :=
  if objcMarker.occursIn t then payload.iosImportObjc else payload.iosImport

theorem importIn_of_marker (h : objcMarker <:+: t) : importIn payload t = payload.iosImportObjc :=
  if_pos (Text.occursIn_iff.mpr h)

theorem importIn_of_not_marker (h : ¬objcMarker <:+: t) : importIn payload t = payload.iosImport :=
  if_neg fun hocc => h (Text.occursIn_iff.mp hocc)

theorem linesFor_eq (payload : Payload) (t : Text) :
    (importStep payload).linesFor t = [importIn payload t] := by
  simp only [LinesStep.linesFor, importStep, importIn]
  split <;> rfl

theorem afterImport_cases (payload : Payload) (t : Text) (sink : Sink) :
    afterImport payload t sink = t ∨ ∃ p lead indent q, AtLine p q ∧
      Spliced (importIn payload t).trim p lead indent q t (afterImport payload t sink) := by
  unfold afterImport
  obtain ⟨a, p, q, ha, hat, hline, -⟩ := exists_importPlace payload t
  rw [LinesStep.apply_fst, linesFor_eq]
  rcases ensureLines_cases [importIn payload t] (importStep payload).alternates ha hat
    (Edge.break (.inl hline)) with h | ⟨new, lead, hnew, hne, hspliced⟩
  · exact .inl h
  · rw [List.map_singleton] at hnew
    rw [hnew] at hne
    obtain rfl : new = [(importIn payload t).trim] := hnew.trans (newLines_singleton hne)
    refine .inr ⟨p, lead, a.place.indent, q, hline, ?_⟩
    have hjoin : Text.joinLines [(importIn payload t).trim] = (importIn payload t).trim := by
      rw [Text.joinLines_cons, if_pos rfl, List.append_nil]
    rwa [hjoin] at hspliced

theorem whole_objcMarker : Whole objcMarker := by decide

theorem infix_of_infix_trim {w : Text} (h : w <:+: t.trim) : w <:+: t := by
  obtain ⟨v, v', e, -, -⟩ := Text.exists_trim t
  rw [e]
  exact h.trans ⟨v, v', rfl⟩

/-- The import does not change the dialect. -/
theorem objcMarker_infix_afterImport_iff (h : ¬objcMarker <:+: payload.iosImport) (t : Text)
    (sink : Sink) : objcMarker <:+: afterImport payload t sink ↔ objcMarker <:+: t := by
  rcases afterImport_cases payload t sink with e | ⟨p, lead, indent, q, -, hspliced⟩
  · rw [e]
  · by_cases hmarker : objcMarker <:+: t
    · exact iff_of_true (hspliced.infix_target whole_objcMarker.1 whole_objcMarker.2.1 hmarker)
        hmarker
    · refine hspliced.infix_iff whole_objcMarker fun hin => h ?_
      rw [← importIn_of_not_marker hmarker]
      exact infix_of_infix_trim hin

/-! ### The method -/

/-- The Swift form of the method in a payload. -/
def swiftFormOf (payload : Payload) : MethodVariant :=
  ⟨swiftBundleUrl, payload.iosBundleUrlSwift, none⟩

/-- The Objective-C form of the method in a payload. -/
def objcFormOf (payload : Payload) : MethodVariant :=
  ⟨objcBundleUrl, payload.iosBundleUrlObjc, some objcMarker⟩

/-- The form in the dialect of a text. -/
def formIn (payload : Payload) (t : Text) : MethodVariant :=
  if objcMarker.occursIn t then objcFormOf payload else swiftFormOf payload

theorem formIn_of_marker (h : objcMarker <:+: t) : formIn payload t = objcFormOf payload :=
  if_pos (Text.occursIn_iff.mpr h)

theorem formIn_of_not_marker (h : ¬objcMarker <:+: t) : formIn payload t = swiftFormOf payload :=
  if_neg fun hocc => h (Text.occursIn_iff.mp hocc)

theorem swiftFormOf_ne (payload : Payload) : swiftFormOf payload ≠ objcFormOf payload := by
  intro h
  cases congrArg MethodVariant.dialectMarker h

theorem insertionBody?_eq (payload : Payload) (t : Text) :
    (bundleUrlStep payload).insertionBody? t = some (formIn payload t).body := by
  simp only [MethodStep.insertionBody?, bundleUrlStep, formIn, swiftFormOf, objcFormOf,
    List.find?_cons, List.find?_nil, Option.any_none, Option.any_some, Option.isNone_none]
  cases objcMarker.occursIn t <;> rfl

/-- The Swift form comes before the one in Objective-C. -/
theorem located?_eq_ite (payload : Payload) (t : Text) : (bundleUrlStep payload).located? t =
    if (Scope.find? swiftBundleUrl t).isSome then some (swiftFormOf payload)
    else if (Scope.find? objcBundleUrl t).isSome then some (objcFormOf payload) else none := by
  simp only [MethodStep.located?, bundleUrlStep, swiftFormOf, objcFormOf, List.find?_cons,
    List.find?_nil]
  cases (Scope.find? swiftBundleUrl t).isSome <;> cases (Scope.find? objcBundleUrl t).isSome <;> rfl

theorem located?_eq_swift_or_objc {v : MethodVariant}
    (h : (bundleUrlStep payload).located? t = some v) :
    (v = swiftFormOf payload ∧ (Scope.find? swiftBundleUrl t).isSome) ∨
      (v = objcFormOf payload ∧ Scope.find? swiftBundleUrl t = none) := by
  rw [located?_eq_ite] at h
  split at h
  · next hswift => exact .inl ⟨(Option.some.inj h).symm, hswift⟩
  · next hswift =>
      split at h
      · rw [Bool.not_eq_true, Option.isSome_eq_false_iff, Option.isNone_iff_eq_none] at hswift
        exact .inr ⟨(Option.some.inj h).symm, hswift⟩
      · simp at h

/-- The form that is located is that of a dialect. -/
theorem located_eq_formIn_iff {o : Text} {v : MethodVariant}
    (h : (bundleUrlStep payload).located? t = some v) :
    v = formIn payload o ↔
      (objcMarker <:+: o → Scope.find? swiftBundleUrl t = none) ∧
        (¬objcMarker <:+: o → (Scope.find? swiftBundleUrl t).isSome) := by
  by_cases hmarker : objcMarker <:+: o
  · rw [formIn_of_marker hmarker]
    simp only [hmarker, true_imp_iff, not_true_eq_false, false_imp_iff, and_true]
    rcases located?_eq_swift_or_objc h with ⟨rfl, hswift⟩ | ⟨rfl, hswift⟩
    · refine iff_of_false (swiftFormOf_ne payload) fun hnone => ?_
      rw [hnone] at hswift
      simp at hswift
    · exact iff_of_true rfl hswift
  · rw [formIn_of_not_marker hmarker]
    simp only [hmarker, false_imp_iff, not_false_eq_true, true_imp_iff, true_and]
    rcases located?_eq_swift_or_objc h with ⟨rfl, hswift⟩ | ⟨rfl, hswift⟩
    · exact iff_of_true rfl hswift
    · refine iff_of_false (swiftFormOf_ne payload).symm ?_
      rw [hswift]
      simp

/-- What a run writes: an import of the dialect of the delegate, and when no form of the method is
located, the method in the same dialect.  A form that is located gives way to the body of its own
dialect.  That is the dialect of the delegate exactly when an Objective-C file has no Swift scope of
the method, and any other file has one. -/
theorem written_in_dialect_iff (himport : ¬objcMarker <:+: payload.iosImport) (t : Text)
    (sink : Sink) :
    let u := afterImport payload t sink
    let out := ((pipeline payload).run t sink).1
    (objcMarker <:+: u ↔ objcMarker <:+: t) ∧
      (u = t ∨ ∃ p lead indent q, Spliced (importIn payload t).trim p lead indent q t u) ∧
      ((bundleUrlStep payload).located? u = none → out = u ∨
        ∃ p lead indent q, Spliced (formIn payload t).body p lead indent q u out) ∧
      ∀ v, (bundleUrlStep payload).located? u = some v →
        (out = u ∨ ∃ x l g inner b, Scope.find? v.header u = some (.of (x ++ l) g inner) ∧
          u = x ++ wholeText l g inner ++ b ∧
          out = x ++ Text.reindent v.body (u.indentAt x.length) ++ b) ∧
        (v = formIn payload t ↔
          (objcMarker <:+: t → Scope.find? swiftBundleUrl u = none) ∧
            (¬objcMarker <:+: t → (Scope.find? swiftBundleUrl u).isSome)) := by
  have hdialect := objcMarker_infix_afterImport_iff himport t sink
  rw [run_fst]
  generalize hu : afterImport payload t sink = u at hdialect ⊢
  refine ⟨hdialect, ?_, fun hnone => ?_, fun v hloc => ⟨?_, located_eq_formIn_iff hloc⟩⟩
  · rcases afterImport_cases payload t sink with e | ⟨p, lead, indent, q, -, hspliced⟩
    · exact .inl (hu.symm.trans e)
    · rw [hu] at hspliced
      exact .inr ⟨p, lead, indent, q, hspliced⟩
  · rcases MethodStep.apply_of_none_spliced (properChain_bundleUrlStep payload) hnone
      ((importStep payload).apply t sink).2 with e | ⟨body, a, p, lead, q, hbody, -, -, hspliced⟩
    · exact .inl e
    · rw [insertionBody?_eq] at hbody
      obtain rfl := Option.some.inj hbody
      have hform : formIn payload u = formIn payload t := by
        by_cases hmarker : objcMarker <:+: t
        · rw [formIn_of_marker hmarker, formIn_of_marker (hdialect.mpr hmarker)]
        · rw [formIn_of_not_marker hmarker, formIn_of_not_marker (mt hdialect.mp hmarker)]
      rw [hform] at hspliced
      exact .inr ⟨p, lead, a.place.indent, q, hspliced⟩
  · rw [MethodStep.apply_fst_of_located hloc]
    have hsome : (Scope.find? v.header u).isSome := by simpa using List.find?_some hloc
    obtain ⟨s, hs⟩ := Option.isSome_iff_exists.mp hsome
    obtain ⟨x, l, g, inner, b, -, -, hcuts, hreplace⟩ := exists_replaceScope_text hs
    rw [hreplace]
    split
    · exact .inl rfl
    · refine .inr ⟨x, l, g, inner, b, ?_, hcuts.split_whole, rfl⟩
      rw [hs, hcuts.eq]

/-- A delegate in Objective-C that has the method. -/
def objcDelegate : Text :=
  "#import <CodePush/CodePush.h>\n@implementation A\n- (NSURL *)bundleURL \x7b\x7d\n@end\n".toList

/-- A delegate in Objective-C with the Swift method in a comment. -/
def mixedDelegate : Text :=
  "#import <CodePush/CodePush.h>\n@implementation A\n".toList ++
    "// override func bundleURL()->URL?\x7b\x7d\n@end\n".toList

theorem written_in_dialect_iff_objcDelegate :
    (bundleUrlStep .standard).located? (afterImport .standard objcDelegate .empty) =
      some (formIn .standard objcDelegate) := by
  have himport : ¬objcMarker <:+: Payload.standard.iosImport := by
    rw [← Text.occursIn_iff]
    decide
  have hmarker : objcMarker <:+: objcDelegate := by
    rw [← Text.occursIn_iff]
    decide +kernel
  obtain ⟨-, -, -, hlocated⟩ := written_in_dialect_iff himport objcDelegate .empty
  rw [afterImport_of_hasImport (by decide +kernel)] at hlocated ⊢
  have hswift : Scope.find? swiftBundleUrl objcDelegate = none := by decide +kernel
  have hobjc : (Scope.find? objcBundleUrl objcDelegate).isSome := by decide +kernel
  have hloc : (bundleUrlStep .standard).located? objcDelegate = some (objcFormOf .standard) := by
    rw [located?_eq_ite, hswift, if_neg (by simp), if_pos hobjc]
  rw [hloc, ← (hlocated _ hloc).2.mpr ⟨fun _ => hswift, fun hnot => absurd hmarker hnot⟩]

/-- The comment is located as the method, and the Swift body is written. -/
theorem swift_body_mixedDelegate :
    objcMarker <:+: mixedDelegate ∧ ¬Payload.standard.iosBundleUrlSwift <:+: mixedDelegate ∧
      Payload.standard.iosBundleUrlSwift <:+: ((pipeline .standard).run mixedDelegate .empty).1 := by
  simp only [← Text.occursIn_iff]
  decide +kernel

end Graft.Delegate
