import Graft.Proofs.Integration.Pieces

/-! # The registration of the package

Where the line that returns the list of packages is found, the declaration of the list is rewritten
if it has to be (`makeMutable_fst`), and then the registration comes in unless it is there
(`registerPackage_cases`). -/

namespace Graft.Entry

open Pattern
open Text (Break Insertion apart squeeze)

variable {t a g inner b : Text}

/-! ### The declaration -/

theorem plain_immutablePackages : immutablePackages.Plain :=
  ⟨⟨⟨⟨⟨⟨plain_ofText _, trivial⟩, plain_ofText _⟩, trivial⟩, plain_ofText _⟩, trivial⟩, plain_ofText _⟩

/-- A plain pattern that occurs in a piece of a text occurs in the text. -/
theorem occursIn_of_infix {p : Pattern} (hflat : p.Flat) (hplain : p.Plain) {s : Text}
    (hs : s <:+: t) (h : p.occursIn s) : p.occursIn t := by
  rw [occursIn_iff hflat] at h ⊢
  obtain ⟨a, u, b, rfl, hu⟩ := h
  obtain ⟨x, y, rfl⟩ := hs
  exact ⟨x ++ a, u, b ++ y, by simp, hu.plain hplain _ _⟩

theorem declarationRegion_of_scope (h : ScopeAt getPackages t a g inner b) :
    declarationRegion t = inner := by
  rw [declarationRegion, h.find?_eq flat_getPackages]
  exact h.inner_eq

theorem infix_declarationRegion (t : Text) : declarationRegion t <:+: t := by
  cases hfind : Scope.find? getPackages t with
  | none =>
      exact ⟨[], [], by rw [declarationRegion, hfind, List.append_nil, List.nil_append]⟩
  | some s =>
      obtain ⟨a, g, inner, b, hscope, -⟩ := (scopeFind?_eq_some_iff flat_getPackages).mp hfind
      rw [declarationRegion_of_scope hscope, hscope.split]
      exact ⟨a ++ g ++ ['{'], '}' :: b, by simp⟩

theorem makeMutable_fst (t : Text) (sink : Sink) :
    ((makeMutable Payload.standard t sink).1 = t ∧
        (immutablePackages.occursIn (declarationRegion t) →
          Payload.standard.androidMutablePackages <:+: t)) ∨
      (immutablePackages.occursIn (declarationRegion t) ∧
        Rewritten t (makeMutable Payload.standard t sink).1) := by
  rw [makeMutable]
  split
  · next h =>
      rcases replaceStatement_immutable t with ⟨hcases, e⟩ | hrewritten
      · refine .inl ⟨e, fun _ => hcases.resolve_right fun hno => hno ?_⟩
        exact occursIn_of_infix flat_immutablePackages plain_immutablePackages
          (infix_declarationRegion t) h
      · exact .inr ⟨h, hrewritten⟩
  · next h =>
      split <;> exact .inl ⟨rfl, fun h' => absurd h' h⟩

/-! ### The step -/

theorem registration_isPresent_iff :
    (registration Payload.standard).isPresent t ↔ Payload.standard.androidPackageMarker <:+: t := by
  have hmarkers : (registration Payload.standard).markers =
      [Payload.standard.androidPackageMarker] := by
    decide
  have hregion : (registration Payload.standard).region t = t := rfl
  rw [Fragment.isPresent, hregion, hmarkers, List.any_cons, List.any_nil, Bool.or_false,
    Text.occursIn_iff]

/-- The registration is there, or it comes in between the braces of `getPackages()`. -/
theorem inject_registration (h : (returnLine.recognize? t).isSome) :
    (Payload.standard.androidPackageMarker <:+: t ∧
        (inject (registration Payload.standard) (returnLine.recognize? t) none t).text = t) ∨
      (¬Payload.standard.androidPackageMarker <:+: t ∧ ∃ a g p lead indent q b,
        ScopeAt getPackages t a g (p ++ q) b ∧
          Insertion registrationLines (a ++ g ++ '{' :: p) lead indent (q ++ '}' :: b) t
            (inject (registration Payload.standard) (returnLine.recognize? t) none t).text) := by
  by_cases hpresent : (registration Payload.standard).isPresent t
  · refine .inl ⟨registration_isPresent_iff.mp hpresent, ?_⟩
    rw [inject_of_isPresent hpresent]
  · refine .inr ⟨fun hm => hpresent (registration_isPresent_iff.mpr hm), ?_⟩
    obtain ⟨anchor, hanchor⟩ := Option.isSome_iff_exists.mp h
    obtain ⟨a, g, b, p, q, hscope, hat, hedge⟩ := Locator.exists_edge_within flat_getPackages
      (.inl flat_returnPackages : (Locator.beforeLine returnPackages).Simple)
      (find?_of_recognize? hanchor)
    obtain ⟨lead, hins⟩ := exists_insertion_splice hat (hedge.break.inside (a ++ g) b)
      isPiece_registration.body (registration Payload.standard).blankLineBefore
    refine ⟨a, g, p, lead, anchor.place.indent, q, b, hscope, ?_⟩
    rw [inject_some (by simpa using hpresent) (by rw [hanchor]; rfl)]
    rw [← isPiece_registration.text_eq] at hins
    exact hins

/-- What the step does with the text. -/
theorem registerPackage_cases (t : Text) (sink : Sink) :
    ((returnLine.recognize? t).isSome = false ∧
        (registerPackage Payload.standard t sink).1 = t) ∨
      ((returnLine.recognize? t).isSome ∧ ∃ t1,
        ((t1 = t ∧ (immutablePackages.occursIn (declarationRegion t) →
            Payload.standard.androidMutablePackages <:+: t)) ∨
          (immutablePackages.occursIn (declarationRegion t) ∧ Rewritten t t1)) ∧
        ((Payload.standard.androidPackageMarker <:+: t1 ∧
            (registerPackage Payload.standard t sink).1 = t1) ∨
          (¬Payload.standard.androidPackageMarker <:+: t1 ∧ ∃ p lead indent q,
            Insertion registrationLines p lead indent q t1
              (registerPackage Payload.standard t sink).1))) := by
  cases hline : returnLine.recognize? t with
  | none =>
      refine .inl ⟨rfl, ?_⟩
      rw [registerPackage, hline]
      simp only
      split <;> rfl
  | some x =>
      have hsome : (returnLine.recognize? t).isSome := by rw [hline]; rfl
      refine .inr ⟨rfl, _, makeMutable_fst t sink, ?_⟩
      rw [registerPackage_of_isSome hsome]
      refine (inject_registration (recognize?_makeMutable hsome)).imp id ?_
      rintro ⟨hno, a, g, p, lead, indent, q, b, -, hins⟩
      exact ⟨hno, _, lead, indent, _, hins⟩

/-! ### Lines that come in -/

/-- Lines that are apart from the words of a pattern bring no match of it. -/
theorem occursIn_of_insertion {pat : Pattern} {w s s' p lead indent q : Text} {ls : List Text}
    (hflat : pat.Flat) (hplain : pat.Plain) (hw : pat.Squeezes w)
    (hins : Insertion ls p lead indent q s s') (hapart : apart w (squeeze ls.flatten))
    (h : pat.occursIn s') : pat.occursIn s := by
  rw [occursIn_iff hflat] at h ⊢
  obtain ⟨a, u, b, e, hu⟩ := h
  have hne : u ≠ [] := by
    rintro rfl
    exact hw.not_spans_nil hu
  have hkeep : pat.Untouched p (Text.block lead indent ls) q := by
    refine hw.untouched ?_
    rw [Text.squeeze_block hins.newlines hins.allIndent]
    exact hapart
  rw [hins.target] at e
  rw [hins.source]
  rcases exists_moved e hne (hkeep a u b e hu) [] with ⟨z, -, -, e'⟩ | ⟨z, -, -, -, e'⟩
  · rw [List.append_nil] at e'
    exact ⟨_, _, _, e', hu.plain hplain _ _⟩
  · rw [List.append_nil] at e'
    exact ⟨_, _, _, e', hu.plain hplain _ _⟩

/-- Lines that come in at an edge bring no line that returns the list. -/
theorem returns_of_insertion {s s' p lead indent q : Text} {ls : List Text}
    (hins : Insertion ls p lead indent q s s') (hedge : Edge p q)
    (hapart : apart "returnpackages".toList (squeeze ls.flatten))
    (h : returnPackages.occursIn s') : returnPackages.occursIn s := by
  rw [hins.target] at h
  rw [← Text.squeeze_block hins.newlines hins.allIndent] at hapart
  have hkept := returns_of_change [] hapart
    ⟨lead ++ Text.joinLines (ls.map (indent ++ ·)), '\n', rfl, by decide⟩ (fun hs _ => ?_)
    (fun hq hbrace _ => ?_) h
  · rw [hins.source]
    simpa using hkept
  · -- No word ends at the start of a line.
    rcases hedge with (hp | rfl) | hq
    · rcases hp with rfl | hp
      · simp at hs
      · rw [hp] at hs
        exact absurd hs (by decide)
    · rfl
    · rw [List.nil_append, hq]
      rfl
  · rcases hedge with (hp | hq') | hq'
    · rwa [List.append_nil]
    · exact absurd hq' hq
    · exact absurd hq' hbrace

/-! ### Scopes of `getPackages()` on one line -/

/-- Lines that come in bring no declaration to the region where it is looked for. -/
theorem occursIn_declarationRegion_of_insertion {t t' p lead indent q : Text} {ls : List Text}
    (honline : OnLine getPackages t) (hins : Insertion ls p lead indent q t t')
    (hheader : apart getPackagesWord (squeeze ls.flatten))
    (hword : apart immutableWord (squeeze ls.flatten))
    (hbal : Brace.isBalanced (squeeze ls.flatten))
    (h : immutablePackages.occursIn (declarationRegion t')) :
    immutablePackages.occursIn (declarationRegion t) := by
  have hkeep : ∀ {s s' p q : Text}, Insertion ls p lead indent q s s' →
      immutablePackages.occursIn s' → immutablePackages.occursIn s := fun hins =>
    occursIn_of_insertion flat_immutablePackages plain_immutablePackages squeezes_immutablePackages
      hins hword
  rcases (honline.insertion isHeader_getPackages hins hheader hbal).2 with
    ⟨hnone, hnone'⟩ | ⟨a, g, inner, b, a', g', inner', b', hscope, hscope', hin⟩
  · rw [declarationRegion, hnone'] at h
    rw [declarationRegion, hnone]
    exact hkeep hins h
  · rw [declarationRegion_of_scope hscope'] at h
    rw [declarationRegion_of_scope hscope]
    rcases hin with rfl | ⟨p', q', -, -, hins'⟩
    · exact h
    · exact hkeep hins' h

/-- Lines that come in at an edge do not make the line that returns the list appear. -/
theorem recognize?_of_insertion {t t' p lead indent q : Text} {ls : List Text}
    (honline : OnLine getPackages t) (hins : Insertion ls p lead indent q t t') (hedge : Edge p q)
    (hheader : apart getPackagesWord (squeeze ls.flatten))
    (hword : apart "returnpackages".toList (squeeze ls.flatten))
    (hbal : Brace.isBalanced (squeeze ls.flatten)) (h : (returnLine.recognize? t').isSome) :
    (returnLine.recognize? t).isSome := by
  rw [recognize?_isSome_iff] at h ⊢
  obtain ⟨a1, g1, inner1, b1, hscope1, hocc⟩ := h
  rcases (honline.insertion isHeader_getPackages hins hheader hbal).2 with
    ⟨-, hnone'⟩ | ⟨a, g, inner, b, a', g', inner', b', hscope, hscope', hin⟩
  · rw [hscope1.find?_eq flat_getPackages] at hnone'
    simp at hnone'
  · obtain ⟨rfl, rfl, rfl, rfl⟩ := hscope1.unique hscope'
    refine ⟨a, g, inner, b, hscope, ?_⟩
    rcases hin with rfl | ⟨p', q', rfl, rfl, hins'⟩
    · exact hocc
    · exact returns_of_insertion hins' hedge.inside hword hocc

end Graft.Entry
