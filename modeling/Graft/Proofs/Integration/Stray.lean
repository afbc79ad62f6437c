import Graft.Proofs.Integration.Entry

/-! # Where the start-up call goes astray

A scope of `onCreate()` on one line is not roomy, so the call comes in behind it, where no later run
looks for it.  When the headers of `onCreate()` and `getPackages()` share a line with their braces,
that is the only way for a second run to change what the first one returns (`withAll_withAll_iff`,
`settled_withAll_iff`). -/

namespace Graft.Entry

open Pattern
open Text (AtLineStart OneLine Insertion Whole squeeze apart)
open Brace (Free isBalanced)

variable {package t t' a g inner b p q lead indent before old new after w : Text}
  {header : Pattern} {ls : List Text}

/-- The call would be put behind the scope of `onCreate()`, which does not hold it. -/
def Stray (t : Text) : Prop :=
  ∃ a g inner b, ScopeAt onCreate t a g inner b ∧
    ¬Payload.standard.androidInitMarker <:+: inner ∧ ¬Roomy inner

/-- The scope of `onCreate()`, if there is one, holds the call. -/
def Called (t : Text) : Prop :=
  ∀ a g inner b, ScopeAt onCreate t a g inner b → Payload.standard.androidInitMarker <:+: inner

theorem called_iff (h : ScopeAt onCreate t a g inner b) :
    Called t ↔ Payload.standard.androidInitMarker <:+: inner := by
  constructor
  · exact fun hcalled => hcalled a g inner b h
  · intro hmarker a' g' inner' b' h'
    obtain ⟨-, -, rfl, -⟩ := h.unique h'
    exact hmarker

theorem stray_iff (h : ScopeAt onCreate t a g inner b) :
    Stray t ↔ ¬Payload.standard.androidInitMarker <:+: inner ∧ ¬Roomy inner := by
  constructor
  · rintro ⟨a', g', inner', b', h', hstray⟩
    obtain ⟨-, -, rfl, -⟩ := h.unique h'
    exact hstray
  · exact fun hstray => ⟨a, g, inner, b, h, hstray⟩

theorem called_of_none (h : Scope.find? onCreate t = none) : Called t := by
  intro a g inner b hscope
  exact absurd hscope ((scopeFind?_eq_none_iff isHeader_onCreate.flat).mp h a g inner b)

theorem not_stray_of_none (h : Scope.find? onCreate t = none) : ¬Stray t := by
  rintro ⟨a, g, inner, b, hscope, -⟩
  exact (scopeFind?_eq_none_iff isHeader_onCreate.flat).mp h a g inner b hscope

/-! ### The imports -/

theorem apartFromImports_onCreateWord : ApartFromImports onCreateWord := by
  refine ⟨by decide, by decide, ?_⟩
  rintro z (rfl | rfl | rfl) <;> decide +kernel

theorem apartFromImports_getPackagesWord : ApartFromImports getPackagesWord := by
  refine ⟨by decide, by decide, ?_⟩
  rintro z (rfl | rfl | rfl) <;> decide +kernel

theorem onLine_withImports (hp : AndroidConfig.isPackageName package) (hh : header.IsHeader w)
    (hw : ApartFromImports w) (h : OnLine header t) : OnLine header (withImports package t) := by
  rcases (importsStep_cases hp t .empty).1 with e | ⟨new, p, lead, indent, q, hne, hnew, -, hins⟩
  · rw [withImports, e]
    exact h
  · exact (h.insertion hh hins (apart_importLines hp hw hnew hne) (isBalanced_importLines hp hnew)).1

/-- The imports come in at a line start, so not into a scope on one line. -/
theorem stray_withImports_iff (hp : AndroidConfig.isPackageName package) (h : OnLine onCreate t) :
    Stray (withImports package t) ↔ Stray t := by
  rcases (importsStep_cases hp t .empty).1 with
    e | ⟨new, p, lead, indent, q, hne, hnew, hline, hins⟩
  · rw [withImports, e]
  · rcases (h.insertion isHeader_onCreate hins (apart_importLines hp apartFromImports_onCreateWord
      hnew hne) (isBalanced_importLines hp hnew)).2 with
      ⟨hnone, hnone'⟩ | ⟨a, g, inner, b, a', g', inner', b', hscope, hscope', hin⟩
    · exact iff_of_false (not_stray_of_none hnone') (not_stray_of_none hnone)
    · rw [stray_iff hscope, withImports, stray_iff hscope']
      rcases hin with rfl | ⟨p', q', rfl, rfl, hins'⟩
      · rfl
      · have hnl : '\n' ∈ inner := by
          rcases hline with hline | hline
          · rcases hline.of_append (List.cons_ne_nil '{' p') with h | h
            · simp at h
            · have hmem := List.mem_of_getLast? h
              rw [hins'.source]
              exact List.mem_append_left _ (by simpa using hmem)
          · simp at hline
        have hnl' : '\n' ∈ inner' := by
          rw [hins'.target, Text.block]
          simp
        exact iff_of_false (fun h => h.2 (.inr (.inr hnl'))) fun h => h.2 (.inr (.inr hnl))

/-! ### The start-up call -/

theorem called_withStartUp_iff (h : OnLine onCreate t) : Called (withStartUp t) ↔ ¬Stray t := by
  rcases startUpStep_cases t .empty with
    ⟨hnone, e⟩ | ⟨a, g, inner, b, hscope, ⟨hmarker, e⟩ | ⟨hmarker, p, lead, indent, q, hins, hside⟩⟩
  · rw [withStartUp, e]
    exact iff_of_true (called_of_none hnone) (not_stray_of_none hnone)
  · rw [withStartUp, e, called_iff hscope, stray_iff hscope]
    exact iff_of_true hmarker fun h => h.1 hmarker
  · rw [stray_iff hscope, withStartUp]
    have hapart := isPiece_startUp.apart onCreateWord (by simp)
    rcases hside with ⟨hroomy, p', q', rfl, rfl, rfl⟩ | ⟨hroomy, x, rfl, rfl⟩
    · -- The call is inside the scope now.
      have hscope' := hscope.insert isHeader_onCreate (hins.untouched isHeader_onCreate hapart)
        (hins.isBalanced_block isPiece_startUp.balanced)
      rw [← hins.target] at hscope'
      obtain ⟨l, hl, hin⟩ := isPiece_startUp.inside
      rw [called_iff hscope']
      exact iff_of_true ((hin.trans (Text.infix_block hl)).trans ⟨p', q', rfl⟩) fun h => h.2 hroomy
    · rcases (h.insertion isHeader_onCreate hins hapart isPiece_startUp.balanced).2 with
        ⟨hnone, -⟩ | ⟨a1, g1, inner1, b1, a', g', inner', b', hscope1, hscope', hin⟩
      · exact absurd hscope ((scopeFind?_eq_none_iff isHeader_onCreate.flat).mp hnone _ _ _ _)
      · obtain ⟨rfl, rfl, rfl, -⟩ := hscope.unique hscope1
        rw [called_iff hscope']
        rcases hin with rfl | ⟨p', q', hp, -, hins'⟩
        · exact iff_of_false hmarker fun h => h ⟨hmarker, hroomy⟩
        · -- The place is behind the scope.
          have hlen := congrArg List.length hp
          have hinner := congrArg List.length hins'.source
          simp only [List.length_append, List.length_cons] at hlen hinner
          omega

/-! ### The registration and the accessor -/

theorem whole_initMarker : Whole Payload.standard.androidInitMarker := by
  decide

theorem whole_packageMarker : Whole Payload.standard.androidPackageMarker := by
  decide

theorem whole_mutablePackages : Whole Payload.standard.androidMutablePackages := by
  decide

/-- Lines without the marker do not matter to whether the call is there. -/
theorem called_of_insertion (h : OnLine onCreate t) (hins : Insertion ls p lead indent q t t')
    (hapart : apart onCreateWord (squeeze ls.flatten)) (hbal : isBalanced (squeeze ls.flatten))
    (hmarker : ∀ l ∈ ls, ¬Payload.standard.androidInitMarker <:+: l) : Called t' ↔ Called t := by
  rcases (h.insertion isHeader_onCreate hins hapart hbal).2 with
    ⟨hnone, hnone'⟩ | ⟨a, g, inner, b, a', g', inner', b', hscope, hscope', hin⟩
  · exact iff_of_true (called_of_none hnone') (called_of_none hnone)
  · rw [called_iff hscope, called_iff hscope']
    rcases hin with rfl | ⟨p', q', -, -, hins'⟩
    · rfl
    · rw [hins'.infix_iff whole_initMarker]
      constructor
      · rintro (hin | ⟨l, hl, hin⟩)
        · exact hin
        · exact absurd hin (hmarker l hl)
      · exact .inl

/-- A declaration that is rewritten keeps away from a header on one line. -/
theorem IsDeclaration.avoids (hold : IsDeclaration old) (hh : header.IsHeader w)
    (hw : ApartFromDeclaration w) :
    Avoids header before old Payload.standard.androidMutablePackages after where
  apart := fun a g r _ _ u v e hu => hh.squeezes.untouched (hold.apart hw) a u v e hu
  gap := fun a g r x y _ _ _ _ _ => by decide
  untouched := hh.squeezes.untouched (IsDeclaration.apart (.inr rfl) hw)
  free := hold.free
  balanced := (IsDeclaration.free (.inr rfl)).isBalanced

/-- A word that is apart from declarations stays when one is rewritten. -/
theorem IsDeclaration.kept (hold : IsDeclaration old) (hw : ApartFromDeclaration (squeeze w))
    (htight : Text.Tight w) (hin : w <:+: before ++ old ++ after) : w <:+: before ++ new ++ after := by
  have hclear : Text.Clear w before old after := fun x y e =>
    Text.length_le_of_squeeze (hold.apart hw) htight e
  exact hclear.kept hin

theorem Rewritten.called (h : Rewritten t t') (honline : OnLine onCreate t) :
    OnLine onCreate t' ∧ (Called t' ↔ Called t) := by
  obtain ⟨before, old, after, rfl, hold, -, rfl⟩ := h
  have hdecl : IsDeclaration old := .inl ⟨_, _, hold⟩
  have havoids : Avoids onCreate before old Payload.standard.androidMutablePackages after :=
    hdecl.avoids isHeader_onCreate (by decide)
  have hh := isHeader_onCreate
  refine ⟨honline.moved hh.plain hh.flat hh.not_spans_nil havoids, ?_⟩
  rcases honline.change hh.plain hh.flat hh.not_spans_nil havoids with
    ⟨hnone, hnone'⟩ | ⟨a, g, inner, b, a', g', inner', b', hscope, hscope', hin⟩
  · exact iff_of_true (called_of_none hnone') (called_of_none hnone)
  · rw [called_iff hscope, called_iff hscope']
    rcases hin with rfl | ⟨p', q', -, -, rfl, rfl⟩
    · rfl
    · have hapart : ApartFromDeclaration (squeeze Payload.standard.androidInitMarker) := by
        decide
      have htight : Text.Tight Payload.standard.androidInitMarker := by decide
      exact ⟨fun hin => IsDeclaration.kept (.inr rfl) hapart htight hin,
        fun hin => hdecl.kept hapart htight hin⟩

theorem called_withRegistration_iff (h : OnLine onCreate t) :
    OnLine onCreate (withRegistration t) ∧ (Called (withRegistration t) ↔ Called t) := by
  obtain ⟨t1, ht1, hcases⟩ := withRegistration_cases t
  obtain ⟨honline, hcalled⟩ : OnLine onCreate t1 ∧ (Called t1 ↔ Called t) := by
    rcases ht1 with rfl | hrewritten
    · exact ⟨h, .rfl⟩
    · exact hrewritten.called h
  rcases hcases with e | ⟨p, lead, indent, q, hins⟩
  · rw [e]
    exact ⟨honline, hcalled⟩
  · have hpiece := isPiece_registration
    have hapart := hpiece.apart onCreateWord (by simp)
    refine ⟨(honline.insertion isHeader_onCreate hins hapart hpiece.balanced).1, ?_⟩
    rw [← hcalled]
    exact called_of_insertion honline hins hapart hpiece.balanced (hpiece.outside _ (by simp))

theorem called_withAccessor_iff (h : OnLine onCreate t) : Called (withAccessor t) ↔ Called t := by
  rcases withAccessor_cases t with e | ⟨p, lead, indent, q, -, hins⟩
  · rw [e]
  · have hpiece := isPiece_accessor
    exact called_of_insertion h hins (hpiece.apart _ (by simp)) hpiece.balanced
      (hpiece.outside _ (by simp))

theorem onLine_withStartUp (hh : header.IsHeader w)
    (hw : w ∈ [onCreateWord, getPackagesWord, immutableWord])
    (h : OnLine header t) : OnLine header (withStartUp t) := by
  rcases withStartUp_cases t with e | ⟨p, lead, indent, q, hins⟩
  · rwa [e]
  · exact (h.insertion hh hins (isPiece_startUp.apart w hw) isPiece_startUp.balanced).1

/-- What the registration has made sure of is there after the accessor has come in. -/
theorem infix_withAccessor (hw : Whole w) (hin : w <:+: t) : w <:+: withAccessor t := by
  rcases withAccessor_cases t with e | ⟨p, lead, indent, q, -, hins⟩
  · rwa [e]
  · exact hins.infix_target hw.1 hw.2.1 hin

theorem recognize?_of_withAccessor (h : OnLine getPackages t)
    (hline : (returnLine.recognize? (withAccessor t)).isSome) :
    (returnLine.recognize? t).isSome := by
  rcases withAccessor_cases t with e | ⟨p, lead, indent, q, hedge, hins⟩
  · rwa [e] at hline
  · have hpiece := isPiece_accessor
    exact recognize?_of_insertion h hins hedge (hpiece.apart _ (by simp)) (hpiece.apart _ (by simp))
      hpiece.balanced hline

theorem declarationRegion_of_withAccessor (h : OnLine getPackages t)
    (hocc : immutablePackages.occursIn (declarationRegion (withAccessor t))) :
    immutablePackages.occursIn (declarationRegion t) := by
  rcases withAccessor_cases t with e | ⟨p, lead, indent, q, -, hins⟩
  · rwa [e] at hocc
  · have hpiece := isPiece_accessor
    exact occursIn_declarationRegion_of_insertion h hins (hpiece.apart _ (by simp))
      (hpiece.apart _ (by simp)) hpiece.balanced hocc

/-- With the header of `getPackages()` on one line, the package is registered for good. -/
theorem registered_withAccessor (h : OnLine getPackages t)
    (hline : (returnLine.recognize? (withAccessor (withRegistration t))).isSome) :
    Payload.standard.androidPackageMarker <:+: withAccessor (withRegistration t) ∧
      (immutablePackages.occursIn (declarationRegion (withAccessor (withRegistration t))) →
        Payload.standard.androidMutablePackages <:+: withAccessor (withRegistration t)) := by
  have hcases := registerPackage_cases t .empty
  change ((returnLine.recognize? t).isSome = false ∧ withRegistration t = t) ∨ _ at hcases
  rcases hcases with ⟨hno, e⟩ | ⟨-, t1, h1, h2⟩
  · rw [e] at hline
    rw [recognize?_of_withAccessor h hline] at hno
    simp at hno
  · have hpiece := isPiece_registration
    -- The declaration, before the registration comes in and after it.
    have hkeep : ∀ {w : Text}, Whole w → w <:+: t1 → w <:+: withRegistration t := by
      intro w hw hin
      rcases h2 with ⟨-, e⟩ | ⟨-, p, lead, indent, q, hins⟩
      · rwa [withRegistration, e]
      · exact hins.infix_target hw.1 hw.2.1 hin
    have hmarker : Payload.standard.androidPackageMarker <:+: withRegistration t := by
      rcases h2 with ⟨hin, e⟩ | ⟨-, p, lead, indent, q, hins⟩
      · rwa [withRegistration, e]
      · obtain ⟨l, hl, hin⟩ := hpiece.inside
        exact hin.trans (hins.infix_of_mem hl)
    refine ⟨infix_withAccessor whole_packageMarker hmarker, fun hocc => ?_⟩
    refine infix_withAccessor whole_mutablePackages (hkeep whole_mutablePackages ?_)
    rcases h1 with ⟨rfl, hdecl⟩ | ⟨-, before, old, after, -, -, -, rfl⟩
    · refine hdecl ?_
      rcases h2 with ⟨-, e⟩ | ⟨-, p, lead, indent, q, hins⟩
      · change withRegistration t1 = t1 at e
        rw [e] at hocc
        exact declarationRegion_of_withAccessor h hocc
      · have honline := (h.insertion isHeader_getPackages hins (hpiece.apart _ (by simp))
          hpiece.balanced).1
        exact occursIn_declarationRegion_of_insertion h hins (hpiece.apart _ (by simp))
          (hpiece.apart _ (by simp)) hpiece.balanced
          (declarationRegion_of_withAccessor honline hocc)
    · exact ⟨before, after, rfl⟩

/-- With both headers on one line, what a run returns is settled unless the call goes astray. -/
theorem settled_withAll_iff (hp : AndroidConfig.isPackageName package) (hcreate : OnLine onCreate t)
    (hpackages : OnLine getPackages t) : Settled (withAll package t) ↔ ¬Stray t := by
  have hcreate1 := onLine_withImports hp isHeader_onCreate apartFromImports_onCreateWord hcreate
  have hcreate2 := onLine_withStartUp isHeader_onCreate (by simp) hcreate1
  have hpackages2 := onLine_withStartUp isHeader_getPackages (by simp)
    (onLine_withImports hp isHeader_getPackages apartFromImports_getPackagesWord hpackages)
  obtain ⟨hcreate3, hcalled3⟩ := called_withRegistration_iff hcreate2
  have hcalled : Called (withAll package t) ↔ ¬Stray t := by
    rw [withAll, called_withAccessor_iff hcreate3, hcalled3, called_withStartUp_iff hcreate1,
      stray_withImports_iff hp hcreate]
  rw [← hcalled]
  constructor
  · exact fun h => h.startUp
  · exact fun h => ⟨h, fun hline => (registered_withAccessor hpackages2 hline).1,
      fun hline => (registered_withAccessor hpackages2 hline).2⟩

/-! ### Runs -/

/-- A second run changes nothing exactly when the first one has left a settled text; with both
headers on one line that is when the call does not go astray. -/
theorem run_run_iff (hp : AndroidConfig.isPackageName package) (t : Text) (sink sink' : Sink) :
    (((pipeline Payload.standard package).run
          ((pipeline Payload.standard package).run t sink).1 sink').1 =
        ((pipeline Payload.standard package).run t sink).1 ↔
      Settled ((pipeline Payload.standard package).run t sink).1) ∧
    (OnLine onCreate t → OnLine getPackages t →
      (((pipeline Payload.standard package).run
            ((pipeline Payload.standard package).run t sink).1 sink').1 =
          ((pipeline Payload.standard package).run t sink).1 ↔ ¬Stray t)) := by
  simp only [run_fst]
  refine ⟨withAll_withAll_iff hp t, fun hcreate hpackages => ?_⟩
  rw [withAll_withAll_iff hp t]
  exact settled_withAll_iff hp hcreate hpackages

/-- An entry whose `onCreate()` takes several lines. -/
def roomyEntry : Text :=
  "class A \x7b\n  override fun onCreate() \x7b\n    start()\n  \x7d\n\x7d\n".toList

/-- An entry whose `onCreate()` takes one line. -/
def narrowEntry : Text :=
  "class A \x7b\n  override fun onCreate() \x7b start() \x7d\n\x7d\n".toList

/-- The scope of `onCreate()` in the roomy entry. -/
def roomyScope : Scope := ⟨12, 36, 52⟩

/-- The scope of `onCreate()` in the narrow entry. -/
def narrowScope : Scope := ⟨12, 36, 46⟩

theorem scopeAt_roomyEntry : ScopeAt onCreate roomyEntry (roomyEntry.take roomyScope.headerStart)
    (roomyEntry.slice roomyScope.headerStart roomyScope.openAt) (roomyScope.inner roomyEntry)
    (roomyEntry.drop (roomyScope.closeAt + 1)) :=
  scopeAt_of_find? isHeader_onCreate.flat (by decide +kernel)

theorem scopeAt_narrowEntry : ScopeAt onCreate narrowEntry
    (narrowEntry.take narrowScope.headerStart)
    (narrowEntry.slice narrowScope.headerStart narrowScope.openAt) (narrowScope.inner narrowEntry)
    (narrowEntry.drop (narrowScope.closeAt + 1)) :=
  scopeAt_of_find? isHeader_onCreate.flat (by decide +kernel)

theorem run_run_iff_roomyEntry :
    AndroidConfig.isPackageName "a.b".toList ∧ OnLine onCreate roomyEntry ∧
      OnLine getPackages roomyEntry ∧
      ((pipeline Payload.standard "a.b".toList).run
          ((pipeline Payload.standard "a.b".toList).run roomyEntry .empty).1 .empty).1 =
        ((pipeline Payload.standard "a.b".toList).run roomyEntry .empty).1 := by
  have hp : AndroidConfig.isPackageName "a.b".toList := by decide
  have hcreate : OnLine onCreate roomyEntry :=
    scopeAt_roomyEntry.toOpenAt.onLine (by decide +kernel)
  have hpackages : OnLine getPackages roomyEntry :=
    onLine_of_find?_eq_none flat_getPackages (by decide +kernel)
  refine ⟨hp, hcreate, hpackages, ((run_run_iff hp roomyEntry .empty .empty).2 hcreate
    hpackages).mpr fun hstray => ?_⟩
  exact ((stray_iff scopeAt_roomyEntry).mp hstray).2 (.inr (.inr (by decide +kernel)))

/-- The call comes in behind the scope of the narrow entry, and a second run brings it again. -/
theorem run_run_ne_narrowEntry :
    ((pipeline Payload.standard "a.b".toList).run
        ((pipeline Payload.standard "a.b".toList).run narrowEntry .empty).1 .empty).1 ≠
      ((pipeline Payload.standard "a.b".toList).run narrowEntry .empty).1 := by
  have hp : AndroidConfig.isPackageName "a.b".toList := by decide
  have hcreate : OnLine onCreate narrowEntry :=
    scopeAt_narrowEntry.toOpenAt.onLine (by decide +kernel)
  have hpackages : OnLine getPackages narrowEntry :=
    onLine_of_find?_eq_none flat_getPackages (by decide +kernel)
  have hstray : Stray narrowEntry := by
    rw [stray_iff scopeAt_narrowEntry, Roomy]
    decide +kernel
  rw [run_fst, run_fst, Ne, withAll_withAll_iff hp, settled_withAll_iff hp hcreate hpackages]
  exact not_not_intro hstray

end Graft.Entry
