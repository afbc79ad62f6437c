import Graft.Proofs.Integration.DelegateDialect
import Graft.Proofs.Step.MethodSettled

/-! # Running twice on an application delegate

A run leaves a delegate alone exactly when it has an import and its method is settled (`run_eq_iff`):
an import that comes in is not taken away by the method again (`hasImport_of_run_eq`).  What a run
leaves has an import, unless the method has replaced it.  The lines of the method are found again
where they were put, unless an earlier mention of the header leads elsewhere, so that a second run
changes nothing when a Swift method was replaced, or when one was inserted into a text that does not
mention it (`run_run_eq_iff`). -/

namespace Graft.Delegate

open Text (AtLineStart Insertion OneLine squeeze startsIn apart block)
open Brace (isBalanced)
open Pattern

variable {t o p q x lead indent w : Text} {ls : List Text} {v : MethodVariant}

/-! ### The lines of the method -/

/-- The header of the method as the lines of the Swift body have it. -/
def swiftHeader : Text :=
  "override".toList ++ [' '] ++ "func".toList ++ [' '] ++ "bundleURL()".toList ++ [' '] ++
    "->".toList ++ [' '] ++ "URL?".toList

/-- The header of the method as the lines of the Objective-C body have it. -/
def objcHeader : Text :=
  "-".toList ++ [' '] ++ "(NSURL".toList ++ [' '] ++ "*".toList ++ [] ++ ")".toList ++ [] ++
    "bundleURL".toList

theorem takes_swiftBundleUrl : swiftBundleUrl.Takes swiftHeader :=
  (((takes_lit.blanks1_lit (by decide)).blanks1_lit (by decide)).blanks_lit (by decide)).blanks_lit
    (by decide)

theorem takes_objcBundleUrl : objcBundleUrl.Takes objcHeader :=
  (((takes_lit.blanks_lit (by decide)).blanks_lit (by decide)).blanks_lit (by decide)).blanks_lit
    (by decide)

/-- Lines that start with a header, whose words are `w`, go on with a brace that the last character
closes, and hold neither the header a second time nor the start of an import. -/
structure IsMethod (ls : List Text) (header rest w : Text) : Prop where
  first : ls = (header ++ rest) :: ls.tail
  braces : squeeze ls.flatten =
    w ++ '{' :: ((squeeze ls.flatten).drop (w.length + 1)).dropLast ++ ['}']
  balanced : isBalanced ((squeeze ls.flatten).drop (w.length + 1)).dropLast
  alone : startsIn (squeeze ls.flatten) w.tail = false
  noImport : ∀ s ∈ importStarts, (squeeze s).occursIn (squeeze ls.flatten) = false

instance (ls : List Text) (header rest w : Text) : Decidable (IsMethod ls header rest w) :=
  decidable_of_iff (ls = (header ++ rest) :: ls.tail ∧ squeeze ls.flatten =
      w ++ '{' :: ((squeeze ls.flatten).drop (w.length + 1)).dropLast ++ ['}'] ∧
    isBalanced ((squeeze ls.flatten).drop (w.length + 1)).dropLast ∧
    startsIn (squeeze ls.flatten) w.tail = false ∧
    ∀ s ∈ importStarts, (squeeze s).occursIn (squeeze ls.flatten) = false)
    ⟨fun ⟨h1, h2, h3, h4, h5⟩ => ⟨h1, h2, h3, h4, h5⟩,
      fun ⟨h1, h2, h3, h4, h5⟩ => ⟨h1, h2, h3, h4, h5⟩⟩

theorem isMethod_joinLines {header rest : Text} (hfull : ∀ l ∈ ls, Text.Full l)
    (h : IsMethod ls header rest w) : IsMethod (Text.joinLines ls).lines header rest w := by
  rwa [Text.lines_joinLines hfull]

set_option maxRecDepth 4096 in
theorem isMethod_swift : IsMethod swiftLines swiftHeader [' ', '{'] swiftWord := by
  refine isMethod_joinLines ?_ ?_
  all_goals
    simp only [List.map_cons, List.map_nil, String.toList_append, -String.reduceToList,
      -String.reduceAppend]
    repeat rw [String.toList_ofList]
    decide

set_option maxRecDepth 4096 in
theorem isMethod_objc : IsMethod objcLines objcHeader [] objcWord := by
  refine isMethod_joinLines ?_ ?_
  all_goals
    simp only [List.map_cons, List.map_nil, String.toList_append, -String.reduceToList,
      -String.reduceAppend]
    repeat rw [String.toList_ofList]
    decide

theorem IsMethod.isScope {header rest : Text} (h : IsMethod ls header rest w) (hv : v.HasLines ls)
    (hh : v.header.IsHeader w) (htakes : v.header.Takes header) : v.IsScope ls w where
  toHasLines := hv
  isHeader := hh
  first := ⟨header, rest, ls.tail, h.first, htakes _ _⟩
  braces := ⟨_, h.braces, h.balanced⟩
  alone := h.alone

/-- The lines of a form of the method, which are apart from the import. -/
structure IsForm (v : MethodVariant) (ls : List Text) (w : Text) : Prop extends v.IsScope ls w where
  noImport : ∀ s ∈ importStarts, ¬squeeze s <:+: squeeze ls.flatten
  apartImport : ∀ l ∈ Payload.standard.iosImportMarkers, apart w (squeeze l)

theorem IsMethod.not_infix {header rest : Text} (h : IsMethod ls header rest w) :
    ∀ s ∈ importStarts, ¬squeeze s <:+: squeeze ls.flatten := by
  intro s hs hin
  have hocc := h.noImport s hs
  rw [Text.occursIn_iff.mpr hin] at hocc
  simp at hocc

theorem isForm_swift : IsForm swiftForm swiftLines swiftWord where
  toIsScope := isMethod_swift.isScope hasLines_swiftForm isHeader_swiftBundleUrl takes_swiftBundleUrl
  noImport := isMethod_swift.not_infix
  apartImport := by decide

theorem isForm_objc : IsForm objcForm objcLines objcWord where
  toIsScope := isMethod_objc.isScope hasLines_objcForm isHeader_objcBundleUrl takes_objcBundleUrl
  noImport := isMethod_objc.not_infix
  apartImport := by decide

theorem exists_isForm (hv : v ∈ (bundleUrlStep .standard).variants) : ∃ ls w, IsForm v ls w := by
  rw [variants_bundleUrlStep] at hv
  simp only [List.mem_cons, List.not_mem_nil, or_false] at hv
  rcases hv with rfl | rfl
  · exact ⟨_, _, isForm_swift⟩
  · exact ⟨_, _, isForm_objc⟩

theorem located?_eq (t : Text) : (bundleUrlStep .standard).located? t =
    if (Scope.find? swiftBundleUrl t).isSome then some swiftForm
    else if (Scope.find? objcBundleUrl t).isSome then some objcForm else none :=
  located?_eq_ite .standard t

/-! ### The import stays -/

theorem oneLine_marker (hw : w ∈ Payload.standard.iosImportMarkers) : OneLine w :=
  ⟨(lineWord_marker w hw).1, (free_marker w hw).2⟩

theorem hasImport_insertion (h : Insertion ls p lead indent q t o) (himport : HasImport t) :
    HasImport o := by
  obtain ⟨w, hw, hin⟩ := himport
  exact ⟨w, hw, h.infix_target (oneLine_marker hw) (free_marker w hw).1 hin⟩

theorem hasImport_afterImport (t : Text) (sink : Sink) :
    HasImport (afterImport .standard t sink) := by
  rcases importStep_cases t sink with ⟨himport, e⟩ | ⟨-, p, lead, indent, q, -, hins⟩
  · rw [afterImport, e]
    exact himport
  · exact ⟨_, importLine_mem t, hins.infix_of_mem (List.mem_singleton_self _)⟩

/-- An import lies before, in or behind the scope of the method. -/
theorem hasImport_cases {l g inner b : Text} (hx : AtLineStart x)
    (h : HasImport (x ++ wholeText l g inner ++ b)) :
    HasImport x ∨ HasImport (wholeText l g inner) ∨ HasImport b := by
  obtain ⟨w, hw, hin⟩ := h
  have hone := oneLine_marker hw
  have e : x ++ wholeText l g inner ++ b = x ++ (l ++ g ++ '{' :: inner) ++ '}' :: b := by
    simp [wholeText]
  rw [e] at hin
  have hwhole : w <:+: l ++ g ++ '{' :: inner → HasImport (wholeText l g inner) := fun h =>
    ⟨w, hw, h.trans ⟨[], ['}'], rfl⟩⟩
  rcases Text.infix_append_cons hone.2 hin with hin | hin
  · rcases hx with rfl | hx
    · exact .inr (.inl (hwhole hin))
    · obtain ⟨y, rfl⟩ := List.getLast?_eq_some_iff.mp hx
      rw [List.append_assoc, List.singleton_append] at hin
      rcases Text.infix_newline hone.1 hin with hin | hin
      · exact .inl ⟨w, hw, hin.trans ⟨[], ['\n'], rfl⟩⟩
      · exact .inr (.inl (hwhole hin))
  · exact .inr (.inr ⟨w, hw, hin⟩)

/-- An import that is gone was in what the method has replaced. -/
theorem exists_replaced_of_not_hasImport (ht : HasImport t) (sink : Sink)
    (h : ¬HasImport ((bundleUrlStep .standard).apply t sink).1) :
    ∃ old, (bundleUrlStep .standard).replaced? t = some old ∧ HasImport old := by
  cases hloc : (bundleUrlStep .standard).located? t with
  | none =>
      refine absurd ?_ h
      rcases MethodStep.apply_of_none_cases proper_bundleUrlStep hloc sink with
        e | ⟨v, -, ls, -, -, p, lead, indent, q, hins⟩
      · rwa [e]
      · exact hasImport_insertion hins ht
  | some v =>
      obtain ⟨ls, w, hv⟩ := exists_isForm (MethodStep.mem_of_located? hloc)
      rcases MethodStep.apply_of_located_cases hloc hv.toHasLines sink with
        e | ⟨x, l, g, inner, b, indent, hwhole, hreplaced, -, e⟩
      · rw [e] at h
        exact absurd ht h
      · refine ⟨_, hreplaced, ?_⟩
        rw [e] at h
        rw [hwhole.split] at ht
        rcases hasImport_cases hwhole.lineStart ht with ⟨w, hw, hin⟩ | hin | ⟨w, hw, hin⟩
        · exact absurd ⟨w, hw, hin.trans ⟨[], _, by rw [List.nil_append, List.append_assoc]⟩⟩ h
        · exact hin
        · exact absurd ⟨w, hw, hin.trans ⟨_, [], List.append_nil _⟩⟩ h

/-! ### The import does not come and go

Without an import a run brings one.  If the method then took it away again, the run would give back
its input; but the import comes in before the method, behind it, or behind a line of the method that
starts with an import, and there is no such line. -/

/-- A line in which some lines end is one of them, or the end of one. -/
theorem suffix_of_line {y l u : Text} (hx : AtLineStart x) (hu : u ≠ [])
    (hl : ∀ y c z, l = y ++ c :: z → '\n' ∉ y) (e : y ++ l = x ++ u) : l <:+ u := by
  rcases List.append_eq_append_iff.mp e with ⟨r, rfl, hr⟩ | ⟨r, rfl, hr⟩
  · by_cases h0 : r = []
    · rw [hr, h0]
      exact List.suffix_refl _
    · obtain ⟨c, u, rfl⟩ := List.exists_cons_of_ne_nil hu
      rcases hx.of_append h0 with h | h
      · exact absurd h h0
      · exact absurd (List.mem_of_getLast? h) (hl r c u hr)
  · exact ⟨r, hr.symm⟩

/-- Lines without an import do not end in one. -/
theorem not_importPlace {u z : Text} (hx : AtLineStart x) (hu : u ≠ [])
    (hlines : Text.joinLines (ls.map (indent ++ ·)) = u ++ z) (hindent : indent.all isIndent)
    (hls : ∀ s ∈ importStarts, ¬squeeze s <:+: squeeze ls.flatten) : ¬ImportPlace (x ++ u) := by
  rintro (h | ⟨y, l, e, -, hl, hstarts⟩)
  · exact hu (List.append_eq_nil_iff.mp h).2
  · obtain ⟨s, hs, hprefix⟩ := List.any_eq_true.mp hstarts
    have hin : s <:+: u ++ z := by
      refine ((List.isPrefixOf_iff_prefix.mp hprefix).isInfix.trans
        (List.dropWhile_suffix _).isInfix).trans ?_
      exact (suffix_of_line hx hu hl e.symm).isInfix.trans (List.prefix_append u z).isInfix
    refine hls s hs ?_
    rw [← Text.squeeze_joinLines hindent, hlines]
    exact hin.filter _

/-- An import that comes in before a scope stays when the scope is replaced. -/
theorem hasImport_of_before {r l : Text} (hl : '\n' ∉ l)
    (e : block lead indent [importLine o] ++ (r ++ w) = r ++ l) : HasImport r := by
  have e' : (lead ++ (indent ++ importLine o)) ++ '\n' :: (r ++ w) = r ++ l := by
    rw [← e]
    simp [block, Text.joinLines_cons]
  obtain ⟨z, hz, -⟩ := Text.suffix_behind e' hl
  exact ⟨_, importLine_mem o, lead ++ indent, '\n' :: z, by rw [hz]; simp⟩

section Replaced

variable {o' r l g inner b ind : Text} (hins : Insertion [importLine o] p lead indent q o o')
  (hv : IsForm v ls w) (hwhole : WholeScope v.header o' x l g inner b) (hind : ind.all isIndent)
  (ho : o = x ++ Text.joinLines (ls.map (ind ++ ·)) ++ b)

include hins hv hwhole hind ho

/-- An import behind the lines of a method leaves them the scope that is found. -/
theorem import_not_behind (hp : p = x ++ Text.joinLines (ls.map (ind ++ ·)) ++ r) : False := by
  obtain ⟨g0, inner0, hwhole0, hlines⟩ := hv.wholeScope hwhole.lineStart hind
    (fun _ _ _ => hwhole.not_spans hv.isHeader) (r ++ block lead indent [importLine o] ++ q)
  have ho' : o' = x ++ Text.joinLines (ls.map (ind ++ ·)) ++
      (r ++ block lead indent [importLine o] ++ q) := by
    rw [hins.target, hp]
    simp
  rw [← ho'] at hwhole0
  obtain ⟨hl, rfl, rfl, -⟩ := hwhole.scope.unique hwhole0.scope
  obtain rfl := List.append_cancel_left hl
  have hsame := hwhole.split
  rw [hlines, ← ho] at hsame
  exact hins.ne hsame

/-- An import before the lines of a method moves the header. -/
theorem hasImport_of_import_before (hx : x = p ++ r) : HasImport o := by
  obtain ⟨g0, inner0, hwhole0, -⟩ := hv.wholeScope hwhole.lineStart hind
    (fun _ _ _ => hwhole.not_spans hv.isHeader) b
  rw [← ho] at hwhole0
  have hleft := hwhole0.scope.leftmost
  obtain ⟨u, c, hu0, hu⟩ := hleft.1
  rw [hins.source, hx] at hu0
  have hq : q = r ++ ind ++ u ++ c := by simpa using hu0
  have hsource : o = p ++ [] ++ q := by rw [List.append_nil, hins.source]
  rw [hsource, hx] at hleft
  have hmoved : v.header.Leftmost o' (p ++ block lead indent [importLine o] ++ (r ++ ind)) := by
    rw [hins.target]
    refine hleft.moved hv.isHeader.plain hv.isHeader.not_spans_nil
      (.inr ⟨r ++ ind, by simp, rfl⟩) ⟨u, c, by rw [hq]; simp, hu.plain hv.isHeader.plain _ _⟩
      (hins.untouched hv.isHeader ?_)
    rw [List.flatten_singleton]
    exact hv.apartImport _ (importLine_mem o)
  have heq := hmoved.unique hwhole.scope.leftmost
  rw [hx, List.append_assoc, List.append_assoc] at heq
  obtain ⟨m, hm, hin⟩ := hasImport_of_before hwhole.oneLine (List.append_cancel_left heq)
  refine ⟨m, hm, hin.trans ?_⟩
  rw [ho, hx]
  exact ⟨p, Text.joinLines (ls.map (ind ++ ·)) ++ b, by simp⟩

end Replaced

/-- What a run leaves alone has an import. -/
theorem hasImport_of_run_eq {sink : Sink} (h : ((pipeline .standard).run o sink).1 = o) :
    HasImport o := by
  rw [run_fst, afterImport] at h
  rcases importStep_cases o sink with ⟨himport, -⟩ | ⟨-, p, lead, indent, q, hplace, hins⟩
  · exact himport
  generalize ((importStep .standard).apply o sink).1 = o' at h hins
  generalize ((importStep .standard).apply o sink).2 = sink' at h
  cases hloc : (bundleUrlStep .standard).located? o' with
  | none =>
      rcases MethodStep.apply_of_none_cases proper_bundleUrlStep hloc sink' with
        e | ⟨v, -, ls, -, -, p', lead', indent', q', hins'⟩
      · exact absurd (e.symm.trans h) hins.ne
      · -- The text has only become longer.
        have hlen := Nat.lt_trans hins.length_lt hins'.length_lt
        rw [h] at hlen
        exact absurd hlen (Nat.lt_irrefl _)
  | some v =>
      obtain ⟨ls, w, hv⟩ := exists_isForm (MethodStep.mem_of_located? hloc)
      rcases MethodStep.apply_of_located_cases hloc hv.toHasLines sink' with
        e | ⟨x, l, g, inner, b, ind, hwhole, -, hind, e⟩
      · exact absurd (e.symm.trans h) hins.ne
      have ho := h.symm.trans e
      rcases Text.cut_cases (hins.source.symm.trans ho) with
        ⟨r, hp, -⟩ | ⟨r, hx, -⟩ | ⟨u, z, hu, -, hlines, rfl, -⟩
      · exact (import_not_behind hins hv hwhole hind ho hp).elim
      · exact hasImport_of_import_before hins hv hwhole hind ho hx
      · exact absurd hplace (not_importPlace hwhole.lineStart hu hlines hind hv.noImport)

/-! ### What a run leaves is settled -/

/-- The lines of a form at the place where a run has put them: its header does not occur before
them. -/
structure Placed (v : MethodVariant) (ls : List Text) (o x indent b : Text) : Prop where
  eq : o = x ++ Text.joinLines (ls.map (indent ++ ·)) ++ b
  lineStart : AtLineStart x
  allIndent : indent.all isIndent
  notBefore : ∀ a u c, x = a ++ u ++ c → ¬v.header.Spans a u c

theorem Placed.find?_isSome {b : Text} (h : Placed v ls o x indent b) (hv : v.IsScope ls w) :
    (Scope.find? v.header o).isSome := by
  rw [h.eq]
  exact hv.find?_isSome h.lineStart h.allIndent h.notBefore b

theorem Placed.settled {b : Text} (h : Placed v ls o x indent b) (hv : v.IsScope ls w)
    (hloc : (bundleUrlStep .standard).located? o = some v) : (bundleUrlStep .standard).Settled o := by
  obtain ⟨rfl, hx, hindent, hbefore⟩ := h
  exact MethodStep.settled_of_lines hv hx hindent hbefore hloc

theorem settled_or_placed_of_located (hv : IsForm v ls w)
    (h : (bundleUrlStep .standard).located? t = some v) (sink : Sink) :
    ((bundleUrlStep .standard).apply t sink).1 = t ∨
      ∃ x indent b, Placed v ls ((bundleUrlStep .standard).apply t sink).1 x indent b := by
  rcases MethodStep.apply_of_located_cases h hv.toHasLines sink with
    e | ⟨x, l, g, inner, b, indent, hwhole, -, hindent, e⟩
  · exact .inl e
  · exact .inr ⟨x, indent, b, e, hwhole.lineStart, hindent, fun _ _ _ => hwhole.not_spans hv.isHeader⟩

theorem placed_of_insertion (hv : IsForm v ls w) (hfind : v.header.find? t = none)
    (hins : Insertion ls p lead indent q t o) : Placed v ls o (p ++ lead) indent ('\n' :: q) where
  eq := by rw [hins.target, block]; simp
  lineStart := hins.lineStart
  allIndent := hins.allIndent
  notBefore := by
    refine hv.isHeader.not_spans_newlines (fun a u c e => ?_) hins.newlines
    exact (Pattern.find?_eq_none_iff hv.flat).mp hfind a u (c ++ q)
      (by rw [hins.source, e]; simp) ∘ fun hu => hu.plain hv.isHeader.plain _ _

variable {sink : Sink}

theorem settled_of_apply_eq (h : ((bundleUrlStep .standard).apply t sink).1 = t) :
    (bundleUrlStep .standard).Settled ((bundleUrlStep .standard).apply t sink).1 := by
  rw [h]
  exact (MethodStep.apply_fst_eq_iff proper_bundleUrlStep sink).mp h

/-- A Swift method that has been replaced is found again. -/
theorem settled_of_swift (h : (bundleUrlStep .standard).located? t = some swiftForm) :
    (bundleUrlStep .standard).Settled ((bundleUrlStep .standard).apply t sink).1 := by
  rcases settled_or_placed_of_located isForm_swift h sink with e | ⟨x, indent, b, hplaced⟩
  · exact settled_of_apply_eq e
  · refine hplaced.settled isForm_swift.toIsScope ?_
    have hfind : (Scope.find? swiftBundleUrl _).isSome := hplaced.find?_isSome isForm_swift.toIsScope
    rw [located?_eq, if_pos hfind]

/-- An Objective-C method that has been replaced is found again, unless there is a Swift scope
now. -/
theorem settled_of_objc_iff (h : (bundleUrlStep .standard).located? t = some objcForm) :
    (bundleUrlStep .standard).Settled ((bundleUrlStep .standard).apply t sink).1 ↔
      ∀ scope, Scope.find? swiftBundleUrl ((bundleUrlStep .standard).apply t sink).1 = some scope →
        Text.sameLines (scope.whole ((bundleUrlStep .standard).apply t sink).1) swiftForm.body := by
  cases hswift : Scope.find? swiftBundleUrl ((bundleUrlStep .standard).apply t sink).1 with
  | some scope =>
      have hloc : (bundleUrlStep .standard).located? ((bundleUrlStep .standard).apply t sink).1 =
          some swiftForm := by
        rw [located?_eq, if_pos (by rw [hswift]; rfl)]
      have hscope : Scope.find? swiftForm.header ((bundleUrlStep .standard).apply t sink).1 =
          some scope := hswift
      rw [MethodStep.settled_iff_of_located hloc]
      simp [MethodStep.replaced?, hloc, hscope]
  | none =>
      simp only [reduceCtorEq, false_implies, implies_true, iff_true]
      rcases settled_or_placed_of_located isForm_objc h sink with e | ⟨x, indent, b, hplaced⟩
      · exact settled_of_apply_eq e
      · refine hplaced.settled isForm_objc.toIsScope ?_
        have hfind : (Scope.find? objcBundleUrl _).isSome :=
          hplaced.find?_isSome isForm_objc.toIsScope
        rw [located?_eq, hswift, if_neg (by simp), if_pos hfind]

theorem apart_swiftWord_objcLines : apart swiftWord (squeeze objcLines.flatten) := by decide +kernel

/-- A method that has been inserted is found again, if the text did not mention it. -/
theorem settled_of_none (h : (bundleUrlStep .standard).located? t = none)
    (hfind : ∀ v ∈ (bundleUrlStep .standard).variants, v.header.find? t = none) :
    (bundleUrlStep .standard).Settled ((bundleUrlStep .standard).apply t sink).1 := by
  rcases MethodStep.apply_of_none_cases proper_bundleUrlStep h sink with
    e | ⟨v, hv, ls, hls, -, p, lead, indent, q, hins⟩
  · exact settled_of_apply_eq e
  · have hnone := hfind v hv
    have hswift : swiftBundleUrl.find? t = none := hfind swiftForm (List.mem_cons_self ..)
    rw [variants_bundleUrlStep] at hv
    simp only [List.mem_cons, List.not_mem_nil, or_false] at hv
    rcases hv with rfl | rfl
    · obtain rfl := hls.unique hasLines_swiftForm
      have hplaced := placed_of_insertion isForm_swift hnone hins
      refine hplaced.settled isForm_swift.toIsScope ?_
      have hsome : (Scope.find? swiftBundleUrl _).isSome :=
        hplaced.find?_isSome isForm_swift.toIsScope
      rw [located?_eq, if_pos hsome]
    · obtain rfl := hls.unique hasLines_objcForm
      have hplaced := placed_of_insertion isForm_objc hnone hins
      refine hplaced.settled isForm_objc.toIsScope ?_
      have hsome : (Scope.find? objcBundleUrl _).isSome :=
        hplaced.find?_isSome isForm_objc.toIsScope
      -- The lines do not bring a Swift scope.
      have honline := onLine_of_find?_eq_none isHeader_swiftBundleUrl.flat hswift
      rcases (honline.insertion isHeader_swiftBundleUrl hins apart_swiftWord_objcLines
        hasLines_objcForm.balanced).2 with ⟨-, hgone⟩ | ⟨a, g, inner, b, _, _, _, _, hscope, -⟩
      · rw [located?_eq, hgone, if_neg (by simp), if_pos hsome]
      · obtain ⟨u, c, e, hu⟩ := hscope.leftmost.1
        exact absurd hu ((Pattern.find?_eq_none_iff isHeader_swiftBundleUrl.flat).mp hswift a u c e)

/-! ### Runs -/

/-- A run leaves its input alone exactly when that has an import and the method is settled. -/
theorem run_eq_iff (o : Text) (sink : Sink) : ((pipeline .standard).run o sink).1 = o ↔
    HasImport o ∧ (bundleUrlStep .standard).Settled o := by
  constructor
  · intro h
    have himport := hasImport_of_run_eq h
    rw [run_fst, afterImport_of_hasImport himport] at h
    exact ⟨himport, (MethodStep.apply_fst_eq_iff proper_bundleUrlStep _).mp h⟩
  · rintro ⟨himport, hsettled⟩
    rw [run_fst, afterImport_of_hasImport himport]
    exact (MethodStep.apply_fst_eq_iff proper_bundleUrlStep _).mpr hsettled

/-- A second run changes nothing exactly when the first one has left an import and a method that is
settled.  The import is there unless the method has replaced it.  A Swift method that was replaced
is settled; one in Objective-C is unless another scope has the header of a Swift method; and one
that was inserted is if the text did not mention it. -/
theorem run_run_eq_iff (t : Text) (sink sink' : Sink) :
    let method := bundleUrlStep .standard
    let t1 := afterImport .standard t sink
    let o := ((pipeline .standard).run t sink).1
    (((pipeline .standard).run o sink').1 = o ↔ HasImport o ∧ method.Settled o) ∧
      (¬HasImport o → ∃ old, method.replaced? t1 = some old ∧ HasImport old) ∧
      (method.located? t1 = some swiftForm → method.Settled o) ∧
      (method.located? t1 = some objcForm → (method.Settled o ↔ ∀ scope,
        Scope.find? swiftBundleUrl o = some scope →
          Text.sameLines (scope.whole o) swiftForm.body)) ∧
      (method.located? t1 = none → (∀ v ∈ method.variants, v.header.find? t1 = none) →
        method.Settled o) := by
  refine ⟨run_eq_iff _ sink', ?_, ?_, ?_, ?_⟩
  · exact exists_replaced_of_not_hasImport (hasImport_afterImport t sink) _
  · exact settled_of_swift
  · exact settled_of_objc_iff
  · exact settled_of_none

/-- A delegate without the method. -/
def bareDelegate : Text :=
  "import CodePush\nclass A \x7b\n\x7d\n".toList

/-- A delegate that mentions the method in a comment. -/
def mentionedDelegate : Text :=
  "import CodePush\nclass A \x7b\n// override func bundleURL()->URL?\n\x7d\n".toList

theorem run_run_eq_iff_bareDelegate :
    ((pipeline .standard).run ((pipeline .standard).run bareDelegate .empty).1 .empty).1 =
      ((pipeline .standard).run bareDelegate .empty).1 := by
  have hafter : afterImport .standard bareDelegate .empty = bareDelegate :=
    afterImport_of_hasImport (by decide) _
  have hloc : (bundleUrlStep .standard).located? bareDelegate = none := by decide +kernel
  have hfind : ∀ v ∈ (bundleUrlStep .standard).variants, v.header.find? bareDelegate = none := by
    decide +kernel
  obtain ⟨hrun, himport, -, -, hinserted⟩ := run_run_eq_iff bareDelegate .empty .empty
  rw [hafter] at himport hinserted
  refine hrun.mpr ⟨Decidable.byContradiction fun hnot => ?_, hinserted hloc hfind⟩
  obtain ⟨old, hold, -⟩ := himport hnot
  rw [MethodStep.replaced?_of_none hloc] at hold
  simp at hold

/-- The method comes in behind the comment, and a second run takes the comment for its header. -/
theorem run_run_ne_mentionedDelegate :
    ((pipeline .standard).run ((pipeline .standard).run mentionedDelegate .empty).1 .empty).1 ≠
      ((pipeline .standard).run mentionedDelegate .empty).1 := by
  have hreplaced : (bundleUrlStep .standard).replaced?
      ((bundleUrlStep .standard).apply mentionedDelegate .empty).1 ≠ none := by decide +kernel
  rw [Ne, run_eq_iff]
  rintro ⟨-, hsettled⟩
  have hnone := hsettled.replaced
  rw [run_fst, afterImport_of_hasImport (by decide)] at hnone
  exact hreplaced hnone

end Graft.Delegate
