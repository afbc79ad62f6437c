import Graft.Integration.Entry
import Graft.Proofs.Pattern.Words
import Graft.Proofs.Scope
import Graft.Proofs.Step.Contract
import Graft.Proofs.Text.Line

/-! # Making the list of packages mutable

The step that registers the package looks for the line that returns the list, rewrites the
declaration of the list, and looks for that line again.  The rewritten declaration and the line are
apart from each other and from the header of the method, so the second look-up succeeds when the
first one did (`recognize?_of_rewrite`), and the step keeps its contract (`packages_contract`). -/

namespace Graft.Entry

open Pattern
open Text (AtLineStart Moved squeeze Tight apart)
open Brace (Free isBalanced)

variable {a b u t before old new after inner : Text}

/-! ### What the patterns take -/

/-- The header of a method, with any white space. -/
def method (name : String) : Pattern :=
  lit "override" ++ blanks1 ++ lit "fun" ++ blanks1 ++ lit name

theorem flat_method (name : String) : (method name).Flat :=
  ⟨⟨⟨⟨flat_ofText _, trivial⟩, flat_ofText _⟩, trivial⟩, flat_ofText _⟩

theorem plain_method (name : String) : (method name).Plain :=
  ⟨⟨⟨⟨plain_ofText _, trivial⟩, plain_ofText _⟩, trivial⟩, plain_ofText _⟩

theorem squeezes_method {name : String} (h : Compact name.toList) :
    (method name).Squeezes ("override".toList ++ "fun".toList ++ name.toList) :=
  ((squeezes_lit (by decide)).blanks1_lit (by decide)).blanks1_lit h

theorem squeezes_immutablePackages :
    immutablePackages.Squeezes ("val".toList ++ "packages".toList ++ "=".toList ++
      "PackageList(this).packages".toList) :=
  (((squeezes_lit (by decide)).blanks1_lit (by decide)).blanks_lit (by decide)).blanks_lit (by decide)

theorem spans_immutablePackages :
    immutablePackages.Spans a u b ↔
      ∃ v w x, (v ≠ [] ∧ Text.isBlank v) ∧ Text.isBlank w ∧ Text.isBlank x ∧
        u = "val".toList ++ v ++ "packages".toList ++ w ++ "=".toList ++ x ++
          "PackageList(this).packages".toList := by
  simp only [immutablePackages, spans_seq, spans_lit, spans_blanks, spans_blanks1]
  constructor
  · rintro ⟨_, _, rfl, ⟨_, x, rfl, ⟨_, _, rfl, ⟨_, w, rfl, ⟨_, _, rfl, ⟨_, v, rfl, rfl, hv⟩, rfl⟩, hw⟩,
      rfl⟩, hx⟩, rfl⟩
    exact ⟨v, w, x, hv, hw, hx, rfl⟩
  · rintro ⟨v, w, x, hv, hw, hx, rfl⟩
    exact ⟨_, _, rfl, ⟨_, x, rfl, ⟨_, _, rfl, ⟨_, w, rfl, ⟨_, _, rfl, ⟨_, v, rfl, rfl, hv⟩, rfl⟩, hw⟩,
      rfl⟩, hx⟩, rfl⟩

/-- The line that returns the list, from its start to a place where the word ends. -/
theorem spans_returnPackages :
    returnPackages.Spans a u b ↔ AtLineStart a ∧ b.head?.any isWordChar = false ∧
      ∃ ind v, ind.all isIndent ∧ (v ≠ [] ∧ Text.isBlank v) ∧
        u = ind ++ ("return".toList ++ v ++ "packages".toList) := by
  have hboundary : ∀ x : Text, Assertion.boundary.holds (x ++ "packages".toList).getLast? b.head? ↔
      b.head?.any isWordChar = false := by
    intro x
    have hlast : (x ++ "packages".toList).getLast? = some 's' := by simp
    have hword : isWordChar 's' = true := by decide
    rw [Assertion.holds, hlast, Option.any_some, hword]
    cases b.head?.any isWordChar <;> simp
  simp only [returnPackages, spans_seq, spans_lit, spans_blanks1, spans_indent, spans_assert]
  constructor
  · rintro ⟨_, _, rfl, ⟨_, _, rfl, ⟨_, v, rfl, ⟨_, _, rfl, ⟨_, ind, rfl, ⟨rfl, hline⟩, hind⟩, rfl⟩,
      hv⟩, rfl⟩, rfl, hb⟩
    rw [← List.append_assoc, hboundary] at hb
    exact ⟨holds_lineStart.mp hline, hb, ind, v, hind, hv, by simp⟩
  · rintro ⟨hline, hb, ind, v, hind, hv, rfl⟩
    have hb' := (hboundary (a ++ (ind ++ "return".toList ++ v))).mpr hb
    rw [List.append_assoc] at hb'
    exact ⟨ind ++ "return".toList ++ v ++ "packages".toList, [], by simp, ⟨_, _, rfl, ⟨_, v, rfl,
      ⟨ind, _, rfl, ⟨_, ind, rfl, ⟨rfl, holds_lineStart.mpr hline⟩, hind⟩, rfl⟩, hv⟩, rfl⟩, rfl, hb'⟩

/-! ### Declarations -/

/-- A declaration of the list, as it was or rewritten. -/
def IsDeclaration (s : Text) : Prop :=
  (∃ a b, immutablePackages.Spans a s b) ∨ s = Payload.standard.androidMutablePackages

theorem IsDeclaration.starts {s : Text} (h : IsDeclaration s) : ∃ r, s = 'v' :: r := by
  rcases h with ⟨a, b, h⟩ | rfl
  · obtain ⟨v, w, x, -, -, -, rfl⟩ := spans_immutablePackages.mp h
    exact ⟨_, rfl⟩
  · exact ⟨_, rfl⟩

theorem IsDeclaration.ends {s : Text} (h : IsDeclaration s) :
    ∃ r c, s = r ++ [c] ∧ isBlank c = false := by
  rcases h with ⟨a, b, h⟩ | rfl
  · obtain ⟨v, w, x, -, -, -, rfl⟩ := spans_immutablePackages.mp h
    exact ⟨_, 's', (List.append_assoc _ "PackageList(this).package".toList ['s']).symm, by decide⟩
  · exact ⟨Payload.standard.androidMutablePackages.dropLast, ')', by decide, by decide⟩

theorem IsDeclaration.free {s : Text} (h : IsDeclaration s) : Free s := by
  rcases h with ⟨a, b, h⟩ | rfl
  · obtain ⟨v, w, x, ⟨-, hv⟩, hw, hx, rfl⟩ := spans_immutablePackages.mp h
    have hblank : ∀ {v : Text}, Text.isBlank v → Free v := free_of_isBlank
    simp only [Brace.free_append]
    exact ⟨⟨⟨⟨⟨⟨by decide, hblank hv⟩, by decide⟩, hblank hw⟩, by decide⟩, hblank hx⟩, by decide⟩
  · decide

/-- Words that are apart from the two forms of a declaration. -/
def ApartFromDeclaration (w : Text) : Prop :=
  apart w ("val".toList ++ "packages".toList ++ "=".toList ++ "PackageList(this).packages".toList) ∧
    apart w (squeeze Payload.standard.androidMutablePackages)

instance (w : Text) : Decidable (ApartFromDeclaration w) := inferInstanceAs (Decidable (_ ∧ _))

theorem IsDeclaration.apart {s w : Text} (h : IsDeclaration s) (hw : ApartFromDeclaration w) :
    Text.apart w (squeeze s) := by
  rcases h with ⟨a, b, h⟩ | rfl
  · rw [(squeezes_immutablePackages a s b h).1]
    exact hw.1
  · exact hw.2

/-! ### The line that returns the list -/

theorem flat_returnPackages : returnPackages.Flat :=
  ⟨⟨⟨⟨⟨trivial, trivial⟩, flat_ofText _⟩, trivial⟩, flat_ofText _⟩, trivial⟩

theorem flat_immutablePackages : immutablePackages.Flat :=
  ⟨⟨⟨⟨⟨⟨flat_ofText _, trivial⟩, flat_ofText _⟩, trivial⟩, flat_ofText _⟩, trivial⟩, flat_ofText _⟩

theorem flat_getPackages : getPackages.Flat := flat_method _

theorem plain_getPackages : getPackages.Plain := plain_method _

theorem squeezes_getPackages :
    getPackages.Squeezes ("override".toList ++ "fun".toList ++ "getPackages()".toList) :=
  squeezes_method (by decide)

/-- A text with a line that returns the list, taken apart. -/
theorem occursIn_returnPackages_iff : returnPackages.occursIn t ↔ ∃ a ind v b,
    t = (a ++ ind) ++ ("return".toList ++ v ++ "packages".toList) ++ b ∧ AtLineStart a ∧
      ind.all isIndent ∧ (v ≠ [] ∧ Text.isBlank v) ∧ b.head?.any isWordChar = false := by
  rw [occursIn_iff flat_returnPackages]
  constructor
  · rintro ⟨a, u, b, rfl, hu⟩
    obtain ⟨hline, hb, ind, v, hind, hv, rfl⟩ := spans_returnPackages.mp hu
    exact ⟨a, ind, v, b, by simp only [List.append_assoc], hline, hind, hv, hb⟩
  · rintro ⟨a, ind, v, b, rfl, hline, hind, hv, hb⟩
    exact ⟨a, _, b, by simp only [List.append_assoc],
      spans_returnPackages.mpr ⟨hline, hb, ind, v, hind, hv, rfl⟩⟩

/-- A line that returns the list stays one when a text apart from it is changed, where the word in
front of the change still ends there and a line that began behind the change still does. -/
theorem returns_of_change (new : Text) (hapart : apart "returnpackages".toList (squeeze old))
    (hend : ∃ s c, old = s ++ [c] ∧ isIndent c = false)
    (hword : before.getLast? = some 's' → (old ++ after).head?.any isWordChar = false →
      (new ++ after).head?.any isWordChar = false)
    (hstart : after ≠ [] → after.head? ≠ some '}' → AtLineStart (before ++ old) →
      AtLineStart (before ++ new))
    (h : returnPackages.occursIn (before ++ old ++ after)) :
    returnPackages.occursIn (before ++ new ++ after) := by
  rw [occursIn_returnPackages_iff] at h ⊢
  obtain ⟨a, ind, v, b, e, hline, hind, hv, hb⟩ := h
  have hsqueeze : squeeze ("return".toList ++ v ++ "packages".toList) = "returnpackages".toList := by
    rw [Text.squeeze_append, Text.squeeze_append, Text.squeeze_of_isBlank hv.2]
    decide
  have hlen := Text.length_le_of_squeeze (u := "return".toList ++ v ++ "packages".toList)
    (w := old) (by rw [hsqueeze]; exact hapart) (tight_append (by decide) (by decide)) e
  rcases exists_moved e (by simp) hlen new with ⟨z, hz, -, hnew⟩ | ⟨z, hz, hafter, -, hnew⟩
  · -- The line is before the change: its last word has to end where it did.
    obtain rfl : b = z ++ (old ++ after) := by
      rw [hz] at e
      simpa using e.symm
    refine ⟨a, ind, v, z ++ new ++ after, hnew, hline, hind, hv, ?_⟩
    cases z with
    | nil =>
        refine hword ?_ hb
        rw [hz, List.append_nil, List.getLast?_append, List.getLast?_append]
        rfl
    | cons c z => exact hb
  · -- The line is behind the change, with its indentation: it has to begin there.
    obtain ⟨s, c, rfl, hc⟩ := hend
    have hcind : c ∉ ind := fun hm => by
      rw [List.all_eq_true.mp hind c hm] at hc
      simp at hc
    obtain ⟨x, rfl, rfl⟩ : ∃ x, a = (before ++ s) ++ c :: x ∧ z = x ++ ind :=
      Text.suffix_behind (by rw [hz]; simp) hcind
    have hfront : (before ++ s) ++ c :: x = before ++ (s ++ [c]) ++ x := by simp
    rw [hfront] at hline
    refine ⟨before ++ new ++ x, ind, v, b, by rw [hnew]; simp only [List.append_assoc], ?_, hind, hv,
      hb⟩
    by_cases hx : x = []
    · subst hx
      rw [List.append_nil] at hline ⊢
      refine hstart (by rw [hafter]; simp) (fun hbrace => ?_) hline
      rw [hafter] at hbrace
      cases ind with
      | nil => simp at hbrace
      | cons i ind =>
          obtain rfl : i = '}' := by simpa using hbrace
          exact absurd (List.all_eq_true.mp hind _ (List.mem_cons_self ..)) (by decide)
    · rw [Text.atLineStart_append_iff hx] at hline ⊢
      exact hline

/-- A line that returns the list stays one when a declaration is rewritten. -/
theorem returns_of_rewrite (hold : IsDeclaration old) (new : Text)
    (h : returnPackages.occursIn (before ++ old ++ after)) :
    returnPackages.occursIn (before ++ new ++ after) := by
  obtain ⟨r, hr⟩ := hold.starts
  obtain ⟨s, c, hs, hc⟩ := hold.ends
  refine returns_of_change new (hold.apart (by decide)) ⟨s, c, hs, ?_⟩ (fun _ hword => ?_)
    (fun _ _ hstart => ?_) h
  · exact Bool.eq_false_iff.mpr fun hindent => by simp [isBlank_of_isIndent hindent] at hc
  · -- The declaration begins with a letter: no word ends in front of it.
    rw [hr, List.cons_append, List.head?_cons, Option.any_some] at hword
    exact absurd hword (by decide)
  · -- It ends inside a line.
    have hlast : AtLineStart [c] := AtLineStart.of_append (a := before ++ s) (by simpa [hs] using hstart)
      (by simp)
    obtain rfl : c = '\n' := by simpa [AtLineStart] using hlast
    exact absurd hc (by decide)

theorem recognize?_isSome_iff :
    (returnLine.recognize? t).isSome ↔
      ∃ a g inner b, ScopeAt getPackages t a g inner b ∧ returnPackages.occursIn inner := by
  have hplace : ∀ s : Text, ((Locator.beforeLine returnPackages).find? s).isSome ↔
      returnPackages.occursIn s := by
    intro s
    rw [Locator.find?, Option.isSome_map, occursIn]
  rw [Recognizer.recognize?, Option.isSome_map, returnLine, Recognizer.within, Locator.find?]
  cases hscope : Scope.find? getPackages t with
  | none =>
      simp only [Option.bind_eq_bind, Option.bind_none, Option.isSome_none, Bool.false_eq_true,
        false_iff]
      rintro ⟨a, g, inner, b, h, -⟩
      rw [h.find?_eq flat_getPackages] at hscope
      simp at hscope
  | some s =>
      obtain ⟨a, g, inner, b, h, rfl⟩ := (scopeFind?_eq_some_iff flat_getPackages).mp hscope
      simp only [Option.bind_eq_bind, Option.bind_some, h.inner_eq, Option.pure_def,
        Option.isSome_bind, Option.isSome_some, Option.any_true]
      rw [hplace]
      constructor
      · exact fun hocc => ⟨a, g, inner, b, h, hocc⟩
      · rintro ⟨a', g', inner', b', h', hocc⟩
        have e := (h'.find?_eq flat_getPackages).symm.trans (h.find?_eq flat_getPackages)
        rw [← h'.inner_eq, Option.some.inj e, h.inner_eq] at hocc
        exact hocc

/-- The line that returns the list is found again after a declaration has been rewritten. -/
theorem recognize?_of_rewrite (hold : IsDeclaration old) (hnew : IsDeclaration new)
    (h : (returnLine.recognize? (before ++ old ++ after)).isSome) :
    (returnLine.recognize? (before ++ new ++ after)).isSome := by
  rw [recognize?_isSome_iff] at h ⊢
  obtain ⟨a, g, inner, b, hscope, hocc⟩ := h
  obtain ⟨a', g', inner', b', hscope', rfl | ⟨p, q, -, -, rfl, rfl⟩⟩ :=
    hscope.moved plain_getPackages squeezes_getPackages.not_spans_nil
      (fun u w e hu => squeezes_getPackages.untouched (hold.apart (by decide)) _ u w e hu)
      (squeezes_getPackages.untouched (hnew.apart (by decide))) hold.free hnew.free.isBalanced
      (fun _ _ _ _ _ => hnew.free.1)
  · exact ⟨a', g', inner', b', hscope', hocc⟩
  · exact ⟨a', g', _, b', hscope', returns_of_rewrite hold new hocc⟩

/-! ### The step -/

/-- The first declaration of an immutable list has become that of a mutable one, which the text did
not hold. -/
def Rewritten (t t' : Text) : Prop :=
  ∃ before old after, t = before ++ old ++ after ∧ immutablePackages.Spans before old after ∧
    ¬Payload.standard.androidMutablePackages <:+: t ∧
      t' = before ++ Payload.standard.androidMutablePackages ++ after

/-- The declaration at the first place is the match that gets replaced. -/
theorem find?_of_leftmost (hleft : immutablePackages.Leftmost t a) (e : t = a ++ u ++ b)
    (hu : immutablePackages.Spans a u b) :
    ∃ m, immutablePackages.find? t = some m ∧
      ∀ new, t.replaceRange m.start m.stop new = a ++ new ++ b := by
  obtain ⟨u', b', gs, e', hfirst, hfind⟩ := exists_first flat_immutablePackages e hu hleft.2
  obtain rfl := squeezes_immutablePackages.unique hu hfirst.spans e'
  obtain rfl := List.append_cancel_left e'
  have hstart : (Match.ofSpot a.reverse ⟨(a ++ u).reverse, b, gs⟩).start = a.length := by
    simp [Match.ofSpot]
  have hstop : (Match.ofSpot a.reverse ⟨(a ++ u).reverse, b, gs⟩).stop = a.length + u.length := by
    simp [Match.ofSpot, Nat.add_comm]
  refine ⟨_, hfind, fun new => ?_⟩
  rw [hstart, hstop, e]
  exact Text.replaceRange_append a u b new

/-- The declaration at the first place becomes that of a mutable list. -/
theorem replaceStatement_of_leftmost (hleft : immutablePackages.Leftmost t a) (e : t = a ++ u ++ b)
    (hu : immutablePackages.Spans a u b) (hno : ¬Payload.standard.androidMutablePackages <:+: t) :
    (replaceStatement immutablePackages Payload.standard.androidMutablePackages t).text =
      a ++ Payload.standard.androidMutablePackages ++ b := by
  obtain ⟨m, hfind, hreplace⟩ := find?_of_leftmost hleft e hu
  rw [replaceStatement, if_neg (fun h => hno (Text.occursIn_iff.mp h)), hfind]
  exact hreplace _

theorem replaceStatement_immutable (t : Text) :
    ((Payload.standard.androidMutablePackages <:+: t ∨ ¬immutablePackages.occursIn t) ∧
        (replaceStatement immutablePackages Payload.standard.androidMutablePackages t).text = t) ∨
      Rewritten t
        (replaceStatement immutablePackages Payload.standard.androidMutablePackages t).text := by
  by_cases hno : Payload.standard.androidMutablePackages <:+: t
  · refine .inl ⟨.inl hno, ?_⟩
    rw [replaceStatement, if_pos (Text.occursIn_iff.mpr hno)]
  · cases hfind : immutablePackages.find? t with
    | none =>
        refine .inl ⟨.inr (by simp [occursIn, hfind]), ?_⟩
        rw [replaceStatement, if_neg (fun h => hno (Text.occursIn_iff.mp h)), hfind]
    | some m =>
        obtain ⟨a, hleft, -⟩ := exists_leftmost flat_immutablePackages hfind
        obtain ⟨u, b, e, hu⟩ := hleft.1
        exact .inr ⟨a, u, b, e, hu, hno, replaceStatement_of_leftmost hleft e hu hno⟩

theorem recognize?_makeMutable {sink : Sink} (h : (returnLine.recognize? t).isSome) :
    (returnLine.recognize? (makeMutable Payload.standard t sink).1).isSome := by
  rw [makeMutable]
  split
  · rcases replaceStatement_immutable t with ⟨-, e⟩ | ⟨before, old, after, rfl, hold, -, e⟩
    · rwa [e]
    · rw [e]
      exact recognize?_of_rewrite (.inl ⟨_, _, hold⟩) (.inr rfl) h
  · split <;> exact h

theorem inject_of_isSome {f : Fragment} {anchor : Option Anchor} {fallback : Option Recognizer}
    (h : anchor.isSome) : (inject f anchor fallback t).outcome ≠ .anchorNotFound := by
  obtain ⟨x, rfl⟩ := Option.isSome_iff_exists.mp h
  rw [inject]
  split
  · simp
  · simp

/-- Once the line is found the step inserts or leaves the text alone. -/
theorem registerPackage_of_isSome (h : (returnLine.recognize? t).isSome) (sink : Sink) :
    registerPackage Payload.standard t sink =
      ((inject (registration Payload.standard)
        (returnLine.recognize? (makeMutable Payload.standard t sink).1) none
        (makeMutable Payload.standard t sink).1).text, (makeMutable Payload.standard t sink).2) := by
  obtain ⟨x, hx⟩ := Option.isSome_iff_exists.mp h
  have hout : (inject (registration Payload.standard)
      (returnLine.recognize? (makeMutable Payload.standard t sink).1) none
      (makeMutable Payload.standard t sink).1).outcome ≠ .anchorNotFound :=
    inject_of_isSome (recognize?_makeMutable h)
  rw [registerPackage, hx]
  simp only

/-- Making the list mutable reports at most a guess. -/
theorem makeMutable_cases (p : Payload) (t : Text) :
    (∃ t', ∀ sink, makeMutable p t sink = (t', sink)) ∨
      ∃ d, d.kind = .fallback ∧ ∀ sink, makeMutable p t sink = (t, sink.push d) := by
  simp only [makeMutable]
  by_cases h1 : immutablePackages.occursIn (declarationRegion t)
  · exact .inl ⟨_, fun sink => if_pos h1⟩
  · by_cases h2 : (mutablePackages.occursIn (declarationRegion t) || (registration p).isPresent t)
    · exact .inl ⟨t, fun sink => by rw [if_neg h1, if_pos h2]⟩
    · exact .inr ⟨⟨.android, .fallback, "packages-declaration",
        "packages list declaration not recognized; registration added before 'return packages', "
          ++ "check that the list is mutable"⟩, rfl, fun sink => by rw [if_neg h1, if_neg h2]⟩

theorem packages_contract : (packagesStep Payload.standard).Contract := by
  refine Step.contract_of_cases fun t => ?_
  cases hline : returnLine.recognize? t with
  | none =>
      refine ⟨t, ?_⟩
      by_cases hpresent : (registration Payload.standard).isPresent t
      · refine .inl fun sink => ?_
        simp only [packagesStep, registerPackage, hline, hpresent, if_true]
      · refine .inr (.inl ⟨⟨.android, .structuralNotFound, "packages-return",
          "'return packages' not found in getPackages(); package registration skipped"⟩,
          fun sink => ?_⟩)
        simp only [packagesStep, registerPackage, hline, hpresent]
        rfl
  | some x =>
      have hstep := registerPackage_of_isSome (t := t) (by rw [hline]; rfl)
      rcases makeMutable_cases Payload.standard t with ⟨t', h⟩ | ⟨d, hd, h⟩
      · refine ⟨(inject (registration Payload.standard) (returnLine.recognize? t') none t').text,
          .inl fun sink => ?_⟩
        have e := hstep sink
        rw [h] at e
        exact e
      · refine ⟨(inject (registration Payload.standard) (returnLine.recognize? t) none t).text,
          .inr (.inr ⟨d, hd, fun sink => ?_⟩)⟩
        have e := hstep sink
        rw [h] at e
        exact e

end Graft.Entry
