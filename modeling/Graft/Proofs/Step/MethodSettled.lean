import Graft.Proofs.Scope.Insert
import Graft.Proofs.Step.Method

/-! # Methods that stay

A step that replaces a method has nothing to do when the scope that it finds has the lines of its
body already, or when it finds none and the body is there or has no place (`MethodStep.Settled`);
these are the texts that it leaves alone (`apply_fst_eq_iff`).  The lines of a body are a scope of
the header of its form (`MethodVariant.IsScope`), and where they stand the look-up finds them, unless
the header occurs before them (`IsScope.wholeScope`). -/

namespace Graft

open Text (AtLineStart Body Insertion Tight squeeze startsIn)
open Brace (isBalanced)

variable {t x l g inner b w indent : Text} {ls : List Text} {v : MethodVariant}

/-- A brace and the closing brace at the end are where they are without the white space. -/
theorem Text.exists_braces (h : squeeze t = w ++ '{' :: inner ++ ['}']) (hw : '{' ∉ w)
    (hlast : ∃ s c, t = s ++ [c] ∧ Graft.isBlank c = false) :
    ∃ a inner', t = a ++ '{' :: inner' ++ ['}'] ∧ '{' ∉ a ∧ squeeze inner' = inner := by
  obtain ⟨s, c, rfl, hc⟩ := hlast
  have hsqueeze : squeeze [c] = [c] := by simp [squeeze, hc]
  rw [squeeze_append, hsqueeze] at h
  obtain ⟨hs, hclose⟩ := List.append_inj' h rfl
  obtain rfl : c = '}' := by simpa using hclose
  have hmem : '{' ∈ s := by
    refine (List.mem_filter.mp (?_ : '{' ∈ squeeze s)).1
    rw [hs]
    simp
  obtain ⟨a, inner', rfl, ha⟩ := List.eq_append_cons_of_mem hmem
  have hopen : squeeze ('{' :: inner') = '{' :: squeeze inner' := rfl
  rw [squeeze_append, hopen] at hs
  exact ⟨a, inner', rfl, ha, (append_cons_inj (fun h => ha (List.mem_filter.mp h).1) hw hs).2⟩

/-- The lines of a form start with its header `w`, then comes a brace, which the last character
closes; and they cannot start inside the header. -/
structure MethodVariant.IsScope (v : MethodVariant) (ls : List Text) (w : Text) : Prop extends
    v.HasLines ls where
  isHeader : v.header.IsHeader w
  first : ∃ u r rest, ls = (u ++ r) :: rest ∧ v.header.Spans [] u []
  braces : ∃ inner, squeeze ls.flatten = w ++ '{' :: inner ++ ['}'] ∧ isBalanced inner
  alone : startsIn (squeeze ls.flatten) w.tail = false

/-- The header does not occur before the line on which it is found. -/
theorem WholeScope.not_spans (h : WholeScope v.header t x l g inner b) (hh : v.header.IsHeader w)
    {a u c : Text} (e : x = a ++ u ++ c) : ¬v.header.Spans a u c := by
  intro hu
  have hle := h.scope.leftmost.2 a u (c ++ (l ++ g ++ '{' :: (inner ++ '}' :: b)))
    (by rw [h.scope.split, e]; simp) (hu.plain hh.plain _ _)
  obtain ⟨d, u', rfl, -⟩ := (hh.squeezes a u c hu).2.exists_head
  rw [e] at hle
  simp only [List.length_append, List.length_cons] at hle
  omega

/-- Newlines do not bring a header. -/
theorem Pattern.IsHeader.not_spans_newlines {header : Pattern} (hh : header.IsHeader w)
    {p lead : Text} (hp : ∀ a u c, p = a ++ u ++ c → ¬header.Spans a u c)
    (hlead : lead.all (· = '\n')) : ∀ a u c, p ++ lead = a ++ u ++ c → ¬header.Spans a u c := by
  intro a u c e hu
  rcases List.append_eq_append_iff.mp e with ⟨z, hz, hl⟩ | ⟨z, rfl, -⟩
  · obtain ⟨u', d, rfl, hd⟩ := (hh.squeezes a u c hu).2.exists_last
    rcases List.eq_nil_or_concat z with rfl | ⟨z, d', rfl⟩
    · rw [List.append_nil] at hz
      exact hp a _ [] (by rw [hz, List.append_nil]) (hu.plain hh.plain _ _)
    · rw [List.concat_eq_append] at hl hz
      rw [← List.append_assoc, ← List.append_assoc] at hz
      obtain ⟨-, hlast⟩ := List.append_inj' hz rfl
      obtain rfl := (List.cons.inj hlast).1
      have hmem := List.all_eq_true.mp hlead d (by rw [hl]; simp)
      obtain rfl : d = '\n' := by simpa using hmem
      exact absurd hd (by decide)
  · exact hp a u z rfl (hu.plain hh.plain _ _)

namespace MethodVariant.IsScope

/-- The brace of the lines, at any indentation. -/
theorem exists_brace (hv : v.IsScope ls w) (hindent : indent.all isIndent) :
    ∃ u y inner, v.header.Spans [] u [] ∧ '{' ∉ u ++ y ∧ isBalanced inner ∧
      Text.joinLines (ls.map (indent ++ ·)) = wholeText indent (u ++ y) inner := by
  obtain ⟨u, r, rest, hls, hu⟩ := hv.first
  obtain ⟨inner0, hsqueeze, hin0⟩ := hv.braces
  have hends := Text.exists_last_joinLines (Text.full_indented hv.body.1 hindent) (by simp [hls])
  rw [← Text.squeeze_joinLines hindent] at hsqueeze
  obtain ⟨a, inner, hlines, ha, rfl⟩ := Text.exists_braces hsqueeze hv.isHeader.noOpen hends
  -- The header stands at the start, behind the indentation.
  have hnotMem : '{' ∉ indent ++ u := by
    rw [List.mem_append, not_or]
    refine ⟨fun h => ?_, hv.isHeader.open_notMem hu⟩
    exact absurd (List.all_eq_true.mp hindent _ h) (by decide)
  obtain ⟨z, hz⟩ : ∃ z, a ++ '{' :: (inner ++ ['}']) = (indent ++ u) ++ z := by
    have e := hlines
    rw [hls, List.map_cons, Text.joinLines_cons] at e
    exact ⟨_, by simpa using e.symm⟩
  obtain ⟨y, rfl, -⟩ := Text.prefix_before hz hnotMem
  refine ⟨u, y, inner, hu, fun hm => ha ?_, ?_, ?_⟩
  · rw [List.append_assoc]
    exact List.mem_append_right _ hm
  · rw [isBalanced, ← Text.closes_squeeze]
    exact hin0
  · rw [hlines, wholeText]
    simp

/-- Where the lines stand, the look-up finds them, unless the header occurs before them. -/
theorem wholeScope (hv : v.IsScope ls w) (hx : AtLineStart x) (hindent : indent.all isIndent)
    (hbefore : ∀ a u c, x = a ++ u ++ c → ¬v.header.Spans a u c) (b : Text) :
    ∃ g inner, WholeScope v.header (x ++ Text.joinLines (ls.map (indent ++ ·)) ++ b) x indent g inner b
      ∧ wholeText indent g inner = Text.joinLines (ls.map (indent ++ ·)) := by
  have hsqueeze : squeeze (Text.joinLines (ls.map (indent ++ ·))) = squeeze ls.flatten :=
    Text.squeeze_joinLines hindent
  obtain ⟨u, y, inner, hu, hopen, hin, hlines⟩ := hv.exists_brace hindent
  rw [hlines] at hsqueeze ⊢
  refine ⟨u ++ y, inner, ⟨⟨⟨by simp [wholeText], hopen, ⟨u, y ++ '{' :: inner ++ '}' :: b,
    by simp [wholeText], hu.plain hv.isHeader.plain _ _⟩, fun a' u' b' e hu' => ?_⟩, hin⟩, hx,
    newline_notMem_of_all hindent⟩, rfl⟩
  obtain ⟨hw, htight⟩ := hv.isHeader.squeezes a' u' b' hu'
  obtain ⟨c, u'', rfl, hc⟩ := htight.exists_head
  have hw' : squeeze (c :: u'') = c :: squeeze u'' := by simp [squeeze, hc]
  have halone : startsIn (squeeze (wholeText indent (u ++ y) inner)) (squeeze u'') = false := by
    have := hv.alone
    rw [← hw, hw', List.tail_cons] at this
    rwa [hsqueeze]
  rcases Text.length_le_of_startsIn hw' htight halone e with hlen | hlen
  · -- A match before the lines.
    have hpre : a' ++ c :: u'' <+: x := by
      refine List.prefix_of_prefix_length_le ⟨b', e.symm⟩
        ⟨wholeText indent (u ++ y) inner ++ b, by simp⟩ ?_
      rw [List.length_append]
      exact hlen
    obtain ⟨z, hz⟩ := hpre
    exact absurd (hu'.plain hv.isHeader.plain _ _) (hbefore a' _ z hz.symm)
  · -- A match does not start in the indentation.
    have e' : a' ++ c :: (u'' ++ b') = x ++ indent ++ ((u ++ y) ++ '{' :: inner ++ '}' :: b) := by
      simpa [wholeText] using e.symm
    have hnotMem : c ∉ indent := fun hm => by
      rw [isBlank_of_isIndent (List.all_eq_true.mp hindent c hm)] at hc
      simp at hc
    rcases Text.cases_of_cons_append e' hnotMem with ⟨q, rfl, -⟩ | ⟨q, rfl, -⟩
    · simp
    · simp only [List.length_append, List.length_cons] at hlen
      omega

/-- The lines that have replaced a scope of their header are such a scope. -/
theorem foundAgain (hv : v.IsScope ls w) {s : Scope} (hfind : Scope.find? v.header t = some s) :
    FoundAgain v.header (t.take (t.lineStart s.headerStart))
      (Text.reindent v.body (t.indentAt (t.lineStart s.headerStart))) (t.drop (s.closeAt + 1)) := by
  obtain ⟨a, g, inner, b, hat, rfl⟩ := (scopeFind?_eq_some_iff hv.flat).mp hfind
  obtain ⟨x, l, rfl, hwhole⟩ := hat.exists_whole
  rw [hat.cuts.take_lineStart hwhole.lineStart hwhole.oneLine, hat.cuts.drop_closeAt, hv.body_eq,
    Text.reindent_joinLines hv.body]
  obtain ⟨g', inner', hwhole', hlines⟩ := hv.wholeScope hwhole.lineStart (all_indentAt t _)
    (fun _ _ _ => hwhole.not_spans hv.isHeader) b
  exact hwhole'.foundAgain hv.flat rfl hlines

theorem find?_isSome (hv : v.IsScope ls w) (hx : AtLineStart x) (hindent : indent.all isIndent)
    (hbefore : ∀ a u c, x = a ++ u ++ c → ¬v.header.Spans a u c) (b : Text) :
    (Scope.find? v.header (x ++ Text.joinLines (ls.map (indent ++ ·)) ++ b)).isSome := by
  obtain ⟨g, inner, hwhole, -⟩ := hv.wholeScope hx hindent hbefore b
  rw [hwhole.scope.find?_eq hv.flat]
  rfl

end MethodVariant.IsScope

namespace MethodStep

variable {s : MethodStep}

/-- The step finds nothing to do. -/
structure Settled (s : MethodStep) (t : Text) : Prop where
  /-- A scope that is found has the lines of its form. -/
  replaced : s.replaced? t = none
  /-- When none is found, the body that would be inserted is there, or has no place. -/
  inserted : s.located? t = none → ∀ body, s.insertionBody? t = some body →
    (s.fragment body).isPresent t ∨ resolve? s.chain t = none

theorem settled_iff_of_located (h : s.located? t = some v) : s.Settled t ↔ s.replaced? t = none :=
  ⟨Settled.replaced, fun hr => ⟨hr, fun hnone => by rw [h] at hnone; simp at hnone⟩⟩

/-- The step leaves exactly the settled texts alone. -/
theorem apply_fst_eq_iff (hp : s.Proper) (sink : Sink) : (s.apply t sink).1 = t ↔ s.Settled t := by
  cases h : s.located? t with
  | some v =>
      obtain ⟨ls, hv⟩ := hp.variants v (mem_of_located? h)
      obtain ⟨x, l, g, inner, b, hwhole⟩ := exists_whole_of_located? h hv.flat
      rw [settled_iff_of_located h, apply_fst_of_whole h hv hwhole, replaced?_of_whole h hv.flat hwhole]
      split
      · simp
      · next hsame =>
          simp only [reduceCtorEq, iff_false]
          intro e
          -- The new lines would have been there before.
          conv at e => rhs; rw [hwhole.split]
          have hold := List.append_cancel_left (List.append_cancel_right e)
          rw [← hold, hv.body_eq] at hsame
          exact hsame (Text.sameLines_reindent hv.body (all_indentAt t x.length))
  | none =>
      have hsettled : s.Settled t ↔ ∀ body, s.insertionBody? t = some body →
          (s.fragment body).isPresent t ∨ resolve? s.chain t = none :=
        ⟨fun hs => hs.inserted h, fun hi => ⟨replaced?_of_none h, fun _ => hi⟩⟩
      rw [apply_fst_of_none h, hsettled]
      cases hbody : s.insertionBody? t with
      | none => simp
      | some body =>
          simp only [Option.elim_some, Option.some.injEq, forall_eq']
          by_cases hpresent : (s.fragment body).isPresent t
          · simp [inject_of_isPresent hpresent, hpresent]
          · rw [Bool.not_eq_true] at hpresent
            cases ha : resolve? s.chain t with
            | none =>
                have hnone : (inject (s.fragment body) none none t).text = t := by
                  rw [inject_none hpresent rfl]
                simp [hnone]
            | some a =>
                obtain ⟨p, q, hat, hbreak⟩ := exists_break_of_resolve? hp.chain ha
                obtain ⟨v, hv, rfl⟩ := mem_of_insertionBody? hbody
                obtain ⟨ls, hls⟩ := hp.variants v hv
                obtain ⟨lead, hins⟩ := exists_insertion_splice hat hbreak hls.body true
                rw [← hls.body_eq] at hins
                simp only [hpresent, Bool.false_eq_true, reduceCtorEq, or_self, iff_false]
                rw [inject_some hpresent rfl]
                exact hins.ne

/-- A form whose lines stand where it is looked for has nothing to replace. -/
theorem replaced?_of_lines (h : s.located? t = some v) (hv : v.HasLines ls)
    (hindent : indent.all isIndent) (hwhole : WholeScope v.header t x l g inner b)
    (hlines : wholeText l g inner = Text.joinLines (ls.map (indent ++ ·))) :
    s.replaced? t = none := by
  rw [replaced?_of_whole h hv.flat hwhole, hlines, hv.body_eq,
    if_pos (Text.sameLines_reindent hv.body hindent)]

/-- When a form is found, its scope has the lines of the body already, or gives way to them. -/
theorem apply_of_located_cases (h : s.located? t = some v) (hv : v.HasLines ls) (sink : Sink) :
    (s.apply t sink).1 = t ∨ ∃ x l g inner b indent, WholeScope v.header t x l g inner b ∧
      s.replaced? t = some (wholeText l g inner) ∧ indent.all isIndent ∧
      (s.apply t sink).1 = x ++ Text.joinLines (ls.map (indent ++ ·)) ++ b := by
  obtain ⟨x, l, g, inner, b, hwhole⟩ := exists_whole_of_located? h hv.flat
  rw [apply_fst_of_whole h hv hwhole]
  split
  · exact .inl rfl
  · next hsame =>
      refine .inr ⟨x, l, g, inner, b, _, hwhole, ?_, all_indentAt t x.length, rfl⟩
      rw [replaced?_of_whole h hv.flat hwhole, if_neg hsame]

/-- Where the lines of a form stand and the form is found, the step has nothing to do. -/
theorem settled_of_lines (hv : v.IsScope ls w) (hx : AtLineStart x) (hindent : indent.all isIndent)
    (hbefore : ∀ a u c, x = a ++ u ++ c → ¬v.header.Spans a u c)
    (h : s.located? (x ++ Text.joinLines (ls.map (indent ++ ·)) ++ b) = some v) :
    s.Settled (x ++ Text.joinLines (ls.map (indent ++ ·)) ++ b) := by
  obtain ⟨g, inner, hwhole, hlines⟩ := hv.wholeScope hx hindent hbefore b
  exact (settled_iff_of_located h).mpr (replaced?_of_lines h hv.toHasLines hindent hwhole hlines)

end MethodStep

end Graft
