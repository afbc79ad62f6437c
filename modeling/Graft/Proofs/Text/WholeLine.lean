import Graft.Proofs.Text.Insert

/-! # Whole lines

`HasLine l t` says that a line of the text is `l`, white space around it aside.  Such a line stays
when other lines come in (`Insertion.hasLine`), and when a text gives way that neither overlaps it
nor begins or ends with white space (`HasLine.change`). -/

namespace Graft.Text

open Brace (Free)

variable {l m t t' p q x y lead indent before old new after : Text} {ls : List Text}

/-- Some line of the text is `l`, white space around it aside. -/
def HasLine (l t : Text) : Prop := l ∈ t.lines.map trim

instance (l t : Text) : Decidable (HasLine l t) := inferInstanceAs (Decidable (l ∈ _))

/-- A tight text on one line. -/
def LineWord (l : Text) : Prop := '\n' ∉ l ∧ Tight l

instance (l : Text) : Decidable (LineWord l) := inferInstanceAs (Decidable (_ ∧ _))

theorem LineWord.full (h : LineWord l) : Full l := ⟨h.1, h.2.2⟩

theorem LineWord.ne_nil (h : LineWord l) : l ≠ [] := h.full.ne_nil

theorem LineWord.trim_eq (h : LineWord l) : l.trim = l :=
  trim_append_tight (show isBlank [] from rfl) h.2

theorem body_of_lineWords (h : ∀ l ∈ ls, LineWord l) (hne : ls ≠ []) : Body ls := by
  refine ⟨fun l hl => (h l hl).full, ?_⟩
  obtain ⟨l, ls', rfl⟩ := List.exists_cons_of_ne_nil hne
  exact ⟨l, List.mem_cons_self .., (h l (List.mem_cons_self ..)).2.1⟩

/-! ### Where the line stands -/

theorem trim_chomp_newline (m : Text) : (chomp (m ++ ['\n'])).trim = m.trim := by
  rw [chomp, List.reverse_append, List.reverse_singleton, List.singleton_append]
  split
  · next r e =>
      have hm : m = r.reverse ++ ['\r'] := by
        have := congrArg List.reverse (List.cons.inj e).2
        simpa using this
      rw [hm, trim_append_isBlank (by decide)]
  · next r _ e =>
      rw [← (List.cons.inj e).2, List.reverse_reverse]
  · next h => exact absurd rfl (h _)

theorem map_trim_lines_line (hm : '\n' ∉ m) (hne : m ≠ []) : m.lines.map trim = [m.trim] := by
  rw [lines, pieces_singleton hm hne, List.map_singleton, List.map_singleton, chomp_of_notMem hm]

theorem map_trim_lines_newline (hm : '\n' ∉ m) (r : Text) :
    (m ++ '\n' :: r).lines.map trim = m.trim :: r.lines.map trim := by
  rw [lines, pieces_line hm, List.map_cons, List.map_cons, trim_chomp_newline]
  rfl

theorem map_trim_lines_append (hx : AtLineStart x) (y : Text) :
    (x ++ y).lines.map trim = x.lines.map trim ++ y.lines.map trim := by
  rw [lines, pieces_append hx, List.map_append, List.map_append]
  rfl

theorem hasLine_line_iff (hm : '\n' ∉ m) (hne : m ≠ []) : HasLine l m ↔ l = m.trim := by
  rw [HasLine, map_trim_lines_line hm hne, List.mem_singleton]

theorem hasLine_newline_iff (hm : '\n' ∉ m) (r : Text) :
    HasLine l (m ++ '\n' :: r) ↔ l = m.trim ∨ HasLine l r := by
  rw [HasLine, map_trim_lines_newline hm, List.mem_cons]
  rfl

theorem hasLine_append (hx : AtLineStart x) : HasLine l (x ++ y) ↔ HasLine l x ∨ HasLine l y := by
  rw [HasLine, map_trim_lines_append hx, List.mem_append]
  rfl

/-- Where a line stands: `x` ends before it, `y` begins behind it, and only white space is around
`l`. -/
structure LineIn (l t x v v' y : Text) : Prop where
  split : t = x ++ (v ++ l ++ v') ++ y
  lineStart : AtLineStart x
  lineEnds : LineEnds y
  blank : isBlank v ∧ isBlank v'
  oneLine : '\n' ∉ v ++ l ++ v'

theorem hasLine_iff (hl : LineWord l) : HasLine l t ↔ ∃ x v v' y, LineIn l t x v v' y := by
  constructor
  · intro h
    induction hlen : t.length using Nat.strongRecOn generalizing t with
    | ind n ih =>
        obtain ⟨m, hm, ht⟩ := exists_line t
        have here : ∀ {y}, LineEnds y → t = m ++ y → l = m.trim →
            ∃ x v v' y, LineIn l t x v v' y := by
          rintro y hy rfl rfl
          obtain ⟨v, v', e, hv, hv'⟩ := exists_trim m
          exact ⟨[], v, v', y, by rw [List.nil_append, ← e], atLineStart_nil, hy, ⟨hv, hv'⟩, by
            rwa [← e]⟩
        rcases ht with rfl | ⟨r, rfl⟩
        · by_cases hne : t = []
          · rw [hne] at h
            simp [HasLine, lines, pieces] at h
          · exact here lineEnds_nil (List.append_nil t).symm ((hasLine_line_iff hm hne).mp h)
        · rcases (hasLine_newline_iff hm r).mp h with e | h
          · exact here (lineEnds_newline r) rfl e
          · have hlt : r.length < n := by
              rw [← hlen]
              simp only [List.length_append, List.length_cons]
              omega
            obtain ⟨x, v, v', y, hin⟩ := ih _ hlt h rfl
            refine ⟨m ++ '\n' :: x, v, v', y, by rw [hin.split]; simp, ?_, hin.lineEnds, hin.blank,
              hin.oneLine⟩
            have hstart := (atLineStart_newline m).append hin.lineStart
            rwa [List.append_assoc] at hstart
  · rintro ⟨x, v, v', y, hin⟩
    have htrim := trim_tight hin.blank.1 hl.2 hin.blank.2
    have hne : v ++ l ++ v' ≠ [] := by
      obtain ⟨c, u, rfl, -⟩ := hl.2.exists_head
      simp
    have hrest : HasLine l ((v ++ l ++ v') ++ y) := by
      cases y with
      | nil =>
          rw [List.append_nil]
          exact (hasLine_line_iff hin.oneLine hne).mpr htrim.symm
      | cons c y =>
          obtain rfl := hin.lineEnds c rfl
          exact (hasLine_newline_iff hin.oneLine y).mpr (.inl htrim.symm)
    rw [hin.split, List.append_assoc, hasLine_append hin.lineStart]
    exact .inr hrest

theorem LineWord.infix_of_hasLine (hl : LineWord l) (h : HasLine l t) : l <:+: t := by
  obtain ⟨x, v, v', y, hin⟩ := (hasLine_iff hl).mp h
  rw [hin.split]
  exact ⟨x ++ v, v' ++ y, by simp⟩

/-! ### New lines -/

/-- Lines at an indentation are the lines that they were, white space aside. -/
theorem map_trim_lines_joinLines (hindent : indent.all isIndent) (hls : ∀ l ∈ ls, '\n' ∉ l)
    (hne : ls ≠ []) (r : Text) :
    (joinLines (ls.map (indent ++ ·)) ++ '\n' :: r).lines.map trim =
      ls.map trim ++ r.lines.map trim := by
  have hblank : isBlank indent := isBlank_of_all_isIndent hindent
  induction ls with
  | nil => exact absurd rfl hne
  | cons m ls ih =>
      have hm : '\n' ∉ indent ++ m := by
        rw [List.mem_append, not_or]
        exact ⟨fun hmem => absurd (List.all_eq_true.mp hindent _ hmem) (by decide),
          hls m (List.mem_cons_self ..)⟩
      rw [List.map_cons, joinLines_cons]
      split
      · next h =>
          obtain rfl := List.map_eq_nil_iff.mp h
          rw [List.append_nil, map_trim_lines_newline hm, trim_isBlank_append hblank]
          rfl
      · next h =>
          have hrest : ls ≠ [] := fun h0 => h (by rw [h0, List.map_nil])
          rw [List.append_assoc, List.cons_append, map_trim_lines_newline hm,
            trim_isBlank_append hblank, ih (fun l hl => hls l (List.mem_cons_of_mem _ hl)) hrest]
          rfl

theorem hasLine_joinLines (hindent : indent.all isIndent) (hfull : ∀ l ∈ ls, Full l)
    (hl : LineWord l) (hmem : l ∈ ls) (r : Text) :
    HasLine l (joinLines (ls.map (indent ++ ·)) ++ '\n' :: r) := by
  rw [HasLine, map_trim_lines_joinLines hindent (fun l hl => (hfull l hl).1)
    (List.ne_nil_of_mem hmem)]
  exact List.mem_append_left _ (List.mem_map.mpr ⟨l, hmem, hl.trim_eq⟩)

/-- Each of the lines that come in is a line of the new text. -/
theorem Insertion.hasLine_of_mem (h : Insertion ls p lead indent q t t')
    (hfull : ∀ l ∈ ls, Full l) (hl : LineWord l) (hmem : l ∈ ls) : HasLine l t' := by
  have e : t' = (p ++ lead) ++ (joinLines (ls.map (indent ++ ·)) ++ '\n' :: q) := by
    rw [h.target, block]
    simp
  rw [e, hasLine_append h.lineStart]
  exact .inr (hasLine_joinLines h.allIndent hfull hl hmem q)

/-! ### Lines that stay -/

/-- A whole line without braces stays when other lines come in. -/
theorem Insertion.hasLine (h : Insertion ls p lead indent q t t') (hl : LineWord l) (hfree : Free l)
    (hin : HasLine l t) : HasLine l t' := by
  obtain ⟨x, v, v', y, hin⟩ := (hasLine_iff hl).mp hin
  rw [hasLine_iff hl]
  have e := h.source.symm.trans hin.split
  have hline : Free (v ++ l ++ v') := Brace.free_append.mpr
    ⟨Brace.free_append.mpr ⟨free_of_isBlank hin.blank.1, hfree⟩, free_of_isBlank hin.blank.2⟩
  have hne : v ++ l ++ v' ≠ [] := by
    obtain ⟨c, u, rfl, -⟩ := hl.2.exists_head
    simp
  rcases cut_cases e with ⟨r, rfl, rfl⟩ | ⟨r, rfl, rfl⟩ | ⟨s, s', hs, hs', hw, rfl, rfl⟩
  · -- The new lines come behind the line.
    refine ⟨x, v, v', r ++ (block lead indent ls ++ q), by rw [h.target]; simp, hin.lineStart, ?_,
      hin.blank, hin.oneLine⟩
    cases r with
    | cons c r =>
        obtain rfl := hin.lineEnds c rfl
        exact lineEnds_newline _
    | nil =>
        -- What follows the line begins with a newline, since the line does not end in one.
        have hstart := h.lineStart
        have hlead := h.newlines
        cases lead with
        | nil =>
            rw [List.append_nil, List.append_nil] at hstart
            have := hstart.of_append hne
            exact absurd (this.eq_nil (a := []) hin.oneLine) hne
        | cons c lead =>
            rw [List.all_cons, Bool.and_eq_true, decide_eq_true_eq] at hlead
            obtain ⟨rfl, -⟩ := hlead
            exact lineEnds_newline _
  · -- They come before the line.
    refine ⟨p ++ block lead indent ls ++ r, v, v', y, by rw [h.target]; simp, ?_, hin.lineEnds,
      hin.blank, hin.oneLine⟩
    by_cases hr : r = []
    · rw [hr, List.append_nil, block, ← List.append_assoc]
      exact atLineStart_newline _
    · exact (atLineStart_append_iff hr).mpr (hin.lineStart.of_append hr)
  · rw [hw] at hline
    have hone := hin.oneLine
    rw [hw] at hone
    exact (h.place.not_inside ⟨hone, hline.2⟩ hline.1 hs hs').elim

/-- A line in front of a tight text stays when that text gives way: the white space that ends the line
does not reach into the text. -/
theorem LineIn.of_before {v v' : Text} (h : LineIn l (before ++ old ++ after) x v v' y)
    (hold : Tight old) (hlen : (x ++ v ++ l).length ≤ before.length) (new : Text) :
    ∃ y', LineIn l (before ++ new ++ after) x v v' y' := by
  have e : before ++ (old ++ after) = (x ++ v ++ l) ++ (v' ++ y) := by
    rw [← List.append_assoc, h.split]
    simp
  obtain ⟨z, rfl⟩ : x ++ v ++ l <+: before :=
    List.prefix_of_prefix_length_le ⟨_, e.symm⟩ ⟨_, rfl⟩ hlen
  obtain ⟨c, w, rfl, hc⟩ := hold.exists_head
  have e' : z ++ c :: (w ++ after) = v' ++ y := by
    rw [List.append_assoc] at e
    exact List.append_cancel_left e
  have hcv : c ∉ v' := fun hm => by
    rw [List.all_eq_true.mp h.blank.2 c hm] at hc
    simp at hc
  obtain ⟨z, rfl, rfl⟩ := prefix_before e' hcv
  refine ⟨z ++ new ++ after, by simp, h.lineStart, ?_, h.blank, h.oneLine⟩
  cases z with
  | nil =>
      obtain rfl := h.lineEnds c rfl
      exact absurd hc (by decide)
  | cons d z =>
      obtain rfl := h.lineEnds d rfl
      exact lineEnds_newline _

/-- A line behind a tight text stays when that text gives way: the white space that begins the line
does not reach into the text. -/
theorem LineIn.of_behind {v v' : Text} (h : LineIn l (before ++ old ++ after) x v v' y)
    (hold : Tight old) (hlen : (before ++ old).length ≤ (x ++ v).length) (new : Text) :
    ∃ x', LineIn l (before ++ new ++ after) x' v v' y := by
  have e : (before ++ old) ++ after = (x ++ v) ++ (l ++ v' ++ y) := by
    rw [h.split]
    simp
  obtain ⟨z, hz⟩ : before ++ old <+: x ++ v :=
    List.prefix_of_prefix_length_le ⟨_, rfl⟩ ⟨_, e.symm⟩ hlen
  obtain ⟨w, d, rfl, hd⟩ := hold.exists_last
  have e' : (before ++ w) ++ d :: z = x ++ v := by
    rw [← hz]
    simp
  have hdv : d ∉ v := fun hm => by
    rw [List.all_eq_true.mp h.blank.1 d hm] at hd
    simp at hd
  obtain ⟨z, rfl, rfl⟩ := suffix_behind e' hdv
  have hafter : after = z ++ v ++ (l ++ v' ++ y) := by
    rw [← hz, List.append_assoc (before ++ (w ++ [d]))] at e
    exact List.append_cancel_left e
  have hz0 : z ≠ [] := by
    rintro rfl
    rcases h.lineStart with h0 | h0
    · simp at h0
    · obtain rfl : d = '\n' := by simpa using h0
      exact absurd hd (by decide)
  have hstart : AtLineStart z := (h.lineStart.of_append (List.cons_ne_nil d z)).of_cons
  exact ⟨before ++ new ++ z, by rw [hafter]; simp, (atLineStart_append_iff hz0).mpr hstart,
    h.lineEnds, h.blank, h.oneLine⟩

/-- A whole line stays when a tight text that it does not overlap gives way. -/
theorem HasLine.change (hl : LineWord l) (hold : Tight old)
    (hapart : ∀ x y, before ++ old ++ after = x ++ l ++ y →
      x.length + l.length ≤ before.length ∨ before.length + old.length ≤ x.length)
    (h : HasLine l (before ++ old ++ after)) : HasLine l (before ++ new ++ after) := by
  obtain ⟨x, v, v', y, hin⟩ := (hasLine_iff hl).mp h
  rw [hasLine_iff hl]
  have e : before ++ old ++ after = (x ++ v) ++ l ++ (v' ++ y) := by
    rw [hin.split]
    simp
  rcases hapart _ _ e with hlen | hlen
  · obtain ⟨y', hin'⟩ := hin.of_before hold (by rwa [List.length_append]) new
    exact ⟨x, v, v', y', hin'⟩
  · obtain ⟨x', hin'⟩ := hin.of_behind hold (by rwa [List.length_append]) new
    exact ⟨x', v, v', y, hin'⟩

end Graft.Text
