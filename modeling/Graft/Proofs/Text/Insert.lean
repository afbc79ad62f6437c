import Graft.Proofs.Block.Edit
import Graft.Proofs.Text.Apart
import Graft.Proofs.Text.Reindent

/-! # Inserted lines

What the steps insert are lines at one indentation, and the place is a line start, or next to a
brace or the end (`Insertion`).  A word on one line and without braces is in the new text exactly
when it was in the old one or is in one of the new lines (`Insertion.infix_iff`). -/

namespace Graft.Text

open Brace (Free isBalanced)

variable {ls : List Text} {p q lead indent t t' w l a b : Text}

/-- Lines at an indentation, on lines of their own behind `lead`. -/
def block (lead indent : Text) (ls : List Text) : Text :=
  lead ++ joinLines (ls.map (indent ++ ·)) ++ ['\n']

/-- A place where lines go: a line starts there, or an opening brace comes before it, or a closing
brace or the end comes next. -/
def Break (p q : Text) : Prop :=
  AtLineStart p ∨ p.getLast? = some '{' ∨ ∀ c, q.head? = some c → c = '}'

/-- The lines `ls` have come in between `p` and `q`. -/
structure Insertion (ls : List Text) (p lead indent q t t' : Text) : Prop where
  source : t = p ++ q
  target : t' = p ++ block lead indent ls ++ q
  place : Break p q
  newlines : lead.all (· = '\n')
  lineStart : AtLineStart (p ++ lead)
  allIndent : indent.all isIndent

/-! ### Words and the new lines -/

theorem infix_newline (hw : '\n' ∉ w) (h : w <:+: a ++ '\n' :: b) : w <:+: a ∨ w <:+: b :=
  infix_append_cons hw h

theorem infix_joinLines (hw : '\n' ∉ w) (hne : w ≠ []) (h : w <:+: joinLines ls) :
    ∃ l ∈ ls, w <:+: l := by
  induction ls with
  | nil => exact absurd (List.infix_nil.mp h) hne
  | cons l ls ih =>
      rw [joinLines_cons] at h
      split at h
      · exact ⟨l, List.mem_cons_self .., by simpa using h⟩
      · rcases infix_newline hw h with h | h
        · exact ⟨l, List.mem_cons_self .., h⟩
        · obtain ⟨l', hl', h'⟩ := ih h
          exact ⟨l', List.mem_cons_of_mem _ hl', h'⟩

theorem infix_joinLines_of_mem (h : l ∈ ls) : l <:+: joinLines ls := by
  induction ls with
  | nil => simp at h
  | cons l' ls ih =>
      rw [joinLines_cons]
      rcases List.mem_cons.mp h with rfl | h
      · exact ⟨[], _, rfl⟩
      · rw [if_neg (List.ne_nil_of_mem h)]
        exact (ih h).trans ⟨l' ++ ['\n'], [], by simp⟩

/-- A word that starts with something other than white space is not cut by the indentation. -/
theorem infix_of_indent {c : Char} (hc : isIndent c = false) (hindent : indent.all isIndent)
    (h : c :: w <:+: indent ++ l) : c :: w <:+: l := by
  obtain ⟨x, y, e⟩ := h
  rw [List.append_assoc] at e
  rcases List.append_eq_append_iff.mp e with ⟨z, rfl, hz⟩ | ⟨z, rfl, hz⟩
  · cases z with
    | nil => exact ⟨[], y, by simpa using hz⟩
    | cons d z =>
        obtain ⟨rfl, -⟩ := List.cons.inj hz
        have := List.all_eq_true.mp hindent c (by simp)
        rw [hc] at this
        simp at this
  · exact ⟨z, y, by rw [hz, List.append_assoc]⟩

theorem infix_of_newlines (ha : a.all (· = '\n')) (hw : '\n' ∉ w) (hne : w ≠ [])
    (hin : w <:+: a ++ b) : w <:+: b := by
  induction a with
  | nil => exact hin
  | cons c a ih =>
      rw [List.all_cons, Bool.and_eq_true, decide_eq_true_eq] at ha
      obtain ⟨rfl, ha⟩ := ha
      rcases infix_newline (a := []) hw hin with h | h
      · exact absurd (List.infix_nil.mp h) hne
      · exact ih ha h

/-- A word lies before or behind newlines that end a line. -/
theorem infix_newlines (hlead : lead.all (· = '\n')) (hline : AtLineStart (p ++ lead))
    (hw : '\n' ∉ w) (hne : w ≠ []) (hin : w <:+: p ++ lead ++ a) : w <:+: p ∨ w <:+: a := by
  cases lead with
  | nil =>
      rw [List.append_nil] at hline hin
      rcases hline with rfl | hline
      · exact .inr hin
      · obtain ⟨y, rfl⟩ := List.getLast?_eq_some_iff.mp hline
        rw [List.append_assoc] at hin
        rcases infix_newline hw hin with h | h
        · exact .inl (h.trans ⟨[], ['\n'], by simp⟩)
        · exact .inr h
  | cons c l =>
      rw [List.all_cons, Bool.and_eq_true, decide_eq_true_eq] at hlead
      obtain ⟨rfl, hl⟩ := hlead
      rw [List.append_assoc] at hin
      rcases infix_newline hw hin with h | h
      · exact .inl h
      · exact .inr (infix_of_newlines hl hw hne h)

/-- A word lies before, in or behind what stands on lines of its own. -/
theorem infix_between (hlead : lead.all (· = '\n')) (hline : AtLineStart (p ++ lead))
    (hw : '\n' ∉ w) (hne : w ≠ []) (hin : w <:+: p ++ (lead ++ a ++ ['\n']) ++ q) :
    w <:+: p ∨ w <:+: q ∨ w <:+: a := by
  have e : p ++ (lead ++ a ++ ['\n']) ++ q = p ++ lead ++ (a ++ '\n' :: q) := by simp
  rw [e] at hin
  rcases infix_newlines hlead hline hw hne hin with hin | hin
  · exact .inl hin
  · exact .inr (infix_newline hw hin).symm

theorem infix_block (h : l ∈ ls) : l <:+: block lead indent ls := by
  have hmem : indent ++ l ∈ ls.map (indent ++ ·) := List.mem_map_of_mem h
  have h1 : l <:+: indent ++ l := ⟨indent, [], by simp⟩
  exact (h1.trans (infix_joinLines_of_mem hmem)).trans ⟨lead, ['\n'], by simp [block]⟩

/-- A word that cannot be cut by the places where lines go. -/
def Whole (w : Text) : Prop :=
  OneLine w ∧ '{' ∉ w ∧ w.head?.any fun c => !isIndent c

instance (w : Text) : Decidable (Whole w) := inferInstanceAs (Decidable (_ ∧ _))

theorem Whole.exists_head (h : Whole w) : ∃ c v, w = c :: v ∧ isIndent c = false := by
  obtain ⟨-, -, h⟩ := h
  cases w with
  | nil => simp at h
  | cons c v => exact ⟨c, v, rfl, by simpa using h⟩

/-- The places where lines go do not cut what is on one line and has no brace. -/
theorem Break.not_inside {v z x y : Text} (h : Break (x ++ v) (z ++ y)) (hw : OneLine (v ++ z))
    (hopen : '{' ∉ v ++ z) (hv : v ≠ []) (hz : z ≠ []) : False := by
  have hlast : (x ++ v).getLast? = some (v.getLast hv) := by
    rw [List.getLast?_append, List.getLast?_eq_some_getLast hv, Option.some_or]
  have hmem : v.getLast hv ∈ v ++ z := List.mem_append_left _ (List.getLast_mem hv)
  rcases h with h | h | h
  · rcases h with h | h
    · exact hv (List.append_eq_nil_iff.mp h).2
    · rw [hlast] at h
      rw [Option.some.inj h] at hmem
      exact hw.1 hmem
  · rw [hlast] at h
    rw [Option.some.inj h] at hmem
    exact hopen hmem
  · cases z with
    | nil => exact hz rfl
    | cons c z =>
        obtain rfl := h c rfl
        exact hw.2 (by simp)

theorem Break.clear (h : Break p q) (hw : OneLine w) (hopen : '{' ∉ w) : Clear w p [] q := by
  intro x y e
  rw [List.append_nil] at e
  rw [List.length_nil, Nat.add_zero]
  rcases cut_cases e with ⟨r, rfl, -⟩ | ⟨r, rfl, -⟩ | ⟨v, z, hv, hz, rfl, rfl, rfl⟩
  · exact .inl (by simp)
  · exact .inr (by simp)
  · exact (h.not_inside hw hopen hv hz).elim

theorem Break.infix_insert (h : Break p q) (hw : OneLine w) (hopen : '{' ∉ w)
    (hin : w <:+: p ++ q) (new : Text) : w <:+: p ++ new ++ q := by
  refine (h.clear hw hopen).kept ?_
  rwa [List.append_nil]

/-! ### Texts with new lines -/

theorem isBlank_of_newlines (h : a.all (· = '\n')) : isBlank a := by
  refine isBlank_of_all h fun c hc => ?_
  obtain rfl : c = '\n' := by simpa using hc
  decide

theorem squeeze_newlines (h : a.all (· = '\n')) : squeeze a = [] :=
  squeeze_of_isBlank (isBlank_of_newlines h)

theorem squeeze_joinLines (hindent : indent.all isIndent) :
    squeeze (joinLines (ls.map (indent ++ ·))) = squeeze ls.flatten := by
  have hline : squeeze indent = [] := squeeze_of_isBlank (isBlank_of_all_isIndent hindent)
  induction ls with
  | nil => rfl
  | cons l ls ih =>
      rw [List.map_cons, joinLines_cons, squeeze_append, squeeze_append, hline, List.nil_append,
        List.flatten_cons, squeeze_append, ← ih]
      split
      · next h => rw [h]; rfl
      · exact congrArg (squeeze l ++ ·) (squeeze_append ['\n'] _)

theorem squeeze_block (hlead : lead.all (· = '\n')) (hindent : indent.all isIndent) :
    squeeze (block lead indent ls) = squeeze ls.flatten := by
  rw [block, squeeze_append, squeeze_append, squeeze_newlines hlead, squeeze_joinLines hindent]
  exact List.append_nil _

/-- Braces can be matched without the white space. -/
theorem closes_squeeze (n : Nat) (t : Text) : Brace.closes n (squeeze t) = Brace.closes n t := by
  induction t generalizing n with
  | nil => rfl
  | cons c t ih =>
      rcases Brace.brace_cases c with rfl | rfl | hc
      · have e : squeeze ('{' :: t) = '{' :: squeeze t := rfl
        rw [e, Brace.closes_open, Brace.closes_open, ih]
      · have e : squeeze ('}' :: t) = '}' :: squeeze t := rfl
        rw [e]
        cases n with
        | zero => rfl
        | succ n => rw [Brace.closes_close_succ, Brace.closes_close_succ, ih]
      · have e : squeeze (c :: t) = if !Graft.isBlank c then c :: squeeze t else squeeze t :=
          List.filter_cons
        rw [e, Brace.closes_other hc, ← ih]
        split
        · exact Brace.closes_other hc
        · rfl

namespace Insertion

variable (h : Insertion ls p lead indent q t t')

include h

theorem isBalanced_block (hls : isBalanced (squeeze ls.flatten)) :
    isBalanced (block lead indent ls) := by
  rw [isBalanced, ← closes_squeeze, squeeze_block h.newlines h.allIndent]
  exact hls

theorem infix_of_mem (hl : l ∈ ls) : l <:+: t' := by
  rw [h.target]
  exact (infix_block hl).trans ⟨p, q, rfl⟩

theorem count_lt {c : Char} (hl : ∃ l ∈ ls, c ∈ l) : t.count c < t'.count c := by
  obtain ⟨l, hl, hc⟩ := hl
  have hpos : 0 < (block lead indent ls).count c :=
    List.count_pos_iff.mpr ((infix_block hl).subset hc)
  rw [h.source, h.target]
  simp only [List.count_append]
  omega

/-- A character that is neither white space nor in the lines occurs as often as before. -/
theorem count_eq {c : Char} (hb : Graft.isBlank c = false) (hc : c ∉ ls.flatten) :
    t'.count c = t.count c := by
  have hzero : (block lead indent ls).count c = 0 := by
    rw [← count_squeeze hb, squeeze_block h.newlines h.allIndent, count_squeeze hb]
    exact List.count_eq_zero.mpr hc
  rw [h.source, h.target]
  simp only [List.count_append, hzero, Nat.add_zero]

theorem length_lt : t.length < t'.length := by
  rw [h.source, h.target, block]
  simp only [List.length_append, List.length_singleton]
  omega

theorem ne : t' ≠ t := by
  rintro rfl
  exact Nat.lt_irrefl _ h.length_lt

theorem infix_target (hw : OneLine w) (hopen : '{' ∉ w) (hin : w <:+: t) : w <:+: t' := by
  rw [h.source] at hin
  rw [h.target]
  exact h.place.infix_insert hw hopen hin _

/-- Where a word of the new text comes from. -/
theorem cases_of_infix (hw : Whole w) (hin : w <:+: t') :
    w <:+: p ∨ w <:+: q ∨ ∃ l ∈ ls, w <:+: l := by
  obtain ⟨c, v, rfl, hc⟩ := hw.exists_head
  have hnl := hw.1.1
  rw [h.target, block] at hin
  rcases infix_between h.newlines h.lineStart hnl (List.cons_ne_nil c v) hin with hin | hin | hin
  · exact .inl hin
  · exact .inr (.inl hin)
  · obtain ⟨l', hl', hin⟩ := infix_joinLines hnl (List.cons_ne_nil c v) hin
    obtain ⟨l, hl, rfl⟩ := List.mem_map.mp hl'
    exact .inr (.inr ⟨l, hl, infix_of_indent hc h.allIndent hin⟩)

/-- A word is in the new text when it was in the old one or is in a new line. -/
theorem infix_iff (hw : Whole w) : w <:+: t' ↔ w <:+: t ∨ ∃ l ∈ ls, w <:+: l := by
  constructor
  · intro hin
    rcases h.cases_of_infix hw hin with hin | hin | hin
    · exact .inl (h.source ▸ hin.trans (List.prefix_append p q).isInfix)
    · exact .inl (h.source ▸ hin.trans (List.suffix_append p q).isInfix)
    · exact .inr hin
  · rintro (hin | ⟨l, hl, hin⟩)
    · exact h.infix_target hw.1 hw.2.1 hin
    · exact hin.trans (h.infix_of_mem hl)

end Insertion

end Graft.Text
