import Graft.Anchor
import Graft.Proofs.Scope
import Graft.Proofs.Text.Insert

/-! # Where anchors are

Whatever a locator finds, the place is a line start or the end (`Locator.exists_atLine`), or a
closing brace comes next (`Locator.exists_edge`); inside a scope it can also be the place behind the
opening brace, so it is a break of the text in any case (`Locator.exists_break`).  The indentation
that goes with it consists of spaces and tabs. -/

namespace Graft

open Text (AtLineStart Break)
open Pattern

variable {t p q inner : Text} {place : Place}

/-- The place lies between `p` and `q`. -/
structure PlaceAt (t p q : Text) (place : Place) : Prop where
  split : t = p ++ q
  insertAt_eq : place.insertAt = p.length
  allIndent : place.indent.all isIndent

/-- A place where a line starts, or the end. -/
def AtLine (p q : Text) : Prop := AtLineStart p ∨ q = []

/-- A place where a line starts, or where a closing brace or the end comes next. -/
def Edge (p q : Text) : Prop := AtLine p q ∨ q.head? = some '}'

theorem Edge.break (h : Edge p q) : Break p q := by
  rcases h with (h | rfl) | h
  · exact .inl h
  · exact .inr (.inr fun c hc => by simp at hc)
  · exact .inr (.inr fun c hc => by rw [hc] at h; exact Option.some.inj h)

/-- The headers of the scopes that a locator is confined to, the outermost first. -/
def Locator.headers : Locator → List Pattern
  | within header inner => header :: inner.headers
  | _ => []

/-- Locators of line starts. -/
def Locator.BetweenLines : Locator → Prop
  | scopeEnd _ | lastBrace | within _ _ => False
  | _ => True

/-- Locators of line starts, with patterns that repeat single characters only. -/
def Locator.OnLines : Locator → Prop
  | fileStart | lastLineWith _ | firstLineWith _ => True
  | afterLine p | beforeLine p => p.Flat
  | scopeStart header | afterScope header => header.Flat
  | scopeEnd _ | lastBrace | within _ _ => False

/-- Locators that look at the text as it is. -/
def Locator.Simple (loc : Locator) : Prop :=
  loc.OnLines ∨ loc = lastBrace ∨ ∃ header, header.Flat ∧ loc = scopeEnd header

/-- Locators that look at the text, or at the inside of one scope. -/
def Locator.Proper (loc : Locator) : Prop :=
  loc.Simple ∨ ∃ header inner, header.Flat ∧ inner.Simple ∧ loc = within header inner

theorem Locator.OnLines.betweenLines {loc : Locator} (hl : loc.OnLines) : loc.BetweenLines := by
  cases loc with
  | scopeEnd _ | lastBrace | within _ _ => exact hl
  | _ => trivial

theorem Locator.Simple.headers_eq {loc : Locator} (hl : loc.Simple) : loc.headers = [] := by
  obtain hl | rfl | ⟨header, -, rfl⟩ := hl
  · cases loc with
    | within _ _ => exact hl.elim
    | _ => rfl
  · rfl
  · rfl

/-! ### Indentations -/

theorem all_indentAt (t : Text) (pos : Nat) : (t.indentAt pos).all isIndent := by
  rw [Text.indentAt, Text.leadingIndent]
  exact List.all_takeWhile

theorem Scope.all_memberIndent (s : Scope) (t : Text) : (s.memberIndent t).all isIndent := by
  have hfallback : ∀ pos, (t.indentAt pos ++ indentUnit).all isIndent := fun pos => by
    rw [List.all_append, all_indentAt]
    rfl
  have hline : ∀ l : Text, l.leadingIndent.all isIndent := fun l => List.all_takeWhile
  rw [memberIndent]
  cases Text.lastFullLine? (s.inner t) with
  | none => exact hfallback _
  | some l =>
      simp only
      split
      · exact hline l
      · exact hfallback _

/-! ### Places -/

theorem placeAt_take {n : Nat} (hn : n ≤ t.length) (hat : place.insertAt = n)
    (hindent : place.indent.all isIndent) : PlaceAt t (t.take n) (t.drop n) place :=
  ⟨(List.take_append_drop n t).symm, by rw [hat, List.length_take_of_le hn], hindent⟩

theorem exists_atLine_nextLineStart {pos : Nat} (hat : place.insertAt = t.nextLineStart pos)
    (hindent : place.indent.all isIndent) : ∃ p q, PlaceAt t p q place ∧ AtLine p q := by
  refine ⟨_, _, placeAt_take (Text.nextLineStart_le t pos) hat hindent, ?_⟩
  rcases Text.take_nextLineStart t pos with ⟨s, r, rfl, h⟩ | h
  · rw [h]
    have e : s ++ '\n' :: r = (s ++ ['\n']) ++ r := by simp
    rw [e, List.take_left]
    exact .inl (Text.atLineStart_newline s)
  · rw [h, List.drop_length]
    exact .inr rfl

theorem lineStart_le_length (t : Text) (pos : Nat) : t.lineStart pos ≤ t.length :=
  Nat.le_trans (Nat.sub_le _ _) (Nat.min_le_right _ _)

theorem exists_atLine_lineStart {pos : Nat} (hat : place.insertAt = t.lineStart pos)
    (hindent : place.indent.all isIndent) : ∃ p q, PlaceAt t p q place ∧ AtLine p q :=
  ⟨_, _, placeAt_take (lineStart_le_length t pos) hat hindent,
    .inl (Text.atLineStart_take_lineStart t pos)⟩

theorem mem_piecesFrom {ps : List Text} {start n : Nat} {s : Text}
    (h : (n, s) ∈ Locator.piecesFrom start ps) :
    ∃ ps1 ps2, ps = ps1 ++ s :: ps2 ∧ n = start + ps1.flatten.length := by
  induction ps generalizing start with
  | nil => simp [Locator.piecesFrom] at h
  | cons p ps ih =>
      rcases List.mem_cons.mp h with h | h
      · obtain ⟨rfl, rfl⟩ := Prod.mk.inj h
        exact ⟨[], ps, rfl, rfl⟩
      · obtain ⟨ps1, ps2, rfl, rfl⟩ := ih h
        exact ⟨p :: ps1, ps2, rfl, by simp [Nat.add_assoc]⟩

/-- The place behind a piece of the text. -/
theorem exists_piece_of_mem {n : Nat} {s : Text} (h : (n, s) ∈ Locator.piecesFrom 0 t.pieces) :
    ∃ p q, PlaceAt t (p ++ s) q (Locator.afterPiece n s) ∧ AtLineStart p ∧ AtLine (p ++ s) q ∧
      ∀ x c y, s = x ++ c :: y → '\n' ∉ x := by
  obtain ⟨ps1, ps2, hpieces, rfl⟩ := mem_piecesFrom h
  have ht := Text.flatten_pieces t
  rw [hpieces, List.flatten_append, List.flatten_cons] at ht
  have hnl : ∀ x c y, s = x ++ c :: y → '\n' ∉ x := by
    rintro x c y rfl
    exact Text.newline_notMem_of_pieces hpieces
  refine ⟨ps1.flatten, ps2.flatten, ⟨by rw [← ht]; simp, by simp [Locator.afterPiece],
    List.all_takeWhile⟩, Text.atLineStart_of_pieces hpieces, ?_, hnl⟩
  cases ps2 with
  | nil => exact .inr rfl
  | cons l ps2 =>
      have e : t.pieces = (ps1 ++ [s]) ++ l :: ps2 := by
        rw [hpieces]
        simp
      have hstart : AtLineStart (ps1 ++ [s]).flatten := Text.atLineStart_of_pieces e
      exact .inl (by simpa using hstart)

/-- The place behind the last line that starts with one of the pieces. -/
theorem exists_piece_of_lastLineWith {starts : List Text}
    (h : (Locator.lastLineWith starts).find? t = some place) :
    ∃ p s q, PlaceAt t (p ++ s) q place ∧ AtLineStart p ∧ AtLine (p ++ s) q ∧
      (∀ x c y, s = x ++ c :: y → '\n' ∉ x) ∧ Locator.startsWithOne starts s := by
  obtain ⟨⟨n, s⟩, hfind, rfl⟩ := Option.map_eq_some_iff.mp h
  obtain ⟨p, q, hat, hp, hline, hnl⟩ := exists_piece_of_mem
    (List.mem_reverse.mp (List.mem_of_find?_eq_some hfind))
  have hstarts : Locator.startsWithOne starts s := by simpa using List.find?_some hfind
  exact ⟨p, s, q, hat, hp, hline, hnl, hstarts⟩

theorem Locator.exists_atLine {loc : Locator} (hl : loc.BetweenLines)
    (h : loc.find? t = some place) : ∃ p q, PlaceAt t p q place ∧ AtLine p q := by
  cases loc with
  | fileStart =>
      obtain rfl := Option.some.inj h
      exact ⟨[], t, ⟨rfl, rfl, rfl⟩, .inl Text.atLineStart_nil⟩
  | lastLineWith starts =>
      obtain ⟨p, s, q, hat, -, hline, -, -⟩ := exists_piece_of_lastLineWith h
      exact ⟨p ++ s, q, hat, hline⟩
  | firstLineWith starts =>
      obtain ⟨⟨n, s⟩, hfind, rfl⟩ := Option.map_eq_some_iff.mp h
      obtain ⟨p, q, hat, -, hline, -⟩ := exists_piece_of_mem (List.mem_of_find?_eq_some hfind)
      exact ⟨p ++ s, q, hat, hline⟩
  | afterLine p =>
      obtain ⟨m, hfind, rfl⟩ := Option.map_eq_some_iff.mp h
      by_cases hend : (m.text t).getLast? = some '\n'
      · obtain ⟨a, u, b, hsplit, -, hstop, htext⟩ := exists_split_of_find? hfind
        rw [htext] at hend
        refine ⟨a ++ u, b, ⟨hsplit, ?_, all_indentAt _ _⟩, .inl (.inr ?_)⟩
        · simp only [htext, hend, if_true, hstop]
        · rw [List.getLast?_append, hend, Option.some_or]
      · have hat : (if (m.text t).getLast? = some '\n' then m.stop else t.nextLineStart m.stop) =
            t.nextLineStart m.stop := if_neg hend
        exact exists_atLine_nextLineStart hat (all_indentAt _ _)
  | beforeLine p =>
      obtain ⟨m, hfind, rfl⟩ := Option.map_eq_some_iff.mp h
      exact exists_atLine_lineStart rfl (all_indentAt _ _)
  | scopeStart header =>
      obtain ⟨s, hfind, rfl⟩ := Option.map_eq_some_iff.mp h
      exact exists_atLine_nextLineStart rfl (s.all_memberIndent t)
  | afterScope header =>
      obtain ⟨s, hfind, rfl⟩ := Option.map_eq_some_iff.mp h
      exact exists_atLine_nextLineStart rfl (all_indentAt _ _)
  | scopeEnd header => exact hl.elim
  | lastBrace => exact hl.elim
  | within header loc => exact hl.elim

/-! ### Before a brace -/

theorem textFindLast?_eq_none {c : Char} (h : Text.findLast? [c] t = none) : c ∉ t := by
  induction t with
  | nil => exact List.not_mem_nil
  | cons d t ih =>
      unfold Text.findLast? at h
      split at h
      · simp at h
      · next hnone =>
          split at h
          · simp at h
          · next hprefix =>
              rw [List.mem_cons, not_or]
              refine ⟨?_, ih hnone⟩
              rintro rfl
              exact hprefix (by simp [List.isPrefixOf])

theorem exists_of_textFindLast? {c : Char} {n : Nat} (h : Text.findLast? [c] t = some n) :
    ∃ x y, t = x ++ c :: y ∧ c ∉ y ∧ x.length = n := by
  induction t generalizing n with
  | nil => simp [Text.findLast?] at h
  | cons d t ih =>
      unfold Text.findLast? at h
      split at h
      · next m hm =>
          obtain rfl := Option.some.inj h
          obtain ⟨x, y, rfl, hy, rfl⟩ := ih hm
          exact ⟨d :: x, y, rfl, hy, rfl⟩
      · next hnone =>
          split at h
          · next hprefix =>
              obtain rfl := Option.some.inj h
              obtain rfl : c = d := by simpa [List.isPrefixOf] using hprefix
              exact ⟨[], t, rfl, textFindLast?_eq_none hnone, rfl⟩
          · simp at h

/-- The place before a closing brace, with nothing but white space between the two. -/
theorem Scope.exists_edge_endPlace {s : Scope} {x b : Text} (h : t = x ++ '}' :: b)
    (hclose : s.closeAt = x.length) :
    ∃ p v, x = p ++ v ∧ PlaceAt t p (v ++ '}' :: b) (s.endPlace t) ∧ Text.isBlank v ∧
      Edge p (v ++ '}' :: b) := by
  obtain ⟨p, l, rfl, hp, hl⟩ := Text.exists_lineStart x
  have hstart : t.lineStart s.closeAt = p.length := by
    rw [hclose, h]
    exact Text.lineStart_append hp hl _
  have hslice : t.slice (t.lineStart s.closeAt) s.closeAt = l := by
    rw [hstart, hclose, h, List.length_append]
    exact Text.slice_append p l _
  by_cases hown : s.closesOwnLine t
  · have hblank : Text.isBlank l := by
      rw [← hslice]
      exact hown
    refine ⟨p, l, rfl, ⟨?_, ?_, s.all_memberIndent t⟩, hblank, .inl (.inl hp)⟩
    · rw [h, List.append_assoc]
    · simp only [endPlace, hown, if_true, hstart]
  · refine ⟨p ++ l, [], (List.append_nil _).symm, ⟨h, ?_, s.all_memberIndent t⟩, rfl, .inr rfl⟩
    simp only [endPlace, hown, Bool.false_eq_true, if_false, hclose]

/-- The place before the last closing brace. -/
theorem exists_edge_of_lastBrace (h : Locator.lastBrace.find? t = some place) :
    ∃ p v b, PlaceAt t p (v ++ '}' :: b) place ∧ Text.isBlank v ∧ Edge p (v ++ '}' :: b) ∧
      '}' ∉ b := by
  simp only [Locator.find?, Option.bind_eq_bind, Option.bind_eq_some_iff, Option.pure_def,
    Option.some.injEq] at h
  obtain ⟨close, hclose, openAt, -, rfl⟩ := h
  obtain ⟨x, b, ht, hb, hlen⟩ := exists_of_textFindLast? hclose
  obtain ⟨p, v, -, hat, hblank, hedge⟩ := Scope.exists_edge_endPlace
    (s := ⟨t.lineStart openAt, openAt, close⟩) ht hlen.symm
  exact ⟨p, v, b, hat, hblank, hedge, hb⟩

theorem exists_edge_of_scopeEnd {header : Pattern}
    (h : (Locator.scopeEnd header).find? t = some place) :
    ∃ p v b, PlaceAt t p (v ++ '}' :: b) place ∧ Text.isBlank v ∧ Edge p (v ++ '}' :: b) := by
  obtain ⟨s, hfind, rfl⟩ := Option.map_eq_some_iff.mp h
  obtain ⟨-, a, g, inner, b, -, -, hcuts⟩ := Scope.exists_cuts hfind
  have e : t = (a ++ g ++ ['{'] ++ inner) ++ '}' :: b := by
    rw [hcuts.split]
    simp
  have hclose : s.closeAt = (a ++ g ++ ['{'] ++ inner).length := by
    rw [hcuts.closeAt_eq]
    simp only [List.length_append, List.length_singleton]
  obtain ⟨p, v, -, hat, hblank, hedge⟩ := Scope.exists_edge_endPlace e hclose
  exact ⟨p, v, b, hat, hblank, hedge⟩

/-- A locator that is not confined to a scope finds an edge. -/
theorem Locator.exists_edge {loc : Locator} (hl : loc.headers = []) (h : loc.find? t = some place) :
    ∃ p q, PlaceAt t p q place ∧ Edge p q := by
  have hlines : loc.BetweenLines → ∃ p q, PlaceAt t p q place ∧ Edge p q := by
    intro hlines
    obtain ⟨p, q, hat, hline⟩ := exists_atLine hlines h
    exact ⟨p, q, hat, .inl hline⟩
  cases loc with
  | scopeEnd header =>
      obtain ⟨p, v, b, hat, -, hedge⟩ := exists_edge_of_scopeEnd h
      exact ⟨p, _, hat, hedge⟩
  | lastBrace =>
      obtain ⟨p, v, b, hat, -, hedge, -⟩ := exists_edge_of_lastBrace h
      exact ⟨p, _, hat, hedge⟩
  | within header inner => simp [headers] at hl
  | _ => exact hlines trivial

/-! ### Inside a scope -/

theorem Locator.exists_edge_within {header : Pattern} {loc : Locator} (hh : header.Flat)
    (hl : loc.Simple) (h : (within header loc).find? t = some place) :
    ∃ a g b p q, ScopeAt header t a g (p ++ q) b ∧
      PlaceAt t (a ++ g ++ '{' :: p) (q ++ '}' :: b) place ∧ Edge p q := by
  simp only [find?, Option.bind_eq_bind, Option.bind_eq_some_iff, Option.pure_def,
    Option.some.injEq] at h
  obtain ⟨s, hs, place', hplace, rfl⟩ := h
  obtain ⟨a, g, inner, b, hscope, rfl⟩ := (scopeFind?_eq_some_iff hh).mp hs
  rw [hscope.inner_eq] at hplace
  obtain ⟨p, q, hat, hedge⟩ := exists_edge hl.headers_eq hplace
  obtain rfl := hat.split
  refine ⟨a, g, b, p, q, hscope, ⟨?_, ?_, hat.allIndent⟩, hedge⟩
  · rw [hscope.split]
    simp
  · simp only [Place.shift, hat.insertAt_eq, Scope.of, List.length_append, List.length_cons]
    omega

theorem ScopeAt.find?_within {header : Pattern} {a g b : Text} (h : ScopeAt header t a g inner b)
    (hh : header.Flat) (loc : Locator) :
    (Locator.within header loc).find? t =
      (loc.find? inner).map (·.shift ((a ++ g).length + 1)) := by
  simp only [Locator.find?, h.find?_eq hh, Option.bind_eq_bind, Option.bind_some, h.inner_eq,
    Option.pure_def]
  cases loc.find? inner <;> rfl

/-- The line of the opening brace ends inside the scope, or the scope ends on it. -/
theorem ScopeAt.find?_scopeStart {header : Pattern} {a g b : Text}
    (h : ScopeAt header t a g inner b) (hh : header.Flat) :
    ∃ place p q, (Locator.scopeStart header).find? t = some place ∧ PlaceAt t p q place ∧
      (('\n' ∈ inner ∧ ∃ p' q', inner = p' ++ q' ∧ p = a ++ g ++ '{' :: p' ∧ q = q' ++ '}' :: b) ∨
        ('\n' ∉ inner ∧ ∃ x, p = a ++ g ++ '{' :: inner ++ '}' :: x ∧ b = x ++ q)) := by
  have hfind : (Locator.scopeStart header).find? t = some ⟨a.length, (a ++ g).length + 1,
      t.nextLineStart (a ++ g).length, (Scope.of a g inner).memberIndent t⟩ := by
    rw [Locator.find?, h.find?_eq hh]
    rfl
  obtain ⟨p, q, hsplit, hlen, hcases⟩ := h.cuts.lineEnd_cases
  exact ⟨_, p, q, hfind, ⟨hsplit, hlen, Scope.all_memberIndent _ t⟩, hcases⟩

theorem PlaceAt.unique {p' q' : Text} (h : PlaceAt t p q place) (h' : PlaceAt t p' q' place) :
    p = p' ∧ q = q' :=
  List.append_inj (h.split.symm.trans h'.split) (h.insertAt_eq.symm.trans h'.insertAt_eq)

/-- A break of the inside of a scope is one of the text. -/
theorem Text.Break.inside (h : Break p q) (x b : Text) :
    Break (x ++ '{' :: p) (q ++ '}' :: b) := by
  by_cases hp : p = []
  · exact .inr (.inl (by rw [hp]; exact List.getLast?_concat))
  · obtain ⟨d, hd⟩ := Option.isSome_iff_exists.mp (List.getLast?_isSome.mpr hp)
    have hlast : (x ++ '{' :: p).getLast? = p.getLast? := by
      rw [List.append_cons, List.getLast?_append, hd, Option.some_or]
    obtain h | h | h := h
    · exact .inl (.inr (hlast.trans (h.resolve_left hp)))
    · exact .inr (.inl (hlast.trans h))
    · refine .inr (.inr fun c hc => ?_)
      cases q with
      | nil => exact (Option.some.inj hc).symm
      | cons c' q => exact h c hc

theorem Locator.exists_break {loc : Locator} (hl : loc.Proper) (h : loc.find? t = some place) :
    ∃ p q, PlaceAt t p q place ∧ Break p q := by
  rcases hl with hl | ⟨header, loc, hh, hl, rfl⟩
  · obtain ⟨p, q, hat, hedge⟩ := exists_edge hl.headers_eq h
    exact ⟨p, q, hat, hedge.break⟩
  · obtain ⟨a, g, b, p, q, -, hat, hedge⟩ := exists_edge_within hh hl h
    exact ⟨_, _, hat, hedge.break.inside (a ++ g) b⟩

end Graft
