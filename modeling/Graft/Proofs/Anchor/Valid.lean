import Graft.Proofs.Anchor
import Graft.Proofs.Brace.Backward

/-! # Anchors are places of the text

Whatever a locator looks for, and however many scopes it is confined to, what it finds is a stretch
of the text and a place where new lines split nothing (`Locator.valid_of_find?`).  It lies between the
braces of the innermost of those scopes (`Locator.within_of_find?`), and lines that go to the end of a
scope stay inside that scope (`Locator.inside_of_find?`). -/

namespace Graft

open Text (AtLineStart Break)
open Brace (Matched)

variable {t p q a g inner b : Text} {place : Place} {loc : Locator} {s : Scope} {m n : Nat}

/-! ### Stretches of a text -/

/-- The match and the place for new lines lie between two positions. -/
structure Place.Within (place : Place) (start stop : Nat) : Prop where
  start_le : start ≤ place.matchStart
  ordered : place.matchStart ≤ place.matchEnd
  le_stop : place.matchEnd ≤ stop
  start_le_insertAt : start ≤ place.insertAt
  insertAt_le_stop : place.insertAt ≤ stop

/-- A place of the text `t`: the match and the place for new lines lie in the text, the indentation
consists of spaces and tabs, and where new lines go a line starts, the text ends, or a brace has opened
or closes. -/
structure Place.Valid (place : Place) (t : Text) : Prop where
  within : place.Within 0 t.length
  atBreak : ∃ p q, PlaceAt t p q place ∧ Break p q

/-- The same scope seen from `n` characters further left. -/
def Scope.shift (s : Scope) (n : Nat) : Scope := ⟨s.headerStart + n, s.openAt + n, s.closeAt + n⟩

theorem Place.Within.shift (h : place.Within m n) (k : Nat) :
    (place.shift k).Within (m + k) (n + k) where
  start_le := Nat.add_le_add_right h.start_le k
  ordered := Nat.add_le_add_right h.ordered k
  le_stop := Nat.add_le_add_right h.le_stop k
  start_le_insertAt := Nat.add_le_add_right h.start_le_insertAt k
  insertAt_le_stop := Nat.add_le_add_right h.insertAt_le_stop k

theorem Place.Within.mono {m' n' : Nat} (h : place.Within m n) (hm : m' ≤ m) (hn : n ≤ n') :
    place.Within m' n' where
  start_le := Nat.le_trans hm h.start_le
  ordered := h.ordered
  le_stop := Nat.le_trans h.le_stop hn
  start_le_insertAt := Nat.le_trans hm h.start_le_insertAt
  insertAt_le_stop := Nat.le_trans h.insertAt_le_stop hn

theorem PlaceAt.insertAt_le (h : PlaceAt t p q place) : place.insertAt ≤ t.length := by
  rw [h.insertAt_eq, h.split, List.length_append]
  omega

/-! ### Between the braces of a scope -/

namespace Scope.Cuts

variable (h : s.Cuts t a g inner b)

include h

/-- The inside of a scope, from behind its opening brace on. -/
theorem split_inner : t = (a ++ g ++ ['{']) ++ inner ++ '}' :: b := by
  rw [h.split]
  simp

theorem length_before : (a ++ g ++ ['{']).length = s.openAt + 1 := by
  rw [h.openAt_eq, List.length_append, List.length_singleton]

theorem length_inner : inner.length + (s.openAt + 1) = s.closeAt := by
  rw [h.closeAt_eq, h.openAt_eq]
  omega

theorem headerStart_le : s.headerStart ≤ s.openAt := by
  rw [h.openAt_eq, h.eq, List.length_append]
  exact Nat.le_add_right ..

theorem matched : Matched t s.openAt s.closeAt := by
  refine Brace.closingOf?_eq_some_iff_matched.mp (Brace.closingOf?_eq_some_iff.mpr
    ⟨a ++ g, inner, b, ?_, h.balanced, h.openAt_eq.symm, ?_⟩)
  · rw [h.split]
    simp
  · rw [h.closeAt_eq, h.openAt_eq]

/-- What lies inside a scope lies between its braces. -/
theorem within_shift (hplace : place.Within 0 inner.length) :
    (place.shift (s.openAt + 1)).Within (s.openAt + 1) s.closeAt := by
  have := hplace.shift (s.openAt + 1)
  rwa [Nat.zero_add, h.length_inner] at this

/-- A place inside a scope is one of the whole text. -/
theorem valid_shift (hplace : place.Valid inner) : (place.shift (s.openAt + 1)).Valid t := by
  obtain ⟨hwithin, p, q, hat, hbreak⟩ := hplace
  refine ⟨(h.within_shift hwithin).mono (Nat.zero_le _) (Nat.le_of_lt h.matched.close_lt), ?_⟩
  obtain rfl := hat.split
  refine ⟨a ++ g ++ '{' :: p, q ++ '}' :: b, ⟨?_, ?_, hat.allIndent⟩, hbreak.inside (a ++ g) b⟩
  · rw [h.split_inner]
    simp
  · have hopen := h.openAt_eq
    have hinsert := hat.insertAt_eq
    unfold Place.shift
    simp only [List.length_append, List.length_cons] at hopen ⊢
    omega

/-- Braces that match inside a scope match in the text. -/
theorem matched_shift (hmatched : Matched inner m n) :
    Matched t (m + (s.openAt + 1)) (n + (s.openAt + 1)) := by
  have := hmatched.inside (a ++ g ++ ['{']) ('}' :: b)
  rwa [← h.split_inner, h.length_before, Nat.add_comm _ m, Nat.add_comm _ n] at this

end Scope.Cuts

/-! ### The end of a scope -/

/-- Locators of the end of a scope. -/
def Locator.EndsScope : Locator → Prop
  | scopeEnd _ | lastBrace => True
  | within _ inner => inner.EndsScope
  | _ => False

/-- The scope that a locator of an end goes to the end of. -/
def Locator.ownScope? : Locator → Text → Option Scope
  | scopeEnd header, t => Scope.find? header t
  | lastBrace, t => do
    let closeAt ← Text.findLast? ['}'] t
    let openAt ← Brace.openingOf? t closeAt
    return ⟨t.lineStart openAt, openAt, closeAt⟩
  | within header inner, t => do
    let s ← Scope.find? header t
    let own ← inner.ownScope? (s.inner t)
    return own.shift (s.openAt + 1)
  | _, _ => none

theorem Locator.exists_ownScope (hl : loc.headers = []) (hend : loc.EndsScope)
    (h : loc.find? t = some place) :
    ∃ s, loc.ownScope? t = some s ∧ Matched t s.openAt s.closeAt ∧ s.headerStart ≤ s.openAt ∧
      place = s.endPlace t := by
  cases loc with
  | scopeEnd header =>
      obtain ⟨s, hs, rfl⟩ := Option.map_eq_some_iff.mp h
      obtain ⟨-, a, g, inner, b, -, -, hcuts⟩ := Scope.exists_cuts hs
      exact ⟨s, hs, hcuts.matched, hcuts.headerStart_le, rfl⟩
  | lastBrace =>
      simp only [find?, Option.bind_eq_bind, Option.bind_eq_some_iff, Option.pure_def,
        Option.some.injEq] at h
      obtain ⟨closeAt, hclose, openAt, hopen, rfl⟩ := h
      obtain ⟨x, b, rfl, -, rfl⟩ := exists_of_textFindLast? hclose
      refine ⟨⟨Text.lineStart (x ++ '}' :: b) openAt, openAt, x.length⟩, ?_, ?_,
        Text.lineStart_le .., rfl⟩
      · simp only [ownScope?, hclose, hopen, Option.bind_eq_bind, Option.bind_some, Option.pure_def]
      · exact (Brace.openingOf?_eq_some_iff_matched (by simp)).mp hopen
  | within header inner => simp [headers] at hl
  | _ => exact hend.elim

/-- The place before the closing brace lies behind the opening one. -/
theorem Scope.endPlace_inside (h : Matched t s.openAt s.closeAt) :
    s.openAt < (s.endPlace t).insertAt ∧ (s.endPlace t).insertAt ≤ s.closeAt := by
  unfold endPlace
  by_cases hown : s.closesOwnLine t
  · simp only [hown, if_true]
    refine ⟨Nat.lt_of_not_le fun hle => ?_, Text.lineStart_le ..⟩
    -- the opening brace would stand on the line that is blank before the closing one
    have hmem : '{' ∈ t.slice (t.lineStart s.closeAt) s.closeAt := by
      refine List.mem_of_getElem? (i := s.openAt - t.lineStart s.closeAt) ?_
      unfold Text.slice
      rw [List.getElem?_drop, Nat.add_sub_cancel' hle, List.getElem?_take_of_lt h.lt, h.opens]
    unfold closesOwnLine Text.isBlank at hown
    exact absurd (List.all_eq_true.mp hown _ hmem) (by decide)
  · simp only [hown]
    exact ⟨h.lt, Nat.le_refl _⟩

/-! ### What a locator finds -/

theorem Place.Valid.of_edge (hat : PlaceAt t p q place) (hedge : Edge p q)
    (hordered : place.matchStart ≤ place.matchEnd) (hle : place.matchEnd ≤ t.length) :
    place.Valid t :=
  ⟨⟨Nat.zero_le _, hordered, hle, Nat.zero_le _, hat.insertAt_le⟩, p, q, hat, hedge.break⟩

theorem afterPiece_bounds (hat : PlaceAt t (p ++ a) q (Locator.afterPiece n a)) :
    (Locator.afterPiece n a).matchStart ≤ (Locator.afterPiece n a).matchEnd ∧
      (Locator.afterPiece n a).matchEnd ≤ t.length := by
  have hinsert : n + a.length ≤ t.length := hat.insertAt_le
  have hend : (a.dropEndWhile isLineEnd).length ≤ a.length := by
    have := congrArg List.length (Text.dropEndWhile_append_takeWhile isLineEnd a)
    rw [List.length_append] at this
    omega
  unfold Locator.afterPiece
  exact ⟨Nat.le_add_right .., by simp only; omega⟩

theorem Pattern.find?_bounds {pattern : Pattern} {m : Match} (h : pattern.find? t = some m) :
    m.start ≤ m.stop ∧ m.stop ≤ t.length := by
  obtain ⟨a, u, b, rfl, hstart, hstop, -⟩ := exists_split_of_find? h
  rw [hstart, hstop]
  simp only [List.length_append]
  omega

/-- A match of a locator that is not confined to a scope is a stretch of the text. -/
theorem Locator.match_bounds (hl : loc.headers = []) (h : loc.find? t = some place) :
    place.matchStart ≤ place.matchEnd ∧ place.matchEnd ≤ t.length := by
  have hends : loc.EndsScope →
      place.matchStart ≤ place.matchEnd ∧ place.matchEnd ≤ t.length := by
    intro hend
    obtain ⟨s, -, hmatched, hstart, rfl⟩ := exists_ownScope hl hend h
    have := hmatched.lt
    exact ⟨by simp only [Scope.endPlace]; omega, hmatched.close_lt⟩
  have hscope : ∀ {header s}, Scope.find? header t = some s →
      s.headerStart ≤ s.openAt ∧ s.openAt < s.closeAt ∧ s.closeAt < t.length := by
    intro header s hs
    obtain ⟨-, a, g, inner, b, -, -, hcuts⟩ := Scope.exists_cuts hs
    exact ⟨hcuts.headerStart_le, hcuts.matched.lt, hcuts.matched.close_lt⟩
  cases loc with
  | fileStart =>
      obtain rfl := Option.some.inj h
      exact ⟨Nat.le_refl 0, Nat.zero_le _⟩
  | lastLineWith starts =>
      obtain ⟨⟨n, l⟩, hfind, rfl⟩ := Option.map_eq_some_iff.mp h
      obtain ⟨p, q, hat, -⟩ := exists_piece_of_mem
        (List.mem_reverse.mp (List.mem_of_find?_eq_some hfind))
      exact afterPiece_bounds hat
  | firstLineWith starts =>
      obtain ⟨⟨n, l⟩, hfind, rfl⟩ := Option.map_eq_some_iff.mp h
      obtain ⟨p, q, hat, -⟩ := exists_piece_of_mem (List.mem_of_find?_eq_some hfind)
      exact afterPiece_bounds hat
  | afterLine p =>
      obtain ⟨m, hm, rfl⟩ := Option.map_eq_some_iff.mp h
      exact Pattern.find?_bounds hm
  | beforeLine p =>
      obtain ⟨m, hm, rfl⟩ := Option.map_eq_some_iff.mp h
      exact Pattern.find?_bounds hm
  | scopeStart header =>
      obtain ⟨s, hs, rfl⟩ := Option.map_eq_some_iff.mp h
      have := hscope hs
      exact ⟨by simp only; omega, by simp only; omega⟩
  | afterScope header =>
      obtain ⟨s, hs, rfl⟩ := Option.map_eq_some_iff.mp h
      have := hscope hs
      exact ⟨by simp only; omega, by simp only; omega⟩
  | scopeEnd header => exact hends trivial
  | lastBrace => exact hends trivial
  | within header inner => simp [headers] at hl

theorem Locator.valid_of_headers_eq (hl : loc.headers = []) (h : loc.find? t = some place) :
    place.Valid t := by
  obtain ⟨p, q, hat, hedge⟩ := exists_edge hl h
  obtain ⟨hordered, hle⟩ := match_bounds hl h
  exact .of_edge hat hedge hordered hle

/-! ### Inside scopes in scopes -/

/-- The innermost of the scopes with the headers, each looked for inside the one before it. -/
def Scope.reach? : List Pattern → Text → Option Scope
  | [], _ => none
  | [header], t => find? header t
  | header :: headers, t => do
    let s ← find? header t
    let inner ← reach? headers (s.inner t)
    return inner.shift (s.openAt + 1)

/-- What a confined locator finds is what the locator finds between the braces. -/
theorem Locator.exists_place_of_within {header : Pattern}
    (h : (within header loc).find? t = some place) :
    ∃ s a g inner b place', Scope.find? header t = some s ∧ s.Cuts t a g inner b ∧
      loc.find? inner = some place' ∧ place = place'.shift (s.openAt + 1) := by
  simp only [find?, Option.bind_eq_bind, Option.bind_eq_some_iff, Option.pure_def,
    Option.some.injEq] at h
  obtain ⟨s, hs, place', hplace, rfl⟩ := h
  obtain ⟨-, a, g, inner, b, -, -, hcuts⟩ := Scope.exists_cuts hs
  rw [hcuts.inner_eq] at hplace
  exact ⟨s, a, g, inner, b, place', hs, hcuts, hplace, rfl⟩

theorem Locator.valid_of_find? (h : loc.find? t = some place) : place.Valid t := by
  induction loc generalizing t place with
  | within header loc ih =>
      obtain ⟨s, a, g, inner, b, place', -, hcuts, hplace, rfl⟩ := exists_place_of_within h
      exact hcuts.valid_shift (ih hplace)
  | _ => exact valid_of_headers_eq rfl h

theorem Locator.within_of_find? (hl : loc.headers ≠ []) (h : loc.find? t = some place) :
    ∃ s, Scope.reach? loc.headers t = some s ∧ Matched t s.openAt s.closeAt ∧
      place.Within (s.openAt + 1) s.closeAt := by
  induction loc generalizing t place with
  | within header loc ih =>
      obtain ⟨s, a, g, inner, b, place', hs, hcuts, hplace, rfl⟩ := exists_place_of_within h
      unfold headers
      cases hrest : loc.headers with
      | nil => exact ⟨s, hs, hcuts.matched, hcuts.within_shift (valid_of_find? hplace).within⟩
      | cons header' headers' =>
          obtain ⟨s', hs', hmatched, hwithin⟩ := ih (by rw [hrest]; simp) hplace
          rw [hrest] at hs'
          refine ⟨s'.shift (s.openAt + 1), ?_, hcuts.matched_shift hmatched, ?_⟩
          · unfold Scope.reach?
            rw [hs, Option.bind_eq_bind, Option.bind_some, hcuts.inner_eq, hs']
            rfl
          · have := hwithin.shift (s.openAt + 1)
            rwa [Nat.add_right_comm] at this
  | _ => exact absurd rfl hl

theorem Locator.inside_of_headers_eq (hl : loc.headers = []) (hend : loc.EndsScope)
    (h : loc.find? t = some place) :
    ∃ s, loc.ownScope? t = some s ∧ Matched t s.openAt s.closeAt ∧
      s.openAt < place.insertAt ∧ place.insertAt ≤ s.closeAt := by
  obtain ⟨s, hs, hmatched, -, rfl⟩ := exists_ownScope hl hend h
  exact ⟨s, hs, hmatched, Scope.endPlace_inside hmatched⟩

theorem Locator.inside_of_find? (hend : loc.EndsScope) (h : loc.find? t = some place) :
    ∃ s, loc.ownScope? t = some s ∧ Matched t s.openAt s.closeAt ∧
      s.openAt < place.insertAt ∧ place.insertAt ≤ s.closeAt := by
  induction loc generalizing t place with
  | within header loc ih =>
      obtain ⟨s, a, g, inner, b, place', hs, hcuts, hplace, rfl⟩ := exists_place_of_within h
      obtain ⟨own, hown, hmatched, hlt, hle⟩ := ih hend hplace
      refine ⟨own.shift (s.openAt + 1), ?_, hcuts.matched_shift hmatched,
        Nat.add_lt_add_right hlt _, Nat.add_le_add_right hle _⟩
      simp only [ownScope?, hs, hcuts.inner_eq, hown, Option.bind_eq_bind, Option.bind_some,
        Option.pure_def]
  | _ => exact inside_of_headers_eq rfl hend h

end Graft
