import Graft.Proofs.Pattern.Plain
import Graft.Proofs.Scope.Cut

/-! # Scopes

`ScopeAt` says where a text has the scope of a header, and `scopeFind?_eq_some_iff` that the look-up
returns it.  A change of the text that neither overlaps the match of the header nor brings another
one moves the brace behind the header (`OpenAt.moved`), and the scope keeps its inside or has the
change in it (`ScopeAt.moved`).  When the header and its brace share a line, no scope appears or
disappears either (`OnLine.change`). -/

namespace Graft

open Text (AtLineStart Moved OneLine)
open Brace (Free isBalanced)

variable {header : Pattern} {t a g r inner b before old new after : Text}

/-- The leftmost match of the header begins behind `a`; the text `g` goes from there to the next
brace, and `r` lies behind that brace. -/
structure OpenAt (header : Pattern) (t a g r : Text) : Prop where
  split : t = a ++ g ++ '{' :: r
  gap : '{' ∉ g
  leftmost : header.Leftmost t a

/-- The brace behind the header has a partner; `inner` lies between the two. -/
structure ScopeAt (header : Pattern) (t a g inner b : Text) : Prop extends
    OpenAt header t a g (inner ++ '}' :: b) where
  balanced : isBalanced inner

/-! ### The look-up -/

theorem OpenAt.unique {a' g' r' : Text} (h : OpenAt header t a g r) (h' : OpenAt header t a' g' r') :
    a = a' ∧ g = g' ∧ r = r' := by
  obtain rfl := h.leftmost.unique h'.leftmost
  have e := h.split.symm.trans h'.split
  rw [List.append_assoc, List.append_assoc] at e
  exact ⟨rfl, Text.append_cons_inj h.gap h'.gap (List.append_cancel_left e)⟩

/-- The brace behind the header is the only thing that the look-up needs. -/
theorem OpenAt.find?_eq (hp : header.Flat) (h : OpenAt header t a g r) :
    Scope.find? header t = (Brace.partner? '{' '}' 0 r).map
      fun k => ⟨a.length, (a ++ g).length, (a ++ g).length + 1 + k⟩ := by
  obtain ⟨m, hm, hstart⟩ := h.leftmost.find? hp
  have e : t = a ++ (g ++ '{' :: r) := by
    rw [h.split, List.append_assoc]
  have hgap : Text.find? ['{'] (t.drop m.start) = some g.length := by
    rw [hstart, e, List.drop_left]
    exact textFind?_eq_some_iff.mpr ⟨g, r, rfl, h.gap, rfl⟩
  have hclose : Brace.closingOf? t (m.start + g.length) =
      (Brace.partner? '{' '}' 0 r).map ((a ++ g).length + 1 + ·) := by
    rw [hstart, ← List.length_append, h.split]
    exact Brace.closingOf?_append _ _
  simp only [Scope.find?, hm, hgap, hclose, Option.bind_eq_bind, Option.bind_some, Option.pure_def]
  cases Brace.partner? '{' '}' 0 r with
  | none => rfl
  | some k => simp [hstart]

theorem exists_openAt_of_find? (hp : header.Flat) {s : Scope}
    (h : Scope.find? header t = some s) : ∃ a g r, OpenAt header t a g r := by
  simp only [Scope.find?, Option.bind_eq_bind, Option.bind_eq_some_iff] at h
  obtain ⟨m, hm, gap, hgap, -⟩ := h
  obtain ⟨a, hleft, hstart⟩ := Pattern.exists_leftmost hp hm
  obtain ⟨r, rfl⟩ := hleft.prefix
  rw [hstart, List.drop_left] at hgap
  obtain ⟨g, r, rfl, hg, -⟩ := textFind?_eq_some_iff.mp hgap
  exact ⟨a, g, r, (List.append_assoc ..).symm, hg, hleft⟩

theorem scopeFind?_eq_some_iff (hp : header.Flat) {s : Scope} :
    Scope.find? header t = some s ↔
      ∃ a g inner b, ScopeAt header t a g inner b ∧ s = .of a g inner := by
  constructor
  · intro h
    obtain ⟨a, g, r, hopen⟩ := exists_openAt_of_find? hp h
    rw [hopen.find?_eq hp, Option.map_eq_some_iff] at h
    obtain ⟨k, hk, rfl⟩ := h
    obtain ⟨inner, b, rfl, rfl, hin⟩ := Brace.partner?_eq_some_iff.mp hk
    exact ⟨a, g, inner, b, ⟨hopen, hin⟩, rfl⟩
  · rintro ⟨a, g, inner, b, h, rfl⟩
    rw [h.toOpenAt.find?_eq hp, Brace.partner?_eq_some_iff.mpr ⟨inner, b, rfl, rfl, h.balanced⟩]
    rfl

theorem ScopeAt.find?_eq (hp : header.Flat) (h : ScopeAt header t a g inner b) :
    Scope.find? header t = some (.of a g inner) :=
  (scopeFind?_eq_some_iff hp).mpr ⟨a, g, inner, b, h, rfl⟩

/-- The header has no scope. -/
theorem scopeFind?_eq_none_iff (hp : header.Flat) :
    Scope.find? header t = none ↔ ∀ a g inner b, ¬ScopeAt header t a g inner b := by
  constructor
  · intro h a g inner b hscope
    rw [hscope.find?_eq hp] at h
    simp at h
  · intro h
    cases hfind : Scope.find? header t with
    | none => rfl
    | some s =>
        obtain ⟨a, g, inner, b, hscope, -⟩ := (scopeFind?_eq_some_iff hp).mp hfind
        exact absurd hscope (h a g inner b)

theorem ScopeAt.unique {a' g' inner' b' : Text} (h : ScopeAt header t a g inner b)
    (h' : ScopeAt header t a' g' inner' b') : a = a' ∧ g = g' ∧ inner = inner' ∧ b = b' := by
  obtain ⟨ha, hg, hr⟩ := h.toOpenAt.unique h'.toOpenAt
  have hk := (Brace.partner?_eq_some_iff (t := inner ++ '}' :: b)).mpr ⟨inner, b, rfl, rfl, h.balanced⟩
  have hk' := (Brace.partner?_eq_some_iff (t := inner' ++ '}' :: b')).mpr
    ⟨inner', b', rfl, rfl, h'.balanced⟩
  rw [hr, hk'] at hk
  obtain ⟨rfl, e⟩ := List.append_inj hr (Option.some.inj hk).symm
  exact ⟨ha, hg, rfl, (List.cons.inj e).2⟩

theorem ScopeAt.cuts (h : ScopeAt header t a g inner b) : (Scope.of a g inner).Cuts t a g inner b :=
  ⟨h.split, h.gap, h.balanced, rfl⟩

theorem ScopeAt.inner_eq (h : ScopeAt header t a g inner b) :
    (Scope.of a g inner).inner t = inner := h.cuts.inner_eq

/-! ### Scopes and changes -/

theorem OpenAt.moved (h : OpenAt header (before ++ old ++ after) a g r)
    (hp : header.Plain) (hne : ¬header.Spans [] [] [])
    (htouch : ∀ u w, before ++ old ++ after = a ++ u ++ w → header.Spans a u w →
      a.length + u.length ≤ before.length ∨ before.length + old.length ≤ a.length)
    (hnew : header.Untouched before new after) (hold : '{' ∉ old)
    (hgap : ∀ x y, x ≠ [] → before = a ++ x → g = x ++ old ++ y → '{' ∉ new) :
    ∃ a' g' r', OpenAt header (before ++ new ++ after) a' g' r' ∧
      ((g' = g ∧ ∃ p, before = a ++ g ++ '{' :: p ∧ r = p ++ old ++ after ∧ r' = p ++ new ++ after) ∨
        (r' = r ∧ (g' = g ∨
          ∃ x y, x ≠ [] ∧ before = a ++ x ∧ g = x ++ old ++ y ∧ g' = x ++ new ++ y))) := by
  obtain ⟨u, w, e, hu⟩ := h.leftmost.1
  have hu0 : u ≠ [] := by
    rintro rfl
    exact hne (hu.plain hp _ _)
  rcases Pattern.exists_moved e hu0 (htouch u w e hu) new with
    ⟨z, hz, hm, e'⟩ | ⟨z, ha, hafter, hm, e'⟩
  · -- The header is before the change.
    have hleft := h.leftmost.moved hp hne hm ⟨u, _, e', hu.plain hp _ _⟩ hnew
    have hs := h.split
    rw [hz] at hs
    have hs' : g ++ '{' :: r = (u ++ z) ++ old ++ after := by
      have := hs.symm
      simpa using this
    have hx : u ++ z ≠ [] := List.append_ne_nil_of_left_ne_nil hu0 z
    rcases Text.cases_of_cons_append hs' hold with ⟨q, hg, hq⟩ | ⟨p, hz', hr⟩
    · -- The change is between header and brace.
      have hbefore : before = a ++ (u ++ z) := by rw [hz, List.append_assoc]
      have hopen := hgap _ q hx hbefore hg
      have hg' := h.gap
      rw [hg] at hg'
      simp only [List.mem_append, not_or] at hg'
      refine ⟨a, u ++ z ++ new ++ q, r, ⟨by rw [hz, hq]; simp, ?_, hleft⟩,
        .inr ⟨rfl, .inr ⟨_, q, hx, hbefore, hg, rfl⟩⟩⟩
      simp only [List.mem_append, not_or]
      exact ⟨⟨hg'.1.1, hopen⟩, hg'.2⟩
    · have hbefore : before = a ++ g ++ '{' :: p := by
        rw [hz, List.append_assoc, hz', List.append_assoc]
      exact ⟨a, g, p ++ new ++ after, ⟨by rw [hbefore]; simp, h.gap, hleft⟩,
        .inl ⟨rfl, p, hbefore, hr, rfl⟩⟩
  · -- The header is behind the change.
    have hleft := h.leftmost.moved hp hne hm ⟨u, _, e', hu.plain hp _ _⟩ hnew
    have hs := h.split
    rw [ha] at hs
    have hs' : after = z ++ g ++ '{' :: r := by
      simpa using hs
    exact ⟨_, g, r, ⟨by rw [hs']; simp, h.gap, hleft⟩, .inr ⟨rfl, .inl rfl⟩⟩

theorem ScopeAt.moved (h : ScopeAt header (before ++ old ++ after) a g inner b)
    (hp : header.Plain) (hne : ¬header.Spans [] [] [])
    (htouch : ∀ u w, before ++ old ++ after = a ++ u ++ w → header.Spans a u w →
      a.length + u.length ≤ before.length ∨ before.length + old.length ≤ a.length)
    (hnew : header.Untouched before new after) (hold : Free old) (hbal : isBalanced new)
    (hgap : ∀ x y, x ≠ [] → before = a ++ x → g = x ++ old ++ y → '{' ∉ new) :
    ∃ a' g' inner' b', ScopeAt header (before ++ new ++ after) a' g' inner' b' ∧
      (inner' = inner ∨ ∃ p q, before = a ++ g ++ '{' :: p ∧ after = q ++ '}' :: b ∧
        inner = p ++ old ++ q ∧ inner' = p ++ new ++ q) := by
  obtain ⟨a', g', r', hopen, ⟨-, p, hbefore, hr, rfl⟩ | ⟨rfl, -⟩⟩ :=
    h.toOpenAt.moved hp hne htouch hnew hold.1 hgap
  · rcases Text.cases_of_cons_append hr hold.2 with ⟨q, hin, rfl⟩ | ⟨x, rfl, -⟩
    · refine ⟨a', g', p ++ new ++ q, b, ⟨?_, ?_⟩, .inr ⟨p, q, hbefore, rfl, hin, rfl⟩⟩
      · simpa using hopen
      · have := h.balanced
        rw [hin, isBalanced, Brace.closes_insert hold.isBalanced] at this
        rw [isBalanced, Brace.closes_insert hbal]
        exact this
    · exact ⟨a', g', inner, x ++ new ++ after, ⟨by simpa using hopen, h.balanced⟩, .inl rfl⟩
  · exact ⟨a', g', inner, b, ⟨hopen, h.balanced⟩, .inl rfl⟩

/-! ### Headers on one line -/

/-- The first match of the header, if there is one, shares a line with the next brace, and nothing
is closed between the two. -/
def OnLine (header : Pattern) (t : Text) : Prop :=
  ∀ a, header.Leftmost t a → ∃ g r, OpenAt header t a g r ∧ OneLine g

theorem OpenAt.onLine (h : OpenAt header t a g r) (hg : OneLine g) : OnLine header t := by
  intro a' ha'
  obtain rfl := ha'.unique h.leftmost
  exact ⟨g, r, h, hg⟩

theorem onLine_of_find?_eq_none (hp : header.Flat) (h : header.find? t = none) :
    OnLine header t := by
  rintro a ⟨⟨u, b, e, hu⟩, -⟩
  exact absurd hu ((Pattern.find?_eq_none_iff hp).mp h a u b e)

/-- The pieces of a text around a scope, by position. -/
theorem scopeAt_of_find? (hp : header.Flat) {s : Scope} (h : Scope.find? header t = some s) :
    ScopeAt header t (t.take s.headerStart) (t.slice s.headerStart s.openAt) (s.inner t)
      (t.drop (s.closeAt + 1)) := by
  obtain ⟨a, g, inner, b, hscope, rfl⟩ := (scopeFind?_eq_some_iff hp).mp h
  have ha : t.take (Scope.of a g inner).headerStart = a := by
    rw [hscope.split, List.append_assoc]
    exact List.take_left
  have hg : t.slice (Scope.of a g inner).headerStart (Scope.of a g inner).openAt = g := by
    have := Text.slice_append a g ('{' :: (inner ++ '}' :: b))
    rwa [← hscope.split, ← List.length_append] at this
  have hb : t.drop ((Scope.of a g inner).closeAt + 1) = b := by
    have e : t = (a ++ g ++ '{' :: inner ++ ['}']) ++ b := by
      rw [hscope.split]
      simp
    have hlen : (Scope.of a g inner).closeAt + 1 = (a ++ g ++ '{' :: inner ++ ['}']).length := by
      simp only [Scope.of, List.length_append, List.length_cons, List.length_nil]
      omega
    rw [hlen]
    conv => lhs; rw [e]
    exact List.drop_left
  rw [ha, hg, hb, hscope.inner_eq]
  exact hscope

/-- A change that keeps away from the header and its brace. -/
structure Avoids (header : Pattern) (before old new after : Text) : Prop where
  apart : ∀ a g r, OpenAt header (before ++ old ++ after) a g r → OneLine g → ∀ u w,
    before ++ old ++ after = a ++ u ++ w → header.Spans a u w →
      a.length + u.length ≤ before.length ∨ before.length + old.length ≤ a.length
  gap : ∀ a g r x y, OpenAt header (before ++ old ++ after) a g r → OneLine g → x ≠ [] →
    before = a ++ x → g = x ++ old ++ y → '{' ∉ new ∧ OneLine new
  untouched : header.Untouched before new after
  free : Free old
  balanced : isBalanced new

/-- Matches of the header in the new text come from matches in the old one. -/
theorem Avoids.exists_leftmost (hc : Avoids header before old new after) (hp : header.Plain)
    (hflat : header.Flat) (hne : ¬header.Spans [] [] [])
    (h : header.Leftmost (before ++ new ++ after) a) :
    ∃ a', header.Leftmost (before ++ old ++ after) a' := by
  obtain ⟨u, w, e, hu⟩ := h.1
  have hu0 : u ≠ [] := by
    rintro rfl
    exact hne (hu.plain hp _ _)
  have hocc : header.occursIn (before ++ old ++ after) := by
    rw [Pattern.occursIn_iff hflat]
    rcases Pattern.exists_moved e hu0 (hc.untouched a u w e hu) old with
      ⟨z, -, -, e'⟩ | ⟨z, -, -, -, e'⟩
    · exact ⟨_, _, _, e', hu.plain hp _ _⟩
    · exact ⟨_, _, _, e', hu.plain hp _ _⟩
  obtain ⟨m, hm⟩ := Option.isSome_iff_exists.mp hocc
  obtain ⟨a', ha', -⟩ := Pattern.exists_leftmost hflat hm
  exact ⟨a', ha'⟩

theorem OnLine.moved (h : OnLine header (before ++ old ++ after)) (hp : header.Plain)
    (hflat : header.Flat) (hne : ¬header.Spans [] [] [])
    (hc : Avoids header before old new after) : OnLine header (before ++ new ++ after) := by
  intro a' ha'
  obtain ⟨a, ha⟩ := hc.exists_leftmost hp hflat hne ha'
  obtain ⟨g, r, hopen, hg⟩ := h a ha
  obtain ⟨a'', g', r', hopen', hcases⟩ := hopen.moved hp hne (hc.apart a g r hopen hg) hc.untouched
    hc.free.1 fun x y hx hb hxy => (hc.gap a g r x y hopen hg hx hb hxy).1
  obtain rfl := ha'.unique hopen'.leftmost
  refine ⟨g', r', hopen', ?_⟩
  rcases hcases with ⟨rfl, -⟩ | ⟨-, rfl | ⟨x, y, hx, hb, rfl, rfl⟩⟩
  · exact hg
  · exact hg
  · have hnew := (hc.gap a _ r x y hopen hg hx hb rfl).2
    simp only [OneLine, List.mem_append, not_or] at hg hnew ⊢
    exact ⟨⟨⟨hg.1.1.1, hnew.1⟩, hg.1.2⟩, ⟨⟨hg.2.1.1, hnew.2⟩, hg.2.2⟩⟩

/-- A scope whose header shares a line with its brace is neither lost nor found by a change that
avoids the two. -/
theorem OnLine.change (h : OnLine header (before ++ old ++ after)) (hp : header.Plain)
    (hflat : header.Flat) (hne : ¬header.Spans [] [] [])
    (hc : Avoids header before old new after) :
    (Scope.find? header (before ++ old ++ after) = none ∧
        Scope.find? header (before ++ new ++ after) = none) ∨
      ∃ a g inner b a' g' inner' b', ScopeAt header (before ++ old ++ after) a g inner b ∧
        ScopeAt header (before ++ new ++ after) a' g' inner' b' ∧
        (inner' = inner ∨ ∃ p q, before = a ++ g ++ '{' :: p ∧ after = q ++ '}' :: b ∧
          inner = p ++ old ++ q ∧ inner' = p ++ new ++ q) := by
  cases hfind : Scope.find? header (before ++ old ++ after) with
  | some s =>
      obtain ⟨a, g, inner, b, hscope, -⟩ := (scopeFind?_eq_some_iff hflat).mp hfind
      obtain ⟨g', r', hopen, hg⟩ := h a hscope.leftmost
      obtain ⟨-, rfl, rfl⟩ := hopen.unique hscope.toOpenAt
      obtain ⟨a', g', inner', b', hscope', hcases⟩ := hscope.moved hp hne
        (hc.apart a _ _ hopen hg) hc.untouched hc.free hc.balanced
        fun x y hx hb hxy => (hc.gap a _ _ x y hopen hg hx hb hxy).1
      exact .inr ⟨a, _, inner, b, a', g', inner', b', hscope, hscope', hcases⟩
  | none =>
      refine .inl ⟨rfl, ?_⟩
      rw [← Option.not_isSome_iff_eq_none]
      intro hsome
      obtain ⟨s, hs⟩ := Option.isSome_iff_exists.mp hsome
      obtain ⟨a', g', r', hopen'⟩ := exists_openAt_of_find? hflat hs
      obtain ⟨a, ha⟩ := hc.exists_leftmost hp hflat hne hopen'.leftmost
      obtain ⟨g, r, hopen, hg⟩ := h a ha
      obtain ⟨a'', g'', r'', hopen'', hcases⟩ := hopen.moved hp hne (hc.apart a g r hopen hg)
        hc.untouched hc.free.1 fun x y hx hb hxy => (hc.gap a g r x y hopen hg hx hb hxy).1
      rw [hopen.find?_eq hflat, Option.map_eq_none_iff] at hfind
      rw [hopen''.find?_eq hflat, Option.map_eq_some_iff] at hs
      obtain ⟨k, hk, -⟩ := hs
      rcases hcases with ⟨-, p, -, rfl, rfl⟩ | ⟨rfl, -⟩
      · -- Inserting balanced text does not close a brace.
        have e := (Brace.partner?_insert hc.balanced 0 p after).trans
          (Brace.partner?_insert hc.free.isBalanced 0 p after).symm
        rw [hk, hfind] at e
        simp at e
      · rw [hk] at hfind
        simp at hfind

end Graft
