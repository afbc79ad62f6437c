import Graft.Proofs.Anchor.Valid
import Graft.Proofs.Text.Offset

/-! # Anchors in bytes

Offsets into the bytes of a text are computed with byte arithmetic: a brace and a newline are one
byte, a line is as many bytes as encode it, and what is found inside a scope moves by the offset
behind the opening brace (`Locator.extent?`).  All of this leads to the offsets of the positions that a
locator finds (`Locator.extent?_eq`), so it never ends inside a character.  `Recognizer.recognize?_valid`
has everything that is known of an anchor. -/

namespace Graft

open Text (byteOffset byteLength lineStartOffset nextLineStartOffset IsBoundary)
open Brace (Matched)

variable {t : Text} {place : Place} {loc : Locator} {s : Scope}

/-- A place in bytes: the offsets of a match, and the one where new lines go. -/
structure Extent where
  matchStart : Nat
  matchEnd : Nat
  insertAt : Nat
  deriving DecidableEq, Repr

namespace Extent

/-- The same extent seen from `n` bytes further left. -/
def shift (e : Extent) (n : Nat) : Extent := ⟨e.matchStart + n, e.matchEnd + n, e.insertAt + n⟩

end Extent

/-- The offsets of a place in the text `t`. -/
def Place.extent (place : Place) (t : Text) : Extent :=
  ⟨byteOffset t place.matchStart, byteOffset t place.matchEnd, byteOffset t place.insertAt⟩

/-- The place before the closing brace, in bytes. -/
def Scope.endExtent (s : Scope) (t : Text) (headerStart : Nat) : Extent where
  matchStart := headerStart
  matchEnd := byteOffset t s.closeAt + 1
  insertAt :=
    if s.closesOwnLine t then lineStartOffset t (byteOffset t s.closeAt) else byteOffset t s.closeAt

namespace Locator

/-- The pieces of a text, each with the offset where it starts. -/
def offsetsFrom (start : Nat) : List Text → List (Nat × Text)
  | [] => []
  | p :: ps => (start, p) :: offsetsFrom (start + byteLength p) ps

def afterPieceExtent (start : Nat) (piece : Text) : Extent where
  matchStart := start
  matchEnd := start + byteLength (piece.dropEndWhile isLineEnd)
  insertAt := start + byteLength piece

/-- What a locator finds, in bytes: a step over a brace is one byte, and what is found inside a scope
moves by the offset behind its opening brace. -/
def extent? : Locator → Text → Option Extent
  | fileStart, _ => some ⟨0, 0, 0⟩
  | lastLineWith starts, t =>
    ((offsetsFrom 0 t.pieces).reverse.find? fun p => startsWithOne starts p.2).map
      fun p => afterPieceExtent p.1 p.2
  | firstLineWith starts, t =>
    ((offsetsFrom 0 t.pieces).find? fun p => startsWithOne starts p.2).map
      fun p => afterPieceExtent p.1 p.2
  | afterLine p, t => (p.find? t).map fun m =>
    let stop := byteOffset t m.stop
    ⟨byteOffset t m.start, stop,
      if (m.text t).getLast? = some '\n' then stop else nextLineStartOffset t stop⟩
  | beforeLine p, t => (p.find? t).map fun m =>
    let start := byteOffset t m.start
    ⟨start, byteOffset t m.stop, lineStartOffset t start⟩
  | scopeStart header, t => (Scope.find? header t).map fun s =>
    let openAt := byteOffset t s.openAt
    ⟨byteOffset t s.headerStart, openAt + 1, nextLineStartOffset t openAt⟩
  | afterScope header, t => (Scope.find? header t).map fun s =>
    let closeAt := byteOffset t s.closeAt
    ⟨byteOffset t s.headerStart, closeAt + 1, nextLineStartOffset t closeAt⟩
  | scopeEnd header, t => (Scope.find? header t).map fun s =>
    s.endExtent t (byteOffset t s.headerStart)
  | lastBrace, t => do
    let closeAt ← Text.findLast? ['}'] t
    let openAt ← Brace.openingOf? t closeAt
    return Scope.endExtent ⟨t.lineStart openAt, openAt, closeAt⟩ t
      (lineStartOffset t (byteOffset t openAt))
  | within header inner, t => do
    let s ← Scope.find? header t
    let e ← inner.extent? (s.inner t)
    return e.shift (byteOffset t s.openAt + 1)

end Locator

/-! ### Bytes and characters -/

namespace Locator

theorem offsetsFrom_eq (a : Text) (ps : List Text) : offsetsFrom (byteLength a) ps =
    (piecesFrom a.length ps).map fun p => (byteOffset (a ++ ps.flatten) p.1, p.2) := by
  induction ps generalizing a with
  | nil => rfl
  | cons p ps ih =>
      have hrest := ih (a ++ p)
      rw [Text.byteLength_append, List.length_append, List.append_assoc] at hrest
      rw [offsetsFrom, piecesFrom, List.map_cons, List.flatten_cons, hrest, Text.byteOffset_append]

theorem offsetsFrom_pieces (t : Text) : offsetsFrom 0 t.pieces =
    (piecesFrom 0 t.pieces).map fun p => (byteOffset t p.1, p.2) := by
  have h := offsetsFrom_eq [] t.pieces
  rwa [List.nil_append, Text.flatten_pieces] at h

theorem afterPieceExtent_eq {p : Nat × Text} (h : p ∈ piecesFrom 0 t.pieces) :
    afterPieceExtent (byteOffset t p.1) p.2 = (afterPiece p.1 p.2).extent t := by
  obtain ⟨n, l⟩ := p
  obtain ⟨x, y, hat, -⟩ := exists_piece_of_mem h
  have hstart : n = x.length := by
    have := hat.insertAt_eq
    simp only [afterPiece, List.length_append] at this
    omega
  have hoffset {u v : Text} (huv : l = u ++ v) :
      byteOffset t (n + u.length) = byteLength x + byteLength u := by
    have ht : t = (x ++ u) ++ (v ++ y) := by simpa [huv] using hat.split
    rw [hstart, ← List.length_append, ht, Text.byteOffset_append, Text.byteLength_append]
  have hzero := hoffset (List.nil_append l).symm
  have hend := hoffset (Text.dropEndWhile_append_takeWhile isLineEnd l).symm
  have hall := hoffset (List.append_nil l).symm
  simp only [List.length_nil, Nat.add_zero, Text.byteLength_nil] at hzero
  simp only [afterPieceExtent, afterPiece, Place.extent, hzero, hend, hall]

/-- The first of some pieces is found at its offset. -/
theorem find?_offsets {ps : List (Nat × Text)} (h : ∀ p ∈ ps, p ∈ piecesFrom 0 t.pieces)
    (starts : List Text) :
    ((ps.map fun p => (byteOffset t p.1, p.2)).find? fun p => startsWithOne starts p.2).map
        (fun p => afterPieceExtent p.1 p.2) =
      ((ps.find? fun p => startsWithOne starts p.2).map fun p => afterPiece p.1 p.2).map
        (·.extent t) := by
  rw [List.find?_map, Option.map_map, Option.map_map]
  refine Option.map_congr fun p hp => ?_
  exact afterPieceExtent_eq (h p (List.mem_of_find?_eq_some hp))

end Locator

/-- A closing brace is one byte, and so is the newline before its line. -/
theorem Scope.endExtent_eq (h : t[s.closeAt]? = some '}') :
    s.endExtent t (byteOffset t s.headerStart) = (s.endPlace t).extent t := by
  have hle : s.closeAt ≤ t.length := Nat.le_of_lt (List.getElem?_eq_some_iff.mp h).1
  unfold endExtent endPlace Place.extent
  rw [Text.lineStartOffset_byteOffset hle, Text.byteOffset_succ h]
  by_cases hown : s.closesOwnLine t
  · simp only [hown, if_true]
    rfl
  · simp only [hown]
    rfl

/-- What is found inside a scope moves by the offset behind the opening brace. -/
theorem Scope.Cuts.extent_shift {a g inner b : Text} (h : s.Cuts t a g inner b)
    (hplace : place.Within 0 inner.length) :
    (place.extent inner).shift (byteOffset t s.openAt + 1) =
      (place.shift (s.openAt + 1)).extent t := by
  have hopen : byteOffset t s.openAt + 1 = byteLength (a ++ g ++ ['{']) := by
    have hbehind : byteOffset t (s.openAt + 1) = byteLength (a ++ g ++ ['{']) := by
      rw [← h.length_before]
      conv => lhs; rw [h.split_inner, List.append_assoc, Text.byteOffset_append]
    rw [← hbehind, Text.byteOffset_succ h.matched.opens]
    rfl
  have hoffset {pos : Nat} (hpos : pos ≤ inner.length) :
      byteOffset t (pos + (s.openAt + 1)) = byteOffset inner pos + (byteOffset t s.openAt + 1) := by
    rw [hopen, ← h.length_before]
    conv => lhs; rw [h.split_inner, List.append_assoc]
    rw [Text.byteOffset_append_length, Text.byteOffset_append_left hpos]
  simp only [Place.extent, Extent.shift, Place.shift,
    hoffset (Nat.le_trans hplace.ordered hplace.le_stop), hoffset hplace.le_stop,
    hoffset hplace.insertAt_le_stop]

namespace Locator

/-- What is computed in bytes is what is found in characters. -/
theorem extent?_eq (loc : Locator) (t : Text) :
    loc.extent? t = (loc.find? t).map (·.extent t) := by
  induction loc generalizing t with
  | fileStart => rfl
  | lastLineWith starts =>
      rw [extent?, find?, offsetsFrom_pieces, ← List.map_reverse]
      exact find?_offsets (fun p hp => List.mem_reverse.mp hp) starts
  | firstLineWith starts =>
      rw [extent?, find?, offsetsFrom_pieces]
      exact find?_offsets (fun p hp => hp) starts
  | afterLine p =>
      rw [extent?, find?, Option.map_map]
      refine Option.map_congr fun m hm => ?_
      have hbounds := Pattern.find?_bounds hm
      simp only [Function.comp_apply, Place.extent, Text.nextLineStartOffset_byteOffset hbounds.2]
      split <;> rfl
  | beforeLine p =>
      rw [extent?, find?, Option.map_map]
      refine Option.map_congr fun m hm => ?_
      have hbounds := Pattern.find?_bounds hm
      have hstart := Nat.le_trans hbounds.1 hbounds.2
      simp only [Function.comp_apply, Place.extent, Text.lineStartOffset_byteOffset hstart]
  | scopeStart header =>
      rw [extent?, find?, Option.map_map]
      refine Option.map_congr fun s hs => ?_
      obtain ⟨-, a, g, inner, b, -, -, hcuts⟩ := Scope.exists_cuts hs
      have hopen := hcuts.matched.opens
      have hle := Nat.le_of_lt (List.getElem?_eq_some_iff.mp hopen).1
      simp only [Function.comp_apply, Place.extent, Text.byteOffset_succ hopen,
        Text.nextLineStartOffset_byteOffset hle]
      rfl
  | afterScope header =>
      rw [extent?, find?, Option.map_map]
      refine Option.map_congr fun s hs => ?_
      obtain ⟨-, a, g, inner, b, -, -, hcuts⟩ := Scope.exists_cuts hs
      have hclose := hcuts.matched.closes
      have hle := Nat.le_of_lt (List.getElem?_eq_some_iff.mp hclose).1
      simp only [Function.comp_apply, Place.extent, Text.byteOffset_succ hclose,
        Text.nextLineStartOffset_byteOffset hle]
      rfl
  | scopeEnd header =>
      rw [extent?, find?, Option.map_map]
      refine Option.map_congr fun s hs => ?_
      obtain ⟨-, a, g, inner, b, -, -, hcuts⟩ := Scope.exists_cuts hs
      exact Scope.endExtent_eq hcuts.matched.closes
  | lastBrace =>
      rw [extent?, find?]
      cases hclose : Text.findLast? ['}'] t with
      | none => rfl
      | some closeAt =>
          obtain ⟨x, b, hsplit, -, hx⟩ := exists_of_textFindLast? hclose
          have hat : t[closeAt]? = some '}' := by
            rw [hsplit, ← hx]
            simp
          cases hopen : Brace.openingOf? t closeAt with
          | none =>
              simp only [Option.bind_eq_bind, Option.bind_some, hopen, Option.bind_none,
                Option.map_none]
          | some openAt =>
              have hmatched := (Brace.openingOf?_eq_some_iff_matched hat).mp hopen
              have hle := Nat.le_of_lt (Nat.lt_trans hmatched.lt hmatched.close_lt)
              simp only [Option.bind_eq_bind, Option.bind_some, hopen, Option.pure_def,
                Option.map_some, Text.lineStartOffset_byteOffset hle]
              exact congrArg some (Scope.endExtent_eq hat)
  | within header inner ih =>
      rw [extent?, find?]
      cases hs : Scope.find? header t with
      | none => rfl
      | some s =>
          obtain ⟨-, a, g, inner', b, -, -, hcuts⟩ := Scope.exists_cuts hs
          simp only [Option.bind_eq_bind, Option.bind_some, ih, hcuts.inner_eq]
          cases hplace : inner.find? inner' with
          | none => rfl
          | some place =>
              exact congrArg some (hcuts.extent_shift (valid_of_find? hplace).within)

end Locator

/-! ### What a recognizer finds -/

/-- Offsets into the text `t`: a stretch of it and a place, all on boundaries of characters. -/
structure Extent.Valid (e : Extent) (t : Text) : Prop where
  ordered : e.matchStart ≤ e.matchEnd
  matchEnd_le : e.matchEnd ≤ byteLength t
  insertAt_le : e.insertAt ≤ byteLength t
  matchStart_boundary : IsBoundary t e.matchStart
  matchEnd_boundary : IsBoundary t e.matchEnd
  insertAt_boundary : IsBoundary t e.insertAt

theorem Place.Valid.extent (h : place.Valid t) : (place.extent t).Valid t where
  ordered := Text.byteOffset_mono h.within.ordered t
  matchEnd_le := Text.byteOffset_le t _
  insertAt_le := Text.byteOffset_le t _
  matchStart_boundary := Text.isBoundary_byteOffset t _
  matchEnd_boundary := Text.isBoundary_byteOffset t _
  insertAt_boundary := Text.isBoundary_byteOffset t _

/-- What a recognizer finds is a stretch of the text and a break of it, also where it is computed in
bytes, and stays in the scopes that the recognizer is confined to; lines for the end of a scope come
in before its closing brace and behind its opening one. -/
theorem Recognizer.recognize?_valid {r : Recognizer} {anchor : Anchor}
    (h : r.recognize? t = some anchor) :
    anchor.place.Valid t ∧
      r.locator.extent? t = some (anchor.place.extent t) ∧ (anchor.place.extent t).Valid t ∧
      (r.locator.headers ≠ [] → ∃ s, Scope.reach? r.locator.headers t = some s ∧
        Matched t s.openAt s.closeAt ∧ anchor.place.Within (s.openAt + 1) s.closeAt) ∧
      (r.locator.EndsScope → ∃ s, r.locator.ownScope? t = some s ∧
        Matched t s.openAt s.closeAt ∧ s.openAt < anchor.place.insertAt ∧
        anchor.place.insertAt ≤ s.closeAt) := by
  obtain ⟨place, hplace, rfl⟩ := Option.map_eq_some_iff.mp h
  have hvalid := Locator.valid_of_find? hplace
  refine ⟨hvalid, ?_, hvalid.extent, fun hl => Locator.within_of_find? hl hplace,
    fun hend => Locator.inside_of_find? hend hplace⟩
  rw [Locator.extent?_eq, hplace, Option.map_some]

/-- Scopes in scopes, behind a character of several bytes. -/
def nestedScopes : Text :=
  "é \x7b f() \x7b\n  g() \x7b x \x7b y\n \x7d \x7d\n\x7d \x7d".toList

def nestedRecognizer : Recognizer :=
  ((Recognizer.scopeEnd "end" (.lit "x")).within (.lit "g()")).within (.lit "f()")

theorem Recognizer.recognize?_valid_nestedScopes :
    ∃ anchor, nestedRecognizer.recognize? nestedScopes = some anchor ∧
      anchor.place.Valid nestedScopes ∧
      nestedRecognizer.locator.extent? nestedScopes = some ⟨19, 27, 25⟩ ∧
      (⟨19, 27, 25⟩ : Extent).Valid nestedScopes ∧ anchor.place.Within 17 27 ∧
      20 < anchor.place.insertAt ∧ anchor.place.insertAt ≤ 25 := by
  have hrec : nestedRecognizer.recognize? nestedScopes =
      some ⟨.scopeEnd, "end", ⟨18, 26, 24, ' ' :: indentUnit⟩⟩ := by decide +kernel
  have hextent : Place.extent ⟨18, 26, 24, ' ' :: indentUnit⟩ nestedScopes = ⟨19, 27, 25⟩ := by
    decide +kernel
  have hreach : Scope.reach? nestedRecognizer.locator.headers nestedScopes = some ⟨12, 16, 27⟩ := by
    decide +kernel
  have hown : nestedRecognizer.locator.ownScope? nestedScopes = some ⟨18, 20, 25⟩ := by
    decide +kernel
  obtain ⟨hvalid, hbytes, hbytesValid, hwithin, hinside⟩ := recognize?_valid hrec
  obtain ⟨s, hs, -, hbounds⟩ := hwithin (List.cons_ne_nil _ _)
  obtain ⟨own, hs', -, hlt, hle⟩ := hinside trivial
  obtain rfl := Option.some.inj (hreach.symm.trans hs)
  obtain rfl := Option.some.inj (hown.symm.trans hs')
  rw [hextent] at hbytes hbytesValid
  exact ⟨_, hrec, hvalid, hbytes, hbytesValid, hbounds, hlt, hle⟩

end Graft
