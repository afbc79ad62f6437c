import Graft.Scope
import Graft.Text.Line

/-! # Anchors

An anchor is a place where lines can be inserted, together with the indentation they should have.
A `Locator` describes one kind of surroundings, a `Recognizer` gives it a name, and `resolve?` asks
a chain of recognizers in order and takes the first anchor there is.  The place is the start of a
line, the end of the text, or directly before a closing brace that shares its line. -/

namespace Graft

/-- One level of indentation. -/
def indentUnit : Text := [' ', ' ', ' ', ' ']

inductive AnchorKind where
  | fileStart
  | lastImportLine
  | packageDeclaration
  | statementLine
  | superCallLine
  | methodHeader
  | memberDeclaration
  | scopeEnd
  | closingMarker
  deriving DecidableEq, Repr

/-- What a locator finds: a match, and where lines go relative to it. -/
structure Place where
  matchStart : Nat
  matchEnd : Nat
  insertAt : Nat
  indent : Text
  deriving DecidableEq, Repr

namespace Place

/-- The same place seen from `n` characters further left. -/
def shift (p : Place) (n : Nat) : Place :=
  ⟨p.matchStart + n, p.matchEnd + n, p.insertAt + n, p.indent⟩

end Place

/-- Kinds of surroundings. -/
inductive Locator where
  | fileStart
  /-- After the last line that starts with one of the pieces, white space aside. -/
  | lastLineWith (starts : List Text)
  /-- After the first line that starts with one of the pieces, white space aside. -/
  | firstLineWith (starts : List Text)
  /-- After the line in which the first match ends. -/
  | afterLine (p : Pattern)
  /-- Before the line in which the first match starts. -/
  | beforeLine (p : Pattern)
  /-- After the line of the opening brace of a scope. -/
  | scopeStart (header : Pattern)
  /-- After the line of the closing brace of a scope. -/
  | afterScope (header : Pattern)
  /-- Before the closing brace of a scope. -/
  | scopeEnd (header : Pattern)
  /-- Before the last closing brace, if it closes something. -/
  | lastBrace
  /-- What another locator finds inside a scope. -/
  | within (header : Pattern) (inner : Locator)

namespace Scope

/-- Whether only white space stands before the closing brace on its line. -/
def closesOwnLine (s : Scope) (t : Text) : Bool :=
  Text.isBlank (t.slice (t.lineStart s.closeAt) s.closeAt)

/-- The indentation of a new member: that of the last line with something on it, unless that line
is the one of the opening brace, and otherwise one level more than the scope itself. -/
def memberIndent (s : Scope) (t : Text) : Text :=
  let inner := s.inner t
  let fallback :=
    t.indentAt (t.lineStart (if s.closesOwnLine t then s.closeAt else s.headerStart)) ++ indentUnit
  match Text.lastFullLine? inner with
  | none => fallback
  | some line =>
    if inner.contains '\n' && !line.trim.isPrefixOf (inner.dropWhile isIndent) then
      line.leadingIndent
    else fallback

/-- The place before the closing brace. -/
def endPlace (s : Scope) (t : Text) : Place where
  matchStart := s.headerStart
  matchEnd := s.closeAt + 1
  insertAt := if s.closesOwnLine t then t.lineStart s.closeAt else s.closeAt
  indent := s.memberIndent t

end Scope

namespace Locator

/-- Whether a line starts with one of the pieces, white space aside. -/
def startsWithOne (starts : List Text) (line : Text) : Bool :=
  starts.any (·.isPrefixOf line.trimStart)

/-- The pieces of a text, each with the position where it starts. -/
def piecesFrom (start : Nat) : List Text → List (Nat × Text)
  | [] => []
  | p :: ps => (start, p) :: piecesFrom (start + p.length) ps

/-- The place after a line. -/
def afterPiece (start : Nat) (piece : Text) : Place where
  matchStart := start
  matchEnd := start + (piece.dropEndWhile isLineEnd).length
  insertAt := start + piece.length
  indent := piece.leadingIndent

/-- The place that a locator finds in a text. -/
def find? : Locator → Text → Option Place
  | fileStart, _ => some ⟨0, 0, 0, []⟩
  | lastLineWith starts, t =>
    ((piecesFrom 0 t.pieces).reverse.find? fun p => startsWithOne starts p.2).map
      fun p => afterPiece p.1 p.2
  | firstLineWith starts, t =>
    ((piecesFrom 0 t.pieces).find? fun p => startsWithOne starts p.2).map
      fun p => afterPiece p.1 p.2
  | afterLine p, t => (p.find? t).map fun m =>
    let endsLine := (m.text t).getLast? = some '\n'
    ⟨m.start, m.stop, if endsLine then m.stop else t.nextLineStart m.stop,
      t.indentAt (t.lineStart m.start)⟩
  | beforeLine p, t => (p.find? t).map fun m =>
    ⟨m.start, m.stop, t.lineStart m.start, t.indentAt (t.lineStart m.start)⟩
  | scopeStart header, t => (Scope.find? header t).map fun s =>
    ⟨s.headerStart, s.openAt + 1, t.nextLineStart s.openAt, s.memberIndent t⟩
  | afterScope header, t => (Scope.find? header t).map fun s =>
    ⟨s.headerStart, s.closeAt + 1, t.nextLineStart s.closeAt,
      t.indentAt (t.lineStart s.headerStart)⟩
  | scopeEnd header, t => (Scope.find? header t).map fun s => s.endPlace t
  | lastBrace, t => do
    let closeAt ← Text.findLast? ['}'] t
    let openAt ← Brace.openingOf? t closeAt
    return Scope.endPlace ⟨t.lineStart openAt, openAt, closeAt⟩ t
  | within header inner, t => do
    let s ← Scope.find? header t
    let place ← inner.find? (s.inner t)
    return place.shift (s.openAt + 1)

end Locator

/-- A place that a recognizer has found. -/
structure Anchor where
  kind : AnchorKind
  recognizer : String
  place : Place
  deriving DecidableEq, Repr

/-- A named locator. -/
structure Recognizer where
  name : String
  kind : AnchorKind
  locator : Locator

namespace Recognizer

def fileStart (name : String) : Recognizer := ⟨name, .fileStart, .fileStart⟩

def scopeStart (name : String) (header : Pattern) : Recognizer :=
  ⟨name, .methodHeader, .scopeStart header⟩

def afterScope (name : String) (header : Pattern) : Recognizer :=
  ⟨name, .scopeEnd, .afterScope header⟩

def scopeEnd (name : String) (header : Pattern) : Recognizer := ⟨name, .scopeEnd, .scopeEnd header⟩

def lastBrace (name : String) : Recognizer := ⟨name, .scopeEnd, .lastBrace⟩

/-- The recognizer confined to the inside of a scope. -/
def within (r : Recognizer) (header : Pattern) : Recognizer :=
  { r with locator := .within header r.locator }

/-- The anchor that a recognizer finds in a text. -/
def recognize? (r : Recognizer) (t : Text) : Option Anchor :=
  (r.locator.find? t).map fun place => ⟨r.kind, r.name, place⟩

end Recognizer

/-- The anchor of the first recognizer in a chain that finds one. -/
def resolve? (chain : List Recognizer) (t : Text) : Option Anchor :=
  chain.findSome? (·.recognize? t)

end Graft
