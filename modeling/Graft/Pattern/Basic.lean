import Graft.Text.Basic

/-! # Patterns

Regular expressions with capture groups, anchors and word boundaries.  A choice prefers its left
side and a repetition says whether it prefers another round or the end, so a pattern fixes not only
which texts match but which match is found.  Patterns in this library are written with `lit`,
`blanks`, `++` and the constructors; `Graft.Pattern.Reader` reads them from text. -/

namespace Graft

/-- The named classes of characters. -/
inductive CharClass where
  | digit
  | space
  | word
  deriving DecidableEq, Repr

namespace CharClass

def has : CharClass → Char → Bool
  | digit, c => isPatternDigit c
  | space, c => isBlank c
  | word, c => isWordChar c

end CharClass

/-- One entry of a character set. -/
inductive SetItem where
  | range (low high : Char)
  | named (cls : CharClass) (negated : Bool)
  deriving DecidableEq, Repr

namespace SetItem

def has : SetItem → Char → Bool
  | range low high, c => low ≤ c && c ≤ high
  | named cls negated, c => cls.has c != negated

end SetItem

/-- The characters of some entries, or all others. -/
structure CharSet where
  negated : Bool
  items : List SetItem
  deriving DecidableEq, Repr

namespace CharSet

def has (s : CharSet) (c : Char) : Bool := s.items.any (·.has c) != s.negated

/-- A single character. -/
def single (c : Char) : CharSet := ⟨false, [.range c c]⟩

/-- The characters of a list. -/
def oneOf (cs : List Char) : CharSet := ⟨false, cs.map fun c => .range c c⟩

/-- Every character that is not in a list. -/
def noneOf (cs : List Char) : CharSet := ⟨true, cs.map fun c => .range c c⟩

def all : CharSet := ⟨true, []⟩

end CharSet

/-- Conditions on a place between two characters. -/
inductive Assertion where
  | textStart
  | textEnd
  | lineStart
  | lineEnd
  | boundary
  | noBoundary
  | wordStart
  | wordEnd
  deriving DecidableEq, Repr

/-- A regular expression. -/
inductive Pattern where
  | empty
  | set (s : CharSet)
  | assert (a : Assertion)
  | seq (first second : Pattern)
  | alt (preferred other : Pattern)
  /-- A number of rounds. -/
  | copies (count : Nat) (body : Pattern)
  /-- Up to a number of rounds; here and below, `greedy` prefers a further round to the end. -/
  | upTo (count : Nat) (greedy : Bool) (body : Pattern)
  /-- Any number of rounds of a body that takes at least one character. -/
  | star (greedy : Bool) (body : Pattern)
  /-- One round or more. -/
  | plus (greedy : Bool) (body : Pattern)
  | group (index : Nat) (body : Pattern)
  deriving DecidableEq, Repr

namespace Pattern

instance : Append Pattern := ⟨seq⟩

instance : Inhabited Pattern := ⟨empty⟩

/-- The characters of a text, each standing for itself. -/
def ofText : Text → Pattern
  | [] => empty
  | c :: t => seq (set (.single c)) (ofText t)

/-- The characters of a string, each standing for itself. -/
def lit (s : String) : Pattern := ofText s.toList

/-! ### Building from parts -/

/-- The patterns of a list one after the other. -/
def seqs : List Pattern → Pattern
  | [] => empty
  | [p] => p
  | p :: ps => seq p (seqs ps)

/-- The patterns of a list, earlier ones preferred. -/
def alts : List Pattern → Pattern
  | [] => empty
  | [p] => p
  | p :: ps => alt p (alts ps)

/-- The patterns that a pattern puts one after the other. -/
def parts : Pattern → List Pattern
  | empty => []
  | seq p q => p.parts ++ q.parts
  | p => [p]

/-- The patterns that a pattern chooses from. -/
def branches : Pattern → List Pattern
  | alt p q => p.branches ++ q.branches
  | p => [p]

/-- The patterns of a list one after the other, those that are sequences themselves taken apart. -/
def concat (ps : List Pattern) : Pattern := seqs (ps.flatMap parts)

/-- What two lists have in common at their start. -/
def commonPrefix : List Pattern → List Pattern → List Pattern
  | p :: ps, q :: qs => if p = q then p :: commonPrefix ps qs else []
  | _, _ => []

/-- Whether a pattern is a sequence, and not just of fixed characters. -/
def isSequence (p : Pattern) : Bool :=
  2 ≤ p.parts.length && p.parts.any fun
    | set ⟨false, [.range low high]⟩ => low != high
    | _ => true

/-- A choice from a list, earlier patterns preferred.  Sequences that all start with the same parts
share them: the parts come first, and what follows them is chosen afterwards. -/
def choice (ps : List Pattern) : Pattern :=
  let bs := ps.flatMap branches
  let shared := (bs.drop 1).foldl (fun ps b => commonPrefix ps b.parts) (bs.headD empty).parts
  if 2 ≤ bs.length && bs.all isSequence && !shared.isEmpty then
    let ends := bs.map fun b => seqs (b.parts.drop shared.length)
    seqs (shared ++ [alts (ends.flatMap branches)])
  else alts bs

/-! ### Repetitions -/

/-- Whether a pattern cannot take any character. -/
def takesNothing : Pattern → Bool
  | empty | assert _ => true
  | set _ => false
  | seq p q | alt p q => p.takesNothing && q.takesNothing
  | copies _ p | upTo _ _ p | star _ p | plus _ p | group _ p => p.takesNothing

/-- Whether a pattern can match without taking a character. -/
def canBeEmpty : Pattern → Bool
  | empty | assert _ | upTo .. | star .. => true
  | set _ => false
  | seq p q => p.canBeEmpty && q.canBeEmpty
  | alt p q => p.canBeEmpty || q.canBeEmpty
  | copies _ p | plus _ p | group _ p => p.canBeEmpty

/-- Two patterns one after the other that count as one part. -/
def joined (p q : Pattern) : Pattern := copies 1 (seq p q)

/-- At least `low` rounds of a body, without an upper bound. -/
def atLeast (greedy : Bool) (body : Pattern) : Nat → Pattern
  | 0 => if body.canBeEmpty then upTo 1 greedy (plus greedy body) else star greedy body
  | 1 => plus greedy body
  | n + 1 => joined (copies n body) (plus greedy body)

/-- At least `low` rounds of a body, and at most `high`. -/
def between (low high : Nat) (greedy : Bool) (body : Pattern) : Pattern :=
  if high = 0 then empty
  else if low = 0 then upTo high greedy body
  else if low < high then joined (copies low body) (upTo (high - low) greedy body)
  else if low = 1 then body
  else copies low body

/-- At least `low` rounds, and at most `high` if that is given.  A second round adds nothing to one
that takes no character. -/
def rounds (low : Nat) (high : Option Nat) (greedy : Bool) (body : Pattern) : Pattern :=
  if body.takesNothing then between (min low 1) (min (high.getD 1) 1) greedy body
  else
    match high with
    | some high => between low high greedy body
    | none => atLeast greedy body low

/-! ### Common parts -/

/-- A run of white space, possibly empty. -/
def blanks : Pattern := star true (set ⟨false, [.named .space false]⟩)

/-- A run of white space with at least one character. -/
def blanks1 : Pattern := plus true (set ⟨false, [.named .space false]⟩)

/-- A run of spaces and tabs, possibly empty. -/
def indent : Pattern := star true (set (.oneOf [' ', '\t']))

/-- The rest of a line. -/
def restOfLine : Pattern := star true (set (.noneOf ['\n']))

end Pattern

end Graft
