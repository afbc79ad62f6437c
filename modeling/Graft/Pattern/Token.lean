import Graft.Pattern.Basic

/-! # Tokens of a pattern

The text of a pattern is first cut into tokens: characters and sets, assertions, brackets, flags
and repetitions.  `Token.ofText` cuts; what a token means together with its neighbours is left to
`Graft.Pattern.Reader`. -/

namespace Graft

/-- What can be wrong with the text of a pattern. -/
inductive PatternFault where
  | unclosedGroup
  | unopenedGroup
  | unknownGroup
  | nothingToRepeat
  | badCount
  | unclosedSet
  | badSet
  | badEscape
  | tooDeep
  | tooLarge
  deriving DecidableEq, Repr

namespace Pattern

/-- The settings a pattern can change: whether `^` and `$` hold at lines, and whether a dot matches
a newline. -/
structure Flags where
  multiLine : Bool
  dotAll : Bool
  deriving DecidableEq, Repr

inductive Token where
  | set (s : CharSet)
  /-- A set that is written in brackets. -/
  | bracketed (s : CharSet)
  | dot
  | caret
  | dollar
  | assert (a : Assertion)
  | bar
  /-- The start of a group that records what it matches. -/
  | capture (name : Text)
  /-- The start of a group that only binds, with the flags it sets. -/
  | bind (change : Flags → Flags)
  | close
  /-- A change of flags for the rest of the group. -/
  | flags (change : Flags → Flags)
  | rounds (low : Nat) (high : Option Nat) (greedy : Bool)

namespace Token

/-- Characters that an escape turns into themselves. -/
def isEscapable (c : Char) : Bool :=
  c.toNat < 128 && !c.isAlphanum && c != '<' && c != '>'

/-- What an escape stands for in any place: a character or a class. -/
def escape? (c : Char) : Option (Char ⊕ SetItem) :=
  match c with
  | 'a' => some (.inl '\x07')
  | 'f' => some (.inl '\x0C')
  | 't' => some (.inl '\t')
  | 'n' => some (.inl '\n')
  | 'r' => some (.inl '\r')
  | 'v' => some (.inl '\x0B')
  | 'd' => some (.inr (.named .digit false))
  | 'D' => some (.inr (.named .digit true))
  | 's' => some (.inr (.named .space false))
  | 'S' => some (.inr (.named .space true))
  | 'w' => some (.inr (.named .word false))
  | 'W' => some (.inr (.named .word true))
  | c => if isEscapable c then some (.inl c) else none

/-- The assertion that an escape stands for. -/
def assertion? (c : Char) : Option Assertion :=
  match c with
  | 'A' => some .textStart
  | 'z' => some .textEnd
  | 'b' => some .boundary
  | 'B' => some .noBoundary
  | '<' => some .wordStart
  | '>' => some .wordEnd
  | _ => none

/-- The character whose number the hexadecimal digits write. -/
def hexChar? (digits : Text) : Option Char := do
  if digits.isEmpty then none
  let n ← digits.foldlM (fun n c => return n * 16 + (← hexValue? c)) 0
  if h : n.isValidChar then some (Char.ofNatAux n h) else none

/-- An escape by number, after its letter: braces around the digits, or a fixed count of them. -/
def hexEscape (count : Nat) : Text → Except PatternFault (Char × Text)
  | '{' :: t =>
    match hexChar? (t.takeWhile (· ≠ '}')), t.dropWhile (· ≠ '}') with
    | some c, _ :: rest => .ok (c, rest)
    | _, _ => .error .badEscape
  | t =>
    match hexChar? (t.take count) with
    | some c => if t.length < count then .error .badEscape else .ok (c, t.drop count)
    | none => .error .badEscape

/-- What follows a backslash, where a character or class is wanted. -/
def escaped : Text → Except PatternFault ((Char ⊕ SetItem) × Text)
  | [] => .error .badEscape
  | 'x' :: t => return (.inl (← hexEscape 2 t).1, (← hexEscape 2 t).2)
  | 'u' :: t => return (.inl (← hexEscape 4 t).1, (← hexEscape 4 t).2)
  | 'U' :: t => return (.inl (← hexEscape 8 t).1, (← hexEscape 8 t).2)
  | c :: t =>
    match escape? c with
    | some e => .ok (e, t)
    | none => .error .badEscape

/-! ### Sets -/

/-- The next single entry of a set. -/
def setAtom : Text → Except PatternFault ((Char ⊕ SetItem) × Text)
  | [] => .error .unclosedSet
  | '\\' :: t => escaped t
  | '[' :: _ => .error .badSet
  | c :: t => .ok (.inl c, t)

/-- Whether two characters in a row join sets, which this dialect does not do. -/
def isSetOperator (t : Text) : Bool :=
  ['&', '&'].isPrefixOf t || ['-', '-'].isPrefixOf t || ['~', '~'].isPrefixOf t

/-- The entries of a set up to its closing bracket, and what follows; the first argument bounds
their number. -/
def setItems : Nat → List SetItem → Text → Except PatternFault (List SetItem × Text)
  | 0, _, _ => .error .unclosedSet
  | _, _, [] => .error .unclosedSet
  | _, items, ']' :: t => .ok (items.reverse, t)
  | n + 1, items, t => do
    if isSetOperator t then throw .badSet
    let (first, rest) ← setAtom t
    match first, rest with
    | .inr item, '-' :: c :: rest =>
      if c = ']' then setItems n (.range '-' '-' :: item :: items) (c :: rest) else throw .badSet
    | .inr item, rest => setItems n (item :: items) rest
    | .inl low, '-' :: c :: more =>
      if c = ']' || c = '-' then setItems n (.range low low :: items) rest
      else
        let (last, rest) ← setAtom (c :: more)
        match last with
        | .inr _ => throw .badSet
        | .inl high =>
          if low ≤ high then setItems n (.range low high :: items) rest else throw .badSet
    | .inl c, rest => setItems n (.range c c :: items) rest

/-- A set after its opening bracket.  Dashes, or else one closing bracket, stand for themselves at
the start. -/
def charSet (t : Text) : Except PatternFault (CharSet × Text) := do
  let negated := t.head? = some '^'
  let t := if negated then t.drop 1 else t
  let dashes := (t.takeWhile (· = '-')).map fun c => SetItem.range c c
  let t := t.dropWhile (· = '-')
  let (items, rest) ←
    match dashes, t with
    | [], ']' :: t => setItems t.length [.range ']' ']'] t
    | _, t => setItems (t.length + 1) dashes t
  return (⟨negated, items⟩, rest)

/-! ### Groups -/

/-- The change that a list of flag letters asks for; a minus sign turns those after it off. -/
def flagChange? : Bool → Text → Option (Flags → Flags)
  | _, [] => some id
  | on, 'm' :: t => (flagChange? on t).map fun f g => f { g with multiLine := on }
  | on, 's' :: t => (flagChange? on t).map fun f g => f { g with dotAll := on }
  | true, '-' :: t => if t.isEmpty then none else flagChange? false t
  | _, _ => none

/-- Whether a text can name a group. -/
def isGroupName (t : Text) : Bool :=
  match t with
  | [] => false
  | c :: t => (c == '_' || isLetter c) &&
    t.all fun c => isAlphanumeric c || c == '_' || c == '.' || c == '[' || c == ']'

/-- A group that is named, after the opening angle bracket. -/
def namedGroup (t : Text) : Except PatternFault (Token × Text) :=
  let name := t.takeWhile (· ≠ '>')
  match t.dropWhile (· ≠ '>') with
  | _ :: rest => if isGroupName name then .ok (.capture name, rest) else .error .unknownGroup
  | [] => .error .unknownGroup

/-- What follows an opening bracket. -/
def group : Text → Except PatternFault (Token × Text)
  | '?' :: 'P' :: '<' :: t => namedGroup t
  | '?' :: '<' :: t => namedGroup t
  | '?' :: t =>
    let isFlag (c : Char) := c ≠ ':' && c ≠ ')'
    match flagChange? true (t.takeWhile isFlag), t.dropWhile isFlag with
    | some change, ':' :: rest => .ok (.bind change, rest)
    | some change, ')' :: rest =>
      if (t.takeWhile isFlag).isEmpty then .error .nothingToRepeat else .ok (.flags change, rest)
    | _, _ => .error .unknownGroup
  | t => .ok (.capture [], t)

/-! ### Repetitions -/

/-- The greatest number of rounds that a pattern can write. -/
def maxCount : Nat := Nat.pow 2 32 - 1

/-- A number with white space around it, and what follows. -/
def count (t : Text) : Except PatternFault (Nat × Text) := do
  let t := Text.trimStart t
  let digits := t.takeWhile Char.isDigit
  if digits.isEmpty then throw .badCount
  let n := digits.foldl (fun n c => n * 10 + digitValue c) 0
  if maxCount < n then throw .badCount
  return (n, Text.trimStart (t.dropWhile Char.isDigit))

/-- The bounds of a counted repetition, after its opening brace. -/
def bounds (t : Text) : Except PatternFault ((Nat × Option Nat) × Text) := do
  let (low, rest) ← count t
  match rest with
  | '}' :: rest => return ((low, some low), rest)
  | ',' :: '}' :: rest => return ((low, none), rest)
  | ',' :: rest =>
    let (high, rest) ← count rest
    match rest with
    | '}' :: rest => if low ≤ high then return ((low, some high), rest) else throw .badCount
    | _ => throw .badCount
  | _ => throw .badCount

/-- A repetition with the given bounds; a question mark after it makes it reluctant. -/
def repetition (low : Nat) (high : Option Nat) : Text → Token × Text
  | '?' :: t => (.rounds low high false, t)
  | t => (.rounds low high true, t)

/-! ### The whole text -/

/-- The token that starts with `c`, and what follows it. -/
def next (c : Char) (t : Text) : Except PatternFault (Token × Text) := do
  match c with
  | '.' => return (.dot, t)
  | '^' => return (.caret, t)
  | '$' => return (.dollar, t)
  | '|' => return (.bar, t)
  | ')' => return (.close, t)
  | '(' => group t
  | '*' => return repetition 0 none t
  | '+' => return repetition 1 none t
  | '?' => return repetition 0 (some 1) t
  | '{' =>
    let ((low, high), rest) ← bounds t
    return repetition low high rest
  | '[' =>
    let (s, rest) ← charSet t
    return (.bracketed s, rest)
  | '\\' =>
    match t.head?.bind assertion? with
    | some a => return (.assert a, t.drop 1)
    | none =>
      let (e, rest) ← escaped t
      match e with
      | .inl c => return (.set (.single c), rest)
      | .inr item => return (.set ⟨false, [item]⟩, rest)
  | c => return (.set (.single c), t)

/-- The tokens of a text; the first argument bounds their number. -/
def scan : Nat → Text → Except PatternFault (List Token)
  | 0, _ => return []
  | _, [] => return []
  | n + 1, c :: t => do
    let (token, rest) ← next c t
    return token :: (← scan n rest)

/-- The tokens of the text of a pattern. -/
def ofText (t : Text) : Except PatternFault (List Token) := scan t.length t

end Token

end Pattern

end Graft
