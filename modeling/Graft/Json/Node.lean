import Graft.Json.Scalar

/-! # JSON texts as trees

A node is what a JSON text holds as far as it can be read.  Where reading cannot go on the tree
breaks off, and it says there what is wrong.  That can depend on whether the value is used or passed
over, so broken places, numbers, strings and keys keep both answers.  `Node.ofText` reads a whole
text; nothing here knows what shape is wanted. -/

namespace Graft.Json

/-- How a list or an object ends. -/
inductive Tail where
  | closed
  /-- What follows is neither a comma nor the end. -/
  | stopped (f : Fault)
  /-- The next part is due, and what stands there does not start one. -/
  | badNext (used skipped : Fault)
  deriving DecidableEq, Repr

inductive Node where
  | null
  | boolean (b : Bool)
  | number (value : Except Fault Number)
  | string (value : Except Fault Text)
  | array (items : List Node) (tail : Tail)
  /-- Each member has a key and a value. -/
  | object (members : List (Except Fault Text × Node)) (tail : Tail)
  | broken (used skipped : Fault)

namespace Tail

/-- What is wrong with the end when the whole is used. -/
def fault? : Tail → Option Fault
  | closed => none
  | stopped f => some f
  | badNext used _ => some used

/-- What is wrong with the end when the whole is passed over. -/
def skipFault? : Tail → Option Fault
  | closed => none
  | stopped f => some f
  | badNext _ skipped => some skipped

/-- What is wrong with the end of a list that should not go on. -/
def endFault? : Tail → Option Fault
  | closed => none
  | stopped f => some f
  | badNext _ _ => some .malformed

end Tail

namespace Node

mutual

/-- What is wrong with a value that is passed over. -/
def skipFault? : Node → Option Fault
  | null => none
  | boolean _ => none
  | number _ => none
  | string _ => none
  | array items tail => (skipItems? items).orElse fun _ => tail.skipFault?
  | object members tail => (skipMembers? members).orElse fun _ => tail.skipFault?
  | broken _ skipped => some skipped

/-- The first fault in some items that are passed over. -/
def skipItems? : List Node → Option Fault
  | [] => none
  | n :: ns => (skipFault? n).orElse fun _ => skipItems? ns

/-- The first fault in some members that are passed over. -/
def skipMembers? : List (Except Fault Text × Node) → Option Fault
  | [] => none
  | m :: ms => (skipFault? m.2).orElse fun _ => skipMembers? ms

end

/-- The node of a fault that does not depend on use. -/
def fault (f : Fault) : Node := broken f f

/-- Whether reading cannot go on after the node. -/
def isBroken : Node → Bool
  | broken _ _ => true
  | array _ tail => tail ≠ .closed
  | object _ tail => tail ≠ .closed
  | _ => false

/-- A fixed word, or what is wrong with it. -/
def ofWord (w : List Char) (n : Node) (t : Text) : Node × Text :=
  match word w t with
  | .ok rest => (n, rest)
  | .error f => (fault f, [])

def ofNumber (t : Text) : Node × Text :=
  match skipNumber t with
  | some rest => (number ((readNumber t).map (·.1)), rest)
  | none =>
    match readNumber t with
    | .ok _ => (fault .malformed, [])
    | .error used => (broken used .malformed, [])

/-- A string after its opening quote. -/
def ofString (t : Text) : Node × Text :=
  match skipString t with
  | .ok rest => (string ((readString t).map (·.1)), rest)
  | .error skipped =>
    match readString t with
    | .ok _ => (fault skipped, [])
    | .error used => (broken used skipped, [])

mutual

/-- Reads a value; the first argument bounds the depth and length of what is read. -/
def read : Nat → Text → Node × Text
  | 0, _ => (fault .truncated, [])
  | fuel + 1, t =>
    match skipSpace t with
    | [] => (fault .truncated, [])
    | c :: t =>
      if c = 'n' then ofWord ['u', 'l', 'l'] null t
      else if c = 't' then ofWord ['r', 'u', 'e'] (boolean true) t
      else if c = 'f' then ofWord ['a', 'l', 's', 'e'] (boolean false) t
      else if c = '"' then ofString t
      else if c = '-' || c.isDigit then ofNumber (c :: t)
      else if c = '[' then
        match skipSpace t with
        | ']' :: rest => (array [] .closed, rest)
        | [] => (array [] (.stopped .truncated), [])
        | t =>
          let (items, tail, rest) := readItems fuel t
          (array items tail, rest)
      else if c = '{' then
        match skipSpace t with
        | '}' :: rest => (object [] .closed, rest)
        | t =>
          let (members, tail, rest) := readMembers fuel t
          (object members tail, rest)
      else (fault .malformed, [])

/-- Reads the items of a list, from an item on.  After a broken item the list stops; the fault of
the item is met first. -/
def readItems : Nat → Text → List Node × Tail × Text
  | 0, _ => ([], .stopped .truncated, [])
  | fuel + 1, t =>
    let (item, rest) := read fuel t
    if item.isBroken then ([item], .stopped .truncated, [])
    else
      match skipSpace rest with
      | ']' :: rest => ([item], .closed, rest)
      | ',' :: rest =>
        match skipSpace rest with
        | [] => ([item], .badNext .truncated .truncated, [])
        | ']' :: _ => ([item], .badNext .malformed .malformed, [])
        | t =>
          let (items, tail, rest) := readItems fuel t
          (item :: items, tail, rest)
      | rest => ([item], .stopped (unexpected rest), [])

/-- Reads the members of an object, from a key on. -/
def readMembers : Nat → Text → List (Except Fault Text × Node) × Tail × Text
  | 0, _ => ([], .stopped .truncated, [])
  | fuel + 1, t =>
    match t with
    | '"' :: t =>
      match skipString t with
      | .error skipped =>
        match readString t with
        | .ok _ => ([], .stopped skipped, [])
        | .error used => ([], .badNext used skipped, [])
      | .ok rest =>
        let key := (readString t).map (·.1)
        match skipSpace rest with
        | ':' :: rest =>
          let (value, rest) := read fuel rest
          if value.isBroken then ([(key, value)], .stopped .truncated, [])
          else
            match skipSpace rest with
            | '}' :: rest => ([(key, value)], .closed, rest)
            | ',' :: rest =>
              let (members, tail, rest) := readMembers fuel (skipSpace rest)
              ((key, value) :: members, tail, rest)
            | rest => ([(key, value)], .stopped (unexpected rest), [])
        | rest => ([(key, fault (unexpected rest))], .stopped .truncated, [])
    | t => ([], .stopped (unexpected t), [])

end

/-- The value of a whole text, and what follows it. -/
def ofText (t : Text) : Node × Text := read (2 * t.length + 2) t

end Node

end Graft.Json
