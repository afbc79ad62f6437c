import Graft.Json.Fault
import Graft.Text.Offset

/-! # Numbers and strings in JSON

Two ways to read each: the strict one gives the value, the lenient one only finds the end.  They
differ where a text is well formed but stands for nothing: in numbers out of range and in halves of
surrogate pairs. -/

namespace Graft.Json

/-- White space between the parts of a JSON text. -/
def isSpace (c : Char) : Bool := c = ' ' || c = '\n' || c = '\t' || c = '\r'

def skipSpace (t : Text) : Text := t.dropWhile isSpace

/-- The fault of a text in which something else should follow. -/
def unexpected (t : Text) : Fault := if t.isEmpty then .truncated else .malformed

/-- Steps over a fixed word. -/
def word : List Char → Text → Except Fault Text
  | [], t => .ok t
  | _ :: _, [] => .error .truncated
  | c :: cs, d :: t => if c = d then word cs t else .error .malformed

/-! ### Numbers -/

/-- The greatest significand that is kept exactly. -/
def maxSignificand : Nat := Nat.pow 2 64 - 1

/-- The greatest exponent that is read. -/
def maxExponent : Nat := Nat.pow 2 31 - 1

/-- Appends digits to a significand until it would become too large; the second part counts the
digits that were left out. -/
def appendDigits : Nat → Text → Nat × Nat
  | s, [] => (s, 0)
  | s, c :: t =>
    let s' := s * 10 + digitValue c
    if maxSignificand < s' then (s, t.length + 1) else appendDigits s' t

/-- The float with the given parts. -/
def float (negative : Bool) (significand : Nat) (exponent : Int) (rest : Text) :
    Except Fault (Number × Text) :=
  match Double.ofParts? 4 (.ofNat significand) exponent with
  | some x => .ok (.float negative x, rest)
  | none => .error .malformed

/-- Reads an exponent, after its letter. -/
def readExponent (negative : Bool) (significand : Nat) (exponent : Int) (t : Text) :
    Except Fault (Number × Text) :=
  let (down, t) : Bool × Text :=
    match t with
    | '+' :: t => (false, t)
    | '-' :: t => (true, t)
    | t => (false, t)
  let digits := t.takeWhile Char.isDigit
  let rest := t.dropWhile Char.isDigit
  if digits.isEmpty then .error (unexpected t)
  else
    let e := digits.foldl (fun n c => n * 10 + digitValue c) 0
    if maxExponent < e then
      if significand ≠ 0 && !down then .error .malformed else .ok (.float negative .zero, rest)
    else float negative significand (if down then exponent - e else exponent + e) rest

/-- Reads the fraction of a number, after the point. -/
def readFraction (negative : Bool) (significand : Nat) (exponent : Int) (t : Text) :
    Except Fault (Number × Text) :=
  let digits := t.takeWhile Char.isDigit
  let rest := t.dropWhile Char.isDigit
  if digits.isEmpty then .error (unexpected t)
  else
    let (s, dropped) := appendDigits significand digits
    let e := exponent - (digits.length - dropped : Nat)
    match rest with
    | 'e' :: rest => readExponent negative s e rest
    | 'E' :: rest => readExponent negative s e rest
    | _ => float negative s e rest

/-- A whole number; one out of range is a float, and so is zero with a sign. -/
def integer (negative : Bool) (n : Nat) (rest : Text) : Except Fault (Number × Text) :=
  if !negative then .ok (.integer n, rest)
  else if n = 0 || Nat.pow 2 63 < n then .ok (.float true (.ofNat n), rest)
  else .ok (.integer (-n), rest)

/-- Reads a number, after its sign. -/
def readUnsigned (negative : Bool) (t : Text) : Except Fault (Number × Text) :=
  let digits := t.takeWhile Char.isDigit
  let rest := t.dropWhile Char.isDigit
  if digits.isEmpty then .error (unexpected t)
  else if digits.head? = some '0' && 1 < digits.length then .error .malformed
  else
    let (s, dropped) := appendDigits 0 digits
    match rest with
    | '.' :: rest => readFraction negative s dropped rest
    | 'e' :: rest => readExponent negative s dropped rest
    | 'E' :: rest => readExponent negative s dropped rest
    | _ => if dropped = 0 then integer negative s rest else float negative s dropped rest

/-- Reads a number. -/
def readNumber (t : Text) : Except Fault (Number × Text) :=
  match t with
  | '-' :: t => readUnsigned true t
  | t => readUnsigned false t

/-- Steps over digits, of which there has to be one. -/
def skipDigits (t : Text) : Option Text :=
  if t.head?.any Char.isDigit then some (t.dropWhile Char.isDigit) else none

/-- Steps over the exponent of a number, if there is one. -/
def skipExponent (t : Text) : Option Text :=
  match t with
  | c :: t =>
    if c = 'e' || c = 'E' then
      match t with
      | '+' :: t => skipDigits t
      | '-' :: t => skipDigits t
      | t => skipDigits t
    else some (c :: t)
  | [] => some []

/-- Steps over a number.  One that does not end well is malformed even at the end of the text. -/
def skipNumber (t : Text) : Option Text := do
  let t := if t.head? = some '-' then t.drop 1 else t
  let rest ← if t.head? = some '0' then some (t.drop 1) else skipDigits t
  if t.head? = some '0' && rest.head?.any Char.isDigit then none
  let rest ←
    match rest with
    | '.' :: rest => skipDigits rest
    | rest => some rest
  skipExponent rest

/-! ### Strings -/

/-- Four hexadecimal digits. -/
def readUnit (t : Text) : Except Fault (Nat × Text) :=
  let value := (t.take 4).foldlM (fun n c => (hexValue? c).map (n * 16 + ·)) 0
  match value with
  | some n => if t.length < 4 then .error .truncated else .ok (n, t.drop 4)
  | none => .error (if t.byteLength < 4 then .truncated else .malformed)

/-- The character that a simple escape stands for. -/
def simpleEscape? (c : Char) : Option Char :=
  match c with
  | '"' => some '"'
  | '\\' => some '\\'
  | '/' => some '/'
  | 'b' => some '\x08'
  | 'f' => some '\x0C'
  | 'n' => some '\n'
  | 'r' => some '\r'
  | 't' => some '\t'
  | _ => none

def isLeading (n : Nat) : Bool := 0xD800 ≤ n && n < 0xDC00

def isTrailing (n : Nat) : Bool := 0xDC00 ≤ n && n < 0xE000

/-- The character of a code unit, or of a pair whose second half has to follow. -/
def readPair (n : Nat) (t : Text) : Except Fault (Char × Text) :=
  if isTrailing n then .error .malformed
  else if isLeading n then
    match t with
    | '\\' :: 'u' :: t => do
      let (m, rest) ← readUnit t
      if isTrailing m then
        return (Char.ofNat (0x10000 + (n - 0xD800) * 0x400 + (m - 0xDC00)), rest)
      else throw .malformed
    | [] => .error .truncated
    | ['\\'] => .error .truncated
    | _ => .error .malformed
  else .ok (Char.ofNat n, t)

/-- Reads an escape, after the backslash. -/
def readEscape (t : Text) : Except Fault (Char × Text) :=
  match t with
  | [] => .error .truncated
  | 'u' :: t => do
    let (n, rest) ← readUnit t
    readPair n rest
  | c :: t =>
    match simpleEscape? c with
    | some d => .ok (d, t)
    | none => .error .malformed

/-- Steps over an escape, after the backslash. -/
def skipEscape (t : Text) : Except Fault Text :=
  match t with
  | [] => .error .truncated
  | 'u' :: t => (readUnit t).map (·.2)
  | c :: t => if (simpleEscape? c).isSome then .ok t else .error .malformed

/-- Reads a string, after its opening quote; the first argument bounds its characters. -/
def readStringFrom : Nat → Text → Except Fault (Text × Text)
  | 0, _ => .error .truncated
  | _, [] => .error .truncated
  | fuel + 1, c :: t =>
    if c = '"' then .ok ([], t)
    else if c = '\\' then do
      let (d, rest) ← readEscape t
      let (s, rest) ← readStringFrom fuel rest
      return (d :: s, rest)
    else if c.toNat < 0x20 then .error .malformed
    else do
      let (s, rest) ← readStringFrom fuel t
      return (c :: s, rest)

def readString (t : Text) : Except Fault (Text × Text) := readStringFrom (t.length + 1) t

/-- Steps over a string, after its opening quote; the first argument bounds its characters. -/
def skipStringFrom : Nat → Text → Except Fault Text
  | 0, _ => .error .truncated
  | _, [] => .error .truncated
  | fuel + 1, c :: t =>
    if c = '"' then .ok t
    else if c = '\\' then do skipStringFrom fuel (← skipEscape t)
    else if c.toNat < 0x20 then .error .malformed
    else skipStringFrom fuel t

def skipString (t : Text) : Except Fault Text := skipStringFrom (t.length + 1) t

end Graft.Json
