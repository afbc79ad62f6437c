import Graft.Text.CharClass

/-! # Texts

A text is the list of its characters, and a position in it counts characters.  This module holds
what the editors ask of a text without regard to lines: trimming, searching for a piece, replacing
a piece, and splitting at a character. -/

namespace Graft

/-- Contents of a file, a piece of them, or a path. -/
abbrev Text := List Char

namespace Text

/-! ### Trimming -/

/-- Drops the longest end of `t` all of whose characters satisfy `p`. -/
def dropEndWhile (p : Char → Bool) (t : Text) : Text := (t.reverse.dropWhile p).reverse

def trimStart (t : Text) : Text := t.dropWhile isBlank

def trimEnd (t : Text) : Text := dropEndWhile isBlank t

/-- Drops the white space on both sides. -/
def trim (t : Text) : Text := trimEnd (trimStart t)

/-- Whether `t` holds nothing but white space. -/
def isBlank (t : Text) : Bool := t.all Graft.isBlank

@[simp] theorem trim_nil : trim [] = [] := rfl

theorem dropEndWhile_append_takeWhile (p : Char → Bool) (t : Text) :
    dropEndWhile p t ++ (t.reverse.takeWhile p).reverse = t := by
  rw [dropEndWhile, ← List.reverse_append, List.takeWhile_append_dropWhile, List.reverse_reverse]

/-! ### Pieces of a text -/

/-- Whether `piece` occurs in the text. -/
def occursIn (piece : Text) : Text → Bool
  | [] => piece.isEmpty
  | c :: t => piece.isPrefixOf (c :: t) || occursIn piece t

/-- The rest of `t` after `piece`, if `t` starts with it. -/
def after? (piece t : Text) : Option Text :=
  if piece.isPrefixOf t then some (t.drop piece.length) else none

/-- Position of the first occurrence of `piece`. -/
def find? (piece : Text) : Text → Option Nat
  | [] => if piece.isEmpty then some 0 else none
  | c :: t => if piece.isPrefixOf (c :: t) then some 0 else (find? piece t).map (· + 1)

/-- Position of the last occurrence of `piece`. -/
def findLast? (piece : Text) : Text → Option Nat
  | [] => if piece.isEmpty then some 0 else none
  | c :: t =>
    match findLast? piece t with
    | some n => some (n + 1)
    | none => if piece.isPrefixOf (c :: t) then some 0 else none

/-- The text strictly before `stop`, from `start` on. -/
def slice (t : Text) (start stop : Nat) : Text := (t.take stop).drop start

/-- Puts `new` where `t` has the characters from `start` to `stop`. -/
def replaceRange (t : Text) (start stop : Nat) (new : Text) : Text :=
  t.take start ++ new ++ t.drop stop

/-- Replaces the occurrences of `old` met from left to right; the first argument counts the
characters of an occurrence that are still to be dropped. -/
def replaceFrom (old new : Text) : Nat → Text → Text
  | _, [] => []
  | n + 1, _ :: t => replaceFrom old new n t
  | 0, c :: t =>
    if old.isPrefixOf (c :: t) then new ++ replaceFrom old new (old.length - 1) t
    else c :: replaceFrom old new 0 t

/-- Replaces every occurrence of the nonempty piece `old`. -/
def replace (old new t : Text) : Text := replaceFrom old new 0 t

/-- The pieces of `t` between the occurrences of `sep`, at least one. -/
def splitAt (sep : Char) : Text → List Text
  | [] => [[]]
  | c :: t =>
    if c = sep then [] :: splitAt sep t
    else
      match splitAt sep t with
      | [] => [[c]]
      | p :: ps => (c :: p) :: ps

/-- The texts of a list with `sep` between each two. -/
def joinWith (sep : Text) (ts : List Text) : Text := sep.intercalate ts

theorem occursIn_iff {piece t : Text} : occursIn piece t ↔ piece <:+: t := by
  induction t with
  | nil => simp [occursIn]
  | cons c t ih =>
    rw [occursIn, Bool.or_eq_true, ih, List.isPrefixOf_iff_prefix, List.infix_cons_iff]

theorem after?_eq_some_iff {piece t r : Text} : after? piece t = some r ↔ t = piece ++ r := by
  rw [after?]
  constructor
  · intro h
    split at h
    · next hp =>
        obtain ⟨s, rfl⟩ := List.isPrefixOf_iff_prefix.mp hp
        obtain rfl := Option.some.inj h
        rw [List.drop_left]
    · simp at h
  · rintro rfl
    rw [if_pos (List.isPrefixOf_iff_prefix.mpr (List.prefix_append piece r)), List.drop_left]

end Text

end Graft
