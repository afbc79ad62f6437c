import Graft.Diff.Basic

/-! # Compaction of edits

Edits that say the same can be written in several ways.  Compaction shifts each deletion and then
each insertion as far up as it goes and then as far down, merging it with others of its kind on the
way; `merge` joins what has become adjacent, so that between two equal stretches there is one edit.
A list of edits is taken apart around the one that moves: those before it, nearest first, the edit,
and those after it. -/

namespace Graft.Diff

variable {α : Type} [DecidableEq α]

namespace Edit

/-- The edit `n` tokens further up. -/
def shiftUp (e : Edit) (n : Nat) : Edit := { e with old := e.old - n, new := e.new - n }

/-- The edit `n` tokens further down. -/
def shiftDown (e : Edit) (n : Nat) : Edit := { e with old := e.old + n, new := e.new + n }

/-- A stretch of equal tokens that starts `n` tokens earlier. -/
def growUp (e : Edit) (n : Nat) : Edit := .equal (e.old - n) (e.new - n) (e.oldLen + n)

/-- A stretch of equal tokens that ends `n` tokens later. -/
def growDown (e : Edit) (n : Nat) : Edit := .equal e.old e.new (e.oldLen + n)

/-- A stretch of equal tokens without its last `n`. -/
def dropLast (e : Edit) (n : Nat) : Edit := .equal e.old e.new (e.oldLen - n)

/-- A stretch of equal tokens without its first `n`. -/
def dropFirst (e : Edit) (n : Nat) : Edit := .equal (e.old + n) (e.new + n) (e.oldLen - n)

/-- An edit that also covers the length of another one of its kind. -/
def extend (e other : Edit) : Edit :=
  { e with oldLen := e.oldLen + other.oldLen, newLen := e.newLen + other.newLen }

/-- The old tokens of an edit. -/
def oldTokens (e : Edit) (old : List α) : List α := (old.drop e.old).take e.oldLen

/-- The new tokens of an edit. -/
def newTokens (e : Edit) (new : List α) : List α := (new.drop e.new).take e.newLen

end Edit

/-- A list of edits taken apart around one of them. -/
structure Focus where
  before : List Edit
  this : Edit
  after : List Edit

namespace Focus

/-- A bound on the moves of the edit. -/
def fuel (f : Focus) : Nat := (f.this :: f.before ++ f.after).foldr (fun e n => e.weight + n) 0

/-- Moves the edit up for as long as that is possible. -/
def moveUp (old new : List α) : Nat → Focus → Focus
  | 0, f => f
  | fuel + 1, f =>
    match f.before with
    | [] => f
    | prev :: before =>
      match prev.tag with
      | .equal =>
        let s :=
          if f.this.tag = .insert then commonEnd (prev.oldTokens old) (f.this.newTokens new) else 0
        if s = 0 then
          if prev.isEmpty then moveUp old new fuel { f with before := before } else f
        else
          let after :=
            match f.after with
            | next :: rest =>
              if next.tag = .equal then next.growUp s :: rest
              else .equal (prev.old + prev.oldLen - s) (f.this.new + f.this.newLen - s) s :: f.after
            | [] => [.equal (prev.old + prev.oldLen - s) (f.this.new + f.this.newLen - s) s]
          let prev := prev.dropLast s
          moveUp old new fuel
            ⟨if prev.isEmpty then before else prev :: before, f.this.shiftUp s, after⟩
      | _ =>
        if prev.tag = f.this.tag then moveUp old new fuel ⟨before, prev.extend f.this, f.after⟩
        else moveUp old new fuel ⟨before, f.this, prev :: f.after⟩

/-- Moves the edit down for as long as that is possible. -/
def moveDown (old new : List α) : Nat → Focus → Focus
  | 0, f => f
  | fuel + 1, f =>
    match f.after with
    | [] => f
    | next :: after =>
      match next.tag with
      | .equal =>
        let s :=
          if f.this.tag = .insert then commonStart (next.oldTokens old) (f.this.newTokens new)
          else 0
        if s = 0 then
          if next.isEmpty then moveDown old new fuel { f with after := after } else f
        else
          let before :=
            match f.before with
            | prev :: rest =>
              if prev.tag = .equal then prev.growDown s :: rest
              else .equal next.old f.this.new s :: f.before
            | [] => [.equal next.old f.this.new s]
          let next := next.dropFirst s
          moveDown old new fuel
            ⟨before, f.this.shiftDown s, if next.isEmpty then after else next :: after⟩
      | _ =>
        if next.tag = f.this.tag then moveDown old new fuel ⟨f.before, f.this.extend next, after⟩
        else moveDown old new fuel ⟨next :: f.before, f.this, after⟩

/-- Moves the edit up and then down. -/
def settle (old new : List α) (f : Focus) : Focus :=
  let f := moveUp old new f.fuel f
  moveDown old new f.fuel f

end Focus

/-- Settles the edits of one kind from left to right; the first argument bounds their number. -/
def settleAll (old new : List α) (tag : Tag) : Nat → List Edit → List Edit → List Edit
  | 0, before, after => before.reverse ++ after
  | n + 1, before, after =>
    match after.dropWhile (·.tag ≠ tag) with
    | [] => before.reverse ++ after
    | this :: rest =>
      let skipped := after.takeWhile (·.tag ≠ tag)
      let f := Focus.settle old new ⟨skipped.reverse ++ before, this, rest⟩
      settleAll old new tag n (f.this :: f.before) f.after

/-- Settles the edits of one kind in a list. -/
def settleTag (old new : List α) (tag : Tag) (es : List Edit) : List Edit :=
  settleAll old new tag (es.filter (·.tag = tag)).length [] es

/-- What has been gathered since the last finished edit. -/
structure Gathering where
  equal : Option Edit
  delete : Option Edit
  insert : Option Edit

namespace Gathering

def none : Gathering := ⟨.none, .none, .none⟩

/-- The gathered edits as one. -/
def finish (g : Gathering) : List Edit :=
  match g.equal, g.delete, g.insert with
  | some e, _, _ => [e]
  | _, some d, some i => [⟨.replace, d.old, d.oldLen, i.new, i.newLen⟩]
  | _, some d, .none => [d]
  | _, .none, some i => [i]
  | .none, .none, .none => []

end Gathering

/-- Joins an edit with what was gathered of its kind. -/
def join (gathered : Option Edit) (e : Edit) : Option Edit :=
  some ((gathered.map (·.extend e)).getD e)

/-- Joins adjacent edits: equal stretches with each other, deletions and insertions between two
equal stretches to a replacement. -/
def mergeFrom (g : Gathering) : List Edit → List Edit
  | [] => g.finish
  | e :: es =>
    match e.tag with
    | .equal =>
      if g.equal.isSome then mergeFrom { g with equal := join g.equal e } es
      else g.finish ++ mergeFrom ⟨some e, none, none⟩ es
    | .delete =>
      if g.equal.isSome then g.finish ++ mergeFrom ⟨none, some e, none⟩ es
      else mergeFrom { g with delete := join g.delete e } es
    | .insert =>
      if g.equal.isSome then g.finish ++ mergeFrom ⟨none, none, some e⟩ es
      else mergeFrom { g with insert := join g.insert e } es
    | .replace => g.finish ++ e :: mergeFrom .none es

/-- The compact form of a list of edits. -/
def compact (old new : List α) (es : List Edit) : List Edit :=
  mergeFrom .none (settleTag old new .insert (settleTag old new .delete es))

end Graft.Diff
