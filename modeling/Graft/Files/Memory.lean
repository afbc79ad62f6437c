import Graft.Files.Basic

/-! # Files in memory

Files kept under the texts of their paths.  Some may refuse to be read and some to be written; the
writes that succeed are counted. -/

namespace Graft

structure Memory where
  files : List (Text × Text)
  unreadable : List Text
  readonly : List Text
  writes : Nat
  deriving DecidableEq, Repr

namespace Memory

/-- The content of a file. -/
def content? (s : Memory) (p : Text) : Option Text := s.files.lookup p

/-- Replaces the content of a file, or adds the file. -/
def set (s : Memory) (p t : Text) : Memory := { s with files := Entries.set p t s.files }

def remove (s : Memory) (p : Text) : Memory :=
  { s with files := s.files.filter fun f => f.1 ≠ p }

def read (s : Memory) (p : Text) : Except FileFault Text :=
  if s.unreadable.contains p then .error (.unusable p "cannot read".toList)
  else
    match s.content? p with
    | some t => .ok t
    | none => .error (.missing p "no such file".toList)

def write (s : Memory) (p t : Text) : Except FileFault Unit × Memory :=
  if s.readonly.contains p then (.error (.unusable p "cannot write".toList), s)
  else (.ok (), { s.set p t with writes := s.writes + 1 })

/-- Access to the files of a state. -/
def access : Files (StateM Memory) where
  isFile p := do return ((← get).content? p).isSome
  read p := do return (← get).read p
  write p t := fun s => s.write p t

end Memory

end Graft
