import Graft.Path

/-! # Access to files

What a run needs of the files it patches, in any monad, and what can go wrong with a file.  The file
systems in memory keep their files in lists of entries (`Entries.set`). -/

namespace Graft

inductive FileFault where
  /-- There is no such file; the hint says what to do about it. -/
  | missing (path hint : Text)
  /-- The file cannot be read or written. -/
  | unusable (path reason : Text)
  deriving DecidableEq, Repr

namespace FileFault

def isMissing : FileFault → Bool
  | missing _ _ => true
  | unusable _ _ => false

def message : FileFault → Text
  | missing path hint => "target file not found: ".toList ++ path ++ " (".toList ++ hint ++ [')']
  | unusable path reason => "I/O error on ".toList ++ path ++ ": ".toList ++ reason

/-- What to do about a file that is not there. -/
def generateHint : Text := "generate the native projects before patching".toList

/-- The reason why bytes that encode no text cannot be read. -/
def notUtf8 : Text := "stream did not contain valid UTF-8".toList

end FileFault

namespace Entries

variable {α β : Type} [DecidableEq α]

/-- Replaces the value of a key, or adds the key. -/
def set (k : α) (v : β) : List (α × β) → List (α × β)
  | [] => [(k, v)]
  | e :: es => if e.1 = k then (k, v) :: es else e :: set k v es

variable [BEq α] [LawfulBEq α]

theorem lookup_cons (e : α × β) (es : List (α × β)) (q : α) :
    (e :: es).lookup q = if q = e.1 then some e.2 else es.lookup q := by
  rw [List.lookup_cons]
  by_cases h : q = e.1
  · rw [if_pos h, beq_iff_eq.mpr h]
  · rw [if_neg h, beq_eq_false_iff_ne.mpr h]

theorem lookup_set (k : α) (v : β) (es : List (α × β)) (q : α) :
    (set k v es).lookup q = if q = k then some v else es.lookup q := by
  induction es with
  | nil => rw [set, lookup_cons]
  | cons e es ih =>
      rw [set]
      by_cases he : e.1 = k
      · rw [if_pos he, lookup_cons, lookup_cons, he]
        by_cases hq : q = k
        · rw [if_pos hq, if_pos hq]
        · rw [if_neg hq, if_neg hq, if_neg hq]
      · rw [if_neg he, lookup_cons, lookup_cons, ih]
        by_cases hq : q = e.1
        · rw [if_pos hq, if_pos hq, if_neg (hq ▸ he)]
        · rw [if_neg hq, if_neg hq]

end Entries

/-- Access to files by their paths. -/
structure Files (m : Type → Type) where
  isFile : Text → m Bool
  read : Text → m (Except FileFault Text)
  write : Text → Text → m (Except FileFault Unit)

namespace Files

variable {m : Type → Type}

/-- The files of a project: paths are seen from its directory. -/
def rooted (root : Text) (files : Files m) : Files m where
  isFile p := files.isFile (Path.join root p)
  read p := files.read (Path.join root p)
  write p t := files.write (Path.join root p) t

end Files

end Graft
