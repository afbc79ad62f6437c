import Graft.Files.Basic
import Graft.Text.Utf8

/-! # A tree of directories and files

A file system in memory.  A node is known by the names that lead to it from the top.  Paths are
walked name by name: a step through something that is not there or is no directory fails, two dots
lead up.  A file is written in one go, so its directory has to exist. -/

namespace Graft

inductive TreeNode where
  | directory
  | file (bytes : List UInt8)
  deriving DecidableEq, Repr

structure FileTree where
  /-- The directory from which relative paths are walked. -/
  here : List Text
  nodes : List (List Text × TreeNode)
  deriving DecidableEq, Repr

/-- Why a path leads nowhere. -/
inductive WalkFault where
  | notFound
  | notDirectory
  deriving DecidableEq, Repr

namespace FileTree

/-- The node at a location; the top is a directory. -/
def node? (s : FileTree) (loc : List Text) : Option TreeNode :=
  if loc.isEmpty then some .directory else s.nodes.lookup loc

/-- Replaces the node at a location, or adds it. -/
def set (s : FileTree) (loc : List Text) (n : TreeNode) : FileTree :=
  { s with nodes := Entries.set loc n s.nodes }

/-- Makes a directory of a location unless something is there. -/
def addDirectory (s : FileTree) (loc : List Text) : FileTree :=
  if (s.node? loc).isSome then s else s.set loc .directory

/-- Adds a directory with those above it. -/
def addDirectories (s : FileTree) (loc : List Text) : FileTree :=
  (List.range (loc.length + 1)).foldl (fun s n => s.addDirectory (loc.take n)) s

/-- Adds a node with the directories above it. -/
def add (s : FileTree) (loc : List Text) (n : TreeNode) : FileTree :=
  (s.addDirectories loc.dropLast).set loc n

/-- One step of a walk. -/
def step (s : FileTree) (loc : List Text) (name : Text) : Except WalkFault (List Text) :=
  match s.node? loc with
  | none => .error .notFound
  | some (.file _) => .error .notDirectory
  | some .directory =>
    if name.isEmpty || name = ['.'] then .ok loc
    else if name = ['.', '.'] then .ok loc.dropLast
    else if (s.node? (loc ++ [name])).isSome then .ok (loc ++ [name])
    else .error .notFound

/-- Where a path starts. -/
def start (s : FileTree) (p : Text) : List Text := if Path.isAbsolute p then [] else s.here

/-- The location that a path leads to. -/
def walk (s : FileTree) (p : Text) : Except WalkFault (List Text) :=
  if p.isEmpty then .error .notFound else (Text.splitAt '/' p).foldlM s.step (s.start p)

/-- The absolute path of a location. -/
def pathOf (loc : List Text) : Text :=
  if loc.isEmpty then ['/'] else loc.flatMap fun name => '/' :: name

def isFile (s : FileTree) (p : Text) : Bool :=
  match s.walk p with
  | .ok loc =>
    match s.node? loc with
    | some (.file _) => true
    | _ => false
  | .error _ => false

def read (s : FileTree) (p : Text) : Except FileFault Text :=
  match s.walk p with
  | .error .notFound => .error (.missing p FileFault.generateHint)
  | .error .notDirectory => .error (.unusable p "Not a directory (os error 20)".toList)
  | .ok loc =>
    match s.node? loc with
    | some (.file bytes) =>
      match Text.decode? bytes with
      | some t => .ok t
      | none => .error (.unusable p FileFault.notUtf8)
    | _ => .error (.unusable p "Is a directory (os error 21)".toList)

/-- Where a write to a path puts the file: the path ends in a name, the directory exists, and there
is no directory of that name. -/
def target? (s : FileTree) (p : Text) : Option (List Text) := do
  let name ← Path.fileName? p
  let parts := Text.splitAt '/' p
  if parts.getLast? ≠ some name then none
  let dir ← (parts.dropLast.foldlM s.step (s.start p)).toOption
  if s.node? dir ≠ some .directory || s.node? (dir ++ [name]) = some .directory then none
  return dir ++ [name]

def write (s : FileTree) (p t : Text) : Except FileFault Unit × FileTree :=
  match s.target? p with
  | some loc => (.ok (), s.set loc (.file (Text.encode t)))
  | none => (.error (.unusable p "cannot write".toList), s)

/-- Access to the files of a tree. -/
def access : Files (StateM FileTree) where
  isFile p := do return (← get).isFile p
  read p := do return (← get).read p
  write p t := fun s => s.write p t

/-- The files below a location, by their paths from there. -/
def filesUnder (s : FileTree) (root : List Text) : List (Text × List UInt8) :=
  s.nodes.filterMap fun (loc, n) =>
    match n with
    | .file bytes =>
      if root.isPrefixOf loc then some (Text.joinWith ['/'] (loc.drop root.length), bytes) else none
    | .directory => none

end FileTree

end Graft
