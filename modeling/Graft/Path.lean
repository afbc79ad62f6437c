import Graft.Text.Basic

/-! # Paths

A path is its text; components are separated by slashes and a leading slash makes it absolute.
Nothing here looks at a file system, so `..` is kept as it stands. -/

namespace Graft.Path

def isAbsolute (p : Text) : Bool := p.head? = some '/'

/-- The path `p` seen from `base`; an absolute path is itself. -/
def join (base p : Text) : Text :=
  if isAbsolute p then p
  else if base.isEmpty || base.getLast? = some '/' then base ++ p
  else base ++ '/' :: p

/-- The parts of a path between slashes that name something; a dot does not. -/
def components (p : Text) : List Text :=
  (Text.splitAt '/' p).filter fun c => !c.isEmpty && c ≠ ['.']

/-- The name of the file that a path ends in, if it ends in a name. -/
def fileName? (p : Text) : Option Text :=
  (components p).getLast?.filter fun c => c ≠ ['.', '.']

/-- A path with forward slashes only. -/
def display (p : Text) : Text := Text.replace ['\\'] ['/'] p

end Graft.Path
