import Graft.Decimal.Shortest
import Graft.Text.Quoted

/-! # Faults of a JSON text

A text can be malformed, it can end too early, or it can be well formed as far as it was read and
hold a value of the wrong shape.  `Fault.message?` gives the wording of the last kind. -/

namespace Graft.Json

/-- A number as it is read. -/
inductive Number where
  | integer (n : Int)
  | float (negative : Bool) (x : Double)
  deriving DecidableEq, Repr

/-- A value where another kind of value was expected. -/
inductive Found where
  | null
  | boolean (b : Bool)
  | number (n : Number)
  | string (t : Text)
  | sequence
  | map
  deriving DecidableEq, Repr

namespace Found

/-- The value as a message names it. -/
def describe : Found → Text
  | null => "null".toList
  | boolean b => "boolean `".toList ++ (toString b).toList ++ "`".toList
  | number (.integer n) => "integer `".toList ++ (toString n).toList ++ "`".toList
  | number (.float negative x) => "floating point `".toList ++ x.render negative ++ "`".toList
  | string t => "string ".toList ++ t.quoted
  | sequence => "sequence".toList
  | map => "map".toList

end Found

/-- What is wrong with the shape of a value. -/
inductive ShapeFault where
  | invalidType (found : Found) (expected : String)
  /-- A list of `length` values stands for a structure with more fields. -/
  | invalidLength (length : Nat) (name : String) (fields : Nat)
  | missingField (name : String)
  | duplicateField (name : String)
  deriving DecidableEq, Repr

namespace ShapeFault

def message : ShapeFault → Text
  | invalidType found expected =>
    "invalid type: ".toList ++ found.describe ++ ", expected ".toList ++ expected.toList
  | invalidLength length name fields =>
    "invalid length ".toList ++ Nat.toDigits 10 length ++ ", expected struct ".toList ++
      name.toList ++ " with ".toList ++ Nat.toDigits 10 fields ++ " elements".toList
  | missingField name => "missing field `".toList ++ name.toList ++ "`".toList
  | duplicateField name => "duplicate field `".toList ++ name.toList ++ "`".toList

end ShapeFault

inductive Fault where
  | malformed
  /-- The text ended too early. -/
  | truncated
  | shape (f : ShapeFault)
  deriving DecidableEq, Repr

end Graft.Json
