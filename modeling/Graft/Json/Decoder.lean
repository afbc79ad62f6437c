import Graft.Json.Node

/-! # Values of a wanted shape

A decoder turns a node into a value or gives the fault that comes first in the text.  Structures are
described by their fields: `Layout.fault?` finds the first fault of a node that should be one,
whether it is an object or a list of the fields in order, and `Layout.field?` finds the node of a
field.  Members with other names are passed over. -/

namespace Graft.Json

/-- Reads a value from a node. -/
abbrev Decoder (α : Type) := Node → Except Fault α

namespace Node

/-- The fault of a node that is not of the kind that is expected. -/
def mismatch (expected : String) : Node → Fault
  | null => .shape (.invalidType .null expected)
  | boolean b => .shape (.invalidType (.boolean b) expected)
  | number (.ok n) => .shape (.invalidType (.number n) expected)
  | number (.error f) => f
  | string (.ok t) => .shape (.invalidType (.string t) expected)
  | string (.error f) => f
  | array _ _ => .shape (.invalidType .sequence expected)
  | object _ _ => .shape (.invalidType .map expected)
  | broken used _ => used

end Node

namespace Decoder

variable {α : Type}

/-- The fault of a decoder at a node, if it has one. -/
def fault? (d : Decoder α) (n : Node) : Option Fault :=
  match d n with
  | .ok _ => none
  | .error f => some f

/-- A string, called `expected` in messages. -/
def textAs (expected : String) : Decoder Text
  | .string value => value
  | n => .error (n.mismatch expected)

def text : Decoder Text := textAs "a string"

def path : Decoder Text := textAs "path string"

/-- A value, or nothing for null. -/
def option (d : Decoder α) : Decoder (Option α)
  | .null => .ok none
  | n => (d n).map some

/-- A list of values. -/
def list (d : Decoder α) : Decoder (List α)
  | .array items tail => do
    let values ← items.mapM d
    match tail.fault? with
    | some f => throw f
    | none => return values
  | n => .error (n.mismatch "a sequence")

end Decoder

/-! ### Structures -/

/-- A field of a structure. -/
structure Field where
  name : String
  /-- Whether a list may end before the field. -/
  optionalAtEnd : Bool
  /-- What is wrong with the value of the field. -/
  fault? : Node → Option Fault

/-- The fields of a structure in order, and its name. -/
structure Layout where
  name : String
  fields : List Field

namespace Layout

/-- The field with a given name. -/
def find? (l : Layout) (key : Text) : Option Field := l.fields.find? fun f => f.name.toList = key

/-- The first fault in some members; `seen` are the fields that came before. -/
def memberFault? (l : Layout) (tail : Tail) :
    List Text → List (Except Fault Text × Node) → Option Fault
  | _, [] => tail.fault?
  | seen, (key, value) :: members =>
    match key with
    | .error f => some f
    | .ok key =>
      match l.find? key with
      | none =>
        match value.skipFault? with
        | some f => some f
        | none => memberFault? l tail seen members
      | some field =>
        if seen.contains key then some (.shape (.duplicateField field.name))
        else
          match field.fault? value with
          | some f => some f
          | none => memberFault? l tail (key :: seen) members

/-- The first fault in some items that stand for fields; `count` came before. -/
def itemFault? (l : Layout) (tail : Tail) (count : Nat) : List Field → List Node → Option Fault
  | [], [] => tail.endFault?
  | [], _ :: _ => some .malformed
  | field :: fields, [] =>
    match tail.fault? with
    | some f => some f
    | none =>
      if field.optionalAtEnd then itemFault? l tail count fields []
      else some (.shape (.invalidLength count l.name l.fields.length))
  | field :: fields, item :: items =>
    match field.fault? item with
    | some f => some f
    | none => itemFault? l tail (count + 1) fields items

/-- The first fault of a node that should be the structure, missing fields of an object aside. -/
def fault? (l : Layout) : Node → Option Fault
  | .object members tail => l.memberFault? tail [] members
  | .array items tail => l.itemFault? tail 0 l.fields items
  | n => some (n.mismatch ("struct " ++ l.name))

/-- Whether a key is the given name. -/
def isKey (name : String) (key : Except Fault Text) : Bool :=
  match key with
  | .ok key => key = name.toList
  | .error _ => false

/-- The node of a field. -/
def field? (l : Layout) (name : String) : Node → Option Node
  | .object members _ => (members.find? fun m => isKey name m.1).map (·.2)
  | .array items _ => (l.fields.findIdx? fun f => f.name = name).bind fun i => items[i]?
  | _ => none

end Layout

/-- The fields of a node that is known to be of a layout. -/
structure Fields where
  layout : Layout
  node : Node

namespace Fields

variable {α : Type}

/-- A field that has to be there. -/
def required (fs : Fields) (name : String) (d : Decoder α) : Except Fault α :=
  match fs.layout.field? name fs.node with
  | some n => d n
  | none => .error (.shape (.missingField name))

/-- A field with a value for when it is not there. -/
def withDefault (fs : Fields) (name : String) (d : Decoder α) (default : α) : Except Fault α :=
  match fs.layout.field? name fs.node with
  | some n => d n
  | none => .ok default

/-- A field that need not be there and may be null. -/
def optional (fs : Fields) (name : String) (d : Decoder α) : Except Fault (Option α) :=
  fs.withDefault name (d.option) none

end Fields

/-- Decodes a structure once its fields are known to be faultless. -/
def Decoder.ofLayout {α : Type} (l : Layout) (build : Fields → Except Fault α) : Decoder α :=
  fun n =>
    match l.fault? n with
    | some f => .error f
    | none => build ⟨l, n⟩

/-- Decodes a whole text. -/
def decode {α : Type} (d : Decoder α) (t : Text) : Except Fault α := do
  let (n, rest) := Node.ofText t
  let value ← d n
  if (skipSpace rest).isEmpty then return value else throw .malformed

end Graft.Json
