import Graft.Json.Node
import Graft.Proofs.Path
import Graft.Proofs.Json.Spelling
import Graft.Proofs.Json.Numeral

/-! # JSON texts as they are written

`Written` is the grammar: a value with every mark and every piece of white space that its text has.
`Written.node` is the tree that the text holds, and a `Document` is a whole text.  Nothing is wrong
with the tree of a value that is passed over (`Written.skipFault?_node`). -/

namespace Graft.Json

/-- White space, possibly none. -/
abbrev Space := { s : Text // s.all isSpace }

/-- Something with white space around it. -/
structure Spaced (α : Type) where
  before : Space
  value : α
  after : Space

/-- A member of an object: a key in quotes, a colon and a value. -/
structure Named (α : Type) where
  before : Space
  key : List Mark
  after : Space
  item : Spaced α

inductive Written where
  | null
  | boolean (b : Bool)
  | number (n : Numeral)
  | string (ms : List Mark)
  /-- The white space is the one of an array without items. -/
  | array (space : Space) (items : List (Spaced Written))
  | object (space : Space) (members : List (Named Written))

/-- What the strict reader gives for a string. -/
def Mark.meaning (ms : List Mark) : Except Fault Text :=
  match spelled? ms with
  | some s => .ok s
  | none => .error .malformed

theorem readString_meaning (ms : List Mark) (rest : Text) :
    (readString (marksText ms ++ '"' :: rest)).map (·.1) = Mark.meaning ms := by
  rw [readString_marks]
  unfold spelling Mark.meaning
  cases Mark.spelled? ms <;> rfl

namespace Written

mutual

def text : Written → Text
  | null => ['n', 'u', 'l', 'l']
  | boolean true => ['t', 'r', 'u', 'e']
  | boolean false => ['f', 'a', 'l', 's', 'e']
  | number n => n.text
  | string ms => '"' :: (marksText ms ++ ['"'])
  | array space items => '[' :: (space.1 ++ (Text.joinWith [','] (itemTexts items) ++ [']']))
  | object space members =>
    '{' :: (space.1 ++ (Text.joinWith [','] (memberTexts members) ++ ['}']))

/-- The texts between the commas of an array. -/
def itemTexts : List (Spaced Written) → List Text
  | [] => []
  | i :: is => (i.before.1 ++ (text i.value ++ i.after.1)) :: itemTexts is

/-- The texts between the commas of an object. -/
def memberTexts : List (Named Written) → List Text
  | [] => []
  | m :: ms =>
    (m.before.1 ++ '"' :: (marksText m.key ++ '"' :: (m.after.1 ++
      ':' :: (m.item.before.1 ++ (text m.item.value ++ m.item.after.1))))) :: memberTexts ms

end

mutual

/-- The tree of a value. -/
def node : Written → Node
  | null => .null
  | boolean b => .boolean b
  | number n => .number ((readNumber n.text).map (·.1))
  | string ms => .string (Mark.meaning ms)
  | array _ items => .array (itemNodes items) .closed
  | object _ members => .object (memberNodes members) .closed

def itemNodes : List (Spaced Written) → List Node
  | [] => []
  | i :: is => node i.value :: itemNodes is

def memberNodes : List (Named Written) → List (Except Fault Text × Node)
  | [] => []
  | m :: ms => (Mark.meaning m.key, node m.item.value) :: memberNodes ms

end

theorem memberNodes_eq_map (members : List (Named Written)) :
    memberNodes members = members.map fun m => (Mark.meaning m.key, m.item.value.node) := by
  induction members with
  | nil => rfl
  | cons m ms ih => rw [memberNodes, ih, List.map_cons]

mutual

theorem skipFault?_node : ∀ w : Written, w.node.skipFault? = none
  | null => rfl
  | boolean _ => rfl
  | number _ => rfl
  | string _ => rfl
  | array _ items => by
      rw [node, Node.skipFault?, skipItems?_itemNodes items]
      rfl
  | object _ members => by
      rw [node, Node.skipFault?, skipMembers?_memberNodes members]
      rfl

theorem skipItems?_itemNodes : ∀ items, Node.skipItems? (itemNodes items) = none
  | [] => rfl
  | i :: is => by
      rw [itemNodes, Node.skipItems?, skipFault?_node i.value, skipItems?_itemNodes is]
      rfl

theorem skipMembers?_memberNodes : ∀ members, Node.skipMembers? (memberNodes members) = none
  | [] => rfl
  | m :: ms => by
      rw [memberNodes, Node.skipMembers?, skipFault?_node m.item.value, skipMembers?_memberNodes ms]
      rfl

end

end Written

/-- A whole text: a value with white space around it. -/
abbrev Document := Spaced Written

namespace Document

def text (d : Document) : Text := d.before.1 ++ (d.value.text ++ d.after.1)

def node (d : Document) : Node := d.value.node

end Document

end Graft.Json
