import Graft.Block.Assignment
import Graft.Step.Basic

/-! # Steps that edit blocks

`NestedFieldsStep` puts fields into blocks two levels inside a block that has to exist,
`AssignmentStep` an assignment into a block of the file. -/

namespace Graft

/-- Makes sure of fields in children of the block `parent` inside the block `scope`. -/
structure NestedFieldsStep where
  platform : Platform
  code : String
  scope : Text
  parent : Text
  /-- Each child with its field. -/
  fields : List (Text × Text)

namespace NestedFieldsStep

/-- The two outer blocks as a message names them. -/
def outer (s : NestedFieldsStep) : String :=
  "'" ++ String.ofList s.scope ++ "'/'" ++ String.ofList s.parent ++ "'"

/-- Goes through the fields; the outer block is looked up anew for each. -/
def applyFields (s : NestedFieldsStep) : List (Text × Text) → Text → Sink → Text × Sink
  | [], t, sink => (t, sink)
  | (child, field) :: fields, t, sink =>
    match BlockHeader.find? s.scope t with
    | none => (t, sink)
    | some h =>
      let e := Block.edit h (NestedField.ensure ⟨s.parent, child, field, h.indent⟩) t
      match e.outcome with
      | .braceNotFound => (t, sink.notFound s.platform s.code
          ("unbalanced braces around " ++ s.outer ++ "; '" ++ String.ofList child
            ++ "' field skipped"))
      | _ => applyFields s fields e.text sink

def apply (s : NestedFieldsStep) (t : Text) (sink : Sink) : Text × Sink :=
  match BlockHeader.find? s.scope t with
  | none => (t, sink.notFound s.platform s.code
      ("'" ++ String.ofList s.scope ++ "' block not found; '" ++ String.ofList s.parent
        ++ "' fields skipped"))
  | some _ => s.applyFields s.fields t sink

def step (s : NestedFieldsStep) : Step := ⟨s.code, s.apply⟩

end NestedFieldsStep

/-- Makes sure of an assignment in a block of the file. -/
structure AssignmentStep where
  platform : Platform
  code : String
  assignment : BlockAssignment
  /-- The block after which a missing block goes. -/
  after : Option Text

namespace AssignmentStep

def apply (s : AssignmentStep) (t : Text) (sink : Sink) : Text × Sink :=
  let e := s.assignment.ensure s.after t
  match e.outcome with
  | .braceNotFound => (e.text, sink.notFound s.platform s.code
      ("unbalanced braces in '" ++ String.ofList s.assignment.block ++ "' block; field skipped"))
  | _ => (e.text, sink)

def step (s : AssignmentStep) : Step := ⟨s.code, s.apply⟩

end AssignmentStep

end Graft
