import Graft.Files.Tree
import Graft.Proofs.Path
import Graft.Proofs.Run.Store
import Graft.Proofs.Text.Utf8

/-! # A tree of directories and files as a store

A path denotes the place that it leads to.  A file that can be read is overwritten in that place
(`target?_of_walk`), unless the path leads up last, which fails; either way every path leads where
it did (`walk_congr`).  So a tree is a store, and its answers depend on the place alone
(`store_steady`). -/

namespace Graft

/-- What a walk sees of a node: whether it can be entered. -/
def TreeNode.isDirectory : TreeNode → Bool
  | directory => true
  | file _ => false

namespace FileTree

variable {s s' : FileTree} {p t : Text} {loc : List Text} {bytes : List UInt8}

theorem node?_set (hne : loc ≠ []) (n : TreeNode) (l : List Text) :
    (s.set loc n).node? l = if l = loc then some n else s.node? l := by
  unfold node? set
  simp only [Entries.lookup_set]
  cases l with
  | nil => exact (if_neg (Ne.symm hne)).symm
  | cons name l => rfl

theorem ne_nil_of_node? (h : s.node? loc = some (.file bytes)) : loc ≠ [] := by
  rintro rfl
  exact nomatch h

/-- The places of a tree, and which of them are directories. -/
def shape (s : FileTree) (loc : List Text) : Option Bool := (s.node? loc).map TreeNode.isDirectory

/-- A file in place of a file leaves the shape as it was. -/
theorem shape_set (h : s.node? loc = some (.file bytes)) (bytes' : List UInt8) :
    (s.set loc (.file bytes')).shape = s.shape := by
  funext l
  rw [shape, shape, node?_set (ne_nil_of_node? h)]
  split
  case isTrue heq =>
      rw [heq, h]
      rfl
  case isFalse => rfl

/-- A step depends on the shape only. -/
theorem step_eq (s : FileTree) (loc : List Text) (name : Text) : s.step loc name =
    match s.shape loc with
    | none => .error .notFound
    | some false => .error .notDirectory
    | some true =>
      if name.isEmpty || name = ['.'] then .ok loc
      else if name = ['.', '.'] then .ok loc.dropLast
      else if (s.shape (loc ++ [name])).isSome then .ok (loc ++ [name])
      else .error .notFound := by
  rw [step, shape, shape, Option.isSome_map]
  cases s.node? loc with
  | none => rfl
  | some n =>
      cases n with
      | directory => rfl
      | file bytes => rfl

theorem walk_congr (hshape : s'.shape = s.shape) (hhere : s'.here = s.here) (p : Text) :
    s'.walk p = s.walk p := by
  have hstep : s'.step = s.step := by
    funext loc name
    rw [step_eq, step_eq, hshape]
  rw [walk, walk, start, start, hstep, hhere]

/-! ### Reading -/

theorem read_eq_ok_iff : s.read p = .ok t ↔
    ∃ loc bytes, s.walk p = .ok loc ∧ s.node? loc = some (.file bytes) ∧
      Text.decode? bytes = some t := by
  constructor
  · intro h
    unfold read at h
    split at h
    · exact nomatch h
    · exact nomatch h
    · split at h
      · split at h
        · cases h
          exact ⟨_, _, ‹_›, ‹_›, ‹_›⟩
        · exact nomatch h
      · exact nomatch h
  · rintro ⟨loc, bytes, hwalk, hnode, ht⟩
    simp only [read, hwalk, hnode, ht]

/-! ### Writing -/

/-- Where a step ends at a file, it went down by a name or led up. -/
theorem of_step_file {dir : List Text} {name : Text} (h : s.step dir name = .ok loc)
    (hfile : s.node? loc = some (.file bytes)) :
    name ≠ [] ∧ name ≠ ['.'] ∧ s.node? dir = some .directory ∧
      (name = ['.', '.'] ∨ loc = dir ++ [name]) := by
  cases hdir : s.node? dir with
  | none =>
      rw [step, hdir] at h
      exact nomatch h
  | some n =>
    cases n with
    | file bytes =>
        rw [step, hdir] at h
        exact nomatch h
    | directory =>
        simp only [step, hdir] at h
        split at h
        case isTrue hsame =>
            cases h
            rw [hdir] at hfile
            exact nomatch hfile
        case isFalse hother =>
            simp only [Bool.or_eq_true, List.isEmpty_iff, decide_eq_true_eq, not_or] at hother
            refine ⟨hother.1, hother.2, rfl, ?_⟩
            split at h
            case isTrue hup => exact .inl hup
            case isFalse =>
                split at h
                · cases h
                  exact .inr rfl
                · exact nomatch h

/-- A file that a path leads to is where a write to the path goes, unless the path leads up last. -/
theorem target?_of_walk (h : s.walk p = .ok loc) (hfile : s.node? loc = some (.file bytes)) :
    s.target? p = (Path.fileName? p).map fun _ => loc := by
  have hp : p.isEmpty = false := by
    cases hp : p.isEmpty with
    | false => rfl
    | true =>
        rw [walk, hp] at h
        exact nomatch h
  obtain ⟨parts, last, hparts⟩ : ∃ parts last, Text.splitAt '/' p = parts ++ [last] :=
    ⟨_, _, (List.dropLast_concat_getLast (Text.splitAt_ne_nil '/' p)).symm⟩
  rw [walk, hp, if_neg Bool.false_ne_true, hparts, List.foldlM_append] at h
  cases hdir : parts.foldlM s.step (s.start p) with
  | error f =>
      rw [hdir] at h
      exact nomatch h
  | ok dir =>
      have hstep : s.step dir last = .ok loc := by
        rw [hdir] at h
        change [last].foldlM s.step dir = .ok loc at h
        simpa only [List.foldlM_cons, List.foldlM_nil, bind_pure] using h
      obtain ⟨hne, hdot, hdirectory, hlast⟩ := of_step_file hstep hfile
      have hname := Path.fileName?_of_last hparts hne hdot
      by_cases hup : last = ['.', '.']
      · rw [if_pos hup] at hname
        rw [target?, hname]
        rfl
      · obtain rfl : loc = dir ++ [last] := hlast.resolve_left hup
        rw [if_neg hup] at hname
        rw [target?, hname]
        simp [hparts, hdir, hdirectory, hfile, Except.toOption]

/-- A write to a file that was read puts the text in its place, or fails and changes nothing.  Which
of the two it is depends on the path. -/
theorem write_cases {old : Text} (h : s.read p = .ok old) (t : Text) :
    ∃ loc bytes, s.walk p = .ok loc ∧ s.node? loc = some (.file bytes) ∧ s.write p t =
      match Path.fileName? p with
      | none => (.error (.unusable p "cannot write".toList), s)
      | some _ => (.ok (), s.set loc (.file (Text.encode t))) := by
  obtain ⟨loc, bytes, hwalk, hfile, -⟩ := read_eq_ok_iff.mp h
  refine ⟨loc, bytes, hwalk, hfile, ?_⟩
  rw [write, target?_of_walk hwalk hfile]
  cases Path.fileName? p with
  | none => rfl
  | some name => rfl

/-! ### The store -/

/-- The place that a path leads to; a path that leads nowhere stands for itself. -/
def fileOf (s : FileTree) (p : Text) : List Text ⊕ Text :=
  match s.walk p with
  | .ok loc => .inl loc
  | .error _ => .inr p

/-- What is in the place that a path leads to. -/
def cell (s : FileTree) (p : Text) : Except WalkFault (Option TreeNode) := (s.walk p).map s.node?

/-- The text of a file in such a place. -/
def content : Except WalkFault (Option TreeNode) → Option Text
  | .ok (some (.file bytes)) => Text.decode? bytes
  | _ => none

theorem cell_eq_error_iff {f : WalkFault} : s.cell p = .error f ↔ s.walk p = .error f := by
  rw [cell]
  cases s.walk p with
  | error f' => rw [Except.map, Except.error.injEq, Except.error.injEq]
  | ok loc => exact ⟨nofun, nofun⟩

theorem cell_eq_ok_iff {n : Option TreeNode} :
    s.cell p = .ok n ↔ ∃ loc, s.walk p = .ok loc ∧ s.node? loc = n := by
  rw [cell]
  cases s.walk p with
  | error f => exact ⟨nofun, nofun⟩
  | ok loc => simp [Except.map]

theorem read_of_cell (h : s.cell p = s'.cell p) : s.read p = s'.read p := by
  cases hs : s.cell p with
  | error f =>
      rw [hs] at h
      rw [read, read, cell_eq_error_iff.mp hs, cell_eq_error_iff.mp h.symm]
      cases f with
      | notFound => rfl
      | notDirectory => rfl
  | ok n =>
      rw [hs] at h
      obtain ⟨loc, hwalk, hnode⟩ := cell_eq_ok_iff.mp hs
      obtain ⟨loc', hwalk', hnode'⟩ := cell_eq_ok_iff.mp h.symm
      simp only [read, hwalk, hwalk', hnode, hnode']

/-- Every path leads where it did after a file was put in place of a file. -/
theorem walk_set (hfile : s.node? loc = some (.file bytes)) (bytes' : List UInt8) (q : Text) :
    (s.set loc (.file bytes')).walk q = s.walk q :=
  walk_congr (shape_set hfile bytes') rfl q

theorem cell_set (hfile : s.node? loc = some (.file bytes)) (bytes' : List UInt8) (q : Text) :
    (s.set loc (.file bytes')).cell q =
      if s.walk q = .ok loc then .ok (some (.file bytes')) else s.cell q := by
  rw [cell, cell, walk_set hfile]
  cases hq : s.walk q with
  | error f => rfl
  | ok l =>
      simp only [Except.map, node?_set (ne_nil_of_node? hfile), Except.ok.injEq]
      split <;> rfl

theorem fileOf_set (hfile : s.node? loc = some (.file bytes)) (bytes' : List UInt8) :
    (s.set loc (.file bytes')).fileOf = s.fileOf := by
  funext q
  rw [fileOf, fileOf, walk_set hfile]

/-- The store of a tree. -/
def store : Store FileTree where
  files := access
  File := List Text ⊕ Text
  Cell := Except WalkFault (Option TreeNode)
  fileOf := fileOf
  cell := cell
  content := content
  isFile_fileOf _ _ := rfl
  isFile_cell _ _ := rfl
  read_fileOf _ _ := rfl
  read_cell _ _ := rfl
  read_content p s t h := by
    obtain ⟨loc, bytes, hwalk, hfile, ht⟩ := read_eq_ok_iff.mp h
    rw [cell_eq_ok_iff.mpr ⟨loc, hwalk, hfile⟩]
    exact ht
  write_apart p s old h t q r hqr := by
    change (s.write p t).2.fileOf q ≠ (s.write p t).2.fileOf r
    obtain ⟨loc, bytes, -, hfile, hwrite⟩ := write_cases h t
    rw [hwrite]
    split
    · exact hqr
    · rwa [fileOf_set hfile]
  write_other p s old h t q hq := by
    change (s.write p t).2.cell q = s.cell q
    obtain ⟨loc, bytes, hwalk, hfile, hwrite⟩ := write_cases h t
    have hne : s.walk q ≠ .ok loc := by
      intro heq
      exact hq (by rw [fileOf, fileOf, heq, hwalk])
    rw [hwrite]
    split
    · rfl
    · rw [cell_set hfile, if_neg hne]
  write_content p s old h t hok := by
    change (s.write p t).1 = _ at hok
    change content ((s.write p t).2.cell p) = some t
    obtain ⟨loc, bytes, hwalk, hfile, hwrite⟩ := write_cases h t
    rw [hwrite] at hok ⊢
    split at hok
    · exact nomatch hok
    · rw [cell_set hfile, if_pos hwalk]
      exact Text.decode?_encode t
  write_failed p s old h t f herror := by
    change (s.write p t).1 = _ at herror
    change (s.write p t).2.cell p = s.cell p
    obtain ⟨loc, bytes, hwalk, hfile, hwrite⟩ := write_cases h t
    rw [hwrite] at herror ⊢
    split at herror
    · rfl
    · exact nomatch herror

theorem store_steady : store.Steady where
  read _ _ _ h := read_of_cell h
  write p s s' old h hcell t := by
    change (s.write p t).1 = (s'.write p t).1 ∧ (s.write p t).2.cell p = (s'.write p t).2.cell p
    have h' : s'.read p = .ok old := (read_of_cell hcell).symm.trans h
    obtain ⟨loc, bytes, hwalk, hfile, hwrite⟩ := write_cases h t
    obtain ⟨loc', bytes', hwalk', hfile', hwrite'⟩ := write_cases h' t
    rw [hwrite, hwrite']
    split
    · exact ⟨rfl, hcell⟩
    · rw [cell_set hfile, cell_set hfile', if_pos hwalk, if_pos hwalk']
      exact ⟨rfl, rfl⟩
  isFile_state _ _ := rfl
  read_state _ _ := rfl

theorem store_missingOnRead : store.MissingOnRead := by
  intro p s old h t f herror
  change (s.write p t).1 = _ at herror
  obtain ⟨loc, bytes, -, -, hwrite⟩ := write_cases h t
  rw [hwrite] at herror
  split at herror
  · cases herror
    rfl
  · exact nomatch herror

/-- A file that can be read and that its path names can be written. -/
theorem write_ok {old : Text} (h : s.read p = .ok old) (hname : (Path.fileName? p).isSome) (t : Text) :
    (s.write p t).1 = .ok () := by
  obtain ⟨name, hname⟩ := Option.isSome_iff_exists.mp hname
  obtain ⟨loc, bytes, -, -, hwrite⟩ := write_cases h t
  rw [hwrite, hname]

end FileTree

end Graft
