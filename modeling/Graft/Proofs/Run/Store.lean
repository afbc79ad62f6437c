import Graft.Files.Memory

/-! # Stores

A store gives access to files that are apart from each other.  Looking for a file and reading one
change none.  A write to a file that has just been read touches no other file, and leaves the file
itself as it was if it fails; nothing is said of other writes.  Any read and any write may fail, for
whatever reason, and different paths may denote one file.

`Store.Local`, `Store.Steady` and `Store.MissingOnRead` say more about a store; results that need
one of them name it. -/

namespace Graft

variable {σ : Type}

/-- Writes a file that has been read. -/
def Files.overwrite (files : Files (StateM σ)) (p t : Text) : StateM σ (Except FileFault Unit) :=
  fun s => files.write p t (files.read p s).2

/-- Access to files in a state, with the laws that it obeys. -/
structure Store (σ : Type) where
  files : Files (StateM σ)
  File : Type
  /-- What a path shows of its file: its content, whether it can be read, and so on. -/
  Cell : Type
  /-- The file that a path denotes. -/
  fileOf : σ → Text → File
  cell : σ → Text → Cell
  /-- The text in a file, if there is such a file and it holds a text. -/
  content : Cell → Option Text
  isFile_fileOf : ∀ p s, fileOf (files.isFile p s).2 = fileOf s
  isFile_cell : ∀ p s, cell (files.isFile p s).2 = cell s
  read_fileOf : ∀ p s, fileOf (files.read p s).2 = fileOf s
  read_cell : ∀ p s, cell (files.read p s).2 = cell s
  read_content : ∀ p s t, (files.read p s).1 = .ok t → content (cell s p) = some t
  /-- Files that are apart stay apart. -/
  write_apart : ∀ p s old, (files.read p s).1 = .ok old → ∀ t q r, fileOf s q ≠ fileOf s r →
    fileOf (files.overwrite p t s).2 q ≠ fileOf (files.overwrite p t s).2 r
  /-- A write touches no other file. -/
  write_other : ∀ p s old, (files.read p s).1 = .ok old → ∀ t q, fileOf s q ≠ fileOf s p →
    cell (files.overwrite p t s).2 q = cell s q
  write_content : ∀ p s old, (files.read p s).1 = .ok old → ∀ t,
    (files.overwrite p t s).1 = .ok () → content (cell (files.overwrite p t s).2 p) = some t
  /-- A write that fails leaves the file as it was. -/
  write_failed : ∀ p s old, (files.read p s).1 = .ok old → ∀ t f,
    (files.overwrite p t s).1 = .error f → cell (files.overwrite p t s).2 p = cell s p

namespace Store

/-- What comes of a read or a write depends on what the path shows of its file alone. -/
structure Local (store : Store σ) : Prop where
  read : ∀ p s s', store.cell s p = store.cell s' p →
    (store.files.read p s).1 = (store.files.read p s').1
  write : ∀ p s s' old, (store.files.read p s).1 = .ok old → store.cell s p = store.cell s' p → ∀ t,
    (store.files.overwrite p t s).1 = (store.files.overwrite p t s').1 ∧
      store.cell (store.files.overwrite p t s).2 p = store.cell (store.files.overwrite p t s').2 p

/-- Looking for a file and reading one leave the state as it is. -/
structure Steady (store : Store σ) : Prop extends store.Local where
  isFile_state : ∀ p s, (store.files.isFile p s).2 = s
  read_state : ∀ p s, (store.files.read p s).2 = s

/-- That a file is missing is a fault of reading it: a write that fails says something else. -/
def MissingOnRead (store : Store σ) : Prop :=
  ∀ p s old, (store.files.read p s).1 = .ok old → ∀ t f,
    (store.files.overwrite p t s).1 = .error f → f.isMissing = false

/-! ### Stores seen from a directory -/

variable (root : Text) (store : Store σ)

/-- The files of a project: paths are seen from its directory. -/
def rooted : Store σ where
  files := store.files.rooted root
  File := store.File
  Cell := store.Cell
  fileOf s p := store.fileOf s (Path.join root p)
  cell s p := store.cell s (Path.join root p)
  content := store.content
  isFile_fileOf _ s := by
    funext q
    exact congrFun (store.isFile_fileOf _ s) _
  isFile_cell _ s := by
    funext q
    exact congrFun (store.isFile_cell _ s) _
  read_fileOf _ s := by
    funext q
    exact congrFun (store.read_fileOf _ s) _
  read_cell _ s := by
    funext q
    exact congrFun (store.read_cell _ s) _
  read_content _ := store.read_content _
  write_apart _ s old h t _ _ := store.write_apart _ s old h t _ _
  write_other _ s old h t _ := store.write_other _ s old h t _
  write_content _ := store.write_content _
  write_failed _ := store.write_failed _

variable {root store}

theorem Local.rooted (h : store.Local) : (store.rooted root).Local where
  read _ := h.read _
  write _ := h.write _

theorem Steady.rooted (h : store.Steady) : (store.rooted root).Steady where
  toLocal := h.toLocal.rooted
  isFile_state _ := h.isFile_state _
  read_state _ := h.read_state _

theorem MissingOnRead.rooted (h : store.MissingOnRead) : (store.rooted root).MissingOnRead :=
  fun _ => h _

end Store

namespace Memory

/-! ### The store in memory -/

/-- What a path shows of its file: the content, and whether it refuses to be read or written. -/
def cell (s : Memory) (p : Text) : Option Text × Bool × Bool :=
  (s.content? p, s.unreadable.contains p, s.readonly.contains p)

theorem content?_set (s : Memory) (p t q : Text) :
    (s.set p t).content? q = if q = p then some t else s.content? q := by
  rw [content?, content?, set, Entries.lookup_set]

theorem read_of_cell {s s' : Memory} {p : Text} (h : s.cell p = s'.cell p) : s.read p = s'.read p := by
  simp only [cell, Prod.mk.injEq] at h
  rw [read, read, h.1, h.2.1]

theorem content?_of_read {s : Memory} {p t : Text} (h : s.read p = .ok t) : s.content? p = some t := by
  rw [read] at h
  split at h
  · exact nomatch h
  · cases hc : s.content? p with
    | none =>
        rw [hc] at h
        exact nomatch h
    | some u =>
        rw [hc] at h
        cases h
        rfl

theorem write_of_readonly {s : Memory} {p : Text} (h : s.readonly.contains p) (t : Text) :
    s.write p t = (.error (.unusable p "cannot write".toList), s) := by
  rw [write, if_pos h]

theorem write_of_writable {s : Memory} {p : Text} (h : s.readonly.contains p = false) (t : Text) :
    s.write p t = (.ok (), { s.set p t with writes := s.writes + 1 }) := by
  rw [write, if_neg (by rw [h]; decide)]

theorem cell_set (s : Memory) (p t q : Text) (n : Nat) :
    ({ s.set p t with writes := n } : Memory).cell q =
      (if q = p then some t else s.content? q, s.unreadable.contains q, s.readonly.contains q) := by
  rw [← content?_set]
  rfl

/-- A write fails and leaves the state as it was, or it changes the content of one file. -/
theorem write_cases (s : Memory) (p t : Text) :
    (∃ f, f.isMissing = false ∧ s.write p t = (.error f, s)) ∨
      ∃ s', s.write p t = (.ok (), s') ∧ s'.content? p = some t ∧
        ∀ q, q ≠ p → s'.cell q = s.cell q := by
  cases hp : s.readonly.contains p with
  | true => exact .inl ⟨_, rfl, write_of_readonly hp t⟩
  | false =>
      refine .inr ⟨_, write_of_writable hp t, ?_, fun q hq => ?_⟩
      · exact (content?_set s p t p).trans (if_pos rfl)
      · rw [cell_set, if_neg hq]
        rfl

theorem write_of_cell {s s' : Memory} {p : Text} (h : s.cell p = s'.cell p) (t : Text) :
    (s.write p t).1 = (s'.write p t).1 ∧ (s.write p t).2.cell p = (s'.write p t).2.cell p := by
  have hreadonly : s.readonly.contains p = s'.readonly.contains p := congrArg (·.2.2) h
  have hunreadable : s.unreadable.contains p = s'.unreadable.contains p := congrArg (·.2.1) h
  cases hp : s.readonly.contains p with
  | true =>
      rw [write_of_readonly hp, write_of_readonly (hreadonly ▸ hp)]
      exact ⟨rfl, h⟩
  | false =>
      rw [write_of_writable hp, write_of_writable (hreadonly ▸ hp), cell_set, cell_set, if_pos rfl,
        if_pos rfl, hreadonly, hunreadable]
      exact ⟨rfl, rfl⟩

/-- The store in memory; every path denotes a file of its own. -/
def store : Store Memory where
  files := access
  File := Text
  Cell := Option Text × Bool × Bool
  fileOf _ p := p
  cell := cell
  content := Prod.fst
  isFile_fileOf _ _ := rfl
  isFile_cell _ _ := rfl
  read_fileOf _ _ := rfl
  read_cell _ _ := rfl
  read_content _ _ _ h := content?_of_read h
  write_apart _ _ _ _ _ _ _ h := h
  write_other p s _ _ t q hq := by
    change (s.write p t).2.cell q = s.cell q
    obtain ⟨f, -, hw⟩ | ⟨s', hw, -, hother⟩ := s.write_cases p t
    · rw [hw]
    · rw [hw, hother q hq]
  write_content p s _ _ t h := by
    change (s.write p t).1 = _ at h
    change (s.write p t).2.content? p = some t
    obtain ⟨f, -, hw⟩ | ⟨s', hw, hcontent, -⟩ := s.write_cases p t
    · rw [hw] at h
      exact nomatch h
    · rw [hw, hcontent]
  write_failed p s _ _ t f h := by
    change (s.write p t).1 = _ at h
    change (s.write p t).2.cell p = s.cell p
    obtain ⟨f, -, hw⟩ | ⟨s', hw, -⟩ := s.write_cases p t
    · rw [hw]
    · rw [hw] at h
      exact nomatch h

theorem store_steady : store.Steady where
  read _ _ _ h := read_of_cell h
  write _ _ _ _ _ h t := write_of_cell h t
  isFile_state _ _ := rfl
  read_state _ _ := rfl

theorem store_missingOnRead : store.MissingOnRead := by
  intro p s old _ t f h
  change (s.write p t).1 = _ at h
  obtain ⟨f', hf, hw⟩ | ⟨s', hw, -⟩ := s.write_cases p t
  · rw [hw] at h
    cases h
    exact hf
  · rw [hw] at h
    exact nomatch h

end Memory

end Graft
