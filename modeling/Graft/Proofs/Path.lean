import Graft.Path

/-! # Paths below a directory

Splitting at a character is the library's `List.splitOn` (`splitAt_eq_splitOn`).  A path that is
joined from names is the names with a slash between each two (`AreNames.join`), and a relative path
that is joined to a directory keeps the directory in front of it (`join_eq`).  What a path names is
its last part (`fileName?_of_last`). -/

namespace Graft

namespace Text

variable {c : Char}

theorem splitAt_ne_nil (c : Char) (t : Text) : splitAt c t ≠ [] := by
  induction t with
  | nil => simp [splitAt]
  | cons d t ih =>
      rw [splitAt]
      split
      · simp
      · split <;> simp

theorem splitAt_eq_splitOn (c : Char) (t : Text) : splitAt c t = t.splitOn c := by
  induction t with
  | nil => rfl
  | cons d t ih =>
      obtain ⟨p, ps, hps⟩ := List.exists_cons_of_ne_nil (splitAt_ne_nil c t)
      unfold List.splitOn at ih ⊢
      rw [splitAt, List.splitOnP_cons_eq_if_modifyHead, ← ih, hps]
      by_cases h : d = c
      · rw [if_pos h, if_pos (by rw [h]; exact beq_self_eq_true c)]
      · rw [if_neg h, if_neg (by rwa [beq_iff_eq])]
        rfl

theorem splitAt_joinWith {ps : List Text} (hne : ps ≠ []) (h : ∀ p ∈ ps, c ∉ p) :
    splitAt c (joinWith [c] ps) = ps := by
  rw [splitAt_eq_splitOn]
  exact List.splitOn_intercalate c h hne

theorem joinWith_singleton (sep p : Text) : joinWith sep [p] = p := List.intercalate_singleton

theorem joinWith_cons {ps : List Text} (hne : ps ≠ []) (sep p : Text) :
    joinWith sep (p :: ps) = p ++ (sep ++ joinWith sep ps) := by
  obtain ⟨q, qs, rfl⟩ := List.exists_cons_of_ne_nil hne
  unfold joinWith
  rw [List.intercalate_cons_cons, List.append_assoc]

theorem joinWith_append {ps qs : List Text} (hps : ps ≠ []) (hqs : qs ≠ []) (sep : Text) :
    joinWith sep (ps ++ qs) = joinWith sep ps ++ (sep ++ joinWith sep qs) := by
  induction ps with
  | nil => exact absurd rfl hps
  | cons p ps ih =>
      cases ps with
      | nil => rw [joinWith_singleton, List.singleton_append, joinWith_cons hqs]
      | cons p' ps =>
          rw [List.cons_append, joinWith_cons (by simp), ih (List.cons_ne_nil p' ps),
            joinWith_cons (List.cons_ne_nil p' ps)]
          simp only [List.append_assoc]

/-- The parts between the occurrences of a character, with another one between them: the character is
exchanged. -/
theorem joinWith_splitAt (c d : Char) (t : Text) :
    joinWith [d] (splitAt c t) = t.map fun e => if e = c then d else e := by
  induction t with
  | nil => rfl
  | cons e t ih =>
      obtain ⟨p, ps, hps⟩ := List.exists_cons_of_ne_nil (splitAt_ne_nil c t)
      rw [splitAt, List.map_cons, ← ih]
      by_cases h : e = c
      · rw [if_pos h, if_pos h, joinWith_cons (splitAt_ne_nil c t)]
        rfl
      · rw [if_neg h, if_neg h, hps]
        cases ps with
        | nil => rw [joinWith_singleton, joinWith_singleton]
        | cons q qs =>
            rw [joinWith_cons (List.cons_ne_nil q qs), joinWith_cons (List.cons_ne_nil q qs)]
            rfl

end Text

namespace Path

variable {p : Text}

/-- What joining puts between a directory and a relative path. -/
def separator (base : Text) : Text :=
  if base.isEmpty || base.getLast? = some '/' then [] else ['/']

theorem join_eq (hp : isAbsolute p = false) (base : Text) :
    join base p = base ++ separator base ++ p := by
  unfold join separator
  rw [if_neg (by rw [hp]; exact Bool.false_ne_true)]
  split
  · rw [List.append_nil]
  · rw [List.append_assoc]
    rfl

theorem separator_append (hne : p ≠ []) (hp : p.getLast? ≠ some '/') (base : Text) :
    separator (base ++ p) = ['/'] := by
  have hlast : (base ++ p).getLast? = p.getLast? := by
    rw [List.getLast?_append, Option.or_of_isSome (List.getLast?_isSome.mpr hne)]
  have hempty : (base ++ p).isEmpty = false :=
    List.isEmpty_eq_false_iff.mpr (List.append_ne_nil_of_right_ne_nil base hne)
  unfold separator
  rw [hempty, hlast, Bool.false_or, if_neg (by rwa [decide_eq_true_iff])]

/-- A part of a path that leads one level down. -/
structure IsName (p : Text) : Prop where
  ne_nil : p ≠ []
  notMem : '/' ∉ p
  ne_dot : p ≠ ['.']
  ne_dots : p ≠ ['.', '.']

/-- Some names, at least one. -/
structure AreNames (ps : List Text) : Prop where
  ne_nil : ps ≠ []
  isName : ∀ p ∈ ps, IsName p

variable {ps qs : List Text}

theorem IsName.areNames (h : IsName p) : AreNames [p] :=
  ⟨List.cons_ne_nil p [], fun q hq => by rwa [List.mem_singleton.mp hq]⟩

theorem AreNames.append (hps : AreNames ps) (hqs : AreNames qs) : AreNames (ps ++ qs) where
  ne_nil := List.append_ne_nil_of_left_ne_nil hps.ne_nil qs
  isName := fun p hp => (List.mem_append.mp hp).elim (hps.isName p) (hqs.isName p)

theorem AreNames.joinWith_ne_nil (h : AreNames ps) : Text.joinWith ['/'] ps ≠ [] := by
  obtain ⟨p, ps, rfl⟩ := List.exists_cons_of_ne_nil h.ne_nil
  have hp : p ≠ [] := (h.isName p List.mem_cons_self).ne_nil
  cases ps with
  | nil => rwa [Text.joinWith_singleton]
  | cons q qs =>
      rw [Text.joinWith_cons (List.cons_ne_nil q qs)]
      exact List.append_ne_nil_of_left_ne_nil hp _

/-- Names do not start at the root. -/
theorem AreNames.isAbsolute (h : AreNames ps) : isAbsolute (Text.joinWith ['/'] ps) = false := by
  obtain ⟨p, ps, rfl⟩ := List.exists_cons_of_ne_nil h.ne_nil
  have hp := h.isName p List.mem_cons_self
  obtain ⟨c, p, rfl⟩ := List.exists_cons_of_ne_nil hp.ne_nil
  have hc : c ≠ '/' := fun e => hp.notMem (by rw [e]; exact List.mem_cons_self)
  have hhead : (Text.joinWith ['/'] ((c :: p) :: ps)).head? = some c := by
    cases ps with
    | nil => rw [Text.joinWith_singleton, List.head?_cons]
    | cons q qs => rw [Text.joinWith_cons (List.cons_ne_nil q qs), List.cons_append, List.head?_cons]
  unfold Path.isAbsolute
  rw [hhead, decide_eq_false_iff_not, Option.some.injEq]
  exact hc

theorem AreNames.getLast?_ne (h : AreNames ps) :
    (Text.joinWith ['/'] ps).getLast? ≠ some '/' := by
  induction ps with
  | nil => exact absurd rfl h.ne_nil
  | cons p ps ih =>
      cases ps with
      | nil =>
          rw [Text.joinWith_singleton]
          exact fun hlast => (h.isName p List.mem_cons_self).notMem (List.mem_of_getLast? hlast)
      | cons q qs =>
          have hqs : AreNames (q :: qs) :=
            ⟨List.cons_ne_nil q qs, fun r hr => h.isName r (List.mem_cons_of_mem p hr)⟩
          rw [Text.joinWith_cons hqs.ne_nil, ← List.append_assoc, List.getLast?_append,
            Option.or_of_isSome (List.getLast?_isSome.mpr hqs.joinWith_ne_nil)]
          exact ih hqs

/-- Names joined to names are the names with a slash between each two. -/
theorem AreNames.join (hps : AreNames ps) (hqs : AreNames qs) (base : Text) :
    Path.join (base ++ Text.joinWith ['/'] ps) (Text.joinWith ['/'] qs) =
      base ++ Text.joinWith ['/'] (ps ++ qs) := by
  rw [join_eq hqs.isAbsolute, separator_append hps.joinWith_ne_nil hps.getLast?_ne,
    Text.joinWith_append hps.ne_nil hqs.ne_nil]
  simp only [List.append_assoc]

theorem AreNames.foldl_join (hps : AreNames ps) (hqs : ∀ q ∈ qs, IsName q) :
    qs.foldl Path.join (Text.joinWith ['/'] ps) = Text.joinWith ['/'] (ps ++ qs) := by
  induction qs generalizing ps with
  | nil => rw [List.append_nil, List.foldl_nil]
  | cons q qs ih =>
      have hq : AreNames [q] := (hqs q List.mem_cons_self).areNames
      have hjoin := hps.join hq []
      rw [Text.joinWith_singleton, List.nil_append, List.nil_append] at hjoin
      rw [List.foldl_cons, hjoin, ih (hps.append hq) fun r hr => hqs r (List.mem_cons_of_mem q hr),
        List.append_assoc, List.singleton_append]

theorem foldl_join_nil (h : ∀ p ∈ ps, IsName p) :
    ps.foldl Path.join [] = Text.joinWith ['/'] ps := by
  cases ps with
  | nil => rfl
  | cons p ps =>
      have hp : AreNames [p] := (h p List.mem_cons_self).areNames
      have hfold := hp.foldl_join fun q hq => h q (List.mem_cons_of_mem p hq)
      have habs := hp.isAbsolute
      rw [Text.joinWith_singleton] at hfold habs
      rw [List.foldl_cons, join_eq habs]
      exact hfold

/-! ### The last part -/

variable {q : Text}

theorem splitAt_append_name (hname : '/' ∉ p) (q : Text) :
    Text.splitAt '/' (q ++ '/' :: p) = Text.splitAt '/' q ++ [p] := by
  rw [Text.splitAt_eq_splitOn, Text.splitAt_eq_splitOn, List.splitOn_append_cons_self,
    List.splitOn_eq_singleton hname]

/-- The last part of a path names the file, unless it leads up. -/
theorem fileName?_of_last {parts : List Text} (hp : Text.splitAt '/' p = parts ++ [q]) (hne : q ≠ [])
    (hdot : q ≠ ['.']) : fileName? p = if q = ['.', '.'] then none else some q := by
  have hlast : (components p).getLast? = some q := by
    rw [components, hp, List.filter_append, List.filter_cons_of_pos (by simp [hne, hdot]),
      List.filter_nil, List.getLast?_concat]
  rw [fileName?, hlast, Option.filter_some]
  by_cases h : q = ['.', '.'] <;> simp [h]

/-- A path that ends in a name names that file. -/
theorem IsName.fileName?_append (h : IsName p) (q : Text) : fileName? (q ++ '/' :: p) = some p := by
  rw [fileName?_of_last (splitAt_append_name h.notMem q) h.ne_nil h.ne_dot, if_neg h.ne_dots]

theorem IsName.fileName?_join (h : IsName p) (hrel : isAbsolute (q ++ '/' :: p) = false)
    (base : Text) : fileName? (join base (q ++ '/' :: p)) = some p := by
  rw [join_eq hrel, ← List.append_assoc]
  exact h.fileName?_append _

end Path

end Graft
