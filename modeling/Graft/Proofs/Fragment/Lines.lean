import Graft.Proofs.Fragment

/-! # Which lines come in

At a place where a line starts, `ensureLines` adds one run of lines and leaves the others as they are:
the lines asked for that the text lacks, each once and in the order in which they were asked for
(`newLines_eq`, `map_trim_lines_splice`).  Hence it finds nothing to add the second time
(`ensureLines_adds`). -/

namespace Graft

open Text (AtLineStart LineWord)

variable {t p q x indent : Text} {ls seen : List Text} {place : Place} {chain : List Recognizer}

/-! ### Missing lines -/

/-- The lines asked for that a text lacks, each once. -/
def missingLines (ls : List Text) (t : Text) : List Text :=
  ((ls.map Text.trim).filter fun l => !l.isEmpty && !(t.lines.map Text.trim).contains l).eraseDups

theorem newLines_eq (seen ls : List Text) :
    newLines seen ls = (ls.filter fun l => !l.isEmpty && !seen.contains l).eraseDups := by
  induction ls generalizing seen with
  | nil => rfl
  | cons l ls ih =>
      unfold newLines
      by_cases hl : (l.isEmpty || seen.contains l) = true
      · rw [if_pos hl, ih, List.filter_cons_of_neg]
        rwa [← Bool.not_or, Bool.not_eq_true', Bool.not_eq_false]
      · rw [if_neg hl, ih, List.filter_cons_of_pos, List.eraseDups_cons, List.filter_filter]
        · refine congrArg (fun ls => l :: List.eraseDups ls) (List.filter_congr fun m _ => ?_)
          rw [List.contains_cons, Bool.not_or, Bool.and_left_comm]
        · rw [← Bool.not_or, Bool.not_eq_true', ← Bool.not_eq_true]
          exact hl

theorem mem_missingLines {l : Text} :
    l ∈ missingLines ls t ↔ l ∈ ls.map Text.trim ∧ l ≠ [] ∧ l ∉ t.lines.map Text.trim := by
  unfold missingLines
  rw [← newLines_eq, mem_newLines]

/-- Lines without a newline are trimmed to words. -/
theorem lineWord_of_mem_missingLines (hls : ∀ l ∈ ls, '\n' ∉ l) {l : Text}
    (hl : l ∈ missingLines ls t) : LineWord l := by
  obtain ⟨hmem, hne, -⟩ := mem_missingLines.mp hl
  obtain ⟨m, hm, rfl⟩ := List.mem_map.mp hmem
  obtain ⟨v, v', e, -, -⟩ := Text.exists_trim m
  refine ⟨fun hnl => hls m hm ?_, Text.tight_trim fun hblank => hne (Text.trim_of_isBlank hblank)⟩
  rw [e]
  exact List.mem_append_left _ (List.mem_append_right _ hnl)

/-! ### The place -/

/-- A newline behind the last line adds no line. -/
theorem Text.map_trim_lines_concat (hx : ¬AtLineStart x) :
    (x ++ ['\n']).lines.map trim = x.lines.map trim := by
  obtain ⟨y, l, rfl, hy, hl⟩ := exists_lineStart x
  have hne : l ≠ [] := by
    rintro rfl
    exact hx (by rwa [List.append_nil])
  rw [List.append_assoc, map_trim_lines_append hy, map_trim_lines_append hy,
    map_trim_lines_newline hl, map_trim_lines_line hl hne]
  rfl

/-- Lines that come in where a line starts, or at the end, are a run among the lines of the text. -/
theorem map_trim_lines_splice (hat : PlaceAt t p q place) (hline : AtLine p q)
    (hls : ∀ l ∈ ls, LineWord l) (hne : ls ≠ []) :
    t.lines.map Text.trim = p.lines.map Text.trim ++ q.lines.map Text.trim ∧
      (splice t place.insertAt (Text.joinLines ls) place.indent false).lines.map Text.trim =
        p.lines.map Text.trim ++ ls ++ q.lines.map Text.trim := by
  have htake : t.take place.insertAt = p := by
    rw [hat.insertAt_eq, hat.split, List.take_left]
  have hdrop : t.drop place.insertAt = q := by
    rw [hat.insertAt_eq, hat.split, List.drop_left]
  have hrun : (Text.reindent (Text.joinLines ls) place.indent ++ '\n' :: q).lines.map Text.trim =
      ls ++ q.lines.map Text.trim := by
    rw [Text.reindent_joinLines (Text.body_of_lineWords hls hne),
      Text.map_trim_lines_joinLines hat.allIndent (fun l hl => (hls l hl).1) hne,
      map_trim_of_lineWords hls]
  unfold splice
  simp only [htake, hdrop, Bool.not_false, Bool.true_or, if_true, List.append_nil]
  by_cases hp : AtLineStart p
  · have hnewline : (p.isEmpty || decide (p.getLast? = some '\n')) = true := by
      rwa [Bool.or_eq_true, List.isEmpty_iff, decide_eq_true_eq]
    rw [if_pos hnewline, List.append_nil, List.append_assoc p, Text.map_trim_lines_append hp, hrun,
      hat.split, Text.map_trim_lines_append hp, List.append_assoc]
    exact ⟨rfl, rfl⟩
  · -- the last line of the text has no newline
    obtain rfl := hline.resolve_left hp
    have hnewline : ¬(p.isEmpty || decide (p.getLast? = some '\n')) = true := by
      rwa [Bool.or_eq_true, List.isEmpty_iff, decide_eq_true_eq]
    rw [if_neg hnewline, List.append_assoc (p ++ ['\n']),
      Text.map_trim_lines_append (Text.atLineStart_newline p), hrun, Text.map_trim_lines_concat hp,
      hat.split]
    simp [Text.lines, Text.pieces]

/-! ### Adding lines -/

/-- Nothing is missing, or there is no place, or what is missing comes in. -/
theorem ensureLines_outcomes (ls alternates : List Text) (chain : List Recognizer) (t : Text) :
    (((∃ a ∈ alternates, a ≠ [] ∧ a <:+: t) ∨ missingLines ls t = []) ∧
        ensureLines ls alternates chain t = ⟨t, .alreadyPresent⟩) ∨
      ¬((∃ a ∈ alternates, a ≠ [] ∧ a <:+: t) ∨ missingLines ls t = []) ∧
        (resolve? chain t = none ∧ ensureLines ls alternates chain t = ⟨t, .anchorNotFound⟩ ∨
          ∃ a, resolve? chain t = some a ∧ ensureLines ls alternates chain t =
            ⟨splice t a.place.insertAt (Text.joinLines (missingLines ls t)) a.place.indent false,
              .inserted a.recognizer⟩) := by
  have hany : (alternates.any fun a => !a.isEmpty && a.occursIn t) = true ↔
      ∃ a ∈ alternates, a ≠ [] ∧ a <:+: t := by
    rw [List.any_eq_true]
    simp only [Bool.and_eq_true, Bool.not_eq_true', List.isEmpty_eq_false_iff, Text.occursIn_iff]
  unfold ensureLines
  rw [newLines_eq, ← missingLines, ← hany]
  simp only [List.isEmpty_iff]
  split
  · next halt => exact .inl ⟨.inl halt, rfl⟩
  · next halt =>
      split
      · next hmissing => exact .inl ⟨.inr hmissing, rfl⟩
      · next hmissing =>
          refine .inr ⟨fun h => h.elim halt hmissing, ?_⟩
          cases ha : resolve? chain t with
          | none => exact .inl ⟨rfl, inject_none rfl rfl⟩
          | some a => exact .inr ⟨a, rfl, inject_some rfl rfl⟩

theorem ensureLines_inserted_iff (ls alternates : List Text) (chain : List Recognizer) (t : Text) :
    (∃ name, (ensureLines ls alternates chain t).outcome = .inserted name) ↔
      (∀ a ∈ alternates, a <:+: t → a = []) ∧ missingLines ls t ≠ [] ∧
        (resolve? chain t).isSome := by
  obtain ⟨hpresent, heq⟩ | ⟨hmissing, ⟨hnone, heq⟩ | ⟨a, ha, heq⟩⟩ :=
    ensureLines_outcomes ls alternates chain t
  · rw [heq]
    refine iff_of_false (fun ⟨_, h⟩ => InjectionOutcome.noConfusion h) ?_
    rintro ⟨halt, hne, -⟩
    obtain ⟨a, ha, h0, hin⟩ | hnil := hpresent
    · exact h0 (halt a ha hin)
    · exact hne hnil
  · rw [heq, hnone]
    exact iff_of_false (fun ⟨_, h⟩ => InjectionOutcome.noConfusion h) fun h => by simp at h
  · rw [heq, ha]
    refine iff_of_true ⟨_, rfl⟩ ⟨fun a ha hin => ?_, fun hnil => hmissing (.inr hnil), rfl⟩
    exact Classical.byContradiction fun h0 => hmissing (.inl ⟨a, ha, h0, hin⟩)

/-- When nothing comes in, the text stays as it is. -/
theorem ensureLines_text_of_not_inserted {alternates : List Text}
    (h : ∀ name, (ensureLines ls alternates chain t).outcome ≠ .inserted name) :
    (ensureLines ls alternates chain t).text = t := by
  obtain ⟨-, heq⟩ | ⟨-, ⟨-, heq⟩ | ⟨a, -, heq⟩⟩ := ensureLines_outcomes ls alternates chain t
  · rw [heq]
  · rw [heq]
  · exact absurd (congrArg Injection.outcome heq) (h _)

/-- What comes in is one run of lines. -/
theorem exists_run_of_inserted (hls : ∀ l ∈ ls, '\n' ∉ l)
    (hchain : ∀ r ∈ chain, r.locator.BetweenLines) {alternates : List Text} {name : String}
    (h : (ensureLines ls alternates chain t).outcome = .inserted name) :
    ∃ ls1 ls2, t.lines.map Text.trim = ls1 ++ ls2 ∧
      (ensureLines ls alternates chain t).text.lines.map Text.trim =
        ls1 ++ missingLines ls t ++ ls2 := by
  obtain ⟨-, heq⟩ | ⟨hmissing, ⟨-, heq⟩ | ⟨a, ha, heq⟩⟩ :=
    ensureLines_outcomes ls alternates chain t
  · rw [heq] at h
    exact InjectionOutcome.noConfusion h
  · rw [heq] at h
    exact InjectionOutcome.noConfusion h
  · obtain ⟨r, hr, hrec⟩ := exists_mem_of_resolve? ha
    obtain ⟨p, q, hat, hline⟩ := Locator.exists_atLine (hchain r hr) (find?_of_recognize? hrec)
    rw [heq]
    exact ⟨_, _, map_trim_lines_splice hat hline (fun l hl => lineWord_of_mem_missingLines hls hl)
      fun hnil => hmissing (.inr hnil)⟩

theorem missingLines_eq_nil_of_run {t' : Text} {ls1 ls2 : List Text}
    (ht : t.lines.map Text.trim = ls1 ++ ls2)
    (ht' : t'.lines.map Text.trim = ls1 ++ missingLines ls t ++ ls2) : missingLines ls t' = [] := by
  rw [List.eq_nil_iff_forall_not_mem]
  intro l hl
  obtain ⟨hmem, hne, hnew⟩ := mem_missingLines.mp hl
  rw [ht', List.mem_append, List.mem_append] at hnew
  have hold : l ∉ t.lines.map Text.trim := by
    rw [ht, List.mem_append]
    exact fun h => hnew (h.elim (fun h => .inl (.inl h)) .inr)
  exact hnew (.inl (.inr (mem_missingLines.mpr ⟨hmem, hne, hold⟩)))

/-- The second time nothing comes in. -/
theorem ensureLines_again (hls : ∀ l ∈ ls, '\n' ∉ l)
    (hchain : ∀ r ∈ chain, r.locator.BetweenLines) (alternates : List Text) (t : Text) :
    (ensureLines ls alternates chain (ensureLines ls alternates chain t).text).text =
      (ensureLines ls alternates chain t).text := by
  by_cases h : ∃ name, (ensureLines ls alternates chain t).outcome = .inserted name
  · obtain ⟨name, hname⟩ := h
    obtain ⟨ls1, ls2, ht, ht'⟩ := exists_run_of_inserted hls hchain hname
    have hnil := missingLines_eq_nil_of_run ht ht'
    obtain ⟨-, heq⟩ | ⟨hmissing, -⟩ :=
      ensureLines_outcomes ls alternates chain (ensureLines ls alternates chain t).text
    · rw [heq]
    · exact absurd (.inr hnil) hmissing
  · have htext : (ensureLines ls alternates chain t).text = t :=
      ensureLines_text_of_not_inserted fun name hname => h ⟨name, hname⟩
    rw [htext, htext]

/-- When lines come in, the text gains one run of lines, exactly those that it lacks; otherwise it
stays as it is.  The second time nothing comes in. -/
theorem ensureLines_adds (hls : ∀ l ∈ ls, '\n' ∉ l) (hchain : ∀ r ∈ chain, r.locator.BetweenLines)
    (alternates : List Text) (t : Text) :
    ((∃ name, (ensureLines ls alternates chain t).outcome = .inserted name) ↔
        (∀ a ∈ alternates, a <:+: t → a = []) ∧ missingLines ls t ≠ [] ∧
          (resolve? chain t).isSome) ∧
      ((∃ name, (ensureLines ls alternates chain t).outcome = .inserted name) →
        ∃ ls1 ls2, t.lines.map Text.trim = ls1 ++ ls2 ∧
          (ensureLines ls alternates chain t).text.lines.map Text.trim =
            ls1 ++ missingLines ls t ++ ls2) ∧
      ((∀ name, (ensureLines ls alternates chain t).outcome ≠ .inserted name) →
        (ensureLines ls alternates chain t).text = t) ∧
      (ensureLines ls alternates chain (ensureLines ls alternates chain t).text).text =
        (ensureLines ls alternates chain t).text :=
  ⟨ensureLines_inserted_iff ls alternates chain t,
    fun ⟨_, hname⟩ => exists_run_of_inserted hls hchain hname,
    ensureLines_text_of_not_inserted, ensureLines_again hls hchain alternates t⟩

/-- Two lines, the first with a carriage return before its newline, the last without a newline. -/
def twoImports : Text := "import a\r\nimport b".toList

/-- One line that is new, asked for twice, one that is there, and a blank one. -/
def moreImports : List Text :=
  ["import c ".toList, "import a".toList, "  import c".toList, " ".toList]

theorem ensureLines_adds_twoImports :
    ∃ ls1 ls2, twoImports.lines.map Text.trim = ls1 ++ ls2 ∧
      (ensureLines moreImports ["import d".toList]
        [⟨"imports", .lastImportLine, .lastLineWith ["import".toList]⟩]
        twoImports).text.lines.map Text.trim = ls1 ++ ["import c".toList] ++ ls2 := by
  have hls : ∀ l ∈ moreImports, '\n' ∉ l := by decide
  have hchain : ∀ r ∈ [(⟨"imports", .lastImportLine, .lastLineWith ["import".toList]⟩ : Recognizer)],
      r.locator.BetweenLines := fun r hr => by
    obtain rfl := List.mem_singleton.mp hr
    trivial
  have hmissing : missingLines moreImports twoImports = ["import c".toList] := by decide +kernel
  obtain ⟨hiff, hrun, -⟩ := ensureLines_adds hls hchain ["import d".toList] twoImports
  rw [hmissing] at hiff hrun
  exact hrun (hiff.mpr ⟨by decide +kernel, by decide, by decide +kernel⟩)

end Graft
