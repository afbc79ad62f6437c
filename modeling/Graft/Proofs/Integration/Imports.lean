import Graft.Config
import Graft.Integration.Entry
import Graft.Proofs.Pattern.Words
import Graft.Proofs.Step.Insertion

/-! # The imports of the application entry

The lines for a package name are words on one line (`lineWord_of_mem_importLines`), so the step that
adds them leaves a text that has them all (`importsStep_cases`).  They are apart from other words
whatever the name is (`apart_importLines`). -/

namespace Graft

open Text (Insertion HasLine LineWord squeeze apart startsIn)
open Brace (Free)

variable {t package l w : Text} {new : List Text}

/-! ### Package names -/

theorem exists_mem_splitAt {sep c : Char} (h : c ∈ t) :
    c = sep ∨ ∃ part ∈ Text.splitAt sep t, c ∈ part := by
  induction t with
  | nil => simp at h
  | cons d t ih =>
      rw [Text.splitAt]
      split
      · next hd =>
          rcases List.mem_cons.mp h with rfl | h
          · exact .inl hd
          · exact (ih h).imp id fun ⟨part, hpart, hc⟩ => ⟨part, List.mem_cons_of_mem _ hpart, hc⟩
      · split
        · next hnil =>
            rcases List.mem_cons.mp h with rfl | h
            · exact .inr ⟨[c], by simp, by simp⟩
            · rcases ih h with h | ⟨part, hpart, -⟩
              · exact .inl h
              · rw [hnil] at hpart
                simp at hpart
        · next p ps hsplit =>
            rcases List.mem_cons.mp h with rfl | h
            · exact .inr ⟨c :: p, by simp, by simp⟩
            · rcases ih h with h | ⟨part, hpart, hc⟩
              · exact .inl h
              · rw [hsplit] at hpart
                rcases List.mem_cons.mp hpart with rfl | hpart
                · exact .inr ⟨d :: part, by simp, List.mem_cons_of_mem _ hc⟩
                · exact .inr ⟨part, List.mem_cons_of_mem _ hpart, hc⟩

/-- The characters of a package name. -/
theorem mem_packageName (h : AndroidConfig.isPackageName package) {c : Char} (hc : c ∈ package) :
    isAlphanumeric c || c == '_' || c == '.' := by
  have hsplit : c = '.' ∨ ∃ part ∈ Text.splitAt '.' package, c ∈ part := exists_mem_splitAt hc
  rcases hsplit with rfl | ⟨part, hpart, hc⟩
  · rfl
  · have hall := List.all_eq_true.mp h part hpart
    rw [Bool.and_eq_true] at hall
    have := List.all_eq_true.mp hall.2 c hc
    rw [this, Bool.true_or]

theorem notMem_packageName (h : AndroidConfig.isPackageName package) {c : Char}
    (hc : (isAlphanumeric c || c == '_' || c == '.') = false) : c ∉ package := by
  intro hm
  rw [mem_packageName h hm] at hc
  simp at hc

namespace Entry

/-! ### The lines -/

/-- The import lines for a package. -/
def importLines (package : Text) : List Text := [
  "import com.microsoft.codepush.react.CodePush".toList,
  "import ".toList ++ package ++ ".R".toList,
  "import android.util.Log".toList]

variable (hp : AndroidConfig.isPackageName package)

include hp

theorem notMem_importLines {c : Char} (hc : (isAlphanumeric c || c == '_' || c == '.') = false)
    (hspace : c ≠ ' ') (hl : l ∈ importLines package) : c ∉ l := by
  have hchars : ∀ s : Text, (s.all fun d => isAlphanumeric d || d == '_' || d == '.' || d == ' ') →
      c ∉ s := by
    intro s hs hm
    have := List.all_eq_true.mp hs c hm
    rw [hc, Bool.false_or, beq_iff_eq] at this
    exact hspace this
  simp only [importLines, List.mem_cons, List.not_mem_nil, or_false] at hl
  rcases hl with rfl | rfl | rfl
  · exact hchars _ (by decide)
  · simp only [List.mem_append, not_or]
    exact ⟨⟨hchars _ (by decide), notMem_packageName hp hc⟩, hchars _ (by decide)⟩
  · exact hchars _ (by decide)

theorem lineWord_of_mem_importLines (hl : l ∈ importLines package) : LineWord l := by
  refine ⟨notMem_importLines hp (by decide) (by decide) hl, ?_⟩
  simp only [importLines, List.mem_cons, List.not_mem_nil, or_false] at hl
  rcases hl with rfl | rfl | rfl
  · decide
  · have e : "import ".toList ++ package ++ ".R".toList =
        "import".toList ++ (' ' :: package) ++ ".R".toList := rfl
    rw [e]
    exact Pattern.tight_append (by decide) (by decide)
  · decide

theorem free_of_mem_importLines (hl : l ∈ importLines package) : Free l :=
  ⟨notMem_importLines hp (by decide) (by decide) hl,
    notMem_importLines hp (by decide) (by decide) hl⟩

omit hp in
theorem squeeze_importLine (hl : l ∈ importLines package) :
    ∃ y z r, (z = "CodePush".toList ∨ z = ".R".toList ∨ z = "Log".toList) ∧ squeeze l = y ++ z ∧
      squeeze l = "import".toList ++ r := by
  simp only [importLines, List.mem_cons, List.not_mem_nil, or_false] at hl
  rcases hl with rfl | rfl | rfl
  · exact ⟨"importcom.microsoft.codepush.react.".toList, "CodePush".toList,
      "com.microsoft.codepush.react.CodePush".toList, .inl rfl, by decide, by decide⟩
  · refine ⟨"import".toList ++ squeeze package, ".R".toList, squeeze package ++ ".R".toList,
      .inr (.inl rfl), ?_, ?_⟩
    · rw [Text.squeeze_append, Text.squeeze_append]
      rfl
    · rw [Text.squeeze_append, Text.squeeze_append, List.append_assoc]
      rfl
  · exact ⟨"importandroid.util.".toList, "Log".toList, "android.util.Log".toList, .inr (.inr rfl),
      by decide, by decide⟩

omit hp in
/-- Words that no selection of the lines can overlap, whatever the package is. -/
def ApartFromImports (w : Text) : Prop :=
  startsIn "import".toList w = false ∧ '(' ∈ w ∧
    ∀ z, z = "CodePush".toList ∨ z = ".R".toList ∨ z = "Log".toList →
      startsIn w z = false ∧ ¬z <:+: w

theorem apart_importLines (hw : ApartFromImports w) (hnew : ∀ l ∈ new, l ∈ importLines package)
    (hne : new ≠ []) : apart w (squeeze new.flatten) := by
  have hopen : '(' ∉ squeeze new.flatten := by
    intro hm
    obtain ⟨l, hl, hm⟩ := List.mem_flatten.mp (List.mem_filter.mp hm).1
    exact notMem_importLines hp (by decide) (by decide) (hnew l hl) hm
  rw [apart, Bool.and_eq_true, Bool.not_eq_true', Bool.not_eq_true']
  constructor
  · obtain rfl | ⟨init, l, rfl⟩ := List.eq_nil_or_concat new
    · exact absurd rfl hne
    · obtain ⟨y, z, r, hz, e, -⟩ := squeeze_importLine (hnew l (by simp))
      have e' : squeeze (init.concat l).flatten = (squeeze init.flatten ++ y) ++ z := by
        rw [List.concat_eq_append, List.flatten_append, List.flatten_singleton, Text.squeeze_append, e, List.append_assoc]
      rw [e'] at hopen ⊢
      exact Text.startsIn_append_right hw.2.1 hopen (hw.2.2 z hz).1 (hw.2.2 z hz).2
  · obtain ⟨l, rest, rfl⟩ := List.exists_cons_of_ne_nil hne
    obtain ⟨y, z, r, -, -, e⟩ := squeeze_importLine (hnew l (List.mem_cons_self ..))
    rw [List.flatten_cons, Text.squeeze_append, e, List.append_assoc]
    exact Text.startsIn_append_left hw.1 _

theorem isBalanced_importLines (hnew : ∀ l ∈ new, l ∈ importLines package) :
    Brace.isBalanced (squeeze new.flatten) := by
  have hfree : ∀ c : Char, (∀ l ∈ new, c ∉ l) → c ∉ squeeze new.flatten := by
    intro c h hm
    obtain ⟨l, hl, hc⟩ := List.mem_flatten.mp (List.mem_filter.mp hm).1
    exact h l hl hc
  have h : Free (squeeze new.flatten) :=
    ⟨hfree _ fun l hl => (free_of_mem_importLines hp (hnew l hl)).1,
      hfree _ fun l hl => (free_of_mem_importLines hp (hnew l hl)).2⟩
  exact h.isBalanced

/-! ### The step -/

omit hp in
theorem exists_atLine_of_importsStep (package t : Text) :
    ∃ a p q, resolve? (importsStep Payload.standard package).chain t = some a ∧
      PlaceAt t p q a.place ∧ AtLine p q := by
  refine exists_atLine_of_fileStart ?_ ⟨.fileStart "file-start", by simp [importsStep], rfl⟩ t
  simp only [importsStep, List.mem_cons, List.not_mem_nil, or_false]
  rintro r (rfl | rfl | rfl) <;> trivial

/-- Lines come in, those of the imports that are missing. -/
def ImportsIn (package : Text) (t t' : Text) : Prop :=
  ∃ new p lead indent q, new ≠ [] ∧ (∀ l ∈ new, l ∈ importLines package) ∧ AtLine p q ∧
    Insertion new p lead indent q t t'

theorem importsStep_cases (t : Text) (sink : Sink) :
    (((importsStep Payload.standard package).apply t sink).1 = t ∨
      ImportsIn package t ((importsStep Payload.standard package).apply t sink).1) ∧
    ∀ l ∈ importLines package,
      HasLine l ((importsStep Payload.standard package).apply t sink).1 := by
  have hlines : (importsStep Payload.standard package).linesFor t = importLines package := rfl
  have hwords : ∀ l ∈ (importsStep Payload.standard package).linesFor t, LineWord l :=
    fun l hl => lineWord_of_mem_importLines hp hl
  by_cases hall : ∀ l ∈ importLines package, HasLine l t
  · rw [LinesStep.apply_of_present hwords (.inr hall)]
    exact ⟨.inl rfl, hall⟩
  · obtain ⟨a, p, q, ha, hat, hline⟩ := exists_atLine_of_importsStep package t
    obtain ⟨l, hl, hmissing⟩ : ∃ l ∈ importLines package, ¬HasLine l t := by
      simpa using hall
    obtain ⟨new, lead, hmem, hins⟩ := LinesStep.apply_of_missing hwords (by simp [importsStep])
      ⟨l, hl, hmissing⟩ ha hat (Edge.break (.inl hline)) sink
    refine ⟨.inr ⟨new, p, lead, _, q, List.ne_nil_of_mem ((hmem l).mpr ⟨hl, hmissing⟩),
      fun l hl => ((hmem l).mp hl).1, hline, hins⟩, fun l hl => ?_⟩
    exact hasLine_of_missing hwords (fun l hl => free_of_mem_importLines hp hl) hmem hins hl

theorem importsStep_of_hasLine {t : Text} (h : ∀ l ∈ importLines package, HasLine l t)
    (sink : Sink) : ((importsStep Payload.standard package).apply t sink).1 = t := by
  have hwords : ∀ l ∈ (importsStep Payload.standard package).linesFor t, LineWord l :=
    fun l hl => lineWord_of_mem_importLines hp hl
  exact LinesStep.apply_of_present hwords (.inr h) sink

end Entry

end Graft
