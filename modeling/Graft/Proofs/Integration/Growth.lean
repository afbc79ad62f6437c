import Graft.Proofs.Integration.Entry
import Graft.Proofs.Step.Balance
import Graft.Proofs.Text.Grow

/-! # What a run keeps of the application entry

Each step inserts at most one text, and only one of them, and only one declaration, is rewritten
(`grown_of_mem_steps`).  The lines that come in before that are apart from the declaration, so it was
one of the input, and rewriting it there gives the same (`Rewrites.pull`).  The output is the input
with at most one declaration rewritten and at most four texts inserted, and its braces match exactly
when those of the input do (`run_grown`). -/

namespace Graft.Entry

open Pattern
open Text (Insertion Grows squeeze apart block)
open Brace (isBalanced)

variable {package t t' before old new after : Text} {n : Nat}

/-- Between the two texts stands a declaration of an immutable list, which becomes one of a mutable
list, or nothing, which stays. -/
def Rewrites (before old new after : Text) : Prop :=
  old = [] ∧ new = [] ∨
    immutablePackages.Spans before old after ∧ new = Payload.standard.androidMutablePackages

/-- At most one declaration has been rewritten and at most `n` texts have come in. -/
def Grown (n : Nat) (t t' : Text) : Prop :=
  ∃ before old new after, t = before ++ old ++ after ∧ Rewrites before old new after ∧
    Grows n (before ++ new ++ after) t'

theorem grown_of_grows (h : Grows n t t') : Grown n t t' :=
  ⟨t, [], [], [], by simp, .inl ⟨rfl, rfl⟩, by simpa using h⟩

theorem Rewritten.rewrites (h : Rewritten t t') : ∃ before old new after,
    t = before ++ old ++ after ∧ Rewrites before old new after ∧ t' = before ++ new ++ after := by
  obtain ⟨before, old, after, ht, hold, -, ht'⟩ := h
  exact ⟨before, old, _, after, ht, .inr ⟨hold, rfl⟩, ht'⟩

/-! ### Lines that come in -/

/-- Lines have come in that are apart from the declaration and have balanced braces, or none. -/
def Extends (t t' : Text) : Prop :=
  t' = t ∨ ∃ ls p lead indent q, Insertion ls p lead indent q t t' ∧
    apart immutableWord (squeeze ls.flatten) ∧ isBalanced (squeeze ls.flatten)

theorem Extends.grows (h : Extends t t') : Grows 1 t t' := by
  rcases h with rfl | ⟨ls, p, lead, indent, q, hins, -, -⟩
  · exact .refl 1 t'
  · rw [hins.source, hins.target]
    exact .one p _ q

theorem Extends.isBalanced_eq (h : Extends t t') : isBalanced t' = isBalanced t := by
  rcases h with rfl | ⟨ls, p, lead, indent, q, hins, -, hbal⟩
  · rfl
  · exact hins.isBalanced_eq hbal

/-- A declaration that is rewritten behind lines that came in could have been rewritten before. -/
theorem Rewrites.pull (h : Rewrites before old new after) (hext : Extends t t')
    (e : t' = before ++ old ++ after) : ∃ before' after', t = before' ++ old ++ after' ∧
      Rewrites before' old new after' ∧
      Grows 1 (before' ++ new ++ after') (before ++ new ++ after) := by
  rcases hext with rfl | ⟨ls, p, lead, indent, q, hins, hapart, -⟩
  · exact ⟨before, after, e, h, .refl 1 _⟩
  · rcases h with ⟨rfl, rfl⟩ | ⟨hold, rfl⟩
    · refine ⟨p, q, by simpa using hins.source, .inl ⟨rfl, rfl⟩, ?_⟩
      rw [← e, hins.target, List.append_nil]
      exact .one p _ q
    · obtain ⟨hsqueeze, htight⟩ := squeezes_immutablePackages before old after hold
      have hne : old ≠ [] := by
        obtain ⟨c, v, rfl, -⟩ := htight.exists_head
        exact List.cons_ne_nil c v
      have e' : p ++ block lead indent ls ++ q = before ++ old ++ after := by
        rw [← hins.target, e]
      have huntouched : immutablePackages.Untouched p (block lead indent ls) q := by
        refine squeezes_immutablePackages.untouched ?_
        rw [Text.squeeze_block hins.newlines hins.allIndent]
        exact hapart
      rcases exists_moved e' hne (huntouched before old after e' hold) [] with
        ⟨z, rfl, -, -⟩ | ⟨z, rfl, rfl, -, -⟩
      · have hz : after = z ++ block lead indent ls ++ q := by
          simpa using e'.symm
        refine ⟨before, z ++ q, by rw [hins.source]; simp,
          .inr ⟨hold.plain plain_immutablePackages _ _, rfl⟩, ?_⟩
        rw [hz]
        have hone := Grows.one (before ++ Payload.standard.androidMutablePackages ++ z)
          (block lead indent ls) q
        simpa only [List.append_assoc] using hone
      · refine ⟨p ++ z, after, by rw [hins.source]; simp,
          .inr ⟨hold.plain plain_immutablePackages _ _, rfl⟩, ?_⟩
        have hone := Grows.one p (block lead indent ls)
          (z ++ Payload.standard.androidMutablePackages ++ after)
        simpa only [List.append_assoc] using hone

/-! ### The steps -/

theorem extends_withImports (hp : AndroidConfig.isPackageName package) (t : Text) :
    Extends t (withImports package t) := by
  rcases (importsStep_cases hp t .empty).1 with e | ⟨ls, p, lead, indent, q, hne, hls, -, hins⟩
  · exact .inl e
  · exact .inr ⟨ls, p, lead, indent, q, hins, apart_importLines hp apartFromImports_immutableWord hls hne,
      isBalanced_importLines hp hls⟩

theorem extends_withStartUp (t : Text) : Extends t (withStartUp t) :=
  (withStartUp_cases t).imp id fun ⟨p, lead, indent, q, hins⟩ =>
    ⟨_, p, lead, indent, q, hins, isPiece_startUp.apart _ (by simp), isPiece_startUp.balanced⟩

theorem extends_withAccessor (t : Text) : Extends t (withAccessor t) :=
  (withAccessor_cases t).imp id fun ⟨p, lead, indent, q, _, hins⟩ =>
    ⟨_, p, lead, indent, q, hins, isPiece_accessor.apart _ (by simp), isPiece_accessor.balanced⟩

theorem withRegistration_rewrites (t : Text) : ∃ before old new after,
    t = before ++ old ++ after ∧ Rewrites before old new after ∧
      Extends (before ++ new ++ after) (withRegistration t) := by
  obtain ⟨t1, ht1, hcases⟩ := withRegistration_cases t
  have hext : Extends t1 (withRegistration t) := hcases.imp id fun ⟨p, lead, indent, q, hins⟩ =>
    ⟨_, p, lead, indent, q, hins, isPiece_registration.apart _ (by simp),
      isPiece_registration.balanced⟩
  rcases ht1 with rfl | h
  · exact ⟨t1, [], [], [], by simp, .inl ⟨rfl, rfl⟩, by simpa using hext⟩
  · obtain ⟨before, old, new, after, ht, hold, rfl⟩ := h.rewrites
    exact ⟨before, old, new, after, ht, hold, hext⟩

theorem Rewrites.isBalanced_eq (h : Rewrites before old new after) :
    isBalanced (before ++ new ++ after) = isBalanced (before ++ old ++ after) := by
  rcases h with ⟨rfl, rfl⟩ | ⟨hold, rfl⟩
  · rfl
  · have hfree : ∀ {s : Text}, IsDeclaration s → isBalanced s := fun h => h.free.isBalanced
    rw [isBalanced, isBalanced, Brace.closes_insert (hfree (.inl ⟨_, _, hold⟩)),
      Brace.closes_insert (hfree (.inr rfl))]

/-- Whatever a step finds, it rewrites at most one declaration and inserts at most one text. -/
theorem grown_of_mem_steps (hp : AndroidConfig.isPackageName package) {s : Step}
    (hs : s ∈ (pipeline Payload.standard package).steps) (t : Text) (sink : Sink) :
    Grown 1 t (s.apply t sink).1 := by
  rw [(contract_of_mem_pipeline package s hs).independent t sink .empty]
  simp only [pipeline, List.mem_cons, List.not_mem_nil, or_false] at hs
  rcases hs with rfl | rfl | rfl | rfl
  · exact grown_of_grows (extends_withImports hp t).grows
  · exact grown_of_grows (extends_withStartUp t).grows
  · obtain ⟨before, old, new, after, ht, h, hext⟩ := withRegistration_rewrites t
    exact ⟨before, old, new, after, ht, h, hext.grows⟩
  · exact grown_of_grows (extends_withAccessor t).grows

/-! ### A run -/

theorem isBalanced_withAll (hp : AndroidConfig.isPackageName package) (t : Text) :
    isBalanced (withAll package t) = isBalanced t := by
  obtain ⟨before, old, new, after, ht, h, hext⟩ :=
    withRegistration_rewrites (withStartUp (withImports package t))
  calc isBalanced (withAll package t)
      = isBalanced (withRegistration (withStartUp (withImports package t))) :=
        (extends_withAccessor _).isBalanced_eq
    _ = isBalanced (before ++ new ++ after) := hext.isBalanced_eq
    _ = isBalanced (withStartUp (withImports package t)) := by rw [h.isBalanced_eq, ← ht]
    _ = isBalanced (withImports package t) := (extends_withStartUp _).isBalanced_eq
    _ = isBalanced t := (extends_withImports hp t).isBalanced_eq

/-- A run of all four steps: the declaration that is rewritten, if any, is one of the input. -/
theorem withAll_grows (hp : AndroidConfig.isPackageName package) (t : Text) :
    ∃ before old new after, t = before ++ old ++ after ∧ Rewrites before old new after ∧
      Grows 4 (before ++ new ++ after) (withAll package t) := by
  obtain ⟨b, old, new, a, ht, h, hext⟩ :=
    withRegistration_rewrites (withStartUp (withImports package t))
  obtain ⟨b1, a1, ht1, h1, hgrows1⟩ := h.pull (extends_withStartUp _) ht
  obtain ⟨b0, a0, ht0, h0, hgrows0⟩ := h1.pull (extends_withImports hp t) ht1
  exact ⟨b0, old, new, a0, ht0, h0,
    ((hgrows0.trans hgrows1).trans hext.grows).trans (extends_withAccessor _).grows⟩

/-- No step does more than rewrite one declaration and insert one text.  A run rewrites at most one
declaration of the input and inserts at most four texts, so that all other characters stay in their
order, and it leaves the braces balanced or unbalanced as they were. -/
theorem run_grown (hp : AndroidConfig.isPackageName package) (t : Text) (sink : Sink) :
    (∀ s ∈ (pipeline Payload.standard package).steps, ∀ t sink, Grown 1 t (s.apply t sink).1) ∧
    (∃ before old new after, t = before ++ old ++ after ∧ Rewrites before old new after ∧
      Grows 4 (before ++ new ++ after) ((pipeline Payload.standard package).run t sink).1 ∧
      (before ++ after).Sublist ((pipeline Payload.standard package).run t sink).1) ∧
    (isBalanced ((pipeline Payload.standard package).run t sink).1 ↔ isBalanced t) := by
  rw [run_fst]
  refine ⟨fun s hs => grown_of_mem_steps hp hs, ?_, by rw [isBalanced_withAll hp]⟩
  obtain ⟨before, old, new, after, ht, h, hgrows⟩ := withAll_grows hp t
  refine ⟨before, old, new, after, ht, h, hgrows, ?_⟩
  have hsub : (before ++ after).Sublist (before ++ new ++ after) :=
    (List.sublist_append_left before new).append (List.Sublist.refl after)
  exact hsub.trans hgrows.sublist

/-- An entry that lacks a closing brace. -/
def openEntry : Text := "class A \x7b\n".toList

theorem run_grown_openEntry :
    AndroidConfig.isPackageName "a.b".toList ∧
      ¬isBalanced ((pipeline Payload.standard "a.b".toList).run openEntry .empty).1 := by
  have hp : AndroidConfig.isPackageName "a.b".toList := by decide
  refine ⟨hp, fun h => ?_⟩
  have hopen : isBalanced openEntry := (run_grown hp openEntry .empty).2.2.mp h
  exact absurd hopen (by decide)

end Graft.Entry
