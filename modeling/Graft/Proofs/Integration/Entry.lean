import Graft.Proofs.Integration.Accessor
import Graft.Proofs.Integration.Imports
import Graft.Proofs.Integration.Registration
import Graft.Proofs.Integration.StartUp

/-! # A patched application entry

`Settled t` says that the steps after the imports find in `t` what they made sure of.  A run leaves
the text of a run alone exactly when it is settled (`withAll_eq_iff`). -/

namespace Graft.Entry

open Pattern
open Text (Insertion HasLine LineWord squeeze apart)
open Brace (Free)

variable {package t t' : Text}

/-! ### The text after each step -/

def withImports (package t : Text) : Text :=
  ((importsStep Payload.standard package).apply t .empty).1

def withStartUp (t : Text) : Text := ((startUpStep Payload.standard).apply t .empty).1

def withRegistration (t : Text) : Text := (registerPackage Payload.standard t .empty).1

def withAccessor (t : Text) : Text := ((accessorStep Payload.standard).apply t .empty).1

def withAll (package t : Text) : Text :=
  withAccessor (withRegistration (withStartUp (withImports package t)))

theorem contract_of_mem_pipeline (package : Text) :
    ∀ s ∈ [(importsStep Payload.standard package).step, (startUpStep Payload.standard).step,
      packagesStep Payload.standard, (accessorStep Payload.standard).step], s.Contract := by
  simp only [List.mem_cons, List.not_mem_nil, or_false]
  rintro s (rfl | rfl | rfl | rfl)
  · exact LinesStep.contract _
  · exact InsertionStep.contract _
  · exact packages_contract
  · exact InsertionStep.contract _

/-- What a run returns, whatever the sink holds. -/
theorem run_fst (package t : Text) (sink : Sink) :
    ((pipeline Payload.standard package).run t sink).1 = withAll package t := by
  have h := contract_of_mem_pipeline package
  have h1 := fun s hs => h s (List.mem_cons_of_mem _ hs)
  have h2 := fun s hs => h1 s (List.mem_cons_of_mem _ hs)
  have h3 := fun s hs => h2 s (List.mem_cons_of_mem _ hs)
  rw [Pipeline.run, pipeline, Step.runAll_cons_fst h, Step.runAll_cons_fst h1,
    Step.runAll_cons_fst h2, Step.runAll_cons_fst h3, withAll, withAccessor, withRegistration,
    withStartUp, withImports]
  simp only [Step.runAll, List.foldl_nil, LinesStep.step, InsertionStep.step, packagesStep]

/-- The steps after the imports find what they make sure of. -/
structure Settled (t : Text) : Prop where
  startUp : ∀ a g inner b, ScopeAt onCreate t a g inner b →
    Payload.standard.androidInitMarker <:+: inner
  registration : (returnLine.recognize? t).isSome → Payload.standard.androidPackageMarker <:+: t
  declaration : (returnLine.recognize? t).isSome →
    immutablePackages.occursIn (declarationRegion t) →
      Payload.standard.androidMutablePackages <:+: t

/-! ### The imports stay -/

theorem apartFromImports_immutableWord : ApartFromImports immutableWord := by
  refine ⟨by decide, by decide, ?_⟩
  rintro z (rfl | rfl | rfl) <;> decide +kernel

theorem tight_of_spans_immutable {a old b : Text} (h : immutablePackages.Spans a old b) :
    Text.Tight old := (squeezes_immutablePackages a old b h).2

/-- Rewriting the declaration keeps the imports. -/
theorem Rewritten.hasLine {l : Text} (h : Rewritten t t') (hp : AndroidConfig.isPackageName package)
    (hl : l ∈ importLines package) (hline : HasLine l t) : HasLine l t' := by
  obtain ⟨before, old, after, rfl, hold, -, rfl⟩ := h
  refine hline.change (lineWord_of_mem_importLines hp hl) (tight_of_spans_immutable hold) ?_
  intro x y e
  refine Text.length_le_of_squeeze ?_ (lineWord_of_mem_importLines hp hl).2 e
  have hnew : ∀ m ∈ [l], m ∈ importLines package := by
    intro m hm
    rw [List.mem_singleton.mp hm]
    exact hl
  have hapart := apart_importLines hp apartFromImports_immutableWord hnew (List.cons_ne_nil l [])
  rw [List.flatten_singleton] at hapart
  rw [Text.apart_comm, (squeezes_immutablePackages _ _ _ hold).1]
  exact hapart

/-! ### What each step may do -/

theorem withStartUp_cases (t : Text) :
    withStartUp t = t ∨ ∃ p lead indent q, Insertion startUpLines p lead indent q t (withStartUp t) := by
  rcases startUpStep_cases t .empty with
    ⟨-, e⟩ | ⟨a, g, inner, b, -, ⟨-, e⟩ | ⟨-, p, lead, indent, q, hins, -⟩⟩
  · exact .inl e
  · exact .inl e
  · exact .inr ⟨p, lead, indent, q, hins⟩

theorem withRegistration_cases (t : Text) :
    ∃ t1, (t1 = t ∨ Rewritten t t1) ∧ (withRegistration t = t1 ∨ ∃ p lead indent q,
      Insertion registrationLines p lead indent q t1 (withRegistration t)) := by
  rcases registerPackage_cases t .empty with ⟨-, e⟩ | ⟨-, t1, h1, h2⟩
  · exact ⟨t, .inl rfl, .inl e⟩
  · exact ⟨t1, h1.imp And.left And.right, h2.imp And.right And.right⟩

theorem withAccessor_cases (t : Text) :
    withAccessor t = t ∨ ∃ p lead indent q, Edge p q ∧
      Insertion accessorLines p lead indent q t (withAccessor t) :=
  (accessorStep_cases t .empty).imp id And.right

theorem hasLine_withAll (hp : AndroidConfig.isPackageName package) {l : Text}
    (hl : l ∈ importLines package) : HasLine l (withAll package t) := by
  have hword := lineWord_of_mem_importLines hp hl
  have hfree := free_of_mem_importLines hp hl
  have h1 : HasLine l (withImports package t) := (importsStep_cases hp t .empty).2 l hl
  have h2 : HasLine l (withStartUp (withImports package t)) := by
    rcases withStartUp_cases (withImports package t) with e | ⟨p, lead, indent, q, hins⟩
    · rwa [e]
    · exact hins.hasLine hword hfree h1
  have h3 : HasLine l (withRegistration (withStartUp (withImports package t))) := by
    obtain ⟨t1, ht1, hcases⟩ := withRegistration_cases (withStartUp (withImports package t))
    have h3 : HasLine l t1 := by
      rcases ht1 with rfl | hrewritten
      · exact h2
      · exact hrewritten.hasLine hp hl h2
    rcases hcases with e | ⟨p, lead, indent, q, hins⟩
    · rwa [e]
    · exact hins.hasLine hword hfree h3
  rw [withAll]
  rcases withAccessor_cases (withRegistration (withStartUp (withImports package t))) with
    e | ⟨p, lead, indent, q, -, hins⟩
  · rwa [e]
  · exact hins.hasLine hword hfree h3

/-! ### Texts that a run leaves alone -/

theorem Rewritten.count_open (h : Rewritten t t') : t'.count '{' = t.count '{' := by
  obtain ⟨before, old, after, rfl, hold, -, rfl⟩ := h
  have hzero : ∀ {s : Text}, IsDeclaration s → s.count '{' = 0 := fun h =>
    List.count_eq_zero.mpr h.free.1
  simp only [List.count_append, hzero (.inl ⟨_, _, hold⟩), hzero (.inr rfl)]

theorem withStartUp_of_settled (h : Settled t) : withStartUp t = t := by
  rcases startUpStep_cases t .empty with
    ⟨-, e⟩ | ⟨a, g, inner, b, hscope, ⟨-, e⟩ | ⟨hmarker, -⟩⟩
  · exact e
  · exact e
  · exact absurd (h.startUp a g inner b hscope) hmarker

theorem withRegistration_of_settled (h : Settled t) : withRegistration t = t := by
  rcases registerPackage_cases t .empty with ⟨-, e⟩ | ⟨hline, t1, h1, h2⟩
  · exact e
  · rcases h1 with ⟨rfl, -⟩ | ⟨hocc, before, old, after, -, -, hno, -⟩
    · rcases h2 with ⟨-, e⟩ | ⟨hno, -⟩
      · exact e
      · exact absurd (h.registration hline) hno
    · exact absurd (h.declaration hline hocc) hno

theorem withAccessor_withAccessor (t : Text) : withAccessor (withAccessor t) = withAccessor t := by
  rcases withAccessor_cases t with e | ⟨p, lead, indent, q, -, hins⟩
  · rw [e, e]
  · obtain ⟨l, hl, hin⟩ := isPiece_accessor.inside
    exact accessor_apply_of_occurs (hin.trans (hins.infix_of_mem hl)) .empty

theorem count_withRegistration (t : Text) : t.count '{' ≤ (withRegistration t).count '{' := by
  obtain ⟨t1, ht1, hcases⟩ := withRegistration_cases t
  have e : t1.count '{' = t.count '{' := by
    rcases ht1 with rfl | h
    · rfl
    · exact h.count_open
  rcases hcases with e' | ⟨p, lead, indent, q, hins⟩
  · exact Nat.le_of_eq (by rw [e', e])
  · rw [← e]
    exact Nat.le_of_lt (hins.count_lt isPiece_registration.opens)

theorem count_withAccessor (t : Text) : t.count '{' ≤ (withAccessor t).count '{' := by
  rcases withAccessor_cases t with e | ⟨p, lead, indent, q, -, hins⟩
  · exact Nat.le_of_eq (by rw [e])
  · exact Nat.le_of_lt (hins.count_lt isPiece_accessor.opens)

/-- When nothing comes in, all that the steps look for is there. -/
theorem settled_of_eq (h : withAccessor (withRegistration (withStartUp t)) = t) : Settled t := by
  have h4 : (withRegistration (withStartUp t)).count '{' ≤ t.count '{' := by
    conv => rhs; rw [← h]
    exact count_withAccessor _
  have h3 := Nat.le_trans (count_withRegistration (withStartUp t)) h4
  obtain ⟨e2, hstartUp⟩ : withStartUp t = t ∧ ∀ a g inner b, ScopeAt onCreate t a g inner b →
      Payload.standard.androidInitMarker <:+: inner := by
    rcases startUpStep_cases t .empty with
      ⟨hnone, e⟩ | ⟨a, g, inner, b, hscope, ⟨hmarker, e⟩ | ⟨-, p, lead, indent, q, hins, -⟩⟩
    · refine ⟨e, fun a g inner b hscope => ?_⟩
      rw [hscope.find?_eq isHeader_onCreate.flat] at hnone
      simp at hnone
    · refine ⟨e, fun a' g' inner' b' hscope' => ?_⟩
      obtain ⟨-, -, rfl, -⟩ := hscope.unique hscope'
      exact hmarker
    · exact absurd (hins.count_lt isPiece_startUp.opens) (Nat.not_lt.mpr h3)
  rw [e2] at h h4
  rcases registerPackage_cases t .empty with ⟨hno, -⟩ | ⟨hline, t1, h1, h2⟩
  · exact ⟨hstartUp, fun h => by rw [hno] at h; simp at h, fun h => by rw [hno] at h; simp at h⟩
  · have ecount : t1.count '{' = t.count '{' := by
      rcases h1 with ⟨rfl, -⟩ | ⟨-, h1⟩
      · rfl
      · exact h1.count_open
    rcases h2 with ⟨hmarker, e⟩ | ⟨-, p, lead, indent, q, hins⟩
    · rcases h1 with ⟨rfl, hdecl⟩ | ⟨-, before, old, after, -, -, hno, hnew⟩
      · exact ⟨hstartUp, fun _ => hmarker, fun _ => hdecl⟩
      · -- What has been rewritten is not the text any more.
        change withRegistration t = t1 at e
        rw [e] at h
        exfalso
        rcases withAccessor_cases t1 with e' | ⟨p, lead, indent, q, -, hins⟩
        · rw [h] at e'
          exact hno ⟨before, after, by rw [e', hnew]⟩
        · have := hins.count_lt isPiece_accessor.opens
          rw [h, ecount] at this
          exact Nat.lt_irrefl _ this
    · have := hins.count_lt isPiece_registration.opens
      rw [ecount] at this
      exact absurd this (Nat.not_lt.mpr h4)

/-- A run leaves what a run returns alone exactly when it is settled. -/
theorem withAll_withAll_iff (hp : AndroidConfig.isPackageName package) (t : Text) :
    withAll package (withAll package t) = withAll package t ↔ Settled (withAll package t) := by
  have h1 : withImports package (withAll package t) = withAll package t :=
    importsStep_of_hasLine hp (fun l hl => hasLine_withAll hp hl) .empty
  have h4 : withAccessor (withAll package t) = withAll package t := withAccessor_withAccessor _
  constructor
  · intro h
    rw [withAll, h1] at h
    exact settled_of_eq h
  · intro h
    rw [withAll, h1, withStartUp_of_settled h, withRegistration_of_settled h, h4]

end Graft.Entry
