import Graft.Proofs.Integration.Pieces

/-! # The start-up call

The call is looked for inside the scope of `onCreate()` and goes to a place that is inside it, unless
the scope lies on one line without the calls that the other anchors need (`Roomy`): then it comes
behind the scope (`startUpStep_cases`). -/

namespace Graft.Entry

open Pattern
open Text (Break Insertion)

variable {t a g inner b p q : Text}

/-- Whether the call is put inside a scope. -/
def Roomy (inner : Text) : Prop :=
  loaderInit.occursIn inner ∨ superOnCreate.occursIn inner ∨ '\n' ∈ inner

/-! ### The step -/

theorem flat_loaderInit : loaderInit.Flat := ⟨⟨flat_ofText _, trivial⟩, flat_ofText _⟩

theorem flat_superOnCreate : superOnCreate.Flat := flat_ofText _

theorem proper_startUpStep : (startUpStep Payload.standard).Proper startUpLines where
  text := isPiece_startUp.text_eq
  body := isPiece_startUp.body
  chain := by
    intro r hr
    simp only [startUpStep, List.mem_cons, List.not_mem_nil, or_false] at hr
    rcases hr with rfl | rfl | rfl
    · exact .inr ⟨onCreate, .afterLine loaderInit, isHeader_onCreate.flat, .inl flat_loaderInit, rfl⟩
    · exact .inr ⟨onCreate, .afterLine superOnCreate, isHeader_onCreate.flat,
        .inl flat_superOnCreate, rfl⟩
    · exact .inl (.inl isHeader_onCreate.flat)
  scopeEnd := by
    rintro r ⟨⟩

theorem startUp_isPresent_of_scope (h : ScopeAt onCreate t a g inner b) :
    (startUpStep Payload.standard).fragment.isPresent t ↔
      Payload.standard.androidInitMarker <:+: inner := by
  have hregion : (startUpStep Payload.standard).fragment.region t = inner := by
    rw [Fragment.region]
    have : (startUpStep Payload.standard).fragment.scope = some onCreate := rfl
    simp only [this, Option.bind_some, h.find?_eq isHeader_onCreate.flat, h.inner_eq]
  have hmarkers : (startUpStep Payload.standard).fragment.markers =
      [Payload.standard.androidInitMarker] := by
    decide
  rw [Fragment.isPresent, hregion, hmarkers, List.any_cons, List.any_nil, Bool.or_false,
    Text.occursIn_iff]

theorem startUp_missingScope? :
    (startUpStep Payload.standard).missingScope? t =
      if (Scope.find? onCreate t).isNone then some "onCreate()" else none := rfl

/-- The anchor of the call, and on which side of the end of the scope its place is. -/
theorem startUp_anchor?_of_scope (h : ScopeAt onCreate t a g inner b) :
    ∃ anchor p q, (startUpStep Payload.standard).anchor? t = some anchor ∧
      PlaceAt t p q anchor.place ∧
      ((Roomy inner ∧ ∃ p' q', inner = p' ++ q' ∧ p = a ++ g ++ '{' :: p' ∧ q = q' ++ '}' :: b) ∨
        (¬Roomy inner ∧ ∃ x, p = a ++ g ++ '{' :: inner ++ '}' :: x ∧ b = x ++ q)) := by
  have hflat := isHeader_onCreate.flat
  have hrec : ∀ pat : Pattern, ((Locator.within onCreate (.afterLine pat)).find? t).isSome ↔
      pat.occursIn inner := by
    intro pat
    rw [h.find?_within hflat, Option.isSome_map, Locator.find?, Option.isSome_map, occursIn]
  have hinside : ∀ {pat : Pattern} {place : Place}, pat.Flat →
      (Locator.within onCreate (.afterLine pat)).find? t = some place →
        ∃ p q, PlaceAt t p q place ∧
          ∃ p' q', inner = p' ++ q' ∧ p = a ++ g ++ '{' :: p' ∧ q = q' ++ '}' :: b := by
    intro pat place hpat hplace
    obtain ⟨a', g', b', p', q', hscope, hat, -⟩ := Locator.exists_edge_within hflat
      (.inl hpat : (Locator.afterLine pat).Simple) hplace
    obtain ⟨rfl, rfl, rfl, rfl⟩ := h.unique hscope
    exact ⟨_, _, hat, p', q', rfl, rfl, rfl⟩
  have hnone : ∀ {pat : Pattern}, ¬pat.occursIn inner →
      (Locator.within onCreate (.afterLine pat)).find? t = none := by
    intro pat hpat
    rw [← Option.not_isSome_iff_eq_none, hrec]
    exact hpat
  have hanchor : ∀ {anchor : Anchor}, resolve? (startUpStep Payload.standard).chain t = some anchor →
      (startUpStep Payload.standard).anchor? t = some anchor := by
    intro anchor hresolve
    rw [InsertionStep.anchor?, hresolve]
    rfl
  by_cases h1 : loaderInit.occursIn inner
  · obtain ⟨place, hplace⟩ := Option.isSome_iff_exists.mp ((hrec loaderInit).mpr h1)
    obtain ⟨p, q, hat, hin⟩ := hinside flat_loaderInit hplace
    exact ⟨_, p, q, hanchor (resolve?_cons_of_find? hplace), hat, .inl ⟨.inl h1, hin⟩⟩
  · by_cases h2 : superOnCreate.occursIn inner
    · obtain ⟨place, hplace⟩ := Option.isSome_iff_exists.mp ((hrec superOnCreate).mpr h2)
      obtain ⟨p, q, hat, hin⟩ := hinside flat_superOnCreate hplace
      exact ⟨_, p, q, hanchor ((resolve?_cons_of_none (hnone h1)).trans
        (resolve?_cons_of_find? hplace)), hat, .inl ⟨.inr (.inl h2), hin⟩⟩
    · obtain ⟨place, p, q, hplace, hat, hcases⟩ := h.find?_scopeStart hflat
      refine ⟨_, p, q, hanchor ((resolve?_cons_of_none (hnone h1)).trans
        ((resolve?_cons_of_none (hnone h2)).trans (resolve?_cons_of_find? hplace))), hat, ?_⟩
      rcases hcases with ⟨hnl, hin⟩ | ⟨hnl, hout⟩
      · exact .inl ⟨.inr (.inr hnl), hin⟩
      · refine .inr ⟨?_, hout⟩
        rintro (h | h | h)
        · exact h1 h
        · exact h2 h
        · exact hnl h

/-- What the step does: nothing without a scope or when the call is there, and otherwise the call
comes in, inside the scope if it is roomy and behind it if not. -/
theorem startUpStep_cases (t : Text) (sink : Sink) :
    (Scope.find? onCreate t = none ∧ ((startUpStep Payload.standard).apply t sink).1 = t) ∨
      ∃ a g inner b, ScopeAt onCreate t a g inner b ∧
        ((Payload.standard.androidInitMarker <:+: inner ∧
            ((startUpStep Payload.standard).apply t sink).1 = t) ∨
          (¬Payload.standard.androidInitMarker <:+: inner ∧ ∃ p lead indent q,
            Insertion startUpLines p lead indent q t
              ((startUpStep Payload.standard).apply t sink).1 ∧
            ((Roomy inner ∧
                ∃ p' q', inner = p' ++ q' ∧ p = a ++ g ++ '{' :: p' ∧ q = q' ++ '}' :: b) ∨
              (¬Roomy inner ∧ ∃ x, p = a ++ g ++ '{' :: inner ++ '}' :: x ∧ b = x ++ q)))) := by
  cases hfind : Scope.find? onCreate t with
  | none =>
      refine .inl ⟨rfl, ?_⟩
      by_cases hpresent : (startUpStep Payload.standard).fragment.isPresent t
      · rw [InsertionStep.apply_of_isPresent hpresent]
      · refine InsertionStep.apply_of_missing ?_ sink
        rw [startUp_missingScope?, hfind]
        rfl
  | some s =>
      obtain ⟨a, g, inner, b, hscope, rfl⟩ :=
        (scopeFind?_eq_some_iff isHeader_onCreate.flat).mp hfind
      refine .inr ⟨a, g, inner, b, hscope, ?_⟩
      by_cases hmarker : Payload.standard.androidInitMarker <:+: inner
      · refine .inl ⟨hmarker, ?_⟩
        rw [InsertionStep.apply_of_isPresent ((startUp_isPresent_of_scope hscope).mpr hmarker)]
      · have hpresent : (startUpStep Payload.standard).fragment.isPresent t = false := by
          rw [← Bool.not_eq_true, startUp_isPresent_of_scope hscope]
          exact hmarker
        have hmissing : (startUpStep Payload.standard).missingScope? t = none := by
          rw [startUp_missingScope?, hfind]
          rfl
        obtain ⟨anchor, p, q, hanchor, hat, hcases⟩ := startUp_anchor?_of_scope hscope
        obtain ⟨p', q', hat', hbreak⟩ :=
          InsertionStep.exists_break_of_anchor? proper_startUpStep hanchor
        obtain ⟨rfl, rfl⟩ := hat.unique hat'
        obtain ⟨lead, hins⟩ := InsertionStep.exists_insertion proper_startUpStep hpresent hmissing
          hanchor hat hbreak sink
        exact .inr ⟨hmarker, p, lead, _, q, hins, hcases⟩

end Graft.Entry
