import Graft.Proofs.Integration.Pieces

/-! # The accessor

The method that locates the bundle comes in at an edge of the text, unless it is there
(`accessorStep_cases`). -/

namespace Graft.Entry

open Pattern
open Text (Insertion)

variable {t : Text}

theorem flat_hostMember (keyword name type : String) : (hostMember keyword name type).Flat :=
  ⟨⟨⟨⟨⟨⟨⟨⟨⟨⟨⟨⟨flat_ofText _, trivial⟩, flat_ofText _⟩, trivial⟩, flat_ofText _⟩, trivial⟩,
    flat_ofText _⟩, trivial⟩, flat_ofText _⟩, trivial⟩, flat_ofText _⟩, trivial⟩, trivial⟩

theorem flat_hostObject : hostObject.Flat :=
  ⟨⟨⟨⟨⟨flat_ofText _, trivial⟩, flat_ofText _⟩, trivial⟩, flat_ofText _⟩, trivial⟩

theorem simple_accessorChain (r : Recognizer) (hr : r ∈ (accessorStep Payload.standard).chain) :
    r.locator.Simple := by
  simp only [accessorStep, List.mem_cons, List.not_mem_nil, or_false] at hr
  rcases hr with rfl | rfl | rfl | rfl | rfl
  · exact .inl (flat_hostMember _ _ _)
  · exact .inl (flat_hostMember _ _ _)
  · exact .inl (flat_hostMember _ _ _)
  · exact .inl (flat_hostMember _ _ _)
  · exact .inl flat_getPackages

theorem simple_accessorEnd (r : Recognizer) (hr : r ∈ (accessorStep Payload.standard).scopeEnd) :
    r.locator.Simple := by
  obtain rfl := Option.some.inj hr
  exact .inr (.inr ⟨hostObject, flat_hostObject, rfl⟩)

theorem proper_accessorStep : (accessorStep Payload.standard).Proper accessorLines where
  text := isPiece_accessor.text_eq
  body := isPiece_accessor.body
  chain := fun r hr => .inl (simple_accessorChain r hr)
  scopeEnd := fun r hr => .inl (simple_accessorEnd r hr)

theorem accessor_isPresent_iff :
    (accessorStep Payload.standard).fragment.isPresent t ↔
      Payload.standard.androidBundleAccessorMarker <:+: t := by
  have hmarkers : (accessorStep Payload.standard).fragment.markers =
      [Payload.standard.androidBundleAccessorMarker] := by
    decide
  have hregion : (accessorStep Payload.standard).fragment.region t = t := rfl
  rw [Fragment.isPresent, hregion, hmarkers, List.any_cons, List.any_nil, Bool.or_false,
    Text.occursIn_iff]

theorem accessor_apply_of_occurs (h : Payload.standard.androidBundleAccessorMarker <:+: t)
    (sink : Sink) : ((accessorStep Payload.standard).apply t sink).1 = t := by
  rw [InsertionStep.apply_of_isPresent (accessor_isPresent_iff.mpr h)]

theorem exists_edge_of_accessor {anchor : Anchor}
    (h : (accessorStep Payload.standard).anchor? t = some anchor) :
    ∃ p q, PlaceAt t p q anchor.place ∧ Edge p q := by
  rw [InsertionStep.anchor?, Option.orElse_eq_or, Option.or_eq_some_iff] at h
  rcases h with h | ⟨-, h⟩
  · obtain ⟨r, hr, hrec⟩ := exists_mem_of_resolve? h
    exact Locator.exists_edge (simple_accessorChain r hr).headers_eq (find?_of_recognize? hrec)
  · obtain ⟨r, hr, hrec⟩ := Option.bind_eq_some_iff.mp h
    exact Locator.exists_edge (simple_accessorEnd r hr).headers_eq (find?_of_recognize? hrec)

/-- The text stays as it is, or the accessor comes in at an edge. -/
theorem accessorStep_cases (t : Text) (sink : Sink) :
    ((accessorStep Payload.standard).apply t sink).1 = t ∨
      (¬Payload.standard.androidBundleAccessorMarker <:+: t ∧ ∃ p lead indent q, Edge p q ∧
        Insertion accessorLines p lead indent q t
          ((accessorStep Payload.standard).apply t sink).1) := by
  by_cases hpresent : (accessorStep Payload.standard).fragment.isPresent t
  · exact .inl (accessor_apply_of_occurs (accessor_isPresent_iff.mp hpresent) sink)
  · have hmarker : ¬Payload.standard.androidBundleAccessorMarker <:+: t := fun hm =>
      hpresent (accessor_isPresent_iff.mpr hm)
    rw [Bool.not_eq_true] at hpresent
    have hscope : (accessorStep Payload.standard).missingScope? t = none := rfl
    cases hanchor : (accessorStep Payload.standard).anchor? t with
    | none =>
        refine .inl ?_
        rw [InsertionStep.apply_of_anchor hpresent hscope, hanchor, Option.elim_none]
    | some anchor =>
        obtain ⟨p, q, hat, hedge⟩ := exists_edge_of_accessor hanchor
        obtain ⟨lead, hins⟩ := InsertionStep.exists_insertion proper_accessorStep hpresent hscope
          hanchor hat hedge.break sink
        exact .inr ⟨hmarker, p, lead, _, q, hedge, hins⟩

end Graft.Entry
