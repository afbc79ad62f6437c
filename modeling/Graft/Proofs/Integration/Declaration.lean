import Graft.Proofs.Integration.Registration

/-! # The declaration that the registration rewrites

The step decides by what is inside `getPackages()` whether a declaration has to be made mutable, but
the rewrite looks at the whole text: it takes the first declaration there is, and none if the text
holds the mutable one already.  So the first declaration inside `getPackages()` is the one that is
rewritten exactly when there is no mutable one anywhere and no other one before
(`packagesStep_declares_iff`); a declaration before the function is taken for it
(`packagesStep_earlierDeclaration`). -/

namespace Graft.Entry

open Pattern
open Text (Insertion squeeze)
open Brace (Free isBalanced)

variable {a b g inner inner' p q u t r : Text}

/-- The text stays, or the lines of the registration come in. -/
def WithLines (inner inner' : Text) : Prop :=
  inner' = inner ∨ ∃ p lead indent q, Insertion registrationLines p lead indent q inner inner'

/-- The text `inner'` is `inner` with its first declaration made mutable, and perhaps with the lines
of the registration. -/
def Declared (inner inner' : Text) : Prop :=
  ∃ m, immutablePackages.find? inner = some m ∧
    WithLines (inner.replaceRange m.start m.stop Payload.standard.androidMutablePackages) inner'

/-- The text `r` is `t` but for the inside of the scope, where the first declaration has been made
mutable. -/
def DeclaredIn (s : Scope) (t r : Text) : Prop :=
  ∃ inner', Declared (s.inner t) inner' ∧ r = t.replaceRange (s.openAt + 1) s.closeAt inner'

/-! ### The first declaration -/

theorem declared_iff (hleft : immutablePackages.Leftmost inner p) (e : inner = p ++ u ++ q)
    (hu : immutablePackages.Spans p u q) :
    Declared inner inner' ↔ WithLines (p ++ Payload.standard.androidMutablePackages ++ q) inner' := by
  obtain ⟨m, hfind, hreplace⟩ := find?_of_leftmost hleft e hu
  simp only [Declared, hfind, Option.some.injEq, exists_eq_left', hreplace]

theorem exists_leftmost_of_occursIn (h : immutablePackages.occursIn t) :
    ∃ a u b, t = a ++ u ++ b ∧ immutablePackages.Spans a u b ∧ immutablePackages.Leftmost t a := by
  obtain ⟨m, hm⟩ := Option.isSome_iff_exists.mp h
  obtain ⟨a, hleft, -⟩ := exists_leftmost flat_immutablePackages hm
  obtain ⟨u, b, e, hu⟩ := hleft.1
  exact ⟨a, u, b, e, hu, hleft⟩

/-- Every declaration in the text of a scope is before, inside or behind the scope. -/
theorem cases_of_scope {a' u' b' : Text} (h : ScopeAt getPackages t a g inner b)
    (e : t = a' ++ u' ++ b') (hu : immutablePackages.Spans a' u' b') :
    (∃ z, a ++ g = a' ++ u' ++ z) ∨
      (∃ x y, a' = a ++ g ++ '{' :: x ∧ inner = x ++ u' ++ y) ∨
        ∃ x, a' = a ++ g ++ '{' :: (inner ++ '}' :: x) := by
  have hfree : Free u' := IsDeclaration.free (.inl ⟨_, _, hu⟩)
  have e1 : (a ++ g) ++ '{' :: (inner ++ '}' :: b) = a' ++ u' ++ b' := by rw [← h.split, e]
  rcases Text.cases_of_cons_append e1 hfree.1 with ⟨z, hz, -⟩ | ⟨x, rfl, e2⟩
  · exact .inl ⟨z, hz⟩
  · rcases Text.cases_of_cons_append e2 hfree.2 with ⟨y, hy, -⟩ | ⟨y, rfl, -⟩
    · exact .inr (.inl ⟨x, y, rfl, hy⟩)
    · exact .inr (.inr ⟨y, rfl⟩)

/-- The first declaration inside the scope is the first one of all if none is before the scope. -/
theorem leftmost_of_scope (h : ScopeAt getPackages t a g inner b)
    (hleft : immutablePackages.Leftmost inner p) (hno : ¬immutablePackages.occursIn (a ++ g)) :
    immutablePackages.Leftmost t (a ++ g ++ '{' :: p) := by
  obtain ⟨u, q, rfl, hu⟩ := hleft.1
  refine ⟨⟨u, q ++ '}' :: b, by rw [h.split]; simp, hu.plain plain_immutablePackages _ _⟩, ?_⟩
  intro a' u' b' e hu'
  rcases cases_of_scope h e hu' with ⟨z, hz⟩ | ⟨x, y, rfl, hin⟩ | ⟨x, rfl⟩
  · refine absurd ?_ hno
    rw [occursIn_iff flat_immutablePackages]
    exact ⟨a', u', z, hz, hu'.plain plain_immutablePackages _ _⟩
  · have := hleft.2 x u' y hin (hu'.plain plain_immutablePackages _ _)
    simp only [List.length_append, List.length_cons]
    omega
  · simp only [List.length_append, List.length_cons]
    omega

/-- The first declaration of all is before the scope if any is. -/
theorem exists_leftmost_before (h : ScopeAt getPackages t a g inner b)
    (hocc : immutablePackages.occursIn (a ++ g)) :
    ∃ before old z, a ++ g = before ++ old ++ z ∧
      immutablePackages.Spans before old (z ++ '{' :: (inner ++ '}' :: b)) ∧
      immutablePackages.Leftmost t before := by
  obtain ⟨before, old, z, e, hold, hleft⟩ := exists_leftmost_of_occursIn hocc
  have hold' := hold.plain plain_immutablePackages before (z ++ '{' :: (inner ++ '}' :: b))
  refine ⟨before, old, z, e, hold', ⟨old, _, by rw [h.split, e]; simp, hold'⟩, ?_⟩
  intro a' u' b' e' hu'
  have hlen : before.length ≤ (a ++ g).length := by
    rw [e]
    simp only [List.length_append]
    omega
  rcases cases_of_scope h e' hu' with ⟨y, hy⟩ | ⟨x, y, rfl, -⟩ | ⟨x, rfl⟩
  · exact hleft.2 a' u' y hy (hu'.plain plain_immutablePackages _ _)
  · simp only [List.length_append, List.length_cons] at hlen ⊢
    omega
  · simp only [List.length_append, List.length_cons] at hlen ⊢
    omega

/-! ### The step -/

theorem makeMutable_of_occursIn (h : immutablePackages.occursIn (declarationRegion t))
    (sink : Sink) : (makeMutable Payload.standard t sink).1 =
      (replaceStatement immutablePackages Payload.standard.androidMutablePackages t).text := by
  rw [makeMutable, if_pos h]

/-- The registration comes into the scope, if at all. -/
theorem inject_of_scope (h : ScopeAt getPackages t a g inner b)
    (hline : (returnLine.recognize? t).isSome) :
    ∃ inner', (inject (registration Payload.standard) (returnLine.recognize? t) none t).text =
        a ++ g ++ '{' :: inner' ++ '}' :: b ∧ WithLines inner inner' := by
  rcases inject_registration hline with ⟨-, e⟩ | ⟨-, a', g', p, lead, indent, q, b', hscope, hins⟩
  · refine ⟨inner, ?_, .inl rfl⟩
    rw [e, h.split]
    simp
  · obtain ⟨rfl, rfl, rfl, rfl⟩ := h.unique hscope
    refine ⟨p ++ Text.block lead indent registrationLines ++ q, ?_,
      .inr ⟨p, lead, indent, q, hins.inside⟩⟩
    rw [hins.target]
    simp

/-- What the step makes of a text in which the scope after the rewrite is known. -/
theorem registerPackage_of_scope {t1 : Text} (hline : (returnLine.recognize? t).isSome) (sink : Sink)
    (ht1 : (makeMutable Payload.standard t sink).1 = t1) (h : ScopeAt getPackages t1 a g inner b) :
    ∃ inner', (registerPackage Payload.standard t sink).1 = a ++ g ++ '{' :: inner' ++ '}' :: b ∧
      WithLines inner inner' := by
  rw [registerPackage_of_isSome hline, ht1]
  refine inject_of_scope h ?_
  rw [← ht1]
  exact recognize?_makeMutable hline

theorem ScopeAt.replaceRange_eq (h : ScopeAt getPackages t a g inner b) (new : Text) :
    t.replaceRange ((Scope.of a g inner).openAt + 1) (Scope.of a g inner).closeAt new =
      a ++ g ++ '{' :: new ++ '}' :: b := by
  have e : t = (a ++ g ++ ['{']) ++ inner ++ '}' :: b := by
    rw [h.split]
    simp
  have hreplace := Text.replaceRange_append (a ++ g ++ ['{']) inner ('}' :: b) new
  rw [← e] at hreplace
  simpa [Scope.of, Nat.add_assoc] using hreplace

/-- When a declaration before the scope is rewritten, the scope follows behind it. -/
theorem exists_scope_of_rewrite {before old z : Text} (h : ScopeAt getPackages t a g inner b)
    (hag : a ++ g = before ++ old ++ z)
    (hold : immutablePackages.Spans before old (z ++ '{' :: (inner ++ '}' :: b))) :
    ∃ a' g', a' ++ g' = before ++ Payload.standard.androidMutablePackages ++ z ∧
      ScopeAt getPackages (before ++ Payload.standard.androidMutablePackages ++
        (z ++ '{' :: (inner ++ '}' :: b))) a' g' inner b := by
  have hdecl : IsDeclaration old := .inl ⟨_, _, hold⟩
  have hnew : IsDeclaration Payload.standard.androidMutablePackages := .inr rfl
  have hopen := h.toOpenAt
  have ht : t = before ++ old ++ (z ++ '{' :: (inner ++ '}' :: b)) := by
    rw [h.split, hag]
    simp
  rw [ht] at hopen
  obtain ⟨a', g', r', hopen', ⟨-, p, hp, -⟩ | ⟨rfl, -⟩⟩ := hopen.moved plain_getPackages
    squeezes_getPackages.not_spans_nil
    (fun u w e hu => squeezes_getPackages.untouched (hdecl.apart (by decide)) _ u w e hu)
    (squeezes_getPackages.untouched (hnew.apart (by decide))) hdecl.free.1 fun _ _ _ _ _ =>
      hnew.free.1
  · rw [hag] at hp
    have := congrArg List.length hp
    simp only [List.length_append, List.length_cons] at this
    omega
  · refine ⟨a', g', ?_, hopen', h.balanced⟩
    have e := hopen'.split
    rw [← List.append_assoc] at e
    exact (List.append_cancel_right e).symm

/-- With the inside of the scope in place of another text, the step has made the declaration mutable
exactly when that inside is so. -/
theorem declaredIn_iff (h : ScopeAt getPackages t a g inner b) :
    DeclaredIn (.of a g inner) t (a ++ g ++ '{' :: inner' ++ '}' :: b) ↔ Declared inner inner' := by
  simp only [DeclaredIn, h.inner_eq, ScopeAt.replaceRange_eq h]
  constructor
  · rintro ⟨inner'', hin, e⟩
    have e' : (a ++ g ++ ['{']) ++ (inner' ++ '}' :: b) =
        (a ++ g ++ ['{']) ++ (inner'' ++ '}' :: b) := by
      simpa using e
    obtain rfl := List.append_cancel_right (List.append_cancel_left e')
    exact hin
  · exact fun hin => ⟨inner', hin, rfl⟩

section

variable (h : ScopeAt getPackages t a g inner b) (hline : (returnLine.recognize? t).isSome)
  (himm : immutablePackages.occursIn inner)

include h hline himm

/-- A mutable declaration anywhere keeps the step from rewriting. -/
theorem not_declaredIn_of_mutable (hmut : Payload.standard.androidMutablePackages <:+: t)
    (sink : Sink) : ¬DeclaredIn (.of a g inner) t (registerPackage Payload.standard t sink).1 := by
  have ht1 : (makeMutable Payload.standard t sink).1 = t := by
    rw [makeMutable_of_occursIn (by rwa [declarationRegion_of_scope h]), replaceStatement,
      if_pos (Text.occursIn_iff.mpr hmut)]
  obtain ⟨inner', e, hlines⟩ := registerPackage_of_scope hline sink ht1 h
  obtain ⟨p, u, q, rfl, hu, hleft⟩ := exists_leftmost_of_occursIn himm
  rw [e, declaredIn_iff h, declared_iff hleft rfl hu]
  intro hdeclared
  -- Only the mutable declaration has an angle bracket.
  have hcount : ∀ {s s' : Text}, WithLines s s' → s'.count '<' = s.count '<' := by
    rintro s s' (rfl | ⟨p, lead, indent, q, hins⟩)
    · rfl
    · exact hins.count_eq (by decide) (by decide +kernel)
  have hzero : u.count '<' = 0 := by
    rw [← Text.count_squeeze (by decide), (squeezes_immutablePackages _ _ _ hu).1]
    decide
  have hone : Payload.standard.androidMutablePackages.count '<' = 1 := by decide
  have heq := (hcount hlines).symm.trans (hcount hdeclared)
  simp only [List.count_append, hzero, hone] at heq
  omega

/-- A declaration before the scope is the one that gets rewritten. -/
theorem not_declaredIn_of_earlier (hno : ¬Payload.standard.androidMutablePackages <:+: t)
    (hearlier : immutablePackages.occursIn (a ++ g)) (sink : Sink) :
    ¬DeclaredIn (.of a g inner) t (registerPackage Payload.standard t sink).1 := by
  obtain ⟨before, old, z, hag, hold, hleft⟩ := exists_leftmost_before h hearlier
  obtain ⟨a', g', hag', hscope⟩ := exists_scope_of_rewrite h hag hold
  have ht : t = before ++ old ++ (z ++ '{' :: (inner ++ '}' :: b)) := by
    rw [h.split, hag]
    simp
  have ht1 : (makeMutable Payload.standard t sink).1 =
      before ++ Payload.standard.androidMutablePackages ++ (z ++ '{' :: (inner ++ '}' :: b)) := by
    rw [makeMutable_of_occursIn (by rwa [declarationRegion_of_scope h])]
    exact replaceStatement_of_leftmost hleft ht hold hno
  obtain ⟨inner', e, -⟩ := registerPackage_of_scope hline sink ht1 hscope
  rw [e]
  rintro ⟨inner'', -, e'⟩
  rw [ScopeAt.replaceRange_eq h, hag, hag'] at e'
  -- What the step wrote would have to begin like what was there.
  have e2 : before ++ (Payload.standard.androidMutablePackages ++
      (z ++ '{' :: (inner' ++ '}' :: b))) = before ++ (old ++ (z ++ '{' :: (inner'' ++ '}' :: b))) := by
    simpa using e'
  have hprefix := List.prefix_or_prefix_of_prefix ⟨_, rfl⟩ ⟨_, (List.append_cancel_left e2).symm⟩
  have hsqueeze := hprefix.imp Text.squeeze_prefix Text.squeeze_prefix
  rw [(squeezes_immutablePackages _ _ _ hold).1] at hsqueeze
  exact absurd hsqueeze (by decide)

theorem declaredIn_of_first (hno : ¬Payload.standard.androidMutablePackages <:+: t)
    (hfirst : ¬immutablePackages.occursIn (a ++ g)) (sink : Sink) :
    DeclaredIn (.of a g inner) t (registerPackage Payload.standard t sink).1 := by
  obtain ⟨p, u, q, rfl, hu, hleft⟩ := exists_leftmost_of_occursIn himm
  have hmutable : getPackages.Untouched (a ++ g ++ '{' :: p)
      Payload.standard.androidMutablePackages (q ++ '}' :: b) :=
    squeezes_getPackages.untouched (IsDeclaration.apart (.inr rfl) (by decide))
  have hold : Free u := IsDeclaration.free (.inl ⟨_, _, hu⟩)
  have hnew : Free Payload.standard.androidMutablePackages := IsDeclaration.free (.inr rfl)
  have hscope := h.replace isHeader_getPackages hold.isBalanced hmutable hnew.isBalanced
  have ht1 : (makeMutable Payload.standard t sink).1 =
      a ++ g ++ '{' :: p ++ Payload.standard.androidMutablePackages ++ (q ++ '}' :: b) := by
    rw [makeMutable_of_occursIn (by rwa [declarationRegion_of_scope h])]
    exact replaceStatement_of_leftmost (leftmost_of_scope h hleft hfirst) (by rw [h.split]; simp)
      (hu.plain plain_immutablePackages _ _) hno
  obtain ⟨inner', e, hlines⟩ := registerPackage_of_scope hline sink ht1 hscope
  rw [e, declaredIn_iff h, declared_iff hleft rfl hu]
  exact hlines

end

/-- The step makes the first declaration in `getPackages()` mutable, and leaves what is outside,
exactly when the text holds no mutable declaration and no other one before the scope. -/
theorem packagesStep_declares_iff {s : Scope} (hscope : Scope.find? getPackages t = some s)
    (hreturn : returnPackages.occursIn (s.inner t))
    (himm : immutablePackages.occursIn (s.inner t)) (sink : Sink) :
    DeclaredIn s t ((packagesStep Payload.standard).apply t sink).1 ↔
      ¬Payload.standard.androidMutablePackages <:+: t ∧
        ¬immutablePackages.occursIn (t.take s.openAt) := by
  obtain ⟨a, g, inner, b, h, rfl⟩ := (scopeFind?_eq_some_iff flat_getPackages).mp hscope
  rw [h.inner_eq] at hreturn himm
  have hline : (returnLine.recognize? t).isSome :=
    recognize?_isSome_iff.mpr ⟨a, g, inner, b, h, hreturn⟩
  have htake : t.take (Scope.of a g inner).openAt = a ++ g := by
    rw [h.split]
    exact List.take_left
  rw [htake]
  change DeclaredIn _ t (registerPackage Payload.standard t sink).1 ↔ _
  constructor
  · intro hdeclared
    have hno : ¬Payload.standard.androidMutablePackages <:+: t := fun hmut =>
      not_declaredIn_of_mutable h hline himm hmut sink hdeclared
    exact ⟨hno, fun hearlier => not_declaredIn_of_earlier h hline himm hno hearlier sink hdeclared⟩
  · rintro ⟨hno, hfirst⟩
    exact declaredIn_of_first h hline himm hno hfirst sink

/-- A declaration on a line of its own. -/
def sampleDeclaration : Text :=
  "val packages = PackageList(this).packages\n".toList

/-- A method that declares the list and returns it. -/
def sampleMethod : Text :=
  "override fun getPackages() \x7b\n".toList ++
    sampleDeclaration ++
    "return packages\n\x7d\n".toList

/-- The declaration behind the method stays. -/
theorem packagesStep_laterDeclaration :
    ∃ s, Scope.find? getPackages (sampleMethod ++ sampleDeclaration) = some s ∧
      returnPackages.occursIn (s.inner (sampleMethod ++ sampleDeclaration)) ∧
      immutablePackages.occursIn (s.inner (sampleMethod ++ sampleDeclaration)) ∧
      DeclaredIn s (sampleMethod ++ sampleDeclaration)
        ((packagesStep Payload.standard).apply (sampleMethod ++ sampleDeclaration) .empty).1 := by
  have hscope : Scope.find? getPackages (sampleMethod ++ sampleDeclaration) =
      some ⟨0, 27, 87⟩ := by decide +kernel
  have hreturn : returnPackages.occursIn
      (Scope.inner ⟨0, 27, 87⟩ (sampleMethod ++ sampleDeclaration)) := by decide +kernel
  have himm : immutablePackages.occursIn
      (Scope.inner ⟨0, 27, 87⟩ (sampleMethod ++ sampleDeclaration)) := by decide +kernel
  have hno : ¬Payload.standard.androidMutablePackages <:+: sampleMethod ++ sampleDeclaration :=
    fun h => absurd (Text.occursIn_iff.mpr h) (by decide +kernel)
  exact ⟨_, hscope, hreturn, himm,
    (packagesStep_declares_iff hscope hreturn himm .empty).mpr ⟨hno, by decide +kernel⟩⟩

/-- The declaration before the method is taken for the one in it. -/
theorem packagesStep_earlierDeclaration :
    ∃ s, Scope.find? getPackages (sampleDeclaration ++ sampleMethod) = some s ∧
      returnPackages.occursIn (s.inner (sampleDeclaration ++ sampleMethod)) ∧
      immutablePackages.occursIn (s.inner (sampleDeclaration ++ sampleMethod)) ∧
      ¬DeclaredIn s (sampleDeclaration ++ sampleMethod)
        ((packagesStep Payload.standard).apply (sampleDeclaration ++ sampleMethod) .empty).1 := by
  have hscope : Scope.find? getPackages (sampleDeclaration ++ sampleMethod) =
      some ⟨42, 69, 129⟩ := by decide +kernel
  have h := scopeAt_of_find? flat_getPackages hscope
  have hs : Scope.of _ _ _ = _ := Option.some.inj ((h.find?_eq flat_getPackages).symm.trans hscope)
  have hno : ¬Payload.standard.androidMutablePackages <:+: sampleDeclaration ++ sampleMethod :=
    fun h => absurd (Text.occursIn_iff.mpr h) (by decide +kernel)
  refine ⟨_, hscope, by decide +kernel, by decide +kernel, ?_⟩
  rw [← hs]
  exact not_declaredIn_of_earlier h (by decide +kernel) (by decide +kernel) hno (by decide +kernel)
    .empty

end Graft.Entry
