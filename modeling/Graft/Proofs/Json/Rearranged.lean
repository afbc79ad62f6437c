import Mathlib.Data.List.Nodup
import Graft.Proofs.Json.Members

/-! # Rearranged objects

The members of an object may stand in another order, members with unknown names may come in anywhere,
and the values of the known ones may be changed in turn, as a relation for each name says
(`Layout.Rearranged`).  A decoder respects such a change when it reads the same from both nodes
(`Decoder.Respects`); one that is made from a layout does as soon as the decoders of its fields do
(`Layout.Rearranged.withDefault_eq`, `Decoder.respects_ofLayout`). -/

namespace Graft.Json

variable {α : Type} {l : Layout} {R : Text → Node → Node → Prop} {n n' v : Node}
  {ms ms' moved extra : List Member} {tail : Tail}

/-- The values of two members with one key are related. -/
def Member.Related (R : Text → Node → Node → Prop) (m m' : Member) : Prop :=
  m'.1 = m.1 ∧ ∀ key, m.1 = .ok key → R key m.2 m'.2

/-- Whether a member has a name, and a layout does not know it.  A name is a text: a key that stands
for none is no name. -/
def Layout.Unknown (l : Layout) (m : Member) : Prop := ∃ key, m.1 = .ok key ∧ l.find? key = none

/-- An object with its members in another order, values of them rearranged, and further members with
unknown names. -/
inductive Layout.Rearranged (l : Layout) (R : Text → Node → Node → Prop) : Node → Node → Prop where
  | same (n : Node) : l.Rearranged R n n
  | object {ms ms' moved extra : List Member} (hmoved : List.Forall₂ (Member.Related R) ms moved)
      (hextra : ∀ m ∈ extra, l.Unknown m) (hperm : ms'.Perm (moved ++ extra)) :
      l.Rearranged R (.object ms .closed) (.object ms' .closed)

/-- A list with its items rearranged one by one. -/
inductive Node.Itemwise (R : Node → Node → Prop) : Node → Node → Prop where
  | same (n : Node) : Itemwise R n n
  | array {items items' : List Node} (h : List.Forall₂ R items items') :
      Itemwise R (.array items .closed) (.array items' .closed)

/-! ### What decoders make of it -/

/-- A field that accepts what it accepted before. -/
def Field.Respects (f : Field) (R : Node → Node → Prop) : Prop :=
  ∀ v v', R v v' → v'.skipFault? = none → f.fault? v = none → f.fault? v' = none

theorem Field.respects_eq (f : Field) : f.Respects Eq := by
  rintro v _ rfl - h
  exact h

namespace Decoder

variable {d : Decoder α} {S : Node → Node → Prop}

/-- A decoder that reads what it read before. -/
def Respects (d : Decoder α) (S : Node → Node → Prop) : Prop :=
  ∀ v v' a, S v v' → v'.skipFault? = none → d v = .ok a → d v' = .ok a

theorem Respects.field (h : d.Respects S) (name : String) (optionalAtEnd : Bool) :
    Field.Respects ⟨name, optionalAtEnd, d.fault?⟩ S := by
  intro v v' hv hv' hok
  obtain ⟨a, ha⟩ := fault?_eq_none.mp hok
  exact fault?_eq_none.mpr ⟨a, h v v' a hv hv' ha⟩

theorem Respects.option (h : d.Respects S) (hnull : ∀ v v', S v v' → (v = .null ↔ v' = .null)) :
    d.option.Respects S := by
  intro v v' value hv hv' hok
  by_cases hv0 : v = .null
  · rw [(hnull v v' hv).mp hv0]
    rw [hv0] at hok
    exact hok
  · have hv0' : v' ≠ .null := fun e => hv0 ((hnull v v' hv).mpr e)
    rcases option_eq_ok hok with ⟨e, -⟩ | ⟨a, ha, rfl⟩
    · exact absurd e hv0
    · unfold Decoder.option
      split
      · exact absurd rfl hv0'
      · rw [h v v' a hv hv' ha]
        rfl

theorem Respects.list (h : d.Respects S) : d.list.Respects (Node.Itemwise S) := by
  intro v v' values hv hv' hok
  cases hv with
  | same => exact hok
  | array hitems =>
      rename_i items items'
      obtain ⟨_, hitems', hvalues⟩ := list_eq_ok.mp hok
      obtain ⟨rfl, -⟩ := Node.array.inj hitems'
      refine list_eq_ok.mpr ⟨items', rfl, ?_⟩
      have hskip := skipItems?_eq_none.mp (skipFault?_array.mp hv').1
      clear hok hv' hitems'
      induction hvalues generalizing items' with
      | nil =>
          cases hitems
          exact .nil
      | cons ha _ ih =>
          cases hitems with
          | cons hitem hitems =>
              rw [List.forall_mem_cons] at hskip
              exact .cons (h _ _ _ hitem hskip.1 ha) (ih hitems hskip.2)

end Decoder

theorem Fields.withDefault_eq (l : Layout) (n : Node) (name : String) (d : Decoder α) (default : α) :
    (Fields.mk l n).withDefault name d default = (l.field? name n).elim (.ok default) d := by
  unfold Fields.withDefault
  cases l.field? name n <;> rfl

theorem Fields.required_eq (l : Layout) (n : Node) (name : String) (d : Decoder α) :
    (Fields.mk l n).required name d =
      (l.field? name n).elim (.error (.shape (.missingField name))) d := by
  unfold Fields.required
  cases l.field? name n <;> rfl

/-! ### The members of a rearranged object -/

namespace Layout

theorem isSome_find? {name : String} (h : name ∈ l.fields.map (·.name)) :
    (l.find? name.toList).isSome := by
  obtain ⟨f, hf, rfl⟩ := List.mem_map.mp h
  unfold find?
  rw [List.find?_isSome]
  exact ⟨f, hf, decide_eq_true rfl⟩

theorem find?_of_mem {f : Field} (hnames : (l.fields.map (·.name)).Nodup) (hmem : f ∈ l.fields) :
    l.find? f.name.toList = some f := by
  obtain ⟨g, hg⟩ := Option.isSome_iff_exists.mp (isSome_find? (List.mem_map_of_mem hmem))
  have hname : g.name = f.name := String.toList_inj.mp (name_of_find? hg)
  rw [hg, List.inj_on_of_nodup_map hnames (mem_of_find? hg) hmem hname]

section

variable (hmoved : List.Forall₂ (Member.Related R) ms moved) (hextra : ∀ m ∈ extra, l.Unknown m)
  (hperm : ms'.Perm (moved ++ extra))

include hmoved in
theorem knownKeys_moved : l.knownKeys moved = l.knownKeys ms := by
  induction hmoved with
  | nil => rfl
  | cons h _ ih =>
      unfold knownKeys at ih ⊢
      rw [List.filterMap_cons, List.filterMap_cons, h.1, ih]

include hextra in
theorem knownKeys_extra : l.knownKeys extra = [] := by
  unfold knownKeys
  rw [List.filterMap_eq_nil_iff]
  intro m hm
  obtain ⟨key, hkey, hunknown⟩ := hextra m hm
  rw [hkey]
  simp [Except.toOption, hunknown]

include hmoved hextra hperm in
theorem perm_knownKeys : (l.knownKeys ms').Perm (l.knownKeys ms) := by
  have h : (l.knownKeys ms').Perm (l.knownKeys (moved ++ extra)) := hperm.filterMap _
  unfold knownKeys at h
  rw [List.filterMap_append] at h
  have hkeys : l.knownKeys moved ++ l.knownKeys extra = l.knownKeys ms := by
    rw [knownKeys_moved hmoved, knownKeys_extra hextra, List.append_nil]
  rw [← hkeys]
  exact h

include hmoved hperm in
/-- The members that were there are still there. -/
theorem exists_moved {m : Member} (hm : m ∈ ms) : ∃ m' ∈ ms', Member.Related R m m' := by
  have hmem : ∃ m' ∈ moved, Member.Related R m m' := by
    clear hperm
    induction hmoved with
    | nil => exact nomatch hm
    | cons h _ ih =>
        rcases List.mem_cons.mp hm with rfl | hm
        · exact ⟨_, List.mem_cons_self, h⟩
        · obtain ⟨m', hm', hrel⟩ := ih hm
          exact ⟨m', List.mem_cons_of_mem _ hm', hrel⟩
  obtain ⟨m', hm', hrel⟩ := hmem
  exact ⟨m', hperm.mem_iff.mpr (List.mem_append_left _ hm'), hrel⟩

include hmoved hperm in
/-- A member that is there now was there before or has come in. -/
theorem exists_origin {m' : Member} (hm' : m' ∈ ms') :
    m' ∈ extra ∨ ∃ m ∈ ms, Member.Related R m m' := by
  rcases List.mem_append.mp (hperm.mem_iff.mp hm') with hm' | hm'
  · clear hperm
    refine .inr ?_
    induction hmoved with
    | nil => exact nomatch hm'
    | cons h _ ih =>
        rcases List.mem_cons.mp hm' with rfl | hm'
        · exact ⟨_, List.mem_cons_self, h⟩
        · obtain ⟨m, hm, hrel⟩ := ih hm'
          exact ⟨m, List.mem_cons_of_mem _ hm, hrel⟩
  · exact .inl hm'

include hmoved hextra hperm in
theorem fault?_moved (hfields : ∀ f ∈ l.fields, f.Respects (R f.name.toList))
    (hskip : ∀ m ∈ ms', m.2.skipFault? = none) (hok : l.fault? (.object ms .closed) = none) :
    l.fault? (.object ms' .closed) = none := by
  obtain ⟨-, haccepts, hnodup⟩ := fault?_object.mp hok
  refine fault?_object.mpr ⟨rfl, ?_, (perm_knownKeys hmoved hextra hperm).nodup_iff.mpr hnodup⟩
  rintro ⟨key', v'⟩ hm'
  rcases exists_origin hmoved hperm hm' with hextra' | ⟨⟨key, v⟩, hm, rfl, hrel⟩
  · obtain ⟨key, rfl, hunknown⟩ := hextra _ hextra'
    exact (accepts_of_unknown hunknown).mpr (hskip _ hm')
  · obtain ⟨key, rfl, hvalue⟩ := haccepts _ hm
    -- a known member is as its field wants it, an unknown one has only to be well formed
    cases hfind : l.find? key with
    | none => exact (accepts_of_unknown hfind).mpr (hskip _ hm')
    | some f =>
        rw [hfind] at hvalue
        refine (accepts_of_known hfind).mpr ?_
        refine hfields f (mem_of_find? hfind) v v' ?_ (hskip _ hm') hvalue
        rw [name_of_find? hfind]
        exact hrel key rfl

include hmoved hextra hperm in
/-- The nodes of a field in both objects. -/
theorem field?_moved {name : String} (hname : (l.find? name.toList).isSome)
    (hok : l.fault? (.object ms .closed) = none) :
    (l.field? name (.object ms .closed) = none ∧ l.field? name (.object ms' .closed) = none) ∨
      ∃ v v', l.field? name (.object ms .closed) = some v ∧
        l.field? name (.object ms' .closed) = some v' ∧ (.ok name.toList, v) ∈ ms ∧
        (.ok name.toList, v') ∈ ms' ∧ R name.toList v v' := by
  obtain ⟨-, -, hnodup⟩ := fault?_object.mp hok
  have hnodup' := (perm_knownKeys hmoved hextra hperm).nodup_iff.mpr hnodup
  cases hfield : l.field? name (.object ms .closed) with
  | none =>
      refine .inl ⟨rfl, ?_⟩
      by_contra hsome
      obtain ⟨v', hv'⟩ := Option.ne_none_iff_exists'.mp hsome
      have hm' := (field?_eq_some hnodup' hname).mp hv'
      rcases exists_origin hmoved hperm hm' with hextra' | ⟨⟨key, v⟩, hm, hkey, -⟩
      · obtain ⟨key, hkey, hunknown⟩ := hextra _ hextra'
        rw [← Except.ok.inj hkey] at hunknown
        simp [hunknown] at hname
      · have hkey : key = .ok name.toList := hkey.symm
        rw [hkey] at hm
        rw [(field?_eq_some hnodup hname).mpr hm] at hfield
        simp at hfield
  | some v =>
      have hm := (field?_eq_some hnodup hname).mp hfield
      obtain ⟨⟨key', v'⟩, hm', hkey', hrel⟩ := exists_moved hmoved hperm hm
      have hkey' : key' = .ok name.toList := hkey'
      rw [hkey'] at hm'
      exact .inr ⟨v, v', rfl, (field?_eq_some hnodup' hname).mpr hm', hm, hm', hrel _ rfl⟩

end

/-- Members that are written in another order, with further ones among them. -/
theorem Rearranged.written (hR : ∀ key v, R key v v) {members members' extra : List (Named Written)}
    (hextra : ∀ m ∈ extra, ∃ key, Mark.meaning m.key = .ok key ∧ l.find? key = none)
    (hperm : members'.Perm (members ++ extra)) (space space' : Space) :
    l.Rearranged R (Written.object space members).node (Written.object space' members').node := by
  rw [Written.node, Written.node, Written.memberNodes_eq_map, Written.memberNodes_eq_map]
  refine .object (List.forall₂_same.mpr fun m _ => ⟨rfl, fun key _ => hR key m.2⟩) ?_
    (List.map_append ▸ hperm.map _)
  rw [List.forall_mem_map]
  exact hextra

/-! ### Reading a rearranged object -/

theorem Rearranged.null_iff (h : l.Rearranged R n n') : n = .null ↔ n' = .null := by
  cases h with
  | same => exact Iff.rfl
  | object => exact ⟨fun e => (nomatch e), fun e => (nomatch e)⟩

theorem Rearranged.fault? (h : l.Rearranged R n n') (hn' : n'.skipFault? = none)
    (hfields : ∀ f ∈ l.fields, f.Respects (R f.name.toList)) (hok : l.fault? n = none) :
    l.fault? n' = none := by
  cases h with
  | same => exact hok
  | object hmoved hextra hperm =>
      exact fault?_moved hmoved hextra hperm hfields
        (skipMembers?_eq_none.mp (skipFault?_object.mp hn').1) hok

variable {d : Decoder α} {name : String} {optionalAtEnd : Bool}

/-- A field whose values stay as they are reads as it did. -/
theorem Rearranged.read_eq (h : l.Rearranged R n n') (hok : l.fault? n = none)
    (hname : name ∈ l.fields.map (·.name)) (hR : R name.toList = Eq) (d : Decoder α)
    (absent : Except Fault α) :
    (l.field? name n').elim absent d = (l.field? name n).elim absent d := by
  cases h with
  | same => rfl
  | object hmoved hextra hperm =>
      rcases field?_moved hmoved hextra hperm (isSome_find? hname) hok with
        ⟨e, e'⟩ | ⟨v, v', e, e', -, -, hrel⟩
      · rw [e, e']
      · rw [hR] at hrel
        rw [e, e', hrel]

theorem Rearranged.withDefault_eq (h : l.Rearranged R n n') (hok : l.fault? n = none)
    (hname : name ∈ l.fields.map (·.name)) (hR : R name.toList = Eq) (d : Decoder α) (default : α) :
    (Fields.mk l n').withDefault name d default = (Fields.mk l n).withDefault name d default := by
  rw [Fields.withDefault_eq, Fields.withDefault_eq]
  exact h.read_eq hok hname hR d (.ok default)

theorem Rearranged.required_eq (h : l.Rearranged R n n') (hok : l.fault? n = none)
    (hname : name ∈ l.fields.map (·.name)) (hR : R name.toList = Eq) (d : Decoder α) :
    (Fields.mk l n').required name d = (Fields.mk l n).required name d := by
  rw [Fields.required_eq, Fields.required_eq]
  exact h.read_eq hok hname hR d (.error (.shape (.missingField name)))

/-- A field whose decoder respects what its values may become reads as it did. -/
theorem Rearranged.withDefault_eq_of_respects (h : l.Rearranged R n n') (hn' : n'.skipFault? = none)
    (hok : l.fault? n = none) (hnames : (l.fields.map (·.name)).Nodup)
    (hmem : ⟨name, optionalAtEnd, d.fault?⟩ ∈ l.fields) (hd : d.Respects (R name.toList))
    (default : α) :
    (Fields.mk l n').withDefault name d default = (Fields.mk l n).withDefault name d default := by
  rw [Fields.withDefault_eq, Fields.withDefault_eq]
  cases h with
  | same => rfl
  | object hmoved hextra hperm =>
      have hfind := find?_of_mem hnames hmem
      have hname : (l.find? name.toList).isSome := by rw [hfind]; rfl
      rcases field?_moved hmoved hextra hperm hname hok with ⟨e, e'⟩ | ⟨v, v', e, e', hm, hm', hrel⟩
      · rw [e, e']
      · have hv : d.fault? v = none :=
          (accepts_of_known hfind).mp ((fault?_object.mp hok).2.1 _ hm)
        have hv' : v'.skipFault? = none :=
          skipMembers?_eq_none.mp (skipFault?_object.mp hn').1 _ hm'
        obtain ⟨a, ha⟩ := Decoder.fault?_eq_none.mp hv
        rw [e, e', Option.elim_some, Option.elim_some, ha, hd v v' a hrel hv' ha]

end Layout

theorem Decoder.respects_ofLayout {build : Fields → Except Fault α}
    (hfields : ∀ f ∈ l.fields, f.Respects (R f.name.toList))
    (hbuild : ∀ n n', l.Rearranged R n n' → n'.skipFault? = none → l.fault? n = none →
      build ⟨l, n'⟩ = build ⟨l, n⟩) :
    (Decoder.ofLayout l build).Respects (l.Rearranged R) := by
  intro n n' a h hn' hok
  unfold ofLayout at hok ⊢
  split at hok
  · simp at hok
  · next hfault =>
      rw [h.fault? hn' hfields hfault, hbuild n n' h hn' hfault]
      exact hok

end Graft.Json
