import Graft.Integration.PayloadReader
import Graft.Proofs.Json.Rearranged

/-! # What a payload is read from

A payload has a row of places, each with a name and what a node gives for it (`Payload.slots`).  A
payload that is read has in each place what the member with its name gives, and what the standard
payload has where there is no such member (`Payload.filled_of_decoder`).  The order of the members
and members with other names make no difference (`Payload.respects_decoder`). -/

namespace Graft

open Json

variable {n n' v : Node} {ms : List Member} {tail : Tail}

theorem bind_eq_ok {ε α β : Type} {x : Except ε α} {f : α → Except ε β} {b : β} :
    x >>= f = .ok b ↔ ∃ a, x = .ok a ∧ f a = .ok b := by
  cases x <;> simp [bind, Except.bind]

/-! ### What nodes stand for -/

/-- The text of a string. -/
def Json.Node.text? : Node → Option Text
  | .string (.ok t) => some t
  | _ => none

/-- The items of a list, as far as `f` knows them; all or nothing. -/
def Json.Node.itemsOf? {α : Type} (f : Node → Option α) : Node → Option (List α)
  | .array items .closed => items.mapM f
  | _ => none

theorem Json.Decoder.text?_of_text {t : Text} (h : Decoder.text v = .ok t) : v.text? = some t := by
  rw [Decoder.textAs_eq_ok.mp h]
  rfl

theorem Json.Decoder.itemsOf?_of_list {α : Type} {d : Decoder α} {f : Node → Option α}
    (hd : ∀ n a, d n = .ok a → f n = some a) {values : List α} (h : d.list v = .ok values) :
    v.itemsOf? f = some values := by
  obtain ⟨items, rfl, hitems⟩ := Decoder.list_eq_ok.mp h
  show items.mapM f = some values
  clear h
  induction hitems with
  | nil => rfl
  | cons ha _ ih =>
      rw [List.mapM_cons, hd _ _ ha, ih]
      rfl

namespace BuildTypeField

/-- The field for a build type that a node gives. -/
def given? (n : Node) : Option BuildTypeField := do
  let block ← (layout.field? "block" n).bind Node.text?
  let field ← (layout.field? "field" n).bind Node.text?
  return ⟨block, field⟩

theorem text?_of_required {l : Layout} {name : String} {t : Text}
    (h : (Fields.mk l n).required name .text = .ok t) :
    (l.field? name n).bind Node.text? = some t := by
  rw [Fields.required_eq] at h
  cases hfield : l.field? name n with
  | none => simp [hfield] at h
  | some v =>
      rw [hfield] at h
      exact Decoder.text?_of_text h

theorem given?_of_decoder {f : BuildTypeField} (h : decoder n = .ok f) : given? n = some f := by
  unfold decoder Decoder.ofLayout at h
  split at h
  · simp at h
  · simp only [bind_eq_ok] at h
    obtain ⟨block, hblock, field, hfield, hf⟩ := h
    unfold given?
    rw [text?_of_required hblock, text?_of_required hfield, ← Except.ok.inj hf]
    rfl

theorem careful_decoder : decoder.Careful := by
  refine Decoder.careful_ofLayout ?_ _
  simp only [layout, List.forall_mem_cons, List.not_mem_nil, false_implies, implies_true, and_true]
  exact ⟨(Decoder.careful_textAs _).field _ _, (Decoder.careful_textAs _).field _ _⟩

theorem respects_decoder : decoder.Respects (layout.Rearranged fun _ => Eq) := by
  refine Decoder.respects_ofLayout (fun f _ => f.respects_eq) fun n n' h hn' hok => ?_
  have hread {name : String} (hname : name ∈ layout.fields.map (·.name)) (d : Decoder Text) :
      (Fields.mk layout n').required name d = (Fields.mk layout n).required name d :=
    h.required_eq hok hname rfl d
  simp (disch := decide) only [hread]

end BuildTypeField

/-! ### The table of fields -/

namespace Payload

/-- What a field of a payload holds. -/
inductive Value where
  | text (t : Text)
  | texts (ts : List Text)
  | fields (fs : List BuildTypeField)
  deriving DecidableEq, Repr

/-- A place in a payload that a member can fill. -/
structure Slot where
  name : String
  get : Payload → Value
  /-- What a node gives for the place. -/
  given? : Node → Option Value

def Slot.of {α : Type} (name : String) (given? : Node → Option α) (wrap : α → Value)
    (get : Payload → α) : Slot where
  name := name
  get p := wrap (get p)
  given? v := (given? v).map wrap

def textSlot (name : String) (get : Payload → Text) : Slot := .of name Node.text? .text get

def textsSlot (name : String) (get : Payload → List Text) : Slot :=
  .of name (Node.itemsOf? Node.text?) .texts get

/-- The places of a payload. -/
def slots : List Slot := [
  textSlot "iosImport" iosImport,
  textSlot "iosImportObjc" iosImportObjc,
  textsSlot "iosImportMarkers" iosImportMarkers,
  textSlot "iosBundleUrlSwift" iosBundleUrlSwift,
  textSlot "iosBundleUrlObjc" iosBundleUrlObjc,
  textsSlot "androidImports" androidImports,
  textSlot "androidInitCall" androidInitCall,
  textSlot "androidInitMarker" androidInitMarker,
  textSlot "androidPackageRegistration" androidPackageRegistration,
  textSlot "androidPackageMarker" androidPackageMarker,
  textSlot "androidMutablePackages" androidMutablePackages,
  textSlot "androidBundleAccessor" androidBundleAccessor,
  textSlot "androidBundleAccessorMarker" androidBundleAccessorMarker,
  textSlot "gradleApplyLine" gradleApplyLine,
  .of "gradleBuildTypeFields" (Node.itemsOf? BuildTypeField.given?) .fields gradleBuildTypeFields,
  textSlot "gradleSimpleBlock" gradleSimpleBlock,
  textSlot "gradleSimpleKey" gradleSimpleKey,
  textSlot "gradleSimpleField" gradleSimpleField,
  textSlot "deploymentKeyName" deploymentKeyName,
  textSlot "serverUrlName" serverUrlName]

theorem slots_name : slots.map (·.name) = layout.fields.map (·.name) := rfl

/-- The table leaves nothing of a payload out. -/
theorem eq_of_slots {p q : Payload} (h : ∀ s ∈ slots, s.get p = s.get q) : p = q := by
  cases p
  cases q
  simp only [slots, textSlot, textsSlot, Slot.of, List.forall_mem_cons, Value.text.injEq,
    Value.texts.injEq, Value.fields.injEq] at h
  simp only [Payload.mk.injEq]
  tauto

/-- A payload has what a node gives for a place, or the standard where it gives nothing. -/
def Slot.Holds (s : Slot) (n : Node) (p : Payload) : Prop :=
  (layout.field? s.name n).elim (s.get p = s.get standard) fun v => s.given? v = some (s.get p)

section

variable {α : Type} {d : Decoder α} {given? : Node → Option α} {get : Payload → α} {name : String}
  {p : Payload}

theorem holds_of (hd : ∀ v a, d v = .ok a → given? v = some a) (wrap : α → Value)
    (h : (Fields.mk layout n).withDefault name d (get standard) = .ok (get p)) :
    (Slot.of name given? wrap get).Holds n p := by
  unfold Slot.Holds
  show (layout.field? name n).elim _ _
  rw [Fields.withDefault_eq] at h
  cases hfield : layout.field? name n with
  | none =>
      rw [hfield] at h
      exact congrArg wrap (Except.ok.inj h).symm
  | some v =>
      rw [hfield] at h
      show (given? v).map wrap = _
      rw [hd v _ h]
      rfl

theorem holds_textSlot {get : Payload → Text}
    (h : (Fields.mk layout n).withDefault name .text (get standard) = .ok (get p)) :
    (textSlot name get).Holds n p := holds_of (fun _ _ => Decoder.text?_of_text) .text h

theorem holds_textsSlot {get : Payload → List Text}
    (h : (Fields.mk layout n).withDefault name (.list .text) (get standard) = .ok (get p)) :
    (textsSlot name get).Holds n p :=
  holds_of (fun _ _ => Decoder.itemsOf?_of_list fun _ _ => Decoder.text?_of_text) .texts h

end

/-- Each place of a payload that is read is filled from its own member alone. -/
theorem holds_of_decoder {p : Payload} (h : decoder n = .ok p) : ∀ s ∈ slots, s.Holds n p := by
  unfold decoder Decoder.ofLayout at h
  split at h
  · simp at h
  simp only [bind_eq_ok] at h
  obtain ⟨_, h0, _, h1, _, h2, _, h3, _, h4, _, h5, _, h6, _, h7, _, h8, _, h9, _, h10, _, h11, _,
    h12, _, h13, _, h14, _, h15, _, h16, _, h17, _, h18, _, h19, hp⟩ := h
  obtain rfl := Except.ok.inj hp
  simp only [slots, List.forall_mem_cons]
  exact ⟨holds_textSlot h0, holds_textSlot h1, holds_textsSlot h2, holds_textSlot h3,
    holds_textSlot h4, holds_textsSlot h5, holds_textSlot h6, holds_textSlot h7, holds_textSlot h8,
    holds_textSlot h9, holds_textSlot h10, holds_textSlot h11, holds_textSlot h12, holds_textSlot h13,
    holds_of (fun _ _ => Decoder.itemsOf?_of_list fun _ _ => BuildTypeField.given?_of_decoder)
      .fields h14,
    holds_textSlot h15, holds_textSlot h16, holds_textSlot h17, holds_textSlot h18,
    holds_textSlot h19, fun _ h => nomatch h⟩

/-- A place is filled from the member with its name if there is one among the members of a payload,
and as in the standard payload otherwise. -/
def Slot.Filled (s : Slot) (ms : List Member) (p : Payload) : Prop :=
  (∀ v, (.ok s.name.toList, v) ∈ ms → s.given? v = some (s.get p)) ∧
    ((∀ v, (.ok s.name.toList, v) ∉ ms) → s.get p = s.get standard)

theorem filled_standard (s : Slot) : s.Filled [] standard :=
  ⟨fun _ h => (nomatch h), fun _ => rfl⟩

theorem filled_of_decoder {p : Payload} (h : decoder (.object ms tail) = .ok p) :
    ∀ s ∈ slots, s.Filled ms p := by
  intro s hs
  have hholds := holds_of_decoder h s hs
  have hnodup : (layout.knownKeys ms).Nodup := by
    unfold decoder Decoder.ofLayout at h
    split at h
    · simp at h
    · next hfault => exact (Layout.fault?_object.mp hfault).2.2
  have hname : (layout.find? s.name.toList).isSome := by
    refine Layout.isSome_find? ?_
    rw [← slots_name]
    exact List.mem_map_of_mem hs
  unfold Slot.Holds at hholds
  refine ⟨fun v hv => ?_, fun hnone => ?_⟩
  · rwa [(Layout.field?_eq_some hnodup hname).mpr hv] at hholds
  · cases hfield : layout.field? s.name (.object ms tail) with
    | none => rwa [hfield] at hholds
    | some v => exact absurd ((Layout.field?_eq_some hnodup hname).mp hfield) (hnone v)

/-! ### Members in another order -/

/-- How a member of a payload may change: the fields for build types may be rearranged. -/
def Related (key : Text) : Node → Node → Prop :=
  if key = "gradleBuildTypeFields".toList then
    Node.Itemwise (BuildTypeField.layout.Rearranged fun _ => Eq)
  else Eq

def Rearranged : Node → Node → Prop := layout.Rearranged Related

theorem related_self (key : Text) (v : Node) : Related key v v := by
  unfold Related
  split
  · exact .same v
  · rfl

theorem related_eq {name : String} (h : name ≠ "gradleBuildTypeFields") :
    Related name.toList = Eq := if_neg fun e => h (String.toList_inj.mp e)

theorem respects_list_related :
    (Decoder.list BuildTypeField.decoder).Respects (Related "gradleBuildTypeFields".toList) := by
  unfold Related
  rw [if_pos rfl]
  exact BuildTypeField.respects_decoder.list

theorem careful_decoder : decoder.Careful := by
  refine Decoder.careful_ofLayout ?_ _
  have htext : ∀ name, (textField name).Careful := fun name =>
    (Decoder.careful_textAs _).field name true
  have hlist : ∀ name, (listField name).Careful := fun name =>
    (Decoder.careful_textAs _).list.field name true
  simp only [layout, List.forall_mem_cons, htext, hlist, List.not_mem_nil, false_implies,
    implies_true, and_true, true_and]
  exact BuildTypeField.careful_decoder.list.field _ _

theorem respects_decoder : decoder.Respects Rearranged := by
  have hnames : (layout.fields.map (·.name)).Nodup := by decide
  have hmem : ⟨"gradleBuildTypeFields", true, Decoder.fault? (.list BuildTypeField.decoder)⟩ ∈
      layout.fields := List.mem_of_getElem? (i := 14) rfl
  refine Decoder.respects_ofLayout ?_ fun n n' h hn' hok => ?_
  · intro f hf
    by_cases hname : f.name = "gradleBuildTypeFields"
    · rw [List.inj_on_of_nodup_map hnames hf hmem hname]
      exact respects_list_related.field _ _
    · rw [related_eq hname]
      exact f.respects_eq
  · -- all fields but one keep their values; that one is a list whose items may be rearranged
    have hread {α : Type} {name : String} (hname : name ∈ layout.fields.map (·.name))
        (hne : name ≠ "gradleBuildTypeFields") (d : Decoder α) (default : α) :
        (Fields.mk layout n').withDefault name d default =
          (Fields.mk layout n).withDefault name d default :=
      h.withDefault_eq hok hname (related_eq hne) d default
    have hfields := h.withDefault_eq_of_respects hn' hok hnames hmem respects_list_related
      standard.gradleBuildTypeFields
    simp (disch := decide) only [hread, hfields]

end Payload

end Graft
