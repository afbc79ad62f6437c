import Mathlib.Data.List.Forall2
import Graft.Json.Decoder
import Graft.Proofs.Json.Intact

/-! # Members of an object

An object has the shape of a layout when each of its members is accepted on its own and no known name
comes twice (`memberFault?_eq_none`), so the order does not matter.  The node of a field is then the
value of the one member with its name (`field?_eq_some`).  What a decoder accepts can be passed over
(`Decoder.Careful`). -/

namespace Graft.Json

/-- A key and a value. -/
abbrev Member := Except Fault Text × Node

variable {α : Type} {l : Layout} {n : Node} {ms : List Member} {tail : Tail} {seen : List Text}

theorem Tail.eq_closed_of_fault? (h : tail.fault? = none) : tail = .closed := by
  cases tail with
  | closed => rfl
  | stopped f => simp [fault?] at h
  | badNext used skipped => simp [fault?] at h

theorem Tail.eq_closed_of_endFault? (h : tail.endFault? = none) : tail = .closed := by
  cases tail with
  | closed => rfl
  | stopped f => simp [endFault?] at h
  | badNext used skipped => simp [endFault?] at h

theorem skipItems?_eq_none {ns : List Node} :
    Node.skipItems? ns = none ↔ ∀ n ∈ ns, n.skipFault? = none := by
  induction ns with
  | nil => simp [Node.skipItems?]
  | cons n ns ih => rw [skipItems?_cons, ih, List.forall_mem_cons]

theorem skipMembers?_eq_none : Node.skipMembers? ms = none ↔ ∀ m ∈ ms, m.2.skipFault? = none := by
  induction ms with
  | nil => simp [Node.skipMembers?]
  | cons m ms ih => rw [skipMembers?_cons, ih, List.forall_mem_cons]

/-! ### What an object with the shape of a layout is -/

namespace Layout

/-- Whether a member is accepted: it has a name, and its value is faultless in the place it has. -/
def Accepts (l : Layout) (m : Member) : Prop :=
  ∃ key, m.1 = .ok key ∧
    match l.find? key with
    | some field => field.fault? m.2 = none
    | none => m.2.skipFault? = none

/-- The names of fields among the keys. -/
def knownKeys (l : Layout) (ms : List Member) : List Text :=
  ms.filterMap fun m => m.1.toOption.filter fun key => (l.find? key).isSome

theorem knownKeys_cons_of_known {key : Text} {v : Node} (h : (l.find? key).isSome) :
    l.knownKeys ((.ok key, v) :: ms) = key :: l.knownKeys ms := by
  unfold knownKeys
  rw [List.filterMap_cons_some]
  simp [Except.toOption, h]

theorem knownKeys_cons_of_unknown {key : Text} {v : Node} (h : l.find? key = none) :
    l.knownKeys ((.ok key, v) :: ms) = l.knownKeys ms := by
  unfold knownKeys
  rw [List.filterMap_cons_none]
  simp [Except.toOption, h]

theorem mem_knownKeys {key : Text} :
    key ∈ l.knownKeys ms ↔ (l.find? key).isSome ∧ ∃ v, (.ok key, v) ∈ ms := by
  unfold knownKeys
  rw [List.mem_filterMap]
  constructor
  · rintro ⟨⟨key', v⟩, hm, hkey⟩
    obtain ⟨hsome, hknown⟩ := Option.filter_eq_some_iff.mp hkey
    cases key' with
    | error f => simp [Except.toOption] at hsome
    | ok key' =>
        obtain rfl := Option.some.inj hsome
        exact ⟨hknown, v, hm⟩
  · rintro ⟨hknown, v, hm⟩
    exact ⟨(.ok key, v), hm, Option.filter_eq_some_iff.mpr ⟨rfl, hknown⟩⟩

theorem accepts_of_unknown {key : Text} {v : Node} (h : l.find? key = none) :
    l.Accepts (.ok key, v) ↔ v.skipFault? = none := by
  unfold Accepts
  simp [h]

theorem accepts_of_known {key : Text} {field : Field} {v : Node} (h : l.find? key = some field) :
    l.Accepts (.ok key, v) ↔ field.fault? v = none := by
  unfold Accepts
  simp [h]

theorem memberFault?_of_unknown {key : Text} {v : Node} (h : l.find? key = none) :
    l.memberFault? tail seen ((.ok key, v) :: ms) = none ↔
      v.skipFault? = none ∧ l.memberFault? tail seen ms = none := by
  rw [memberFault?]
  simp only [h]
  cases v.skipFault? <;> simp

theorem memberFault?_of_known {key : Text} {field : Field} {v : Node} (h : l.find? key = some field) :
    l.memberFault? tail seen ((.ok key, v) :: ms) = none ↔
      key ∉ seen ∧ field.fault? v = none ∧ l.memberFault? tail (key :: seen) ms = none := by
  rw [memberFault?]
  simp only [h, List.contains_iff_mem]
  split
  · next hseen => simp [hseen]
  · next hseen =>
      cases field.fault? v <;> simp [hseen]

/-- An object has the shape of a layout when its members are accepted one by one and none comes
twice. -/
theorem memberFault?_eq_none :
    l.memberFault? tail seen ms = none ↔
      tail.fault? = none ∧ (∀ m ∈ ms, l.Accepts m) ∧ (l.knownKeys ms).Nodup ∧
        ∀ key ∈ l.knownKeys ms, key ∉ seen := by
  -- a known name joins `seen` on the way, so the statement is about any of them
  induction ms generalizing seen with
  | nil => simp [memberFault?, knownKeys]
  | cons m ms ih =>
      obtain ⟨key, v⟩ := m
      cases key with
      | error f => simp [memberFault?, Accepts]
      | ok key =>
          rw [List.forall_mem_cons]
          cases h : l.find? key with
          | none =>
              rw [memberFault?_of_unknown h, accepts_of_unknown h, knownKeys_cons_of_unknown h, ih]
              tauto
          | some field =>
              have hknown : (l.find? key).isSome := by rw [h]; rfl
              have hapart : (∀ k ∈ l.knownKeys ms, k ∉ key :: seen) ↔
                  key ∉ l.knownKeys ms ∧ ∀ k ∈ l.knownKeys ms, k ∉ seen := by
                simp only [List.mem_cons, not_or, forall_and]
                exact and_congr_left fun _ =>
                  ⟨fun h hk => h key hk rfl, fun h k hk e => h (e ▸ hk)⟩
              rw [memberFault?_of_known h, accepts_of_known h, knownKeys_cons_of_known hknown, ih,
                List.nodup_cons, List.forall_mem_cons, hapart]
              tauto

theorem fault?_object :
    l.fault? (.object ms tail) = none ↔
      tail = .closed ∧ (∀ m ∈ ms, l.Accepts m) ∧ (l.knownKeys ms).Nodup := by
  unfold fault?
  rw [memberFault?_eq_none]
  simp only [List.not_mem_nil, not_false_eq_true, implies_true, and_true]
  exact and_congr_left fun _ => ⟨Tail.eq_closed_of_fault?, fun h => by rw [h]; rfl⟩

/-! ### The node of a field -/

variable {name : String} {v : Node}

theorem isKey_iff {key : Except Fault Text} : isKey name key ↔ key = .ok name.toList := by
  unfold isKey
  cases key with
  | error f => simp
  | ok key => simp

/-- The node of a field is the value of the member with its name, of which there is one. -/
theorem field?_eq_some (hnodup : (l.knownKeys ms).Nodup) (hname : (l.find? name.toList).isSome) :
    l.field? name (.object ms tail) = some v ↔ (.ok name.toList, v) ∈ ms := by
  show (ms.find? fun m => isKey name m.1).map (·.2) = some v ↔ _
  induction ms with
  | nil => simp
  | cons m ms ih =>
      obtain ⟨key, w⟩ := m
      have ih := ih (hnodup.sublist ((List.sublist_cons_self _ ms).filterMap _))
      by_cases hkey : key = .ok name.toList
      · rw [List.find?_cons_of_pos (p := fun m : Member => isKey name m.1) (isKey_iff.mpr hkey)]
        subst hkey
        rw [knownKeys_cons_of_known hname, List.nodup_cons] at hnodup
        refine ⟨fun h => ?_, fun h => ?_⟩
        · obtain rfl : w = v := Option.some.inj h
          exact List.mem_cons_self
        · rcases List.mem_cons.mp h with h | h
          · rw [(Prod.mk.inj h).2]
            rfl
          · exact absurd (mem_knownKeys.mpr ⟨hname, v, h⟩) hnodup.1
      · rw [List.find?_cons_of_neg (p := fun m : Member => isKey name m.1)
          (fun h => hkey (isKey_iff.mp h)), ih]
        exact ⟨fun h => List.mem_cons_of_mem _ h, fun h => (List.mem_cons.mp h).resolve_left
          fun e => hkey (Prod.mk.inj e).1.symm⟩

end Layout

/-! ### What is accepted can be passed over -/

/-- A field whose faultless values have nothing wrong with them when they are passed over. -/
def Field.Careful (f : Field) : Prop := ∀ n, f.fault? n = none → n.skipFault? = none

/-- The items that stand for fields are each accepted by a field. -/
theorem Layout.exists_field_of_itemFault? {count : Nat} {fields : List Field} {items : List Node}
    (h : l.itemFault? tail count fields items = none) :
    tail = .closed ∧ ∀ item ∈ items, ∃ f ∈ fields, f.fault? item = none := by
  induction fields generalizing count items with
  | nil =>
      cases items with
      | nil => exact ⟨Tail.eq_closed_of_endFault? h, fun _ hitem => nomatch hitem⟩
      | cons item items => simp [itemFault?] at h
  | cons field fields ih =>
      cases items with
      | nil =>
          refine ⟨?_, fun _ hitem => nomatch hitem⟩
          rw [itemFault?] at h
          split at h
          · simp at h
          · next htail => exact Tail.eq_closed_of_fault? htail
      | cons item items =>
          rw [itemFault?] at h
          split at h
          · simp at h
          · next hfield =>
              obtain ⟨htail, hitems⟩ := ih h
              refine ⟨htail, List.forall_mem_cons.mpr ⟨⟨field, List.mem_cons_self, hfield⟩, ?_⟩⟩
              intro x hx
              obtain ⟨f, hf, hok⟩ := hitems x hx
              exact ⟨f, List.mem_cons_of_mem _ hf, hok⟩

theorem Layout.mem_of_find? {key : Text} {f : Field} (h : l.find? key = some f) : f ∈ l.fields :=
  List.mem_of_find?_eq_some h

theorem Layout.name_of_find? {key : Text} {f : Field} (h : l.find? key = some f) :
    f.name.toList = key := by
  unfold find? at h
  have hname := List.find?_some h
  rwa [decide_eq_true_iff] at hname

theorem Layout.skipFault?_of_fault? (hfields : ∀ f ∈ l.fields, f.Careful) (h : l.fault? n = none) :
    n.skipFault? = none := by
  cases n with
  | object ms tail =>
      obtain ⟨rfl, haccepts, -⟩ := fault?_object.mp h
      refine skipFault?_object.mpr ⟨skipMembers?_eq_none.mpr fun m hm => ?_, rfl⟩
      obtain ⟨key, hkey, hvalue⟩ := haccepts m hm
      split at hvalue
      · next field hfind => exact hfields field (mem_of_find? hfind) m.2 hvalue
      · exact hvalue
  | array items tail =>
      obtain ⟨rfl, hitems⟩ := exists_field_of_itemFault? h
      refine skipFault?_array.mpr ⟨skipItems?_eq_none.mpr fun item hitem => ?_, rfl⟩
      obtain ⟨f, hf, hok⟩ := hitems item hitem
      exact hfields f hf item hok
  | _ => simp [fault?] at h

namespace Decoder

variable {d : Decoder α}

/-- A decoder that accepts only what can be passed over. -/
def Careful (d : Decoder α) : Prop := ∀ n a, d n = .ok a → n.skipFault? = none

theorem fault?_eq_none : d.fault? n = none ↔ ∃ a, d n = .ok a := by
  unfold fault?
  cases d n <;> simp

theorem Careful.field (h : d.Careful) (name : String) (optionalAtEnd : Bool) :
    Field.Careful ⟨name, optionalAtEnd, d.fault?⟩ := by
  intro n hn
  obtain ⟨a, ha⟩ := fault?_eq_none.mp hn
  exact h n a ha

theorem textAs_eq_ok {expected : String} {t : Text} :
    textAs expected n = .ok t ↔ n = .string (.ok t) := by
  cases n <;> simp [textAs]

theorem careful_textAs (expected : String) : (textAs expected).Careful := by
  intro n t h
  rw [textAs_eq_ok.mp h]
  rfl

theorem option_eq_ok {value : Option α} (h : d.option n = .ok value) :
    n = .null ∧ value = none ∨ ∃ a, d n = .ok a ∧ value = some a := by
  unfold option at h
  split at h
  · exact .inl ⟨rfl, (Except.ok.inj h).symm⟩
  · cases hd : d n with
    | error f => simp [hd, Except.map] at h
    | ok a =>
        rw [hd] at h
        exact .inr ⟨a, rfl, (Except.ok.inj h).symm⟩

theorem Careful.option (h : d.Careful) : d.option.Careful := by
  intro n value hn
  rcases option_eq_ok hn with ⟨rfl, -⟩ | ⟨a, ha, -⟩
  · rfl
  · exact h n a ha

theorem mapM_eq_ok {items : List Node} {values : List α} :
    items.mapM d = .ok values ↔ List.Forall₂ (fun n a => d n = .ok a) items values := by
  induction items generalizing values with
  | nil =>
      rw [List.mapM_nil, List.forall₂_nil_left_iff]
      exact ⟨fun h => (Except.ok.inj h).symm, fun h => by rw [h]; rfl⟩
  | cons n items ih =>
      rw [List.mapM_cons, List.forall₂_cons_left_iff]
      constructor
      · intro h
        cases hn : d n with
        | error f => simp [hn, bind, Except.bind] at h
        | ok a =>
            cases hitems : items.mapM d with
            | error f => simp [hn, hitems, bind, Except.bind] at h
            | ok as =>
                rw [hn, hitems] at h
                exact ⟨a, as, rfl, ih.mp hitems, (Except.ok.inj h).symm⟩
      · rintro ⟨a, as, hn, hitems, rfl⟩
        rw [hn, ih.mpr hitems]
        rfl

theorem list_eq_ok {values : List α} :
    d.list n = .ok values ↔
      ∃ items, n = .array items .closed ∧ List.Forall₂ (fun n a => d n = .ok a) items values := by
  constructor
  · intro h
    unfold list at h
    split at h
    · next items tail =>
        cases hitems : items.mapM d with
        | error f => simp [hitems, bind, Except.bind] at h
        | ok as =>
            rw [hitems] at h
            cases htail : tail.fault? with
            | some f => simp [htail, bind, Except.bind, throw, throwThe, MonadExceptOf.throw] at h
            | none =>
                simp only [htail, bind, Except.bind] at h
                obtain rfl := Except.ok.inj h
                exact ⟨items, by rw [Tail.eq_closed_of_fault? htail], mapM_eq_ok.mp hitems⟩
    · simp at h
  · rintro ⟨items, rfl, hitems⟩
    unfold list
    simp only [mapM_eq_ok.mpr hitems]
    rfl

theorem Careful.list (h : d.Careful) : d.list.Careful := by
  intro n values hn
  obtain ⟨items, rfl, hitems⟩ := list_eq_ok.mp hn
  refine skipFault?_array.mpr ⟨skipItems?_eq_none.mpr ?_, rfl⟩
  clear hn
  induction hitems with
  | nil => exact fun _ hitem => nomatch hitem
  | cons hd _ ih => exact List.forall_mem_cons.mpr ⟨h _ _ hd, ih⟩

theorem careful_ofLayout (hfields : ∀ f ∈ l.fields, f.Careful) (build : Fields → Except Fault α) :
    (ofLayout l build).Careful := by
  intro n a h
  unfold ofLayout at h
  split at h
  · simp at h
  · next hfault => exact l.skipFault?_of_fault? hfields hfault

end Decoder

/-! ### Whole texts -/

variable {t : Text}

/-- A text that is written out is decoded by its tree. -/
theorem decode_text (d : Decoder α) (doc : Document) : decode d doc.text = d doc.node := by
  have hrest : (skipSpace doc.after.1).isEmpty := by
    rw [List.isEmpty_iff]
    exact List.dropWhile_eq_nil_iff.mpr (List.all_eq_true.mp doc.after.2)
  unfold decode
  rw [ofText_text]
  simp only [hrest, if_true]
  exact bind_pure (d doc.node)

/-- What is decoded was written. -/
theorem exists_document_of_decode {d : Decoder α} (hd : d.Careful) {a : α} (h : decode d t = .ok a) :
    ∃ doc : Document, doc.text = t := by
  rcases hread : Node.ofText t with ⟨n, rest⟩
  unfold decode at h
  rw [hread] at h
  cases hn : d n with
  | error f => simp [hn, bind, Except.bind] at h
  | ok b =>
      simp only [hn, bind, Except.bind] at h
      split at h
      · next hrest =>
          exact exists_document hread (hd n b hn) (List.isEmpty_iff.mp hrest)
      · simp [throw, throwThe, MonadExceptOf.throw] at h

end Graft.Json
