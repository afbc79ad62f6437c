import Graft.Proofs.Config.Package
import Graft.Proofs.Integration.PayloadReader

/-! # Configurations with their members in another order

The members of a configuration and of its sections may stand in any order, and members with unknown
names may come in with any values: the same is read (`Config.Rearranged`).  What a payload is given is
taken from the member of each place, whatever else there is (`Config.ofText_rearranged`). -/

namespace Graft

open Json

variable {n n' : Node} {c : Config}

/-- The members keep their values. -/
abbrev sameValues : Text → Node → Node → Prop := fun _ => Eq

theorem IosConfig.careful_decoder : decoder.Careful := by
  refine Decoder.careful_ofLayout ?_ _
  have hfield : ∀ name expected,
      Field.Careful ⟨name, false, Decoder.fault? (.option (.textAs expected))⟩ :=
    fun name expected => (Decoder.careful_textAs expected).option.field name false
  simp only [layout, List.forall_mem_cons]
  exact ⟨hfield _ _, hfield _ _, hfield _ _, hfield _ _, hfield _ _, fun _ h => nomatch h⟩

theorem IosConfig.respects_decoder : decoder.Respects (layout.Rearranged sameValues) := by
  refine Decoder.respects_ofLayout (fun f _ => f.respects_eq) fun n n' h hn' hok => ?_
  have hread {name : String} (hname : name ∈ layout.fields.map (·.name)) (d : Decoder Text) :
      (Fields.mk layout n').optional name d = (Fields.mk layout n).optional name d :=
    h.withDefault_eq hok hname rfl d.option none
  simp (disch := decide) only [hread]

theorem AndroidConfig.careful_decoder : decoder.Careful := by
  refine Decoder.careful_ofLayout ?_ _
  simp only [layout, List.forall_mem_cons]
  exact ⟨(Decoder.careful_textAs _).option.field _ _, (Decoder.careful_textAs _).option.field _ _,
    (Decoder.careful_textAs _).field _ _, (Decoder.careful_textAs _).field _ _,
    fun _ h => nomatch h⟩

theorem AndroidConfig.respects_decoder : decoder.Respects (layout.Rearranged sameValues) := by
  refine Decoder.respects_ofLayout (fun f _ => f.respects_eq) fun n n' h hn' hok => ?_
  have hoptional {name : String} (hname : name ∈ layout.fields.map (·.name)) (d : Decoder Text) :
      (Fields.mk layout n').optional name d = (Fields.mk layout n).optional name d :=
    h.withDefault_eq hok hname rfl d.option none
  have hrequired {name : String} (hname : name ∈ layout.fields.map (·.name)) (d : Decoder Text) :
      (Fields.mk layout n').required name d = (Fields.mk layout n).required name d :=
    h.required_eq hok hname rfl d
  have hdefault {name : String} (hname : name ∈ layout.fields.map (·.name)) (d : Decoder Text)
      (default : Text) : (Fields.mk layout n').withDefault name d default =
        (Fields.mk layout n).withDefault name d default :=
    h.withDefault_eq hok hname rfl d default
  simp (disch := decide) only [hoptional, hrequired, hdefault]

namespace Config

/-- How a member of a configuration may change: each section may be rearranged. -/
def Related (key : Text) : Node → Node → Prop :=
  if key = "ios".toList then IosConfig.layout.Rearranged sameValues
  else if key = "android".toList then AndroidConfig.layout.Rearranged sameValues
  else if key = "profile".toList then Payload.Rearranged
  else Eq

/-- A configuration with the members of it and of its sections in another order, and with further
members whose names are unknown where they stand. -/
def Rearranged : Node → Node → Prop := layout.Rearranged Related

theorem related_self (key : Text) (v : Node) : Related key v v := by
  unfold Related
  split
  · exact .same v
  split
  · exact .same v
  split
  · exact .same v
  · rfl

theorem respects_ios :
    (Decoder.option IosConfig.decoder).Respects (Related "ios".toList) :=
  IosConfig.respects_decoder.option fun _ _ h => h.null_iff

theorem respects_android :
    (Decoder.option AndroidConfig.decoder).Respects (Related "android".toList) :=
  AndroidConfig.respects_decoder.option fun _ _ h => h.null_iff

theorem respects_profile : Payload.decoder.Respects (Related "profile".toList) :=
  Payload.respects_decoder

theorem careful_decoder : decoder.Careful := by
  refine Decoder.careful_ofLayout ?_ _
  simp only [layout, List.forall_mem_cons]
  exact ⟨IosConfig.careful_decoder.option.field _ _, AndroidConfig.careful_decoder.option.field _ _,
    Payload.careful_decoder.field _ _, fun _ h => nomatch h⟩

theorem respects_decoder : decoder.Respects Rearranged := by
  have hnames : (layout.fields.map (·.name)).Nodup := by decide
  refine Decoder.respects_ofLayout ?_ fun n n' h hn' hok => ?_
  · simp only [layout, List.forall_mem_cons]
    exact ⟨respects_ios.field _ _, respects_android.field _ _, respects_profile.field _ _,
      fun _ h => nomatch h⟩
  · have hios : (Fields.mk layout n').optional "ios" IosConfig.decoder =
        (Fields.mk layout n).optional "ios" IosConfig.decoder :=
      h.withDefault_eq_of_respects hn' hok hnames (List.mem_of_getElem? (i := 0) rfl)
        respects_ios none
    have handroid : (Fields.mk layout n').optional "android" AndroidConfig.decoder =
        (Fields.mk layout n).optional "android" AndroidConfig.decoder :=
      h.withDefault_eq_of_respects hn' hok hnames (List.mem_of_getElem? (i := 1) rfl)
        respects_android none
    have hprofile := h.withDefault_eq_of_respects hn' hok hnames
      (List.mem_of_getElem? (i := 2) rfl) respects_profile Payload.standard
    simp only [hios, handroid, hprofile]

theorem ofText_text (d : Document) :
    ofText d.text = .ok c ↔ decoder d.node = .ok c ∧ c.fault? = none := by
  rw [ofText_eq_ok, decode_text]

/-- The members of the payload of a configuration, none where it has no payload. -/
inductive PayloadMembers : Node → List Member → Prop where
  | absent {ms : List Member} {tail : Tail} (h : ∀ v, (.ok "profile".toList, v) ∉ ms) :
      PayloadMembers (.object ms tail) []
  | given {ms ps : List Member} {tail tail' : Tail}
      (h : (.ok "profile".toList, .object ps tail') ∈ ms) : PayloadMembers (.object ms tail) ps

theorem filled_of_decoder {ps : List Member} (hps : PayloadMembers n ps) (h : decoder n = .ok c) :
    ∀ s ∈ Payload.slots, s.Filled ps c.payload := by
  unfold decoder Decoder.ofLayout at h
  split at h
  · simp at h
  next hfault =>
  simp only [bind_eq_ok] at h
  obtain ⟨_, -, _, -, _, hpayload, hc⟩ := h
  obtain rfl := Except.ok.inj hc
  rw [Fields.withDefault_eq] at hpayload
  have hname : (layout.find? "profile".toList).isSome := Layout.isSome_find? (by decide)
  cases hps with
  | absent hnone =>
      rename_i ms tail
      have hnodup := (Layout.fault?_object.mp hfault).2.2
      cases hfield : layout.field? "profile" (.object ms tail) with
      | none =>
          rw [hfield] at hpayload
          obtain rfl := Except.ok.inj hpayload
          exact fun s _ => Payload.filled_standard s
      | some v => exact absurd ((Layout.field?_eq_some hnodup hname).mp hfield) (hnone v)
  | given hmem =>
      have hnodup := (Layout.fault?_object.mp hfault).2.2
      rw [(Layout.field?_eq_some hnodup hname).mpr hmem] at hpayload
      exact Payload.filled_of_decoder hpayload

/-- An accepted configuration was written out as a document.  With its members and those of its
sections in another order, and with members of unknown names added, it reads the same.  Each place of
the payload holds what the member with its name gives, or else what the standard payload holds. -/
theorem ofText_rearranged {t : Text} (h : ofText t = .ok c) :
    (∃ d : Document, d.text = t) ∧
      ∀ d : Document, d.text = t →
        (∀ d' : Document, Rearranged d.node d'.node → ofText d'.text = .ok c) ∧
          ∀ ps, PayloadMembers d.node ps → ∀ s ∈ Payload.slots, s.Filled ps c.payload := by
  refine ⟨exists_document_of_decode careful_decoder (ofText_eq_ok.mp h).1, fun d hd => ?_⟩
  subst hd
  obtain ⟨hread, hfault⟩ := (ofText_text d).mp h
  refine ⟨fun d' hd' => ?_, fun ps hps => filled_of_decoder hps hread⟩
  exact (ofText_text d').mpr ⟨respects_decoder _ _ c hd' d'.value.skipFault?_node hread, hfault⟩

/-! ### A configuration in two orders -/

section

/-- The marks of a text that needs no escapes. -/
def plainMarks (t : Text) : List Mark :=
  t.filterMap fun c => if h : IsPlain c then some (.plain c h) else none

theorem meaning_plainMarks {t : Text} (h : t.all fun c => IsPlain c) :
    Mark.meaning (plainMarks t) = .ok t := by
  have hspelled : Mark.spelled? (plainMarks t) = some t := by
    unfold plainMarks
    induction t with
    | nil => rfl
    | cons c t ih =>
        rw [List.all_cons, Bool.and_eq_true, decide_eq_true_iff] at h
        rw [List.filterMap_cons_some (dif_pos h.1), Mark.spelled?, ih h.2]
        rfl
  unfold Mark.meaning
  rw [hspelled]

def bare (w : Written) : Spaced Written := ⟨⟨[], rfl⟩, w, ⟨[], rfl⟩⟩

def bareMember (key : String) (w : Written) : Named Written :=
  ⟨⟨[], rfl⟩, plainMarks key.toList, ⟨[], rfl⟩, bare w⟩

def bareObject (members : List (Named Written)) : Written := .object ⟨[], rfl⟩ members

def androidMember : Named Written :=
  bareMember "android" (bareObject [bareMember "package" (.string (plainMarks "a.b".toList))])

def importMember : Named Written :=
  bareMember "iosImport" (.string (plainMarks "import X".toList))

def noteMember : Named Written := bareMember "note" (.array ⟨[], rfl⟩ [bare .null])

def givenProfile : Named Written := bareMember "profile" (bareObject [importMember])

def movedProfile : Named Written := bareMember "profile" (bareObject [noteMember, importMember])

def givenDocument : Document := bare (bareObject [androidMember, givenProfile])

def movedDocument : Document := bare (bareObject [movedProfile, androidMember])

def givenText : Text :=
  ("\x7b\"android\":\x7b\"package\":\"a.b\"\x7d," ++
    "\"profile\":\x7b\"iosImport\":\"import X\"\x7d\x7d").toList

def movedText : Text :=
  ("\x7b\"profile\":\x7b\"note\":[null],\"iosImport\":\"import X\"\x7d," ++
    "\"android\":\x7b\"package\":\"a.b\"\x7d\x7d").toList

theorem givenDocument_text : givenDocument.text = givenText := by decide +kernel

theorem movedDocument_text : movedDocument.text = movedText := by decide +kernel

theorem rearranged_movedDocument : Rearranged givenDocument.node movedDocument.node := by
  have hprofile : Mark.meaning givenProfile.key = .ok "profile".toList :=
    meaning_plainMarks (by decide)
  have hextra : ∀ m ∈ [noteMember], ∃ key, Mark.meaning m.key = .ok key ∧
      Payload.layout.find? key = none := by
    intro m hm
    rw [List.mem_singleton.mp hm]
    exact ⟨"note".toList, meaning_plainMarks (by decide), by decide⟩
  have hpayload : Payload.Rearranged givenProfile.item.value.node movedProfile.item.value.node :=
    Layout.Rearranged.written Payload.related_self hextra (List.Perm.swap _ _ _) _ _
  have hmoved : List.Forall₂ (Member.Related Related)
      (Written.memberNodes [androidMember, givenProfile])
      (Written.memberNodes [androidMember, movedProfile]) := by
    refine .cons ⟨rfl, fun key _ => related_self key _⟩ (.cons ⟨rfl, fun key hkey => ?_⟩ .nil)
    rw [← Except.ok.inj (hprofile.symm.trans hkey)]
    exact hpayload
  have hperm : (Written.memberNodes [movedProfile, androidMember]).Perm
      (Written.memberNodes [androidMember, movedProfile] ++ []) := List.Perm.swap _ _ _
  exact .object hmoved (fun _ h => absurd h List.not_mem_nil) hperm

theorem ofText_rearranged_moved :
    ∃ c, ofText givenText = .ok c ∧ ofText movedText = .ok c ∧
      c.payload.iosImport = "import X".toList ∧ c.payload.gradleSimpleBlock = "react".toList := by
  have hread : (ofText givenText).toOption.isSome := by decide +kernel
  obtain ⟨c, hc⟩ := Option.isSome_iff_exists.mp hread
  have hc : ofText givenText = .ok c := eq_ok_of_toOption hc
  obtain ⟨hmoved, hfilled⟩ := (ofText_rearranged hc).2 givenDocument givenDocument_text
  have hprofile : PayloadMembers givenDocument.node [(.ok "iosImport".toList,
      .string (.ok "import X".toList))] := by
    have hkey : Mark.meaning givenProfile.key = .ok "profile".toList :=
      meaning_plainMarks (by decide)
    have hname : Mark.meaning importMember.key = .ok "iosImport".toList :=
      meaning_plainMarks (by decide)
    have hvalue : importMember.item.value.node = .string (.ok "import X".toList) :=
      congrArg Node.string (meaning_plainMarks (by decide))
    have hnode : givenProfile.item.value.node = .object [(.ok "iosImport".toList,
        .string (.ok "import X".toList))] .closed := by
      rw [← hname, ← hvalue]
      rfl
    have hmem : (Mark.meaning givenProfile.key, givenProfile.item.value.node) ∈
        Written.memberNodes [androidMember, givenProfile] :=
      List.mem_cons_of_mem _ List.mem_cons_self
    rw [hkey, hnode] at hmem
    exact .given hmem
  have hslots := hfilled _ hprofile
  refine ⟨c, hc, movedDocument_text ▸ hmoved movedDocument rearranged_movedDocument, ?_, ?_⟩
  · have himport := (hslots _ (List.mem_of_getElem? (i := 0) rfl)).1 _ List.mem_cons_self
    exact (Payload.Value.text.inj (Option.some.inj himport)).symm
  · have hblock := (hslots _ (List.mem_of_getElem? (i := 15) rfl)).2 fun v hv =>
      absurd (Except.ok.inj (Prod.mk.inj (List.mem_singleton.mp hv)).1) (by decide)
    exact Payload.Value.text.inj hblock

end

end Config

end Graft
