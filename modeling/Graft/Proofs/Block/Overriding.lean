import Graft.Proofs.Block.Assignment

/-! # Assignments that override one another

An edit puts its assignment in place of one line, or adds it; other lines that assign to the key
stay.  `AssignsAt` is an assignment in the inside of a block, whatever its value.  After an edit the
assignment is there, and it is the only one exactly when every other that was there, but for the
line that is replaced, had the same text (`ensure_assigned`).  A comment line goes before an active
assignment, so the latter can survive (`overrides_commentedFirst`). -/

namespace Graft.BlockAssignment

open Text (AtLineStart LineEnds Stops)
open Brace (Free)

variable {a : BlockAssignment} {key p u x ind gap b before old new after inner inner' t t' : Text}

/-! ### Assignments in a text -/

/-- A text that assigns to the key: indentation, the key, white space, an equals sign, and the rest
of the line. -/
def Assigns (key u : Text) : Prop :=
  ∃ ind g v, ind.all isIndent ∧ Text.isBlank g ∧ '\n' ∉ v ∧ u = ind ++ (key ++ g ++ '=' :: v)

/-- Behind `p`, the text assigns to the key with the lines `u`. -/
def AssignsAt (key inner p u : Text) : Prop :=
  Assigns key u ∧ ∃ q, inner = p ++ u ++ q ∧ AtLineStart p ∧ LineEnds q

theorem spans_active_iff {q : Text} :
    a.active.Spans p u q ↔ Assigns a.key u ∧ AtLineStart p ∧ LineEnds q := by
  rw [spans_active, Assigns]
  constructor
  · rintro ⟨hline, hend, h⟩
    exact ⟨h, hline, hend⟩
  · rintro ⟨h, hline, hend⟩
    exact ⟨hline, hend, h⟩

theorem assignsAt_iff :
    AssignsAt a.key inner p u ↔ ∃ q, inner = p ++ u ++ q ∧ a.active.Spans p u q := by
  simp only [spans_active_iff, AssignsAt]
  constructor
  · rintro ⟨h, q, e, hline, hend⟩
    exact ⟨q, e, h, hline, hend⟩
  · rintro ⟨q, e, h, hline, hend⟩
    exact ⟨h, q, e, hline, hend⟩

theorem Assigns.mem (h : Assigns key u) : '=' ∈ u := by
  obtain ⟨ind, g, v, -, -, -, rfl⟩ := h
  simp

/-- No line starts right behind an assignment. -/
theorem Assigns.not_atLineStart (h : Assigns key u) (p : Text) : ¬AtLineStart (p ++ u) := by
  obtain ⟨ind, g, v, -, -, hv, rfl⟩ := h
  intro hline
  have e : p ++ (ind ++ (key ++ g ++ '=' :: v)) = (p ++ ind ++ key ++ g) ++ '=' :: v := by simp
  rw [e] at hline
  have := hline.eq_nil (show '\n' ∉ '=' :: v by simp [hv])
  cases this

/-- No line ends right before an assignment. -/
theorem Assigns.not_lineEnds {c : Char} {k : Text} (hc : Graft.isBlank c = false)
    (h : Assigns (c :: k) u) (q : Text) : ¬LineEnds (u ++ q) := by
  obtain ⟨ind, g, v, hind, -, -, rfl⟩ := h
  intro hend
  cases ind with
  | nil =>
      obtain rfl := hend c rfl
      exact absurd hc (by decide)
  | cons d ind =>
      obtain rfl := hend d rfl
      rw [List.all_cons, Bool.and_eq_true] at hind
      exact absurd hind.1 (by decide)

theorem not_assignsAt_of_isBlank (h : Text.isBlank inner) : ¬AssignsAt key inner p u := by
  rintro ⟨hu, q, rfl, -⟩
  have hmem : '=' ∈ p ++ u ++ q := by simp [hu.mem]
  exact absurd (List.all_eq_true.mp h _ hmem) (by decide)

/-- What begins a line as an assignment does is one, with the rest of its last line. -/
theorem Assigns.exists_assignsAt {y : Text} (h : Assigns key u) (hp : AtLineStart p) :
    ∃ u', AssignsAt key (p ++ u ++ y) p u' := by
  obtain ⟨ind, g, v, hind, hg, hv, rfl⟩ := h
  obtain ⟨l, r, rfl, hl, hr⟩ := Text.exists_lineEnd y
  exact ⟨ind ++ (key ++ g ++ '=' :: v) ++ l, ⟨ind, g, v ++ l, hind, hg, by simp [hv, hl], by simp⟩,
    r, by simp, hp, hr⟩

/-! ### Assignments beside a change -/

/-- The piece `u` behind `p` lies before or behind the text `old` behind `before`. -/
def Beside (before old p u : Text) : Prop :=
  p.length + u.length ≤ before.length ∨ (before ++ old).length ≤ p.length

theorem Beside.cases {q : Text} (h : Beside before old p u)
    (e : before ++ old ++ after = p ++ u ++ q) :
    (∃ z, before = p ++ u ++ z ∧ q = z ++ old ++ after) ∨
      ∃ z, p = before ++ old ++ z ∧ after = z ++ u ++ q := by
  rcases h with hlen | hlen
  · obtain ⟨z, rfl⟩ : p ++ u <+: before := by
      refine List.prefix_of_prefix_length_le ⟨q, e.symm⟩ ⟨old ++ after, by simp⟩ ?_
      rw [List.length_append]
      exact hlen
    have e' : p ++ u ++ (z ++ old ++ after) = p ++ u ++ q := by
      rw [← e]
      simp
    exact .inl ⟨z, rfl, (List.append_cancel_left e').symm⟩
  · obtain ⟨z, rfl⟩ : before ++ old <+: p :=
      List.prefix_of_prefix_length_le ⟨after, rfl⟩ ⟨u ++ q, by rw [e]; simp⟩ hlen
    have e' : before ++ old ++ after = before ++ old ++ (z ++ u ++ q) := by
      rw [e]
      simp
    exact .inr ⟨z, rfl, List.append_cancel_left e'⟩

/-- An assignment beside whole lines that change stays. -/
theorem AssignsAt.moved (h : AssignsAt a.key (before ++ old ++ after) p u) (ha : a.Proper)
    (hside : Beside before old p u) (hline : AtLineStart before) (hend : LineEnds after)
    (new : Text) :
    ∃ p', AssignsAt a.key (before ++ new ++ after) p' u ∧ Beside before new p' u := by
  obtain ⟨c, k, g, v, hkey, hc, -, -, -⟩ := ha.assigns
  obtain ⟨hu, q, e, hp, hq⟩ := h
  rcases hside.cases e with ⟨z, rfl, rfl⟩ | ⟨z, rfl, rfl⟩
  · obtain ⟨d, z, rfl⟩ : ∃ d z', z = d :: z' := by
      refine List.exists_cons_of_ne_nil ?_
      rintro rfl
      rw [List.append_nil] at hline
      exact hu.not_atLineStart p hline
    exact ⟨p, ⟨hu, d :: z ++ new ++ after, by simp, hp, hq⟩, .inl (by simp)⟩
  · have hz : z ≠ [] := by
      rintro rfl
      rw [hkey] at hu
      rw [List.nil_append] at hend
      exact hu.not_lineEnds hc q hend
    rw [Text.atLineStart_append_iff hz] at hp
    exact ⟨before ++ new ++ z, ⟨hu, q, by simp, (Text.atLineStart_append_iff hz).mpr hp, hq⟩,
      .inr (by simp)⟩

/-- Every assignment is the line of the field, or lies beside it. -/
theorem LineAt.cases {q : Text} (h : a.LineAt inner p ind q) (ha : a.Proper) {p' : Text}
    (hu : AssignsAt a.key inner p' u) :
    u = ind ++ a.field ∨ Beside p (ind ++ a.field) p' u := by
  obtain ⟨q', e, hspans⟩ := assignsAt_iff.mp hu
  have e' : p ++ ((ind ++ a.field) ++ q) = p' ++ (u ++ q') := by
    rw [← List.append_assoc p, ← List.append_assoc p', ← h.1]
    exact e
  rcases Nat.lt_trichotomy p'.length p.length with hlt | heq | hgt
  · exact .inr (.inl (h.over ha e hspans hlt))
  · obtain rfl := (List.append_inj e' heq.symm).1
    exact .inl (h.eq_of_spans ha e hspans)
  · refine .inr (.inr (Nat.le_of_not_lt fun hover => ?_))
    -- A line would start inside the line of the field.
    obtain ⟨z, rfl⟩ : p <+: p' :=
      List.prefix_of_prefix_length_le ⟨_, rfl⟩ ⟨_, e'.symm⟩ (Nat.le_of_lt hgt)
    rw [List.append_assoc p z] at e'
    have hz : z <+: ind ++ a.field := by
      refine List.prefix_of_prefix_length_le ⟨_, (List.append_cancel_left e').symm⟩ ⟨q, rfl⟩ ?_
      simp only [List.length_append] at hover ⊢
      omega
    have hnl : '\n' ∉ z := fun hmem => by
      rcases List.mem_append.mp (hz.subset hmem) with hind | hfield
      · exact newline_notMem_of_all h.2.2.2 hind
      · exact ha.solid.1.1 hfield
    obtain rfl := (spans_active_iff.mp hspans).2.1.eq_nil hnl
    simp at hgt

theorem LineAt.assignsAt {q : Text} (h : a.LineAt inner p ind q) (ha : a.Proper) :
    AssignsAt a.key inner p (ind ++ a.field) :=
  assignsAt_iff.mpr ⟨q, h.1, h.spans ha⟩

theorem trim_line (ha : a.Proper) (hind : ind.all isIndent) : (ind ++ a.field).trim = a.field := by
  have := Text.trim_tight (isBlank_of_all_isIndent hind) ha.tight_field
    (by decide : Text.isBlank [])
  rwa [List.append_nil] at this

/-! ### Inside the block -/

/-- The assignment `u` behind `p` is no part of the line that the edit replaces. -/
def Kept (a : BlockAssignment) (inner p u : Text) : Prop :=
  ∀ m, a.replacedLine? inner = some m → p.length + u.length ≤ m.start ∨ m.stop ≤ p.length

/-- `inner'` assigns the field to the key, and nothing else if the assignments that `inner` keeps do
not. -/
structure Assigned (a : BlockAssignment) (inner inner' : Text) : Prop where
  holds : ∃ p u, AssignsAt a.key inner' p u ∧ u.trim = a.field
  only_iff : (∀ p u, AssignsAt a.key inner' p u → u.trim = a.field) ↔
    ∀ p u, AssignsAt a.key inner p u → a.Kept inner p u → u.trim = a.field

theorem assigned_of_present (hpresent : ∃ m ∈ a.active.findAll inner, (m.text inner).trim = a.field)
    (hnone : a.replacedLine? inner = none) : a.Assigned inner inner := by
  constructor
  · obtain ⟨m, hm, htrim⟩ := hpresent
    obtain ⟨p, hat⟩ := Pattern.exists_matchAt_of_mem_findAll (flat_active a) hm
    obtain ⟨u, q, e, hspans, -, htext⟩ := hat.text_eq
    exact ⟨p, u, assignsAt_iff.mpr ⟨q, e, hspans⟩, htext ▸ htrim⟩
  · constructor
    · exact fun h p u hu _ => h p u hu
    · refine fun h p u hu => h p u hu fun m hm => ?_
      rw [hnone] at hm
      cases hm

theorem assigned_of_line (ha : a.Proper) {v q : Text} {m : Match}
    (hm : a.replacedLine? inner = some m) (hl : Line inner p ind v q m) :
    a.Assigned inner (p ++ (ind ++ a.field) ++ q) := by
  have hat : a.LineAt (p ++ (ind ++ a.field) ++ q) p ind q :=
    ⟨rfl, hl.lineStart, hl.lineEnds, hl.allIndent⟩
  have htrim := trim_line ha hl.allIndent
  have hkept : ∀ p' u, a.Kept inner p' u ↔ Beside p (ind ++ v) p' u := fun p' u => by
    simp only [Kept, Beside, hm, Option.some.injEq, forall_eq', hl.start_eq, hl.stop_eq,
      List.length_append]
  refine ⟨⟨p, _, hat.assignsAt ha, htrim⟩, fun h p' u hu hside => ?_, fun h p' u hu => ?_⟩
  · rw [hkept] at hside
    rw [hl.split] at hu
    obtain ⟨p'', hu', -⟩ := hu.moved ha hside hl.lineStart hl.lineEnds (ind ++ a.field)
    exact h p'' u hu'
  · rcases hat.cases ha hu with rfl | hside
    · exact htrim
    · obtain ⟨p'', hu', hside'⟩ := hu.moved ha hside hl.lineStart hl.lineEnds (ind ++ v)
      rw [← hl.split] at hu'
      exact h p'' u hu' ((hkept p'' u).mpr hside')

/-- The line of the field is the only assignment if there was none. -/
theorem assigned_of_new (ha : a.Proper) {q : Text} (hat : a.LineAt inner' p ind q)
    (hnone : ∀ p u, ¬AssignsAt a.key inner p u)
    (hbefore : ∀ p' u z, Assigns a.key u → AtLineStart p' → p ≠ p' ++ u ++ z)
    (hq : '=' ∉ q) : a.Assigned inner inner' := by
  have htrim := trim_line ha hat.2.2.2
  refine ⟨⟨p, _, hat.assignsAt ha, htrim⟩, fun _ p' u hu _ => absurd hu (hnone p' u),
    fun _ p' u hu => ?_⟩
  rcases hat.cases ha hu with rfl | hside
  · exact htrim
  · obtain ⟨hu, q', e, hline, -⟩ := hu
    rw [hat.1] at e
    rcases hside.cases e with ⟨z, hz, -⟩ | ⟨z, -, rfl⟩
    · exact absurd hz (hbefore p' u z hu hline)
    · exact absurd hu.mem fun hmem => hq (by simp [hmem])

theorem assigned_appendLine (ha : a.Proper) {lineIndent closeIndent : Text}
    (hli : lineIndent.all isIndent) (hci : closeIndent.all isIndent)
    (hnone : ∀ p u, ¬AssignsAt a.key inner p u) :
    a.Assigned inner (Block.appendLine inner lineIndent a.field closeIndent) := by
  have hat : a.LineAt (Block.appendLine inner lineIndent a.field closeIndent)
      (inner.trimEnd ++ ['\n']) lineIndent ('\n' :: closeIndent) :=
    ⟨by simp [Block.appendLine], Text.atLineStart_newline _, Text.lineEnds_newline _, hli⟩
  refine assigned_of_new ha hat hnone (fun p u z hu hp e => ?_) ?_
  · -- The newline is behind the assignment, which therefore was there before.
    obtain ⟨w, hw, -⟩ := Text.exists_trimEnd inner
    rcases List.eq_nil_or_concat z with rfl | ⟨z, d, rfl⟩
    · refine hu.not_atLineStart p ?_
      rw [List.append_nil] at e
      exact e ▸ Text.atLineStart_newline _
    · rw [List.concat_eq_append, ← List.append_assoc] at e
      obtain ⟨e, -⟩ := List.append_inj' e rfl
      obtain ⟨u', hu'⟩ := hu.exists_assignsAt (y := z ++ w) hp
      refine hnone p u' ?_
      rw [hw, e]
      simpa using hu'
  · rw [List.mem_cons, not_or]
    refine ⟨by decide, fun hmem => ?_⟩
    exact absurd (List.all_eq_true.mp hci _ hmem) (by decide)

theorem assigned_body (ha : a.Proper) : a.Assigned [] a.body := by
  have hat : a.LineAt a.body ['\n'] indentUnit ['\n'] :=
    ⟨by simp [body], Text.atLineStart_newline [], Text.lineEnds_newline _, rfl⟩
  refine assigned_of_new ha hat (fun _ _ => not_assignsAt_of_isBlank rfl) (fun p u z hu _ e => ?_)
    (by decide)
  have hmem : '=' ∈ p ++ u ++ z := by simp [hu.mem]
  rw [← e] at hmem
  exact absurd hmem (by decide)

/-! ### The block -/

/-- An edit from `t` to `t'` leaves `inner'` between the braces of the block: of one that it found,
or of the one that the look-up finds afterwards. -/
structure Leaves (a : BlockAssignment) (t t' inner' : Text) : Prop where
  located : ∀ h close, BlockHeader.find? a.block t = some h → h.closeAt? t = some close →
    t' = t.replaceRange (h.openAt + 1) close inner'
  found : (∀ w, a.replaced? t = some w → Free w) → Block.body? a.block t' = some inner'

theorem leaves_of_blockAt (h : BlockAt a.block t x ind gap inner b)
    (ht' : t' = opening x ind a.block gap ++ inner' ++ '}' :: b)
    (hfound : (∀ w, a.replaced? t = some w → Free w) → InBlock a.block t' inner') :
    a.Leaves t t' inner' := by
  refine ⟨fun hd close hfind hclose => ?_, fun hfree => Block.body?_eq_some_iff.mpr (hfound hfree)⟩
  obtain rfl := Option.some.inj (h.find?_eq.symm.trans hfind)
  obtain rfl := Option.some.inj (h.closeAt?_eq.symm.trans hclose)
  rw [ht', h.replaceRange_eq]

/-- What an edit of the inside of a block sees is the inside, if it assigns to the key. -/
theorem editable_of_assignsAt {h : BlockHeader} (hind : h.indent.all isIndent)
    (hu : AssignsAt key (Block.editable h inner) p u) : Block.editable h inner = inner :=
  editable_of_not_isBlank h fun hblank => not_assignsAt_of_isBlank (isBlank_editable hind hblank) hu

theorem not_assignsAt_of_editable {h : BlockHeader}
    (hnone : a.active.find? (Block.editable h inner) = none) (p u : Text) :
    ¬AssignsAt a.key inner p u := by
  intro hu
  rw [editable_of_not_isBlank h fun hblank => not_assignsAt_of_isBlank hblank hu] at hnone
  obtain ⟨q, e, hspans⟩ := assignsAt_iff.mp hu
  exact (Pattern.find?_eq_none_iff (flat_active a)).mp hnone p u q e hspans

theorem leaves_line (ha : a.Proper) (h : BlockAt a.block t x ind gap inner b) {lead v q : Text}
    {m : Match} (hm : a.replacedLine? inner = some m) (hl : Line inner p lead v q m) :
    a.Leaves t (opening x ind a.block gap ++ (p ++ (lead ++ a.field) ++ q) ++ '}' :: b)
      (p ++ (lead ++ a.field) ++ q) := by
  refine leaves_of_blockAt h rfl fun hfree => ?_
  have hrep := replaced?_of_blockAt h
  rw [editable_of_not_isBlank _ hl.not_isBlank, hm, Option.map_some, hl.text_eq] at hrep
  have hnew : Free (lead ++ a.field) :=
    Brace.free_append.mpr ⟨Brace.free_of_all hl.allIndent rfl rfl, ha.solid.free⟩
  have hchange : Change p (lead ++ v) (lead ++ a.field) q inner (p ++ (lead ++ a.field) ++ q) :=
    ⟨hl.split, rfl, hfree _ hrep, hnew.isBalanced, hl.stops⟩
  exact ⟨x, ind, gap, b, h.inside hchange ha.block.free (bare_of_free hnew.1)⟩

theorem leaves_appendLine (ha : a.Proper) (h : BlockAt a.block t x ind gap inner b)
    {lineIndent closeIndent : Text} (hli : lineIndent.all isIndent)
    (hci : closeIndent.all isIndent) :
    a.Leaves t (opening x ind a.block gap ++
        Block.appendLine inner lineIndent a.field closeIndent ++ '}' :: b)
      (Block.appendLine inner lineIndent a.field closeIndent) := by
  obtain ⟨old, hfill, hnew⟩ := fill_appendLine (s := inner) rfl (Brace.free_of_all hli rfl rfl)
    ha.solid.free (Brace.free_of_all hci rfl rfl)
  exact leaves_of_blockAt h rfl fun _ =>
    ⟨x, ind, gap, b, h.inside hfill.toChange ha.block.free (bare_of_free hnew.1)⟩

theorem exists_leaves_of_blockAt (ha : a.Proper) (h : BlockAt a.block t x ind gap inner b)
    (block : Option Text) :
    ∃ inner', a.Leaves t (a.ensure block t).text inner' ∧ a.Assigned inner inner' := by
  have hind := h.header.allIndent
  rw [ensure_of_blockAt h, h.edit_eq]
  rcases ensureInside_cases a ind (Block.editable (.of a.block x ind gap) inner) with
    ⟨hpresent, hnone, he⟩ | ⟨p, lead, v, q, m, hm, hl, he⟩ | ⟨hnone, -, he⟩
  · -- The assignment is there.
    have hassigned := assigned_of_present hpresent hnone
    obtain ⟨p, u, hu, -⟩ := hassigned.holds
    rw [editable_of_assignsAt hind hu] at hassigned
    simp only [he]
    exact ⟨inner, leaves_of_blockAt h h.split fun _ => ⟨x, ind, gap, b, h⟩, hassigned⟩
  · -- A line is replaced.
    have e : Block.editable (.of a.block x ind gap) inner = inner :=
      editable_of_not_isBlank _ fun hblank => hl.not_isBlank (isBlank_editable hind hblank)
    rw [e] at he hl hm
    simp only [e, he, BlockOutcome.changed, if_true]
    exact ⟨_, leaves_line ha h hm hl, assigned_of_line ha hm hl⟩
  · -- A line is added.
    have hli : (ind ++ indentUnit).all isIndent := by
      rw [List.all_append, hind]
      rfl
    have e : Block.appendLine (Block.editable (.of a.block x ind gap) inner) (ind ++ indentUnit)
        a.field ind = Block.appendLine inner (ind ++ indentUnit) a.field ind := by
      rw [Block.appendLine, Block.appendLine, trimEnd_editable hind]
    simp only [he, e, BlockOutcome.changed, if_true]
    exact ⟨_, leaves_appendLine ha h hli hind,
      assigned_appendLine ha hli hind (not_assignsAt_of_editable hnone)⟩

theorem exists_leaves (ha : a.Proper) (block : Option Text)
    (hout : (a.ensure block t).outcome ≠ .braceNotFound) :
    ∃ inner', a.Leaves t (a.ensure block t).text inner' ∧
      a.Assigned ((Block.body? a.block t).getD []) inner' := by
  rcases find?_cases a.block t with hnone | ⟨h, hfind, hclose⟩ | ⟨x, ind, gap, inner, b, h⟩
  · have he : a.ensure block t = ⟨a.create block t, .blockCreated⟩ := by rw [ensure, hnone]
    have hbody : Block.body? a.block t = none := by rw [Block.body?, hnone]; rfl
    rw [he, hbody]
    refine ⟨a.body, ⟨fun h close hfind _ => ?_, fun _ => ?_⟩, assigned_body ha⟩
    · rw [hnone] at hfind
      cases hfind
    · exact Block.body?_eq_some_iff.mpr (inBlock_create ha hnone block)
  · rw [ensure, hfind] at hout
    exact absurd (congrArg BlockEdit.outcome (edit_of_closeAt?_eq_none hclose _)) hout
  · rw [Block.body?_eq_some_iff.mpr ⟨x, ind, gap, b, h⟩]
    exact exists_leaves_of_blockAt ha h block

theorem proper_ofTexts {block field : Text} (hblock : Word block)
    (hkey : ∃ c k, key = c :: k ∧ Graft.isBlank c = false ∧ c ≠ '=')
    (hfield : ∃ g v, Text.isBlank g ∧ field.trim = key ++ g ++ '=' :: v) (hline : '\n' ∉ field)
    (hfree : Free field) : (ofTexts block key field).Proper := by
  obtain ⟨c, k, rfl, hc, hceq⟩ := hkey
  obtain ⟨g, v, hg, htrim⟩ := hfield
  have hfree' := free_trim hfree
  have hline' : '\n' ∉ field.trim := by
    obtain ⟨s, s', e, -, -⟩ := Text.exists_trim field
    rw [e] at hline
    exact fun h => hline (by simp [h])
  have hlast : field.trim.getLast?.any fun c => !Graft.isBlank c := by
    rcases trim_eq_nil_or field with e | ⟨s, d, e, hd⟩
    · rw [htrim] at e
      simp at e
    · rw [e]
      simp [hd]
  exact ⟨hblock, ⟨⟨hline', hfree'.2⟩, hfree'.1, hlast⟩, c, k, g, v, rfl, hc, hceq, hg, htrim⟩

/-- Unless the block is not closed, the edit leaves the assignment in it; and it leaves no other
value for the key exactly when the assignments that were there, but for what is replaced, had none
either. -/
theorem ensure_assigned {block field : Text} (hblock : Word block)
    (hkey : ∃ c k, key = c :: k ∧ Graft.isBlank c = false ∧ c ≠ '=')
    (hfield : ∃ g v, Text.isBlank g ∧ field.trim = key ++ g ++ '=' :: v) (hline : '\n' ∉ field)
    (hfree : Free field) (sibling : Option Text) (t : Text)
    (hout : ((ofTexts block key field).ensure sibling t).outcome ≠ .braceNotFound) :
    ∃ inner', (ofTexts block key field).Leaves t ((ofTexts block key field).ensure sibling t).text
        inner' ∧
      (∃ p u, AssignsAt key inner' p u ∧ u.trim = field.trim) ∧
      ((∀ p u, AssignsAt key inner' p u → u.trim = field.trim) ↔
        ∀ inner, Block.body? block t = some inner → ∀ p u, AssignsAt key inner p u →
          (ofTexts block key field).Kept inner p u → u.trim = field.trim) := by
  have ha := proper_ofTexts hblock hkey hfield hline hfree
  obtain ⟨inner', hleaves, hholds, honly⟩ := exists_leaves ha sibling hout
  refine ⟨inner', hleaves, hholds, honly.trans ?_⟩
  change (∀ p u, AssignsAt key ((Block.body? block t).getD []) p u →
    (ofTexts block key field).Kept ((Block.body? block t).getD []) p u → u.trim = field.trim) ↔ _
  cases Block.body? block t with
  | none =>
      constructor
      · rintro - inner ⟨⟩
      · exact fun _ p u hu => absurd hu (not_assignsAt_of_isBlank rfl)
  | some inner => simp only [Option.getD_some, Option.some.injEq, forall_eq']

/-- The only assignment of another value gives way. -/
theorem ensure_assigned_otherValue :
    let a := ofTexts "react".toList "k".toList " k = 1".toList
    let t := "react \x7b\n  k = 2\n\x7d\n".toList
    (a.ensure none t).outcome = .fieldReplaced ∧ ∃ inner', a.Leaves t (a.ensure none t).text inner' ∧
      (∃ p u, AssignsAt "k".toList inner' p u ∧ u.trim = "k = 1".toList) ∧
      ((∀ p u, AssignsAt "k".toList inner' p u → u.trim = "k = 1".toList) ↔
        ∀ inner, Block.body? "react".toList t = some inner →
          ∀ p u, AssignsAt "k".toList inner p u → a.Kept inner p u → u.trim = "k = 1".toList) := by
  intro a t
  have hout : (a.ensure none t).outcome = .fieldReplaced := by decide +kernel
  refine ⟨hout, ensure_assigned (by decide) ⟨'k', [], by decide, by decide, by decide⟩
    ⟨" ".toList, " 1".toList, by decide, by decide⟩ (by decide) (by decide) none t ?_⟩
  change (a.ensure none t).outcome ≠ .braceNotFound
  rw [hout]
  decide

/-- The line that is commented out gives way, and the active assignment of another value behind it
stays. -/
theorem overrides_commentedFirst :
    let a := ofTexts "react".toList "k".toList "k = 1".toList
    let t := "react \x7b\n// k = 2\nk = 3\n\x7d\n".toList
    (a.ensure none t).outcome = .fieldReplaced ∧
      ∃ inner' p u, Block.body? "react".toList (a.ensure none t).text = some inner' ∧
        AssignsAt "k".toList inner' p u ∧ u.trim ≠ "k = 1".toList := by
  refine ⟨by decide +kernel, "\nk = 1\nk = 3\n".toList, "\nk = 1\n".toList, "k = 3".toList,
    by decide +kernel, ⟨⟨[], " ".toList, " 3".toList, by decide, by decide, by decide, by decide⟩,
      "\n".toList, by decide, .inr (by decide), Text.lineEnds_newline []⟩, by decide⟩

end Graft.BlockAssignment
