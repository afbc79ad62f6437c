import Graft.Proofs.Resource.Draft

/-! # Scanning a text for the items of a form

Behind a text that no item has begun in, a text is scanned for items (`Form.Scan`): what has been
passed over, what is left open at the end, and what the text becomes when a value is written to the first
item of a name.  Scans of adjacent texts make one scan (`Scan.trans`), and the scan of a whole document
says what a `Writer` makes of it (`Writer.put_of_scan`). -/

namespace Graft.Markup

namespace Form

variable {E : Type} {F : Form E} {n v a a' a'' g t t' u : Text} {o o' : Option Text}

/-- No item begins in the text, whatever quiet text follows. -/
def Sealed (F : Form E) (t : Text) : Prop := ∀ g, F.Quiet g → F.Quiet (t ++ g)

theorem sealed_nil : F.Sealed [] := fun _ hg => hg

theorem Sealed.append (ht : F.Sealed t) (hu : F.Sealed u) : F.Sealed (t ++ u) := by
  intro g hg
  rw [List.append_assoc]
  exact ht _ (hu g hg)

theorem Sealed.quiet (h : F.Sealed t) : F.Quiet t := by
  have := h [] (F.quiet_blank [] rfl)
  rwa [List.append_nil] at this

/-- Behind `a`, the text `t` is laid out as items with texts between them, and `a'` is what follows the
last item; if one of the items is named `n`, the text with the value `v` written to the first of these
is recorded. -/
inductive Scan (F : Form E) (n v a t a' : Text) : Option Text → Prop where
  | absent (ss : List (Slot E)) (text : a ++ t = F.slotsText ss ++ a') (fair : F.Fair ss)
      (names : ∀ s ∈ ss, F.slots.name s ≠ n) : Scan F n v a t a' none
  | found (as : List (Slot E)) (s : Slot E) (bs : List (Slot E)) (t' : Text)
      (text : a ++ t = F.slotsText (as ++ s :: bs) ++ a') (fair : F.Fair (as ++ s :: bs))
      (names : ∀ s ∈ as, F.slots.name s ≠ n) (name : F.slots.name s = n)
      (written : a ++ t' = F.slotsText (as ++ F.slots.set s v :: bs) ++ a') :
      Scan F n v a t a' (some t')

theorem scan_pass (n v a t : Text) : F.Scan n v a t (a ++ t) none :=
  .absent [] rfl (List.forall_mem_nil _) (List.forall_mem_nil _)

/-- What has been written in the first of two texts, or else in the second one. -/
def written (t u : Text) (o o' : Option Text) : Option Text :=
  match o with
  | some t' => some (t' ++ u)
  | none => o'.map (t ++ ·)

theorem Scan.trans (h : F.Scan n v a t a' o) (h' : F.Scan n v a' u a'' o') :
    F.Scan n v a (t ++ u) a'' (written t u o o') := by
  -- what comes behind the first text goes behind whatever has become of it
  have hjoin : ∀ {x y z : Text} {ss ss' : List (Slot E)}, a ++ x = F.slotsText ss ++ a' →
      a' ++ y = F.slotsText ss' ++ z → a ++ (x ++ y) = F.slotsText (ss ++ ss') ++ z := by
    intro x y z ss ss' hx hy
    rw [← List.append_assoc, hx, List.append_assoc, hy, slotsText_append, List.append_assoc]
  cases h with
  | absent ss text fair names =>
      cases h' with
      | absent ss' text' fair' names' =>
          refine .absent (ss ++ ss') (hjoin text text') (fair_append.mpr ⟨fair, fair'⟩) ?_
          exact List.forall_mem_append.mpr ⟨names, names'⟩
      | found as s bs u' text' fair' names' name written =>
          have htext := hjoin text text'
          have hwritten := hjoin text written
          rw [← List.append_assoc ss] at htext hwritten
          refine .found (ss ++ as) s bs (t ++ u') htext ?_ ?_ name hwritten
          · rw [List.append_assoc]
            exact fair_append.mpr ⟨fair, fair'⟩
          · exact List.forall_mem_append.mpr ⟨names, names'⟩
  | found as s bs t' text fair names name written =>
      obtain ⟨ss', text', fair'⟩ : ∃ ss', a' ++ u = F.slotsText ss' ++ a'' ∧ F.Fair ss' := by
        cases h' with
        | absent ss' text' fair' => exact ⟨ss', text', fair'⟩
        | found as' s' bs' _ text' fair' => exact ⟨as' ++ s' :: bs', text', fair'⟩
      have htext := hjoin text text'
      have hwritten := hjoin written text'
      rw [List.append_assoc as] at htext hwritten
      refine .found as s (bs ++ ss') (t' ++ u) htext ?_ names name hwritten
      have := fair_append.mpr ⟨fair, fair'⟩
      rwa [List.append_assoc as] at this

/-- An item that begins in what has been passed over. -/
theorem scan_open (n v : Text) {b t t' : Text} {i : E} (hb : F.Quiet b) (hi : F.Good i)
    (text : a ++ t = b ++ F.text i) (written : a ++ t' = b ++ F.text (F.set i v)) :
    F.Scan n v a t [] (if F.name i = n then some t' else none) := by
  have hfair : F.Fair [⟨b, i⟩] := fair_cons.mpr ⟨⟨hb, hi⟩, List.forall_mem_nil _⟩
  have hslots : ∀ j : E, b ++ F.text j = F.slotsText [⟨b, j⟩] ++ [] := fun j => by
    rw [slotsText_cons]
    simp [slotsText]
  rw [hslots] at text written
  split
  · next h => exact .found [] ⟨b, i⟩ [] t' text hfair (List.forall_mem_nil _) h written
  · next h => exact .absent _ text hfair (List.forall_mem_singleton.mpr h)

/-- An item behind a text that keeps quiet. -/
theorem scan_item (n v : Text) {i : E} (ha : F.Quiet a) (hi : F.Good i) :
    F.Scan n v a (F.text i) [] (if F.name i = n then some (F.text (F.set i v)) else none) :=
  scan_open n v ha hi rfl rfl

/-- What becomes of items when a value is written to the first one of a name. -/
def overwritten? (F : Form E) (n v : Text) (ss : List (Slot E)) : Option Text :=
  if ∃ s ∈ ss, F.slots.name s = n then some (F.slotsText (F.slots.overwrite n v ss)) else none

/-- Items with texts between them. -/
theorem scan_slots (n v : Text) {ss : List (Slot E)} (ha : F.Sealed a) (hss : F.Fair ss) :
    ∃ a', F.Sealed a' ∧ F.Scan n v a (F.slotsText ss) a' (F.overwritten? n v ss) := by
  induction ss generalizing a with
  | nil => exact ⟨a ++ [], by rwa [List.append_nil], scan_pass n v a []⟩
  | cons s ss ih =>
      obtain ⟨⟨hgap, hitem⟩, hss⟩ := fair_cons.mp hss
      obtain ⟨a', ha', hscan⟩ := ih sealed_nil hss
      have h := ((scan_pass n v a s.gap).trans (scan_item n v (ha _ hgap) hitem)).trans hscan
      rw [← slotsText_cons] at h
      have ho : F.overwritten? n v (s :: ss) = written (s.gap ++ F.text s.item) (F.slotsText ss)
          (written s.gap (F.text s.item) none
            (if F.name s.item = n then some (F.text (F.set s.item v)) else none))
          (F.overwritten? n v ss) := by
        unfold overwritten?
        rw [Naming.overwrite]
        by_cases hs : F.name s.item = n
        · have hslot : F.slots.name s = n := hs
          rw [if_pos ⟨s, List.mem_cons_self .., hs⟩, if_pos hs, if_pos hslot, slotsText_cons]
          rfl
        · have hslot : F.slots.name s ≠ n := hs
          have hiff : (∃ x ∈ s :: ss, F.slots.name x = n) ↔ ∃ x ∈ ss, F.slots.name x = n := by
            simp [hslot]
          simp only [hiff, if_neg hs, if_neg hslot, slotsText_cons]
          split <;> rfl
      rw [ho]
      exact ⟨a', ha', h⟩

end Form

namespace Writer

variable {E : Type} {W : Writer E} {a t t' : Text} {e : ResourceEntry}

/-- Writing an entry that is found. -/
theorem put_of_scan (he : W.Named e) (ha : W.Quiet a)
    (h : W.toForm.Scan e.name (escape e.value) [] t a (some t')) : W.put t e = t' := by
  cases h with
  | found as s bs _ text fair names name written =>
      have hput := W.put_of_split as s bs a e he fair ha names name
      rw [← text, ← written] at hput
      exact hput

end Writer

end Graft.Markup
