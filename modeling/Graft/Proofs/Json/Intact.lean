import Mathlib.Data.Option.Basic
import Graft.Proofs.Json.Reading

/-! # What is read was written

Where nothing is wrong with a tree that is passed over, the part of the text that was read for it is a
value of the grammar (`exists_document`).  As before, the induction is on the bound of the reader
(`Writes`). -/

namespace Graft.Json

open Text (joinWith)
open Written (itemTexts memberTexts memberText)

variable {t u rest : Text} {n : Node} {fuel : Nat}

theorem exists_space (t : Text) : ∃ s : Space, t = s.1 ++ skipSpace t :=
  ⟨⟨t.takeWhile isSpace, List.all_takeWhile⟩, List.takeWhile_append_dropWhile.symm⟩

theorem isSpace_of_skipSpace {c : Char} (h : skipSpace t = c :: u) : isSpace c = false := by
  have hhead := List.head?_dropWhile_not isSpace t
  unfold skipSpace at h
  rw [h] at hhead
  simpa using hhead

/-! ### Values without parts -/

theorem eq_append_of_word {w : List Char} (h : word w t = .ok rest) : t = w ++ rest := by
  induction w generalizing t with
  | nil => exact Except.ok.inj h
  | cons c w ih =>
      cases t with
      | nil => simp [word] at h
      | cons d t =>
          rw [word] at h
          split at h
          · next hc =>
              rw [hc, ih h]
              rfl
          · simp at h

theorem eq_append_of_ofWord {w : List Char} {m : Node} (h : Node.ofWord w m t = (n, rest))
    (hn : n.skipFault? = none) : t = w ++ rest := by
  unfold Node.ofWord at h
  split at h
  · next hword =>
      obtain ⟨-, rfl⟩ := Prod.mk.inj h
      exact eq_append_of_word hword
  · obtain ⟨rfl, -⟩ := Prod.mk.inj h
    simp [Node.fault, Node.skipFault?] at hn

theorem exists_numeral_of_ofNumber (h : Node.ofNumber t = (n, rest)) (hn : n.skipFault? = none) :
    ∃ m : Numeral, t = m.text ++ rest := by
  unfold Node.ofNumber at h
  split at h
  · next hskip =>
      obtain ⟨-, rfl⟩ := Prod.mk.inj h
      exact exists_numeral hskip
  · split at h <;> obtain ⟨rfl, -⟩ := Prod.mk.inj h <;> simp [Node.fault, Node.skipFault?] at hn

theorem exists_marks_of_ofString (h : Node.ofString t = (n, rest)) (hn : n.skipFault? = none) :
    ∃ ms, t = marksText ms ++ '"' :: rest := by
  unfold Node.ofString at h
  split at h
  · next hskip =>
      obtain ⟨-, rfl⟩ := Prod.mk.inj h
      exact exists_marks hskip
  · split at h <;> obtain ⟨rfl, -⟩ := Prod.mk.inj h <;> simp [Node.fault, Node.skipFault?] at hn

/-! ### White space in front -/

section

variable {items : List (Spaced Written)} {members : List (Named Written)}

/-- White space and a piece of it in front. -/
def Space.append (s s' : Space) : Space :=
  ⟨s.1 ++ s'.1, by rw [List.all_append, s.2, s'.2]; rfl⟩

theorem exists_items_before (s : Space) (hne : items ≠ []) :
    ∃ items', items' ≠ [] ∧ ∀ u, joinWith [','] (itemTexts items') ++ u =
      s.1 ++ (joinWith [','] (itemTexts items) ++ u) := by
  obtain ⟨i, is, rfl⟩ := List.exists_cons_of_ne_nil hne
  refine ⟨⟨s.append i.before, i.value, i.after⟩ :: is, List.cons_ne_nil _ _, fun u => ?_⟩
  cases is with
  | nil =>
      rw [Written.joinWith_itemTexts_singleton, Written.joinWith_itemTexts_singleton]
      exact List.append_assoc _ _ _
  | cons j js =>
      have hne' := List.cons_ne_nil j js
      rw [Written.joinWith_itemTexts_cons _ hne', Written.joinWith_itemTexts_cons _ hne']
      exact List.append_assoc _ _ _

theorem exists_members_before (s : Space) (hne : members ≠ []) :
    ∃ members', members' ≠ [] ∧ ∀ u, joinWith [','] (memberTexts members') ++ u =
      s.1 ++ (joinWith [','] (memberTexts members) ++ u) := by
  obtain ⟨m, ms, rfl⟩ := List.exists_cons_of_ne_nil hne
  refine ⟨⟨s.append m.before, m.key, m.after, m.item⟩ :: ms, List.cons_ne_nil _ _, fun u => ?_⟩
  cases ms with
  | nil =>
      rw [Written.joinWith_memberTexts_singleton, Written.joinWith_memberTexts_singleton]
      exact List.append_assoc _ _ _
  | cons m' ms =>
      have hne' := List.cons_ne_nil m' ms
      rw [Written.joinWith_memberTexts_cons _ hne', Written.joinWith_memberTexts_cons _ hne']
      exact List.append_assoc _ _ _

end

/-! ### Arrays and objects -/

theorem Tail.eq_closed {tail : Tail} (h : tail.skipFault? = none) : tail = .closed := by
  cases tail with
  | closed => rfl
  | stopped f => simp [skipFault?] at h
  | badNext used skipped => simp [skipFault?] at h

theorem skipFault?_array {items : List Node} {tail : Tail} :
    (Node.array items tail).skipFault? = none ↔ Node.skipItems? items = none ∧ tail = .closed := by
  rw [Node.skipFault?]
  exact (Option.orElse_eq_none _ _).trans
    (and_congr_right fun _ => ⟨Tail.eq_closed, fun h => by rw [h]; rfl⟩)

theorem skipFault?_object {members : List (Except Fault Text × Node)} {tail : Tail} :
    (Node.object members tail).skipFault? = none ↔
      Node.skipMembers? members = none ∧ tail = .closed := by
  rw [Node.skipFault?]
  exact (Option.orElse_eq_none _ _).trans
    (and_congr_right fun _ => ⟨Tail.eq_closed, fun h => by rw [h]; rfl⟩)

theorem skipItems?_cons {ns : List Node} :
    Node.skipItems? (n :: ns) = none ↔ n.skipFault? = none ∧ Node.skipItems? ns = none := by
  rw [Node.skipItems?]
  exact Option.orElse_eq_none _ _

theorem skipMembers?_cons {m : Except Fault Text × Node} {ms : List (Except Fault Text × Node)} :
    Node.skipMembers? (m :: ms) = none ↔ m.2.skipFault? = none ∧ Node.skipMembers? ms = none := by
  rw [Node.skipMembers?]
  exact Option.orElse_eq_none _ _

/-- What the reader has passed without a fault is written as the grammar has it. -/
structure Writes (fuel : Nat) : Prop where
  value : ∀ (t rest : Text) (n : Node), Node.read fuel t = (n, rest) → n.skipFault? = none →
    ∃ (s : Space) (w : Written), t = s.1 ++ (w.text ++ rest)
  items : ∀ (t rest : Text) (ns : List Node), Node.readItems fuel t = (ns, .closed, rest) →
    Node.skipItems? ns = none →
    ∃ items, items ≠ [] ∧ t = joinWith [','] (itemTexts items) ++ ']' :: rest
  members : ∀ (t rest : Text) (ms : List (Except Fault Text × Node)),
    Node.readMembers fuel t = (ms, .closed, rest) → Node.skipMembers? ms = none →
    ∃ members, members ≠ [] ∧ t = joinWith [','] (memberTexts members) ++ '}' :: rest

theorem writes_zero : Writes 0 where
  value t rest n hread hn := by
    obtain ⟨rfl, -⟩ := Prod.mk.inj hread
    simp [Node.fault, Node.skipFault?] at hn
  items t rest ns hread _ := by simp [Node.readItems] at hread
  members t rest ms hread _ := by simp [Node.readMembers] at hread

theorem exists_written_of_read (h : Writes fuel) {c : Char} (hc : isSpace c = false)
    (hread : Node.read (fuel + 1) (c :: t) = (n, rest)) (hn : n.skipFault? = none) :
    ∃ w : Written, c :: t = w.text ++ rest := by
  obtain ⟨s, hs⟩ := exists_space t
  rw [Node.read, skipSpace_cons hc] at hread
  simp only at hread
  -- the character that the value starts with tells what it is
  split at hread
  · next hc => exact ⟨.null, by rw [hc, eq_append_of_ofWord hread hn, Written.text]; rfl⟩
  split at hread
  · next hc => exact ⟨.boolean true, by rw [hc, eq_append_of_ofWord hread hn, Written.text]; rfl⟩
  split at hread
  · next hc => exact ⟨.boolean false, by rw [hc, eq_append_of_ofWord hread hn, Written.text]; rfl⟩
  split at hread
  · next hc =>
      obtain ⟨ms, rfl⟩ := exists_marks_of_ofString hread hn
      exact ⟨.string ms, by rw [hc, Written.text, List.cons_append, List.append_assoc]; rfl⟩
  split at hread
  · obtain ⟨m, hm⟩ := exists_numeral_of_ofNumber hread hn
    exact ⟨.number m, by rw [hm, Written.text]⟩
  split at hread
  · next hc =>
      rw [hc]
      split at hread
      · next hclose =>
          obtain ⟨-, rfl⟩ := Prod.mk.inj hread
          exact ⟨.array s [], by rw [Written.text, hs, hclose]; simp [itemTexts]; rfl⟩
      · obtain ⟨rfl, -⟩ := Prod.mk.inj hread
        simp [Node.skipFault?, Node.skipItems?, Tail.skipFault?] at hn
      · rcases hitems : Node.readItems fuel (skipSpace t) with ⟨ns, tail, u⟩
        rw [hitems] at hread
        obtain ⟨rfl, rfl⟩ := Prod.mk.inj hread
        obtain ⟨hns, rfl⟩ := skipFault?_array.mp hn
        obtain ⟨items, -, ht⟩ := h.items (skipSpace t) _ _ hitems hns
        exact ⟨.array s items, by rw [Written.text, hs, ht]; simp⟩
  split at hread
  · next hc =>
      rw [hc]
      split at hread
      · next hclose =>
          obtain ⟨-, rfl⟩ := Prod.mk.inj hread
          exact ⟨.object s [], by rw [Written.text, hs, hclose]; simp [memberTexts]; rfl⟩
      · rcases hmembers : Node.readMembers fuel (skipSpace t) with ⟨ms, tail, u⟩
        rw [hmembers] at hread
        obtain ⟨rfl, rfl⟩ := Prod.mk.inj hread
        obtain ⟨hms, rfl⟩ := skipFault?_object.mp hn
        obtain ⟨members, -, ht⟩ := h.members (skipSpace t) _ _ hmembers hms
        exact ⟨.object s members, by rw [Written.text, hs, ht]; simp⟩
  · obtain ⟨rfl, -⟩ := Prod.mk.inj hread
    simp [Node.fault, Node.skipFault?] at hn

theorem exists_items_succ (h : Writes fuel) {ns : List Node}
    (hread : Node.readItems (fuel + 1) t = (ns, .closed, rest)) (hns : Node.skipItems? ns = none) :
    ∃ items, items ≠ [] ∧ t = joinWith [','] (itemTexts items) ++ ']' :: rest := by
  rcases hitem : Node.read fuel t with ⟨n, u⟩
  rw [Node.readItems] at hread
  simp only [hitem] at hread
  split at hread
  · simp at hread
  obtain ⟨after, hafter⟩ := exists_space u
  split at hread
  · next hclose =>
      obtain ⟨rfl, -, rfl⟩ := by simpa using hread
      obtain ⟨hn, -⟩ := skipItems?_cons.mp hns
      obtain ⟨before, w, ht⟩ := h.value t u n hitem hn
      refine ⟨[⟨before, w, after⟩], List.cons_ne_nil _ _, ?_⟩
      rw [Written.joinWith_itemTexts_singleton, ht, hafter, hclose]
  · next v hcomma =>
      split at hread
      · simp at hread
      · simp at hread
      · rcases hrest : Node.readItems fuel (skipSpace v) with ⟨ns', tail, u'⟩
        simp only [hrest] at hread
        obtain ⟨rfl, rfl, rfl⟩ := by simpa using hread
        obtain ⟨hn, hns'⟩ := skipItems?_cons.mp hns
        obtain ⟨before, w, ht⟩ := h.value t u n hitem hn
        obtain ⟨items, hne, hitems⟩ := h.items _ _ _ hrest hns'
        obtain ⟨s, hs⟩ := exists_space v
        obtain ⟨items', hne', hitems'⟩ := exists_items_before s hne
        refine ⟨⟨before, w, after⟩ :: items', List.cons_ne_nil _ _, ?_⟩
        rw [Written.joinWith_itemTexts_cons _ hne', hitems', ← hitems, ← hs, ← hcomma, ← hafter]
        exact ht
  · simp at hread

theorem exists_members_succ (h : Writes fuel) {ms : List (Except Fault Text × Node)}
    (hread : Node.readMembers (fuel + 1) t = (ms, .closed, rest))
    (hms : Node.skipMembers? ms = none) :
    ∃ members, members ≠ [] ∧ t = joinWith [','] (memberTexts members) ++ '}' :: rest := by
  unfold Node.readMembers at hread
  split at hread
  · next t =>
      split at hread
      · split at hread <;> simp at hread
      next u hkey =>
      obtain ⟨key, rfl⟩ := exists_marks hkey
      obtain ⟨beforeColon, hbefore⟩ := exists_space u
      simp only at hread
      split at hread
      · next v hcolon =>
          rcases hvalue : Node.read fuel v with ⟨n, w⟩
          simp only [hvalue] at hread
          split at hread
          · simp at hread
          obtain ⟨after, hafter⟩ := exists_space w
          split at hread
          · next hclose =>
              obtain ⟨rfl, -, rfl⟩ := by simpa using hread
              obtain ⟨hn, -⟩ := skipMembers?_cons.mp hms
              obtain ⟨before, x, hv⟩ := h.value v w n hvalue hn
              refine ⟨[⟨⟨[], rfl⟩, key, beforeColon, ⟨before, x, after⟩⟩], List.cons_ne_nil _ _, ?_⟩
              rw [Written.joinWith_memberTexts_singleton, Written.memberText_append, hbefore, hcolon,
                hv, hafter, hclose]
              rfl
          · next w' hcomma =>
              rcases hrest : Node.readMembers fuel (skipSpace w') with ⟨ms', tail, u'⟩
              simp only [hrest] at hread
              obtain ⟨rfl, rfl, rfl⟩ := by simpa using hread
              obtain ⟨hn, hms'⟩ := skipMembers?_cons.mp hms
              obtain ⟨before, x, hv⟩ := h.value v w n hvalue hn
              obtain ⟨members, hne, hmembers⟩ := h.members _ _ _ hrest hms'
              obtain ⟨s, hs⟩ := exists_space w'
              obtain ⟨members', hne', hmembers'⟩ := exists_members_before s hne
              refine ⟨⟨⟨[], rfl⟩, key, beforeColon, ⟨before, x, after⟩⟩ :: members',
                List.cons_ne_nil _ _, ?_⟩
              rw [Written.joinWith_memberTexts_cons _ hne', Written.memberText_append, hmembers',
                ← hmembers, ← hs, ← hcomma, ← hafter, ← hv, ← hcolon, ← hbefore]
              rfl
          · simp at hread
      · simp at hread
  · simp at hread

theorem writes (fuel : Nat) : Writes fuel := by
  induction fuel with
  | zero => exact writes_zero
  | succ fuel ih =>
      refine ⟨fun t rest n hread hn => ?_, fun t rest ns hread hns => exists_items_succ ih hread hns,
        fun t rest ms hread hms => exists_members_succ ih hread hms⟩
      obtain ⟨s, hs⟩ := exists_space t
      rw [← read_skipSpace] at hread
      cases hstart : skipSpace t with
      | nil =>
          rw [hstart] at hread
          obtain ⟨rfl, -⟩ := Prod.mk.inj hread
          simp [Node.fault, Node.skipFault?] at hn
      | cons c u =>
          rw [hstart] at hread
          obtain ⟨w, hw⟩ := exists_written_of_read ih (isSpace_of_skipSpace hstart) hread hn
          exact ⟨s, w, by rw [← hw, ← hstart, ← hs]⟩

/-- What is read without a fault was written. -/
theorem exists_document (hread : Node.ofText t = (n, rest)) (hn : n.skipFault? = none)
    (hrest : skipSpace rest = []) : ∃ d : Document, d.text = t := by
  obtain ⟨s, w, ht⟩ := (writes _).value t rest n hread hn
  have hall : rest.all isSpace := by
    rw [List.all_eq_true]
    exact List.dropWhile_eq_nil_iff.mp hrest
  exact ⟨⟨s, w, ⟨rest, hall⟩⟩, ht.symm⟩

end Graft.Json
