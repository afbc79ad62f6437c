import Graft.Proofs.Pattern.Successive
import Graft.Proofs.Resource.Closing
import Graft.Proofs.Resource.Upsert

/-! # Documents laid out as items

A document is laid out as the items that a pattern finds in it, each with the text before it, and a
rest.  A `Form` says how the items of one kind of document are written and what a text between items
may hold; it promises that the pattern finds just the items (`Form.findAll_text`). -/

namespace Graft.Markup

open Text (AtLineStart)

/-- How a kind of document writes its items, and how they are found. -/
structure Form (E : Type) extends Naming E where
  value : E → Text
  text : E → Text
  /-- What finds the items, and what its groups record of an item behind a text. -/
  pattern : Pattern
  groups : Text → E → List (Nat × Text × Text)
  /-- The tag before which new items go. -/
  tag : Text
  /-- The item is found as it was written. -/
  Good : E → Prop
  /-- No item begins in the text, whatever item follows it. -/
  Quiet : Text → Prop
  value_set : ∀ i v, value (set i v) = v
  good_set : ∀ i v, Good i → Tagless v → Good (set i v)
  flat : pattern.Flat
  taking : pattern.Taking
  tag_ne : tag ≠ []
  last : ∀ i, Good i → (text i).getLast? = some '>'
  best : ∀ i a b, Good i → (pattern.ways ⟨a.reverse, text i ++ b, []⟩).head? =
    some ⟨(a ++ text i).reverse, b, groups a i⟩
  quiet_item : ∀ g i, Quiet g → Good i → ∀ a b v u b', g ++ text i ++ b = v ++ u ++ b' →
    pattern.Spans (a ++ v) u b' → g.length ≤ v.length
  quiet_tail : ∀ g, Quiet g → ∀ a v u b, g = v ++ u ++ b → ¬pattern.Spans (a ++ v) u b
  quiet_front : ∀ front back s, Quiet (front ++ back) → Ending tag back → s.isBlank →
    Quiet (front ++ s)
  quiet_back : ∀ front back, Quiet (front ++ back) → Quiet ('\n' :: back)
  quiet_blank : ∀ s : Text, s.isBlank → Quiet s

/-- An item with the text before it. -/
structure Slot (E : Type) where
  gap : Text
  item : E

namespace Form

variable {E : Type} (F : Form E)

/-- The naming of slots by their items. -/
def slots : Naming (Slot E) where
  name s := F.name s.item
  set s v := { s with item := F.set s.item v }
  name_set s v := F.name_set s.item v
  set_set s v v' := by simp only [F.set_set]

def slotsText (ss : List (Slot E)) : Text := ss.flatMap fun s => s.gap ++ F.text s.item

/-- All texts before items are quiet, and all items are good. -/
def Fair (ss : List (Slot E)) : Prop := ∀ s ∈ ss, F.Quiet s.gap ∧ F.Good s.item

variable {F}

theorem slotsText_cons (s : Slot E) (ss : List (Slot E)) :
    F.slotsText (s :: ss) = s.gap ++ F.text s.item ++ F.slotsText ss := List.flatMap_cons

theorem slotsText_append (ss ss' : List (Slot E)) :
    F.slotsText (ss ++ ss') = F.slotsText ss ++ F.slotsText ss' := List.flatMap_append

theorem fair_cons {s : Slot E} {ss : List (Slot E)} :
    F.Fair (s :: ss) ↔ (F.Quiet s.gap ∧ F.Good s.item) ∧ F.Fair ss := List.forall_mem_cons

theorem fair_append {ss ss' : List (Slot E)} : F.Fair (ss ++ ss') ↔ F.Fair ss ∧ F.Fair ss' :=
  List.forall_mem_append

/-! ### What is found -/

variable (F)

/-- The match of an item behind a text. -/
def found (a : Text) (i : E) : Match :=
  .ofSpot a.reverse ⟨(a ++ F.text i).reverse, [], F.groups a i⟩

/-- What a group records becomes a span. -/
theorem span_append (a u : Text) :
    (a.reverse.length, (a ++ u).reverse.length) = (a.length, a.length + u.length) := by
  rw [List.length_reverse, List.length_reverse, List.length_append]

/-- The matches of slots behind a text. -/
def foundAll : Text → List (Slot E) → List Match
  | _, [] => []
  | a, s :: ss => F.found (a ++ s.gap) s.item :: foundAll (a ++ s.gap ++ F.text s.item) ss

variable {F}

theorem finds_slots {ss : List (Slot E)} {tail : Text} (hss : F.Fair ss) (htail : F.Quiet tail)
    (a : Text) : F.pattern.Finds a (F.slotsText ss ++ tail) (F.foundAll a ss) := by
  induction ss generalizing a with
  | nil => exact .stop (F.quiet_tail tail htail a)
  | cons s ss ih =>
      obtain ⟨⟨hgap, hitem⟩, hss⟩ := fair_cons.mp hss
      rw [slotsText_cons, List.append_assoc]
      exact .next (F.best _ _ _ hitem) (F.quiet_item _ _ hgap hitem a _) (ih hss _)

theorem findAll_text {ss : List (Slot E)} {tail : Text} (hss : F.Fair ss) (htail : F.Quiet tail) :
    F.pattern.findAll (F.slotsText ss ++ tail) = F.foundAll [] ss :=
  (Pattern.findAll_eq_iff F.flat F.taking).mpr (finds_slots hss htail [])

section

variable {β : Type} {P : Match → β} {Q : E → β} {t a b : Text} {ss : List (Slot E)}

/-- What is read off the matches of a text is what is read off the items. -/
def Reads (F : Form E) (P : Match → β) (Q : E → β) (t : Text) : Prop :=
  ∀ a i b, F.Good i → t = a ++ F.text i ++ b → P (F.found a i) = Q i

theorem map_foundAll (h : F.Reads P Q t) (hss : F.Fair ss) (ht : t = a ++ F.slotsText ss ++ b) :
    (F.foundAll a ss).map P = ss.map fun s => Q s.item := by
  induction ss generalizing a with
  | nil => rfl
  | cons s ss ih =>
      obtain ⟨⟨-, hitem⟩, hss⟩ := fair_cons.mp hss
      rw [slotsText_cons] at ht
      have hfirst := h (a ++ s.gap) s.item (F.slotsText ss ++ b) hitem (by rw [ht]; simp)
      rw [foundAll, List.map_cons, List.map_cons, hfirst, ih hss (by rw [ht]; simp)]

end

section

variable {P : Match → Bool} {n t a b : Text} {ss as bs : List (Slot E)} {s : Slot E}

theorem find?_foundAll_of_absent (h : F.Reads P (fun i => F.name i = n) t) (hss : F.Fair ss)
    (ht : t = a ++ F.slotsText ss ++ b) (habsent : ∀ s ∈ ss, F.slots.name s ≠ n) :
    (F.foundAll a ss).find? P = none := by
  refine List.find?_eq_none.mpr fun m hm hP => ?_
  have hmem : P m ∈ (F.foundAll a ss).map P := List.mem_map_of_mem hm
  rw [map_foundAll h hss ht, List.mem_map] at hmem
  obtain ⟨s, hs, e⟩ := hmem
  rw [← e, decide_eq_true_eq] at hP
  exact habsent s hs hP

theorem foundAll_append (a : Text) (as bs : List (Slot E)) :
    F.foundAll a (as ++ bs) = F.foundAll a as ++ F.foundAll (a ++ F.slotsText as) bs := by
  induction as generalizing a with
  | nil => simp [foundAll, slotsText]
  | cons s as ih =>
      rw [List.cons_append, foundAll, foundAll, ih, slotsText_cons]
      simp

theorem find?_foundAll_of_split (h : F.Reads P (fun i => F.name i = n) t)
    (hss : F.Fair (as ++ s :: bs)) (ht : t = F.slotsText (as ++ s :: bs) ++ b)
    (has : ∀ s' ∈ as, F.slots.name s' ≠ n) (hs : F.slots.name s = n) :
    (F.foundAll [] (as ++ s :: bs)).find? P =
      some (F.found (F.slotsText as ++ s.gap) s.item) := by
  obtain ⟨hfair, hfair'⟩ := fair_append.mp hss
  obtain ⟨⟨-, hitem⟩, -⟩ := fair_cons.mp hfair'
  rw [slotsText_append, slotsText_cons] at ht
  have hbefore : t = [] ++ F.slotsText as ++ (s.gap ++ F.text s.item ++ F.slotsText bs ++ b) := by
    rw [ht]
    simp
  have hnone := find?_foundAll_of_absent h hfair hbefore has
  have hP : P (F.found (F.slotsText as ++ s.gap) s.item) = true := by
    rw [h _ s.item (F.slotsText bs ++ b) hitem (by rw [ht]; simp), decide_eq_true_eq]
    exact hs
  rw [foundAll_append, List.find?_append, hnone, Option.none_or, foundAll, List.nil_append,
    List.find?_cons_of_pos hP]

end

/-! ### Laying out a document -/

/-- A document can be laid out if what the pattern takes is an item and what it passes over is
quiet; `Inv` is what is known of the text behind a place and of the matches that are found there. -/
theorem exists_slots (Inv : Text → Text → List Match → Prop)
    (stop : ∀ a t, Inv a t [] → (∀ v u b, t = v ++ u ++ b → ¬F.pattern.Spans (a ++ v) u b) →
      F.Quiet t)
    (next : ∀ a v u b gs ms,
      Inv a (v ++ u ++ b) (.ofSpot (a ++ v).reverse ⟨(a ++ v ++ u).reverse, b, gs⟩ :: ms) →
      (F.pattern.ways ⟨(a ++ v).reverse, u ++ b, []⟩).head? = some ⟨(a ++ v ++ u).reverse, b, gs⟩ →
      (∀ v' u' b', v ++ u ++ b = v' ++ u' ++ b' → F.pattern.Spans (a ++ v') u' b' →
        v.length ≤ v'.length) →
      F.pattern.Finds (a ++ v ++ u) b ms →
      F.Quiet v ∧ (∃ i, F.Good i ∧ u = F.text i) ∧ Inv (a ++ v ++ u) b ms)
    {a t : Text} {ms : List Match} (h : F.pattern.Finds a t ms) (hinv : Inv a t ms) :
    ∃ ss tail, t = F.slotsText ss ++ tail ∧ F.Fair ss ∧ F.Quiet tail := by
  induction h with
  | stop hnone => exact ⟨[], _, rfl, List.forall_mem_nil _, stop _ _ hinv hnone⟩
  | next best least rest ih =>
      obtain ⟨hv, ⟨i, hi, rfl⟩, hinv⟩ := next _ _ _ _ _ _ hinv best least rest
      obtain ⟨ss, tail, rfl, hss, htail⟩ := ih hinv
      refine ⟨⟨_, i⟩ :: ss, tail, ?_, fair_cons.mpr ⟨⟨hv, hi⟩, hss⟩, htail⟩
      rw [slotsText_cons, List.append_assoc _ (F.slotsText ss)]

theorem mem_foundAll {ss : List (Slot E)} {m : Match} {a b t : Text} (hss : F.Fair ss)
    (ht : t = a ++ F.slotsText ss ++ b) (hm : m ∈ F.foundAll a ss) :
    ∃ a' i b', F.Good i ∧ t = a' ++ F.text i ++ b' ∧ m = F.found a' i := by
  induction ss generalizing a with
  | nil => exact nomatch hm
  | cons s ss ih =>
      obtain ⟨⟨-, hitem⟩, hss⟩ := fair_cons.mp hss
      rw [slotsText_cons] at ht
      rcases List.mem_cons.mp hm with rfl | hm
      · exact ⟨_, _, F.slotsText ss ++ b, hitem, by rw [ht]; simp, rfl⟩
      · exact ih hss (by rw [ht]; simp) hm

theorem exists_stop {ss : List (Slot E)} (hne : ss ≠ []) (a : Text) :
    ∃ m ∈ F.foundAll a ss, m.stop = (a ++ F.slotsText ss).length := by
  induction ss generalizing a with
  | nil => exact absurd rfl hne
  | cons s ss ih =>
      rw [foundAll, slotsText_cons]
      cases ss with
      | nil =>
          refine ⟨_, List.mem_cons_self .., ?_⟩
          simp only [found, Match.ofSpot, List.length_reverse, slotsText, List.flatMap_nil,
            List.append_nil, List.append_assoc]
      | cons s' ss =>
          obtain ⟨m, hm, hstop⟩ := ih (by simp) (a ++ s.gap ++ F.text s.item)
          refine ⟨m, List.mem_cons_of_mem _ hm, ?_⟩
          rw [hstop]
          simp

/-- A tag that comes last behind all items is in the rest. -/
theorem tag_infix_of_stop_le {w tail : Text} {ss : List (Slot E)} {pos : Nat}
    (hpos : Text.findLast? w (F.slotsText ss ++ tail) = some pos) (hw : w ≠ [])
    (hstop : ∀ m ∈ F.foundAll [] ss, m.stop ≤ pos) : w <:+: tail := by
  obtain ⟨x, y, hat, rfl⟩ := Text.exists_lastAt_of_findLast? hw hpos
  have hle : (F.slotsText ss).length ≤ x.length := by
    by_cases hss : ss = []
    · rw [hss]
      exact Nat.zero_le _
    · obtain ⟨m, hm, hlen⟩ := exists_stop (F := F) hss []
      rw [← List.nil_append (F.slotsText ss), ← hlen]
      exact hstop m hm
  have hpre : F.slotsText ss <+: x :=
    List.prefix_of_prefix_length_le ⟨tail, rfl⟩ ⟨w ++ y, by rw [hat.split]; simp⟩ hle
  obtain ⟨z, rfl⟩ := hpre
  have e := hat.split
  rw [List.append_assoc, List.append_assoc] at e
  exact ⟨z, y, by rw [List.append_cancel_left e]; simp⟩

end Form

end Graft.Markup
