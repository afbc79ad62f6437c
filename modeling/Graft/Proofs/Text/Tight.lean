import Graft.Text.Basic

/-! # Texts without white space around them

A tight text starts and ends with something other than white space.  Trimming takes away what stands
around a tight text and nothing else (`trim_tight`), and it cuts a text into such pieces
(`exists_trim`). -/

namespace Graft.Text

variable {u v v' t : Text}

/-- A text that starts and ends with something other than white space. -/
def Tight (u : Text) : Prop :=
  (u.head?.any fun c => !Graft.isBlank c) ∧ u.getLast?.any fun c => !Graft.isBlank c

instance (u : Text) : Decidable (Tight u) := inferInstanceAs (Decidable (_ ∧ _))

theorem Tight.exists_head (h : Tight u) : ∃ c v, u = c :: v ∧ Graft.isBlank c = false := by
  obtain ⟨h, -⟩ := h
  cases u with
  | nil => simp at h
  | cons c v => exact ⟨c, v, rfl, by simpa using h⟩

theorem Tight.exists_last (h : Tight u) : ∃ v c, u = v ++ [c] ∧ Graft.isBlank c = false := by
  obtain ⟨-, h⟩ := h
  cases hlast : u.getLast? with
  | none => simp [hlast] at h
  | some c =>
      obtain ⟨v, rfl⟩ := List.getLast?_eq_some_iff.mp hlast
      exact ⟨v, c, rfl, by simpa [hlast] using h⟩

theorem isBlank_append : isBlank (u ++ v) ↔ isBlank u ∧ isBlank v := by
  simp [isBlank]

theorem dropWhile_isBlank_append (hv : isBlank v) (t : Text) :
    (v ++ t).dropWhile Graft.isBlank = t.dropWhile Graft.isBlank :=
  List.dropWhile_append_of_pos (List.all_eq_true.mp hv)

theorem trimStart_append (hv : isBlank v) (hu : Tight u) (t : Text) :
    (v ++ (u ++ t)).trimStart = u ++ t := by
  obtain ⟨c, u', rfl, hc⟩ := hu.exists_head
  rw [trimStart, dropWhile_isBlank_append hv, List.cons_append, List.dropWhile_cons, hc,
    if_neg Bool.false_ne_true]

theorem trimEnd_append_last {c : Char} (hv : isBlank v) (hc : Graft.isBlank c = false) (u : Text) :
    (u ++ [c] ++ v).trimEnd = u ++ [c] := by
  have hv' : isBlank v.reverse := by rwa [isBlank, List.all_reverse]
  rw [trimEnd, dropEndWhile, List.reverse_append, dropWhile_isBlank_append hv', List.reverse_append,
    List.reverse_singleton, List.singleton_append, List.dropWhile_cons, hc,
    if_neg Bool.false_ne_true]
  simp

theorem trimEnd_append (hv : isBlank v) (hu : Tight u) : (u ++ v).trimEnd = u := by
  obtain ⟨u', c, rfl, hc⟩ := hu.exists_last
  exact trimEnd_append_last hv hc u'

theorem trimEnd_of_isBlank (h : isBlank t) : t.trimEnd = [] := by
  have hrev : isBlank t.reverse := by rwa [isBlank, List.all_reverse]
  have hdrop := dropWhile_isBlank_append hrev []
  rw [List.append_nil] at hdrop
  rw [trimEnd, dropEndWhile, hdrop]
  rfl

theorem trim_isBlank_append (hv : isBlank v) (t : Text) : (v ++ t).trim = t.trim := by
  unfold trim trimStart
  rw [dropWhile_isBlank_append hv]

theorem trim_tight (hv : isBlank v) (hu : Tight u) (hv' : isBlank v') : (v ++ u ++ v').trim = u := by
  rw [trim, List.append_assoc, trimStart_append hv hu, trimEnd_append hv' hu]

theorem trim_append_tight (hv : isBlank v) (hu : Tight u) : (v ++ u).trim = u := by
  have h := trim_tight hv hu (show isBlank [] from rfl)
  rwa [List.append_nil] at h

/-- A text is what trimming its end leaves of it, and white space. -/
theorem exists_trimEnd (t : Text) : ∃ v, t = t.trimEnd ++ v ∧ isBlank v := by
  refine ⟨_, (dropEndWhile_append_takeWhile Graft.isBlank t).symm, ?_⟩
  rw [isBlank, List.all_reverse]
  exact List.all_takeWhile

/-- A text is what trimming leaves of it, with white space around. -/
theorem exists_trim (t : Text) : ∃ v v', t = v ++ t.trim ++ v' ∧ isBlank v ∧ isBlank v' := by
  obtain ⟨v', hv', hblank⟩ := exists_trimEnd t.trimStart
  refine ⟨t.takeWhile Graft.isBlank, v', ?_, List.all_takeWhile, hblank⟩
  rw [List.append_assoc, trim, ← hv', trimStart, List.takeWhile_append_dropWhile]

theorem tight_trim (h : ¬isBlank t) : Tight t.trim := by
  obtain ⟨c, r, hstart, hc⟩ : ∃ c r, t.trimStart = c :: r ∧ Graft.isBlank c = false := by
    cases hs : t.trimStart with
    | nil =>
        have e := List.takeWhile_append_dropWhile (p := Graft.isBlank) (l := t)
        rw [← trimStart, hs, List.append_nil] at e
        exact absurd (e ▸ List.all_takeWhile : isBlank t) h
    | cons c r =>
        have := List.head?_dropWhile_not Graft.isBlank t
        rw [← trimStart, hs] at this
        exact ⟨c, r, rfl, by simpa using this⟩
  obtain ⟨v, hv, hblank⟩ := exists_trimEnd t.trimStart
  cases hend : t.trimStart.reverse.dropWhile Graft.isBlank with
  | nil =>
      rw [trimEnd, dropEndWhile, hend, List.reverse_nil, List.nil_append, hstart] at hv
      have := List.all_eq_true.mp hblank c (hv ▸ List.mem_cons_self ..)
      rw [hc] at this
      simp at this
  | cons d s =>
      have hlast := List.head?_dropWhile_not Graft.isBlank t.trimStart.reverse
      rw [hend] at hlast
      have htrim : t.trim = s.reverse ++ [d] := by
        rw [trim, trimEnd, dropEndWhile, hend, List.reverse_cons]
      refine ⟨?_, by rw [htrim, List.getLast?_concat]; simpa using hlast⟩
      rw [← trim, hstart, htrim] at hv
      rw [htrim]
      cases hs : s.reverse with
      | nil =>
          rw [hs] at hv
          obtain ⟨rfl, -⟩ := List.cons.inj hv
          simp [hc]
      | cons e s' =>
          rw [hs] at hv
          obtain ⟨rfl, -⟩ := List.cons.inj hv
          simp [hc]

theorem trim_of_isBlank (h : isBlank t) : t.trim = [] := by
  have h0 := dropWhile_isBlank_append h []
  rw [List.append_nil] at h0
  rw [trim, trimStart, h0]
  rfl

/-- White space at the end does not matter to what is left. -/
theorem trim_append_isBlank (h : isBlank v) (t : Text) : (t ++ v).trim = t.trim := by
  by_cases ht : isBlank t
  · rw [trim_of_isBlank ht, trim_of_isBlank (isBlank_append.mpr ⟨ht, h⟩)]
  · obtain ⟨s, s', e, hs, hs'⟩ := exists_trim t
    have e' : t ++ v = s ++ t.trim ++ (s' ++ v) := by
      conv => lhs; rw [e]
      rw [List.append_assoc]
    rw [e', trim_tight hs (tight_trim ht) (isBlank_append.mpr ⟨hs', h⟩)]

end Graft.Text
