import Graft.Proofs.Brace.Matching

/-! # Looking backwards

The search for the brace that a closing one closes goes backwards.  It is the search for a partner in
the mirrored text (`partner?_mirror`), and mirroring keeps texts balanced (`isBalanced_mirror`); so at
a closing brace the two searches find the same pairs (`openingOf?_eq_some_iff_matched`). -/

namespace Graft.Brace

variable {s t : Text} {o c : Nat}

/-- A brace of the other kind for a brace. -/
def flip (c : Char) : Char := if c = '{' then '}' else if c = '}' then '{' else c

/-- The text read backwards, with the two kinds of braces exchanged. -/
def mirror (t : Text) : Text := (t.map flip).reverse

@[simp] theorem flip_flip (c : Char) : flip (flip c) = c := by
  obtain rfl | rfl | ⟨hopen, hclose⟩ := brace_cases c
  · rfl
  · rfl
  · have hc : flip c = c := by
      unfold flip
      rw [if_neg hopen, if_neg hclose]
    rw [hc, hc]

theorem delta_flip (c : Char) : delta (flip c) = -delta c := by
  obtain rfl | rfl | ⟨hopen, hclose⟩ := brace_cases c
  · rfl
  · rfl
  · unfold flip
    rw [if_neg hopen, if_neg hclose]
    unfold delta
    rw [if_neg hopen, if_neg hclose]
    rfl

@[simp] theorem mirror_mirror (t : Text) : mirror (mirror t) = t := by
  unfold mirror
  rw [List.map_reverse, List.reverse_reverse, List.map_map]
  exact List.map_id'' flip_flip t

theorem mirror_append (s t : Text) : mirror (s ++ t) = mirror t ++ mirror s := by
  unfold mirror
  rw [List.map_append, List.reverse_append]

theorem mirror_cons (c : Char) (t : Text) : mirror (c :: t) = mirror t ++ [flip c] := by
  unfold mirror
  rw [List.map_cons, List.reverse_cons]

@[simp] theorem length_mirror (t : Text) : (mirror t).length = t.length := by
  unfold mirror
  rw [List.length_reverse, List.length_map]

theorem depth_mirror (t : Text) : depth (mirror t) = -depth t := by
  induction t with
  | nil => rfl
  | cons c t ih =>
      rw [mirror_cons, depth_append, depth_cons, depth_nil, depth_cons, delta_flip, ih]
      omega

theorem isBalanced_mirror_of (h : isBalanced t) : isBalanced (mirror t) := by
  obtain ⟨habove, hzero⟩ := isBalanced_iff.mp h
  refine isBalanced_iff.mpr ⟨fun p hp => ?_, by rw [depth_mirror, hzero]; rfl⟩
  -- a beginning of the mirrored text is the mirror image of an end of the text
  obtain ⟨q, hq⟩ := hp
  have e : t = mirror q ++ mirror p := by rw [← mirror_append, hq, mirror_mirror]
  have hfront := habove (mirror q) ⟨mirror p, e.symm⟩
  rw [e, depth_append, depth_mirror p] at hzero
  omega

theorem isBalanced_mirror : isBalanced (mirror t) ↔ isBalanced t := by
  refine ⟨fun h => ?_, isBalanced_mirror_of⟩
  have := isBalanced_mirror_of h
  rwa [mirror_mirror] at this

theorem partner?_mirror (n : Nat) (t : Text) :
    partner? '}' '{' n t.reverse = partner? '{' '}' n (mirror t) := by
  unfold mirror
  rw [← List.map_reverse]
  generalize t.reverse = t
  induction t generalizing n with
  | nil => cases n <;> rfl
  | cons c t ih =>
      rw [List.map_cons]
      obtain rfl | rfl | ⟨hopen, hclose⟩ := brace_cases c
      · cases n with
        | zero => rfl
        | succ n =>
            rw [show flip '{' = '}' from rfl, partner?_close_succ, ← ih]
            rfl
      · rw [show flip '}' = '{' from rfl, partner?_open, ← ih]
        cases n <;> rfl
      · have hc : flip c = c := by
          unfold flip
          rw [if_neg hopen, if_neg hclose]
        rw [hc, partner?_other ⟨hopen, hclose⟩, ← ih]
        cases n <;> rw [partner?, if_neg hclose, if_neg hopen]

theorem openingOf?_eq_some_iff (hc : c ≤ t.length) :
    openingOf? t c = some o ↔
      ∃ a inner, t.take c = a ++ '{' :: inner ∧ isBalanced inner ∧ a.length = o := by
  have hlen : (t.take c).length = c := List.length_take_of_le hc
  unfold openingOf?
  rw [partner?_mirror, Option.map_eq_some_iff]
  constructor
  · rintro ⟨k, hk, rfl⟩
    obtain ⟨inner, rest, hsplit, rfl, hin⟩ := partner?_eq_some_iff.mp hk
    have e : t.take c = mirror rest ++ '{' :: mirror inner := by
      rw [← mirror_mirror (t.take c), hsplit, mirror_append, mirror_cons, List.append_assoc]
      rfl
    refine ⟨mirror rest, mirror inner, e, isBalanced_mirror.mpr hin, ?_⟩
    rw [e] at hlen
    simp only [List.length_append, List.length_cons, length_mirror] at hlen ⊢
    omega
  · rintro ⟨a, inner, e, hin, rfl⟩
    have hsplit : mirror (t.take c) = mirror inner ++ '}' :: mirror a := by
      rw [e, mirror_append, mirror_cons, List.append_assoc]
      rfl
    refine ⟨(mirror inner).length, ?_, ?_⟩
    · exact partner?_eq_some_iff.mpr ⟨_, _, hsplit, rfl, isBalanced_mirror.mpr hin⟩
    · rw [e] at hlen
      simp only [List.length_append, List.length_cons, length_mirror] at hlen ⊢
      omega

/-- At a closing brace the search backwards finds the brace whose partner it is. -/
theorem openingOf?_eq_some_iff_matched (hc : t[c]? = some '}') :
    openingOf? t c = some o ↔ Matched t o c := by
  obtain ⟨x, y, rfl, rfl⟩ := exists_split_of_getElem? hc
  rw [openingOf?_eq_some_iff (by simp), List.take_left, ← closingOf?_eq_some_iff_matched,
    closingOf?_eq_some_iff]
  constructor
  · rintro ⟨a, inner, rfl, hin, rfl⟩
    refine ⟨a, inner, y, rfl, hin, rfl, ?_⟩
    rw [List.length_append, List.length_cons]
    omega
  · rintro ⟨a, inner, b, e, hin, rfl, hlen⟩
    have hx : x.length = (a ++ '{' :: inner).length := by
      rw [hlen, List.length_append, List.length_cons]
      omega
    exact ⟨a, inner, (List.append_inj e hx).1, hin, rfl⟩

end Graft.Brace
