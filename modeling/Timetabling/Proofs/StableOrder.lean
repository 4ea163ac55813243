import Mathlib

/-!
# Sorting by a key

`StablySorted key l m` says that `m` lists the members of `l` by their keys and leaves those of one
key in the order in which `l` has them. There is only one such list (`StablySorted.unique`), so
sorting can be exchanged with whatever keeps the property, such as picking out some of the members.
-/

namespace Timetabling

variable {α ι : Type} [LinearOrder ι] {key : α → ι} {l m m' : List α}

/-- `m` is `l` by ascending key; members of one key stay in the order of `l`. -/
structure StablySorted (key : α → ι) (l m : List α) : Prop where
  sorted : m.Pairwise fun a b => key a ≤ key b
  stable : ∀ k, m.filter (fun a => key a = k) = l.filter fun a => key a = k

theorem stablySorted_mergeSort (key : α → ι) (l : List α) :
    StablySorted key l (l.mergeSort fun a b => key a ≤ key b) := by
  have htrans : ∀ a b c : α, decide (key a ≤ key b) = true → decide (key b ≤ key c) = true →
      decide (key a ≤ key c) = true := by
    intro a b c hab hbc
    simp only [decide_eq_true_eq] at hab hbc ⊢
    exact hab.trans hbc
  have htotal : ∀ a b : α, (decide (key a ≤ key b) || decide (key b ≤ key a)) = true := by
    intro a b
    simpa using le_total (key a) (key b)
  constructor
  · exact (List.pairwise_mergeSort htrans htotal l).imp fun h => by simpa using h
  · intro k
    -- the members of one key are in order already, so sorting keeps them as a sublist
    have hclass : (l.filter fun a => key a = k).Pairwise fun a b => decide (key a ≤ key b) = true :=
      List.pairwise_of_forall_mem_list fun a ha b hb => by
        have hak : key a = k := by simpa using (List.mem_filter.1 ha).2
        have hbk : key b = k := by simpa using (List.mem_filter.1 hb).2
        simp [hak, hbk]
    have hsub := (List.sublist_mergeSort htrans htotal hclass List.filter_sublist).filter
      fun a => key a = k
    rw [List.filter_filter] at hsub
    simp only [Bool.and_self] at hsub
    exact (hsub.eq_of_length ((List.mergeSort_perm l _).filter _).length_eq.symm).symm

namespace StablySorted

theorem perm (h : StablySorted key l m) : m.Perm l := by
  classical
  rw [List.perm_iff_count]
  intro a
  have hclass : ∀ l' : List α, (l'.filter fun b => key b = key a).count a = l'.count a :=
    fun l' => List.count_filter (by simp)
  rw [← hclass, h.stable, hclass]

theorem key_head_le {a : α} {as : List α} (h : (a :: as).Pairwise fun a b => key a ≤ key b) :
    ∀ b ∈ a :: as, key a ≤ key b := by
  intro b hb
  rcases List.mem_cons.1 hb with rfl | hb
  · exact le_rfl
  · exact List.rel_of_pairwise_cons h hb

/-- Two sorted lists are the same if they have the same members of each key in the same order. -/
theorem eq_of_filter_eq (hl : l.Pairwise fun a b => key a ≤ key b)
    (hm : m.Pairwise fun a b => key a ≤ key b)
    (h : ∀ k, l.filter (fun a => key a = k) = m.filter fun a => key a = k) : l = m := by
  induction l generalizing m with
  | nil =>
    cases m with
    | nil => rfl
    | cons b bs => have := h (key b); simp at this
  | cons a as ih =>
    cases m with
    | nil => have := h (key a); simp at this
    | cons b bs =>
      have hmem : ∀ c, c ∈ a :: as ↔ c ∈ b :: bs := by
        intro c
        have := congrArg (c ∈ ·) (h (key c))
        simpa [List.mem_filter] using this
      have hkey : key a = key b :=
        le_antisymm (key_head_le hl b ((hmem b).2 List.mem_cons_self))
          (key_head_le hm a ((hmem a).1 List.mem_cons_self))
      have hhead : a = b := by
        have := h (key a)
        rw [List.filter_cons_of_pos (by simp), List.filter_cons_of_pos (by simp [hkey])] at this
        exact List.head_eq_of_cons_eq this
      subst hhead
      refine congrArg (a :: ·) (ih hl.of_cons hm.of_cons fun k => ?_)
      have := h k
      by_cases hk : key a = k
      · rw [List.filter_cons_of_pos (by simpa using hk),
          List.filter_cons_of_pos (by simpa using hk)] at this
        exact List.tail_eq_of_cons_eq this
      · rwa [List.filter_cons_of_neg (by simpa using hk),
          List.filter_cons_of_neg (by simpa using hk)] at this

theorem unique (h : StablySorted key l m) (h' : StablySorted key l m') : m = m' :=
  eq_of_filter_eq h.sorted h'.sorted fun k => (h.stable k).trans (h'.stable k).symm

/-- To sort some of the members is to pick them out of the sorted list. -/
theorem filter (h : StablySorted key l m) (keep : α → Bool) :
    StablySorted key (l.filter keep) (m.filter keep) where
  sorted := h.sorted.filter keep
  stable k := by rw [List.filter_comm, h.stable, List.filter_comm]

end StablySorted

end Timetabling
