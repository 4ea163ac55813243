import Mathlib
import Timetabling.Proofs.ArcConsistency

/-!
# What propagation leaves

Propagation filters the domains of the listed subjects and touches nothing else, whether it succeeds
or not (`Propagation.Leaves`). It breaks off in two ways: before it has begun, when a listed subject
comes without candidates, and right after the revision that takes the last candidate of a subject.
In the second case all others still have candidates, since the worklist never goes on from an empty
domain (`Domains.propagate_leaves`).
-/

namespace Timetabling

variable {slots : SlotIndex} {ids : List SubjectId} {d : Domains} {x : SubjectId}

/-- What propagation leaves of the domains `d`, with or without success. -/
structure Propagation.Leaves (ids : List SubjectId) (d : Domains) (r : Propagation) : Prop where
  keys : ∀ x, x ∈ r.domains ↔ x ∈ d
  sublist : ∀ x, (r.domains.candidates x).Sublist (d.candidates x)
  frame : ∀ x, ¬ x ∈ ids → r.domains.get? x = d.get? x

theorem Propagation.Leaves.of_narrows {r : Propagation} (h : d.Narrows r.domains)
    (hf : ∀ x, ¬ x ∈ ids → r.domains.get? x = d.get? x) : r.Leaves ids d :=
  ⟨fun _ => h.mem_iff, h.sublist, hf⟩

namespace Domains

open Propagation

/-- The first listed subject without candidates ends the attempt at once. -/
theorem propagate_barred (h : ∃ x ∈ ids, d.exhausted x = true) : ∃ before x after,
    ids = before ++ x :: after ∧ (∀ y ∈ before, d.exhausted y = false) ∧ d.exhausted x = true ∧
      d.propagate slots ids = ⟨.error x, d⟩ := by
  obtain ⟨x, hx⟩ := Option.isSome_iff_exists.1 (List.find?_isSome.2 h)
  obtain ⟨hex, before, after, hids, hbefore⟩ := List.find?_eq_some_iff_append.1 hx
  refine ⟨before, x, after, hids, fun y hy => by simpa using hbefore y hy, hex, ?_⟩
  rw [propagate, hx]

/-- A failure of the worklist comes right after a revision has emptied a domain. -/
theorem propagate_wipeout (h : ∀ x ∈ ids, d.exhausted x = false)
    (hx : (d.propagate slots ids).outcome = .error x) : ∃ a rest d',
      Pending slots ids d (a :: rest) d' ∧ a.1 = x ∧
      (d.propagate slots ids).domains = (d'.revise slots a).1 ∧
      (d'.revise slots a).1.exhausted a.1 = true := by
  rw [propagate_eq_run h] at hx ⊢
  exact (run_pending (.start h)).2 x hx

theorem leaves_propagate (slots : SlotIndex) (ids : List SubjectId) (d : Domains) :
    (d.propagate slots ids).Leaves ids d := by
  rcases propagate_cases slots ids d with hd | ⟨x, -, -, hrun⟩
  · cases hout : (d.propagate slots ids).outcome with
    | ok t =>
      have hp := propagate_ok hout
      exact .of_narrows hp.narrows hp.frame
    | error x =>
      -- the invariant ends at `d'`, since after one more revision a subject has no candidates
      obtain ⟨a, rest, d', hp, -, hdom, -⟩ := propagate_wipeout hd hout
      apply Leaves.of_narrows
      · rw [hdom]
        exact hp.narrows.trans (narrows_revise slots d' a)
      · rw [hdom]
        exact hp.frame_revise
  · rw [hrun]
    exact .of_narrows (.refl d) fun _ _ => rfl

/-- The subject of a revision had candidates before it, so it is still present after it. -/
theorem get?_revise_of_exhausted {a : Arc} (h : d.exhausted a.1 = false)
    (hex : (d.revise slots a).1.exhausted a.1 = true) :
    (d.revise slots a).1.get? a.1 = some [] := by
  obtain ⟨v, hv⟩ := exhausted_eq_false.1 h
  have hget : (d.revise slots a).1.get? a.1 = some ((d.revise slots a).1.candidates a.1) := by
    rw [candidates_revise_self, get?_revise, if_pos rfl, get?_of_mem_candidates hv]
    rfl
  have hnil : (d.revise slots a).1.candidates a.1 = [] := List.isEmpty_iff.1 hex
  rw [hget, hnil]

/-- Propagation keeps the subjects that are there, filters the domains of those listed and leaves
the others alone. If a listed subject comes without candidates, the first such is named and nothing
changes; otherwise a failure names the one listed subject that is left without candidates. -/
theorem propagate_leaves (slots : SlotIndex) (ids : List SubjectId) (d : Domains) :
    (d.propagate slots ids).Leaves ids d ∧
    ((∃ x ∈ ids, d.exhausted x = true) → ∃ before x after,
      ids = before ++ x :: after ∧ (∀ y ∈ before, d.exhausted y = false) ∧ d.exhausted x = true ∧
        d.propagate slots ids = ⟨.error x, d⟩) ∧
    ((∀ x ∈ ids, d.exhausted x = false) → ∀ x, (d.propagate slots ids).outcome = .error x →
      x ∈ ids ∧ (d.propagate slots ids).domains.get? x = some [] ∧
        ∀ y ∈ ids, y ≠ x → (d.propagate slots ids).domains.exhausted y = false) := by
  refine ⟨leaves_propagate slots ids d, propagate_barred, fun h x hx => ?_⟩
  obtain ⟨a, rest, d', hp, rfl, hdom, hex⟩ := propagate_wipeout h hx
  obtain ⟨ha, -, -⟩ := hp.arcs a.1 a.2 List.mem_cons_self
  rw [hdom]
  exact ⟨ha, get?_revise_of_exhausted (hp.inhabited a.1 ha) hex,
    fun y hy hne => hp.inhabited_revise hy hne⟩

/-- Three subjects that can all be booked in one way only. -/
def triplets : Domains := Table.ofList [(1, [⟨7, 100, 1⟩]), (2, [⟨7, 100, 1⟩]), (3, [⟨7, 100, 1⟩])]

def tripletSlots : SlotIndex := SlotIndex.ofSlots [⟨1, 0, 1, 2⟩]

/-- The third is not listed. -/
theorem propagate_leaves_triplets :
    (triplets.propagate tripletSlots [1, 2]).outcome = .error 1 ∧
    (triplets.propagate tripletSlots [1, 2]).domains.get? 1 = some [] ∧
    (triplets.propagate tripletSlots [1, 2]).domains.exhausted 2 = false ∧
    (triplets.propagate tripletSlots [1, 2]).domains.get? 3 = some [⟨7, 100, 1⟩] := by
  have hrun : (triplets.propagate tripletSlots [1, 2]).outcome = .error 1 := by cbv
  have hopen : ∀ x ∈ [1, 2], triplets.exhausted x = false :=
    List.forall_mem_cons.2 ⟨rfl, List.forall_mem_singleton.2 rfl⟩
  obtain ⟨hleaves, -, hfail⟩ := propagate_leaves tripletSlots [1, 2] triplets
  obtain ⟨-, hempty, hothers⟩ := hfail hopen 1 hrun
  exact ⟨hrun, hempty, hothers 2 (by decide) (by decide), hleaves.frame 3 (by decide)⟩

end Domains

end Timetabling
