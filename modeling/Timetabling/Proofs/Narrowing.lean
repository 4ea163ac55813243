import Timetabling.Search

/-!
# Domains that lose candidates

Arc consistency and the forward check change domains in one way only: the candidates of a subject
are filtered. `Narrows d d'` says so of two states of the domains, with the filters left open, so
that subjects stay present or absent and candidates keep their order and their repetitions.
-/

namespace Timetabling

namespace Domains

variable {d d' d'' : Domains} {slots : SlotIndex} {x y : SubjectId} {v : Booking}
  {vs : List Booking}

theorem candidates_eq (h : d.get? x = some vs) : d.candidates x = vs := by
  simp [candidates, Table.getD, h]

theorem get?_of_mem_candidates (h : v ∈ d.candidates x) : d.get? x = some (d.candidates x) := by
  cases hx : d.get? x with
  | none => simp [candidates, Table.getD, hx] at h
  | some vs => rw [candidates_eq hx]

theorem exhausted_eq_false : d.exhausted x = false ↔ ∃ v, v ∈ d.candidates x := by
  rw [exhausted, List.isEmpty_eq_false_iff_exists_mem]

theorem exhausted_eq_true : d.exhausted x = true ↔ ∀ v, ¬ v ∈ d.candidates x := by
  rw [exhausted, List.isEmpty_iff, List.eq_nil_iff_forall_not_mem]

theorem supports_eq_true : d.supports slots y x v = true ↔
    ∃ w ∈ d.candidates y, conflict slots x v y w = false := by
  simp [supports]

/-- `d'` is `d` with some candidates left out. -/
def Narrows (d d' : Domains) : Prop :=
  ∃ keep : SubjectId → Booking → Bool, ∀ x, d'.get? x = (d.get? x).map (List.filter (keep x))

theorem candidates_of_get?_eq {keep : Booking → Bool}
    (h : d'.get? x = (d.get? x).map (List.filter keep)) :
    d'.candidates x = (d.candidates x).filter keep := by
  cases hx : d.get? x <;> simp [candidates, Table.getD, h, hx]

namespace Narrows

theorem refl (d : Domains) : d.Narrows d :=
  ⟨fun _ _ => true, fun x => by
    cases d.get? x with
    | none => rfl
    | some vs => exact congrArg some (List.filter_eq_self.2 fun _ _ => rfl).symm⟩

theorem trans (h : d.Narrows d') (h' : d'.Narrows d'') : d.Narrows d'' := by
  obtain ⟨keep, hk⟩ := h
  obtain ⟨keep', hk'⟩ := h'
  refine ⟨fun x v => keep x v && keep' x v, fun x => ?_⟩
  rw [hk', hk]
  cases d.get? x <;> simp [Bool.and_comm]

theorem mem_iff (h : d.Narrows d') : x ∈ d' ↔ x ∈ d := by
  obtain ⟨keep, hk⟩ := h
  rw [← Table.isSome_get?, ← Table.isSome_get?, hk x, Option.isSome_map]

theorem sublist (h : d.Narrows d') (x : SubjectId) :
    (d'.candidates x).Sublist (d.candidates x) := by
  obtain ⟨keep, hk⟩ := h
  rw [candidates_of_get?_eq (hk x)]
  exact List.filter_sublist

theorem mem (h : d.Narrows d') (hv : v ∈ d'.candidates x) : v ∈ d.candidates x :=
  (h.sublist x).mem hv

/-- What is left is told by which values are left. -/
theorem get?_eq_filter (h : d.Narrows d') {P : Booking → Bool}
    (hP : ∀ v ∈ d.candidates x, (P v = true ↔ v ∈ d'.candidates x)) :
    d'.get? x = (d.get? x).map (List.filter P) := by
  obtain ⟨keep, hk⟩ := h
  rw [hk x]
  cases hx : d.get? x with
  | none => rfl
  | some vs =>
    rw [candidates_of_get?_eq (hk x), candidates_eq hx] at hP
    refine congrArg some (List.filter_congr fun v hv => ?_)
    rw [Bool.eq_iff_iff, hP v hv, List.mem_filter]
    exact ⟨fun hkv => ⟨hv, hkv⟩, And.right⟩

theorem insert_filter (h : d.get? x = some vs) (keep : Booking → Bool) :
    d.Narrows (d.insert x (vs.filter keep)) := by
  refine ⟨fun y v => y ≠ x || keep v, fun y => ?_⟩
  by_cases hy : y = x
  · simp [hy, h]
  · rw [Table.get?_insert_of_ne _ _ hy]
    exact (refl d).get?_eq_filter fun v hv => by simpa [hy] using hv

end Narrows

end Domains

end Timetabling
