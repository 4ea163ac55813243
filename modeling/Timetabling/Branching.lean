import Timetabling.ArcConsistency

/-!
# Which subject next, and which booking first

The search books the subject with the fewest candidates next, and tries first the candidate that
rules out the fewest candidates of the others.
-/

namespace Timetabling

/-- The first member at which `f` is least. -/
def leastBy {α : Type} (f : α → Nat) : List α → Option α
  | [] => none
  | a :: as =>
    match leastBy f as with
    | none => some a
    | some b => if f a ≤ f b then some a else some b

theorem leastBy_eq_none {α : Type} {f : α → Nat} {as : List α} : leastBy f as = none ↔ as = [] := by
  cases as with
  | nil => simp [leastBy]
  | cons a as =>
    cases h : leastBy f as with
    | none => simp [leastBy, h]
    | some b => by_cases hb : f a ≤ f b <;> simp [leastBy, h, hb]

theorem mem_of_leastBy {α : Type} {f : α → Nat} {as : List α} {a : α} (h : leastBy f as = some a) :
    a ∈ as := by
  induction as generalizing a with
  | nil => simp [leastBy] at h
  | cons x as ih =>
    cases hb : leastBy f as with
    | none => simp_all [leastBy]
    | some b => by_cases hx : f x ≤ f b <;> simp_all [leastBy]

/-- The listed subjects without a booking. -/
def Schedule.unassigned (p : Schedule) (ids : List SubjectId) : List SubjectId :=
  ids.filter fun x => !(x ∈ p)

theorem Schedule.mem_unassigned {p : Schedule} {ids : List SubjectId} {x : SubjectId} :
    x ∈ p.unassigned ids ↔ x ∈ ids ∧ ¬ x ∈ p := by
  simp [Schedule.unassigned]

theorem Schedule.unassigned_eq_nil {p : Schedule} {ids : List SubjectId} :
    p.unassigned ids = [] ↔ ∀ x ∈ ids, x ∈ p := by
  simp [List.eq_nil_iff_forall_not_mem, Schedule.mem_unassigned]

namespace Domains

/-- The unassigned subject with the fewest candidates, of several the first; a missing subject has
none. -/
def mostConstrained (d : Domains) (ids : List SubjectId) (p : Schedule) : Option SubjectId :=
  leastBy (fun x => (d.candidates x).length) (p.unassigned ids)

/-- How many candidates of the subjects `others` conflict with `v` for `x`; a subject counts as
often as it is listed. -/
def ruledOut (slots : SlotIndex) (d : Domains) (others : List SubjectId) (x : SubjectId)
    (v : Booking) : Nat :=
  others.foldr (fun y n => (d.candidates y).countP (fun w => conflict slots x v y w) + n) 0

/-- The candidates of `x`, those that rule out fewer candidates of the other unassigned subjects
first, equals in their own order. -/
def leastConstraining (slots : SlotIndex) (d : Domains) (ids : List SubjectId) (p : Schedule)
    (x : SubjectId) : List Booking :=
  let others := (p.unassigned ids).filter fun y => y ≠ x
  (((d.candidates x).map fun v => (d.ruledOut slots others x v, v)).mergeSort
    fun a b => a.1 ≤ b.1).map Prod.snd

theorem unassigned_of_mostConstrained {d : Domains} {ids : List SubjectId} {p : Schedule}
    {x : SubjectId} (h : d.mostConstrained ids p = some x) : x ∈ ids ∧ ¬ x ∈ p :=
  Schedule.mem_unassigned.1 (mem_of_leastBy h)

/-- The order of candidates drops none of them and repeats none. -/
theorem leastConstraining_perm (slots : SlotIndex) (d : Domains) (ids : List SubjectId)
    (p : Schedule) (x : SubjectId) :
    (d.leastConstraining slots ids p x).Perm (d.candidates x) := by
  unfold leastConstraining
  refine ((List.mergeSort_perm _ _).map Prod.snd).trans ?_
  simp [List.map_map, Function.comp_def]

end Domains

end Timetabling
