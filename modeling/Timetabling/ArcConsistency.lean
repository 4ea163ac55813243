import Timetabling.Conflict

/-!
# Arc consistency

Before the search, every candidate that conflicts with all candidates of some other subject is
dropped. A worklist holds the ordered pairs of subjects still to be looked at; when a subject loses
candidates, the pairs that lead to it come back, except the one just looked at from the other side.
`Propagation.domains` is what is left, also when a subject has run out of candidates.
-/

namespace Timetabling

/-- What propagation did. -/
structure Tally where
  arcsProcessed : Nat := 0
  arcsRevised : Nat := 0
  valuesPruned : Nat := 0
deriving Repr, DecidableEq

/-- The outcome of propagation: its tally or the subject that ran out of candidates, and the
domains that it leaves in either case. -/
structure Propagation where
  outcome : Except SubjectId Tally
  domains : Domains

/-- A pair `(x, y)`: candidates of `x` need support among those of `y`. -/
abbrev Arc := SubjectId × SubjectId

namespace Domains

def candidates (d : Domains) (x : SubjectId) : List Booking := d.getD x []

/-- The subject is missing or has no candidate. -/
def exhausted (d : Domains) (x : SubjectId) : Bool := (d.candidates x).isEmpty

/-- The number of candidates of all subjects together. -/
def total (d : Domains) : Nat := d.entries.foldr (fun e n => e.2.length + n) 0

/-- Some candidate of `y` does not conflict with `v` for `x`. -/
def supports (slots : SlotIndex) (d : Domains) (y x : SubjectId) (v : Booking) : Bool :=
  (d.candidates y).any fun w => !conflict slots x v y w

/-- Drops the candidates of `a.1` without support by `a.2` and says how many they were; a missing
subject stays missing. -/
def revise (slots : SlotIndex) (d : Domains) (a : Arc) : Domains × Nat :=
  match d.get? a.1 with
  | none => (d, 0)
  | some vs =>
    let kept := vs.filter (d.supports slots a.2 a.1)
    (d.insert a.1 kept, vs.length - kept.length)

theorem total_insertEntry {x : SubjectId} {vs : List Booking} (ws : List Booking)
    {es : List (SubjectId × List Booking)} (h : es.lookup x = some vs) :
    (Table.insertEntry x ws es).foldr (fun e n => e.2.length + n) 0 + vs.length =
      es.foldr (fun e n => e.2.length + n) 0 + ws.length := by
  induction es with
  | nil => simp at h
  | cons e es ih =>
    rw [Table.lookup_cons_eq] at h
    by_cases hx : e.1 = x
    · rw [if_pos hx.symm] at h
      simp only [Option.some.injEq] at h
      simp only [Table.insertEntry, hx, if_true, List.foldr_cons, h]
      omega
    · rw [if_neg (fun h' => hx h'.symm)] at h
      simp only [Table.insertEntry, hx, if_false, List.foldr_cons]
      have := ih h
      omega

/-- Replacing the candidates of a subject changes the total by the difference of their numbers. -/
theorem total_insert {d : Domains} {x : SubjectId} {vs : List Booking} (ws : List Booking)
    (h : d.get? x = some vs) : Domains.total (d.insert x ws) + vs.length = d.total + ws.length :=
  total_insertEntry ws h

/-- What revision drops is what the total loses. -/
theorem total_revise (slots : SlotIndex) (d : Domains) (a : Arc) :
    (d.revise slots a).1.total + (d.revise slots a).2 = d.total := by
  unfold revise
  split
  · rfl
  · next vs h =>
    have := total_insert (vs.filter (d.supports slots a.2 a.1)) h
    have := List.length_filter_le (d.supports slots a.2 a.1) vs
    simp only
    omega

end Domains

/-- All ordered pairs of different subjects, by first and then second. -/
def allArcs (ids : List SubjectId) : List Arc :=
  ids.flatMap fun x => (ids.filter fun y => y ≠ x).map fun y => (x, y)

/-- The arcs that lead to `a.1`, except from `a.2`. -/
def arcsInto (ids : List SubjectId) (a : Arc) : List Arc :=
  (ids.filter fun z => z ≠ a.1 && z ≠ a.2).map fun z => (z, a.1)

theorem length_arcsInto_le (ids : List SubjectId) (a : Arc) :
    (arcsInto ids a).length ≤ ids.length := by
  rw [arcsInto, List.length_map]
  exact List.length_filter_le _ _

namespace Propagation

/-- Works off the arcs of the list, first in first out. Each revision that drops something pays for
the arcs that it brings back, so the list runs empty. -/
def run (ids : List SubjectId) (slots : SlotIndex) (queue : List Arc) (d : Domains) (t : Tally) :
    Propagation :=
  match queue with
  | [] => ⟨.ok t, d⟩
  | a :: rest =>
    match _ : d.revise slots a with
    | (d', removed) =>
      if _ : removed = 0 then
        run ids slots rest d' { t with arcsProcessed := t.arcsProcessed + 1 }
      else if d'.exhausted a.1 then ⟨.error a.1, d'⟩
      else
        run ids slots (rest ++ arcsInto ids a) d'
          { arcsProcessed := t.arcsProcessed + 1
            arcsRevised := t.arcsRevised + 1
            valuesPruned := t.valuesPruned + removed }
termination_by queue.length + ids.length * d.total
decreasing_by
  · next hr h0 =>
    have := Domains.total_revise slots d a
    rw [hr] at this
    simp only [h0, Nat.add_zero] at this
    simp only [this, List.length_cons]
    omega
  · next hr h0 _ =>
    have := Domains.total_revise slots d a
    rw [hr] at this
    simp only at this
    have hle : ids.length * (d'.total + 1) ≤ ids.length * d.total :=
      Nat.mul_le_mul_left _ (by omega)
    rw [Nat.mul_add] at hle
    have := length_arcsInto_le ids a
    simp only [List.length_append, List.length_cons]
    omega

end Propagation

namespace Domains

/-- Makes every ordered pair of the listed subjects consistent. A subject without candidates ends
the attempt before it begins: the first such in list order. -/
def propagate (slots : SlotIndex) (ids : List SubjectId) (d : Domains) : Propagation :=
  match ids.find? d.exhausted with
  | some x => ⟨.error x, d⟩
  | none => Propagation.run ids slots (allArcs ids) d {}

end Domains

end Timetabling
