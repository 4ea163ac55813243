import Timetabling.Proofs.Relief
import Timetabling.Proofs.ValueOrder

/-!
# The order of a snapshot's lists

The lists of a snapshot without repeated ids may be given in any order. Each order eases the other,
so a generation with time enough comes equally far from both. If the subjects keep their order, the
two problems differ in the order of candidates alone, and in how rules and slots are written down
(`Permuted.alike`); then the same subject is named, or as many subjects are booked.
-/

namespace Timetabling

theorem Rulebook.admits_congr {r r' : Rulebook} {slots slots' : SlotIndex}
    (hmay : r.mayTeach = r'.mayTeach) (hav : r.available = r'.available)
    (hget : ∀ l, slots.get? l = slots'.get? l) : r.admits slots = r'.admits slots' := by
  funext x v p
  simp only [admits, clashes, hmay, hav, hget]

/-- Each list in some other order. -/
structure Snapshot.Permuted (s s' : Snapshot) : Prop where
  teachers : s.teachers.Perm s'.teachers
  subjects : s.subjects.Perm s'.subjects
  rooms : s.rooms.Perm s'.rooms
  timeSlots : s.timeSlots.Perm s'.timeSlots

/-- Two answers of one class: complete schedules, partial schedules, or subjects without candidates.
-/
def SameClass : Except Infeasibility Solution → Except Infeasibility Solution → Prop
  | .ok sol, .ok sol' => sol.isPartial = sol'.isPartial
  | .error (.domainWipeout _), .error (.domainWipeout _) => True
  | _, _ => False

namespace Snapshot

variable {s s' : Snapshot} {settings : SolverSettings} {order order' : Penalty.Order}

namespace Permuted

theorem symm (h : s.Permuted s') : s'.Permuted s :=
  ⟨h.teachers.symm, h.subjects.symm, h.rooms.symm, h.timeSlots.symm⟩

theorem eases (h : s.Permuted s') : s.Eases s' :=
  ⟨h.teachers.subset, h.subjects.symm.subset, h.rooms.subset, h.timeSlots.subset⟩

theorem distinct (h : s.Permuted s') (hs : s.Distinct) : s'.Distinct :=
  ⟨(h.teachers.map _).nodup hs.teachers, (h.subjects.map _).nodup hs.subjects,
    (h.timeSlots.map _).nodup hs.timeSlots⟩

theorem grade_eq (h : s.Permuted s') (hs : s.Distinct) (settings : SolverSettings)
    (order order' : Penalty.Order) :
    grade (s.solve settings .never order) = grade (s'.solve settings .never order') :=
  Nat.le_antisymm (h.eases.grade_le hs (h.distinct hs) settings order order')
    (h.symm.eases.grade_le (h.distinct hs) hs settings order' order)

/-! ### Subjects in the same order -/

theorem get?_slotIndex (h : s.Permuted s') (hs : s.Distinct) (l : SlotId) :
    s.slotIndex.get? l = s'.slotIndex.get? l := by
  refine Table.get?_ofList_perm ?_ (h.timeSlots.map _) l
  rw [List.map_map]
  exact hs.timeSlots

theorem get?_filled {ρ κ β : Type} [DecidableEq κ] {rs rs' : List ρ} {key : ρ → κ} (f : ρ → List β)
    (hn : (rs.map key).Nodup) (hp : rs.Perm rs') (k : κ) :
    (Table.ofList ((rs.filter fun r => !(f r).isEmpty).map fun r => (key r, f r))).get? k =
      (Table.ofList ((rs'.filter fun r => !(f r).isEmpty).map fun r => (key r, f r))).get? k :=
  Table.get?_ofList_perm (Table.nodup_filled f hn) ((hp.filter _).map _) k

theorem mayTeach (h : s.Permuted s') (hs : s.Distinct) :
    (Rulebook.ofSnapshot s).mayTeach = (Rulebook.ofSnapshot s').mayTeach := by
  funext x t
  have hheld := get?_filled Teacher.specializations hs.teachers h.teachers t
  have hreq := get?_filled Subject.requiredSpecializations hs.subjects h.subjects x
  simp only [Rulebook.mayTeach, Rulebook.qualified, Rulebook.ofSnapshot, Rulebook.ofRecords, hheld,
    hreq]

theorem available (h : s.Permuted s') (hs : s.Distinct) :
    (Rulebook.ofSnapshot s).available = (Rulebook.ofSnapshot s').available := by
  funext t l
  have hfree := get?_filled Teacher.availability hs.teachers h.teachers t
  simp only [Rulebook.available, Rulebook.ofSnapshot, Rulebook.ofRecords, hfree]

theorem candidates (h : s.Permuted s') (hs : s.Distinct) (x : SubjectId) :
    (Problem.candidates (Rulebook.ofSnapshot s) s x).Perm
      (Problem.candidates (Rulebook.ofSnapshot s') s' x) := by
  rw [Problem.candidates, Problem.candidates, h.mayTeach hs, h.available hs]
  refine List.Perm.flatMap (h.teachers.filter _) fun t _ => ?_
  refine List.Perm.flatMap h.rooms fun r _ => ?_
  exact (h.timeSlots.filter _).map _

theorem alike (h : s.Permuted s') (hs : s.Distinct) (hsub : s.subjects = s'.subjects) :
    (Problem.ofSnapshot s).Alike (Problem.ofSnapshot s') where
  subjects := hsub
  domains x := by
    rw [Problem.get?_ofSnapshot, Problem.get?_ofSnapshot]
    have hids : (Problem.ofSnapshot s).ids = (Problem.ofSnapshot s').ids :=
      congrArg (List.map Subject.id) hsub
    rw [hids]
    split
    · exact .some (h.candidates hs x)
    · exact .none
  conflict := by
    funext x v y w
    exact conflict_congr (h.get?_slotIndex hs v.slot) (h.get?_slotIndex hs w.slot)
  admits := Rulebook.admits_congr (h.mayTeach hs) (h.available hs) (h.get?_slotIndex hs)

end Permuted

/-- The only failure of a generation with time enough. -/
theorem solve_never_error {i : Infeasibility} (h : s.solve settings .never order = .error i) :
    ∃ x, i = .domainWipeout x := by
  cases hp : s.propagated.outcome with
  | error x => rw [solve_of_error hp] at h; cases h; exact ⟨x, rfl⟩
  | ok t =>
    obtain ⟨sol, hsol, -⟩ := solve_inTime settings order hp (Deadline.late_never 0)
    rw [hsol] at h
    cases h

theorem sameClass_of_grade
    (h : grade (s.solve settings .never order) = grade (s'.solve settings .never order')) :
    SameClass (s.solve settings .never order) (s'.solve settings .never order') := by
  cases ha : s.solve settings .never order with
  | error i =>
    cases hb : s'.solve settings .never order' with
    | error j =>
      obtain ⟨x, rfl⟩ := solve_never_error ha
      obtain ⟨y, rfl⟩ := solve_never_error hb
      trivial
    | ok sol' => rw [ha, hb] at h; exact absurd h (Nat.ne_of_lt (one_le_grade_ok sol'))
  | ok sol =>
    cases hb : s'.solve settings .never order' with
    | error j => rw [ha, hb] at h; exact absurd h.symm (Nat.ne_of_lt (one_le_grade_ok sol))
    | ok sol' => rw [ha, hb] at h; exact isPartial_eq_of_grade h

/-- The order of a snapshot's lists does not change the class of the answer. If the subjects keep
their order, a failure names the same subject and a schedule has as many entries. -/
theorem solve_permuted (s s' : Snapshot) (settings : SolverSettings)
    (order order' : Penalty.Order) (hs : s.Distinct) (h : s.Permuted s') :
    SameClass (s.solve settings .never order) (s'.solve settings .never order') ∧
    (s.subjects = s'.subjects →
      (∀ x, s.solve settings .never order = .error (.domainWipeout x) ↔
        s'.solve settings .never order' = .error (.domainWipeout x)) ∧
      (∀ sol sol', s.solve settings .never order = .ok sol →
        s'.solve settings .never order' = .ok sol' →
        sol.entries.length = sol'.entries.length)) := by
  refine ⟨sameClass_of_grade (h.grade_eq hs settings order order'), fun hsub => ?_⟩
  have hverdict : Solver.SameVerdict ((s.solver settings order).run .never)
      ((s'.solver settings order').run .never) := Solver.sameVerdict_alike (h.alike hs hsub)
  exact ⟨fun x => hverdict.error_iff _, fun sol sol' => hverdict.length_entries⟩

/-- `tight` with its slots the other way round. -/
def turned : Snapshot := { tight with timeSlots := [⟨2, 0, 2, 3⟩, ⟨1, 0, 1, 2⟩] }

theorem solve_permuted_tight : tight.Distinct ∧ tight.Permuted turned ∧
    SameClass (tight.solve {} .never) (turned.solve {} .never) ∧
    ∀ sol sol', tight.solve {} .never = .ok sol → turned.solve {} .never = .ok sol' →
      sol.entries.length = sol'.entries.length :=
  have hd : tight.Distinct := ⟨by decide, by decide, by decide⟩
  have hp : tight.Permuted turned := ⟨.refl _, .refl _, .refl _, .swap _ _ []⟩
  have h := solve_permuted tight turned {} .asListed .asListed hd hp
  ⟨hd, hp, h.1, (h.2 rfl).2⟩

end Snapshot

end Timetabling
