import Timetabling.Proofs.Accounting

/-!
# Schedules written down and read back

A schedule is written as a list of entries in order of subject. A list of entries is read as a
schedule, and the last entry of a subject gives its booking. Writing and reading back changes
nothing (`Schedule.get?_ofEntries_toEntries`); reading and writing back leaves the last entry of
each subject (`Schedule.mem_toEntries_ofEntries`).
-/

namespace Timetabling

theorem Table.get?_ofList_eq_some_iff {κ α : Type} [DecidableEq κ] {es : List (κ × α)} {k : κ}
    {v : α} : (Table.ofList es).get? k = some v ↔
      ∃ before after, es = before ++ (k, v) :: after ∧ ∀ e ∈ after, e.1 ≠ k := by
  rw [Table.get?_ofList, List.lookup_eq_some_iff]
  constructor
  · rintro ⟨after, before, hes, hne⟩
    rw [List.reverse_eq_append_iff] at hes
    refine ⟨before.reverse, after.reverse, by simpa using hes, fun e he hk => ?_⟩
    simpa [hk] using hne e (List.mem_reverse.1 he)
  · rintro ⟨before, after, rfl, hne⟩
    refine ⟨after.reverse, before.reverse, by simp, fun e he => ?_⟩
    simpa using (hne e (List.mem_reverse.1 he)).symm

/-- `e` is in the list, and no entry after it is for its subject. -/
def Entry.LastIn (es : List Entry) (e : Entry) : Prop :=
  ∃ before after, es = before ++ e :: after ∧ ∀ f ∈ after, f.subject ≠ e.subject

namespace Schedule

variable {t u : Schedule} {es : List Entry} {e : Entry} {x : SubjectId}

/-! ### Reading what was written -/

theorem subjects_nodup (t : Schedule) : (t.toEntries.map Entry.subject).Nodup := by
  rw [List.Nodup, List.pairwise_map]
  refine t.toEntries_sorted.imp fun h heq => ?_
  rw [heq] at h
  exact (UInt32.lt_irrefl _) h

theorem get?_ofEntries_toEntries (t : Schedule) (x : SubjectId) :
    (ofEntries t.toEntries).get? x = t.get? x := by
  have hnodup : ((t.toEntries.map fun e => (e.subject, e.booking)).map Prod.fst).Nodup := by
    simpa [List.map_map, Function.comp_def] using t.subjects_nodup
  ext v
  rw [ofEntries, Table.get?_ofList_eq_some hnodup, List.mem_map]
  constructor
  · rintro ⟨e, he, heq⟩
    cases heq
    exact mem_toEntries.1 he
  · intro hv
    exact ⟨Entry.ofBooking x v, mem_toEntries.2 hv, rfl⟩

/-- Entries are in order of subject, in whatever order the schedule is visited. -/
theorem toEntries_eq_of_perm (h : u.entries.Perm t.entries) : u.toEntries = t.toEntries := by
  have hperm : u.toEntries.Perm t.toEntries :=
    (u.toEntries_perm.trans (h.map _)).trans t.toEntries_perm.symm
  refine hperm.eq_of_pairwise (fun a b _ _ hab hba => ?_) u.toEntries_sorted t.toEntries_sorted
  exact absurd (UInt32.lt_trans hab hba) (UInt32.lt_irrefl _)

/-! ### Writing what was read -/

theorem mem_toEntries_ofEntries : e ∈ (ofEntries es).toEntries ↔ e.LastIn es := by
  rw [mem_toEntries, ofEntries, Table.get?_ofList_eq_some_iff]
  constructor
  · rintro ⟨before, after, hes, hne⟩
    obtain ⟨before, rest, rfl, rfl, hrest⟩ := List.map_eq_append_iff.1 hes
    obtain ⟨f, after, rfl, hf, rfl⟩ := List.map_eq_cons_iff.1 hrest
    have hfe : f = e := by
      obtain ⟨hsubject, hbooking⟩ := Prod.mk.inj hf
      rw [← f.ofBooking_booking, hsubject, hbooking, e.ofBooking_booking]
    subst hfe
    exact ⟨before, after, rfl, by simpa using hne⟩
  · rintro ⟨before, after, rfl, hne⟩
    exact ⟨_, _, by rw [List.map_append, List.map_cons], by simpa using hne⟩

theorem exists_mem_toEntries_ofEntries (h : e ∈ es) :
    ∃ f ∈ (ofEntries es).toEntries, f.subject = e.subject := by
  rw [exists_toEntries, ofEntries, Table.mem_ofList, List.map_map]
  exact List.mem_map_of_mem h

end Schedule

namespace Solution

/-- The entries of a solution give back its schedule and are the same in whatever order the
schedule is visited. The entries of a solution that was read from a list are the last of the list
for each subject, in order of subject. -/
theorem entries_faithful (p : Problem) (order : Penalty.Order) :
    (∀ t : Schedule,
      (∀ x, (Schedule.ofEntries (Solution.ofSchedule p order t).entries).get? x = t.get? x) ∧
      ∀ u : Schedule, u.entries.Perm t.entries → ∀ order',
        (Solution.ofSchedule p order' u).entries = (Solution.ofSchedule p order t).entries) ∧
    ∀ es : List Entry,
      (Solution.ofSchedule p order (Schedule.ofEntries es)).entries.Pairwise
        (fun e f => e.subject < f.subject) ∧
      (∀ e, e ∈ (Solution.ofSchedule p order (Schedule.ofEntries es)).entries ↔ e.LastIn es) ∧
      ∀ e ∈ es, ∃ f ∈ (Solution.ofSchedule p order (Schedule.ofEntries es)).entries,
        f.subject = e.subject := by
  refine ⟨fun t => ⟨t.get?_ofEntries_toEntries, fun u hu _ => ?_⟩, fun es => ⟨?_, fun e => ?_, ?_⟩⟩
  · exact Schedule.toEntries_eq_of_perm hu
  · exact Schedule.toEntries_sorted _
  · exact Schedule.mem_toEntries_ofEntries
  · exact fun e he => Schedule.exists_mem_toEntries_ofEntries he

/-- The second entry of subject 2 replaces the first. -/
example : (Schedule.ofEntries [⟨2, 7, 100, 1⟩, ⟨1, 8, 101, 1⟩, ⟨2, 9, 102, 3⟩]).toEntries =
    [⟨1, 8, 101, 1⟩, ⟨2, 9, 102, 3⟩] := by
  cbv

end Solution

end Timetabling
