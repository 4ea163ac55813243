import Timetabling.Generation
import Timetabling.Snapshot.Json
import Timetabling.Proofs.ReadBack

/-!
# Snapshots and entries survive being written

Each kind of record is written with all its fields, under the names under which they are read and
in the order of its reader, so that what is written is read as it was. A snapshot that has gone
through a text is therefore the same reference data (`Snapshot.ofJson_toJson`).
-/

namespace Timetabling

open Json

theorem Teacher.reads_write (t : Teacher) : Reads Teacher.read t.write t := by
  -- member by member: its name is that of a field, the field is not set yet, its value is read
  exact reads_record (.cons ⟨_, rfl, rfl, (reads_uint32 t.id).map _⟩ <|
    .cons ⟨_, rfl, rfl, (reads_text t.name).map _⟩ <|
    .cons ⟨_, rfl, rfl, (reads_list fun s _ => reads_text s).map _⟩ <|
    .cons ⟨_, rfl, rfl, (reads_uint32 t.maxWeeklyHours).map _⟩ <|
    .cons ⟨_, rfl, rfl, (reads_list fun s _ => reads_uint32 s).map _⟩ .nil) rfl

theorem Subject.reads_write (x : Subject) : Reads Subject.read x.write x := by
  exact reads_record (.cons ⟨_, rfl, rfl, (reads_uint32 x.id).map _⟩ <|
    .cons ⟨_, rfl, rfl, (reads_text x.code).map _⟩ <|
    .cons ⟨_, rfl, rfl, (reads_uint32 x.weeklyHours).map _⟩ <|
    .cons ⟨_, rfl, rfl, (reads_list fun s _ => reads_text s).map _⟩ .nil) rfl

theorem Room.reads_write (r : Room) : Reads Room.read r.write r := by
  exact reads_record (.cons ⟨_, rfl, rfl, (reads_uint32 r.id).map _⟩ <|
    .cons ⟨_, rfl, rfl, (reads_uint32 r.capacity).map _⟩ <|
    .cons ⟨_, rfl, rfl, (reads_text r.roomType).map _⟩ .nil) rfl

theorem TimeSlot.reads_write (s : TimeSlot) : Reads TimeSlot.read s.write s := by
  exact reads_record (.cons ⟨_, rfl, rfl, (reads_uint32 s.id).map _⟩ <|
    .cons ⟨_, rfl, rfl, (reads_uint8 s.dayOfWeek).map _⟩ <|
    .cons ⟨_, rfl, rfl, (reads_uint32 s.startPeriod).map _⟩ <|
    .cons ⟨_, rfl, rfl, (reads_uint32 s.endPeriod).map _⟩ .nil) rfl

theorem Snapshot.reads_write (s : Snapshot) : Reads Snapshot.read s.write s := by
  exact reads_record (.cons ⟨_, rfl, rfl, (reads_list fun t _ => t.reads_write).map _⟩ <|
    .cons ⟨_, rfl, rfl, (reads_list fun x _ => x.reads_write).map _⟩ <|
    .cons ⟨_, rfl, rfl, (reads_list fun r _ => r.reads_write).map _⟩ <|
    .cons ⟨_, rfl, rfl, (reads_list fun l _ => l.reads_write).map _⟩ .nil) rfl

theorem Entry.reads_write (e : Entry) : Reads Entry.read e.write e := by
  exact reads_record (.cons ⟨_, rfl, rfl, (reads_uint32 e.subject).map _⟩ <|
    .cons ⟨_, rfl, rfl, (reads_uint32 e.teacher).map _⟩ <|
    .cons ⟨_, rfl, rfl, (reads_uint32 e.room).map _⟩ <|
    .cons ⟨_, rfl, rfl, (reads_uint32 e.slot).map _⟩ .nil) rfl

/-- A snapshot is read from its own text as it was, and so are its slots, its problem and what the
solver makes of it; so is every list of entries. -/
theorem Snapshot.ofJson_toJson :
    (∀ s : Snapshot, ofJson s.toJson = .ok s ∧
      (ofJson s.toJson).map slotIndex = .ok s.slotIndex ∧
      (ofJson s.toJson).map Problem.ofSnapshot = .ok (Problem.ofSnapshot s) ∧
      ∀ settings,
        (∀ deadline order, (ofJson s.toJson).map (fun t => t.solve settings deadline order) =
          .ok (s.solve settings deadline order)) ∧
        ∀ budget conditions,
          (ofJson s.toJson).map (fun t => t.generate settings budget conditions) =
            .ok (s.generate settings budget conditions)) ∧
    ∀ es : List Entry, Entry.listOfJson (String.ofList (writeList Entry.write es)) = .ok es := by
  constructor
  · intro s
    have h : ofJson s.toJson = .ok s := s.reads_write.whole
    rw [h]
    exact ⟨rfl, rfl, rfl, fun settings => ⟨fun _ _ => rfl, fun _ _ => rfl⟩⟩
  · intro es
    exact (reads_list fun e _ => e.reads_write).whole

end Timetabling
