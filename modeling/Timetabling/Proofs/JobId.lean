import Mathlib
import Timetabling.Api.Route

/-!
# Ids in paths

An id is written in one form and read back from it (`JobId.parse?_text`). Neither a hyphen nor a
hexadecimal digit means anything in a path, so the text of an id may stand in one as it is: the path
with that text at its end leads to the schedule of that job (`JobId.ofTarget?_path`).
-/

namespace Timetabling

namespace Hex

variable {n d : ℕ} {cs : List Char}

theorem number?_append_digit (h : number? cs = some n) (hd : d < 16) :
    number? (cs ++ [digit d]) = some (16 * n + d) := by
  obtain ⟨ds, hds, rfl⟩ := Option.map_eq_some_iff.1 h
  simp [number?, List.mapM_append, hds, value?_digit hd]

theorem number?_lastDigits (count n : ℕ) :
    number? (lastDigits count n) = some (n % 16 ^ count) := by
  induction count generalizing n with
  | zero => simp [lastDigits, number?, Nat.mod_one]
  | succ count ih =>
    rw [lastDigits, number?_append_digit (ih (n / 16)) (Nat.mod_lt n (by decide)), pow_succ',
      Nat.mod_mul, add_comm]

theorem length_lastDigits (count n : ℕ) : (lastDigits count n).length = count := by
  induction count generalizing n with
  | zero => rfl
  | succ count ih => rw [lastDigits, List.length_append, ih, List.length_singleton]

end Hex

namespace JobId

variable {ns : List ℕ} {c d : Char} {cs : List Char}

theorem unhyphenate?_hyphenate (h : ns.sum ≤ cs.length) :
    unhyphenate? ns (hyphenate ns cs) = some cs := by
  fun_induction hyphenate ns cs with
  | case1 cs => rfl
  | case2 n cs => rfl
  | case3 n ns cs hns ih =>
    rw [List.sum_cons] at h
    have htake : (cs.take n).length = n := List.length_take_of_le (by omega)
    have hrest := ih (by rw [List.length_drop]; omega)
    simp [unhyphenate?, List.drop_left' htake, List.take_left' htake, hrest]

theorem length_hyphenate (h : ns.sum ≤ cs.length) :
    (hyphenate ns cs).length = cs.length + (ns.length - 1) := by
  fun_induction hyphenate ns cs with
  | case1 cs => rfl
  | case2 n cs => rfl
  | case3 n ns cs hns ih =>
    obtain ⟨m, ms, rfl⟩ := List.exists_cons_of_ne_nil hns
    rw [List.sum_cons] at h
    have hrest := ih (by rw [List.length_drop]; omega)
    simp only [List.length_append, List.length_take, List.length_cons, hrest, List.length_drop]
    omega

theorem mem_of_mem_hyphenate (h : c ∈ hyphenate ns cs) : c = '-' ∨ c ∈ cs := by
  fun_induction hyphenate ns cs with
  | case1 cs => exact .inr h
  | case2 n cs => exact .inr h
  | case3 n ns cs hns ih =>
    rcases List.mem_append.1 h with h | h
    · exact .inr (List.mem_of_mem_take h)
    · rcases List.mem_cons.1 h with h | h
      · exact .inl h
      · exact (ih h).imp_right List.mem_of_mem_drop

variable (id : JobId)

theorem toList_text :
    id.text.toList = hyphenate groups (Hex.lastDigits 32 id.bits.toNat) :=
  String.toList_ofList

/-- Only hyphens and digits stand in the text of an id. -/
theorem ne_of_mem_text {id : JobId} (h : c ∈ id.text.toList) (hd : d ≠ '-')
    (hv : Hex.value? d = none) : c ≠ d := by
  rintro rfl
  rw [toList_text] at h
  rcases mem_of_mem_hyphenate h with h | h
  · exact hd h
  · obtain ⟨n, hn, rfl⟩ := Hex.mem_lastDigits h
    rw [Hex.value?_digit hn] at hv
    cases hv

theorem ofDigits?_lastDigits : ofDigits? (Hex.lastDigits 32 id.bits.toNat) = some id := by
  have hmod : id.bits.toNat % 16 ^ 32 = id.bits.toNat := Nat.mod_eq_of_lt id.bits.isLt
  rw [ofDigits?, if_pos (Hex.length_lastDigits 32 _), Hex.number?_lastDigits, hmod]
  simp

theorem sum_groups_le : groups.sum ≤ (Hex.lastDigits 32 id.bits.toNat).length := by
  rw [Hex.length_lastDigits]
  decide

theorem length_text : id.text.toList.length = 36 := by
  rw [toList_text, length_hyphenate id.sum_groups_le, Hex.length_lastDigits]
  rfl

/-- An id is named by its own text. -/
theorem parse?_text : parse? id.text.toList = some id := by
  have hread : ofHyphenated? id.text.toList = some id := by
    rw [ofHyphenated?, toList_text, unhyphenate?_hyphenate id.sum_groups_le, Option.bind_some,
      ofDigits?_lastDigits]
  simp [parse?, id.length_text, hread]

end JobId

namespace Api

theorem percentDecode_of_not_mem {cs : List Char} (h : ¬ '%' ∈ cs) : percentDecode cs = cs := by
  fun_induction percentDecode cs with
  | case1 => simp at h
  | case2 => simp at h
  | case3 c cs hc ih => rw [ih fun hm => h (List.mem_cons_of_mem c hm)]
  | case4 => rfl

theorem Route.ofPath?_schedule {segment : List Char} (hne : segment ≠ [])
    (hslash : ¬ '/' ∈ segment) :
    ofPath? ("/v1/schedules/".toList ++ segment) = some (.schedule segment) := by
  obtain ⟨c, cs, rfl⟩ := List.exists_cons_of_ne_nil hne
  simp [ofPath?, hslash]

end Api

namespace JobId

variable (id : JobId)

/-- The path of the schedule of a job. -/
def path : String := "/v1/schedules/" ++ id.text

theorem jobOfSegment?_text : Api.jobOfSegment? id.text.toList = some id := by
  rw [Api.jobOfSegment?, Api.percentDecode_of_not_mem fun h =>
    ne_of_mem_text h (by decide) rfl rfl]
  exact id.parse?_text

theorem ofTarget?_path : Api.Route.ofTarget? id.path = some (.schedule id.text.toList) := by
  have hpath : id.path.toList = "/v1/schedules/".toList ++ id.text.toList := String.toList_append
  have hhost : Api.Route.withoutHost? id.path.toList = some id.path.toList := by
    rw [hpath]
    simp [Api.Route.withoutHost?]
  have hquery : Api.Route.withoutQuery id.path.toList = id.path.toList := by
    rw [hpath, Api.Route.withoutQuery, List.takeWhile_append_of_pos (by simp)]
    refine congrArg _ (List.takeWhile_eq_self_iff.2 fun c hc => ?_)
    have hquestion : c ≠ '?' := ne_of_mem_text hc (by decide) rfl
    have hhash : c ≠ '#' := ne_of_mem_text hc (by decide) rfl
    simp [hquestion, hhash]
  have hne : id.text.toList ≠ [] := List.ne_nil_of_length_pos (by rw [id.length_text]; decide)
  rw [Api.Route.ofTarget?, hhost, Option.bind_some, hquery, hpath]
  exact Api.Route.ofPath?_schedule hne fun h => ne_of_mem_text h (by decide) rfl rfl

end JobId

end Timetabling
