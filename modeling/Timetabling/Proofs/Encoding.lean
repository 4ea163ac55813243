import Mathlib
import Timetabling.Json.Reader

/-!
# Texts as octets

Readers see the bytes of a text, each as the character of that number (`encoded`). A character of
ASCII is its own octet, and all octets of any other character lie beyond ASCII, so none of them is
taken for a quote, a bracket or a digit. The bytes of a text make that text again
(`fromUTF8?_flatMap`).
-/

namespace Timetabling.Json

variable {c : Char} {cs : List Char} {b : UInt8}

@[simp] theorem toUInt8_ofUInt8 (b : UInt8) : (Char.ofUInt8 b).toUInt8 = b := by
  refine UInt8.toNat.inj ?_
  simp [Char.ofUInt8, Char.toUInt8]

theorem toNat_ofUInt8 (b : UInt8) : (Char.ofUInt8 b).toNat = b.toNat := by
  simp [Char.ofUInt8, Char.toNat]

theorem ofUInt8_toUInt8 (h : c.toNat < 128) : Char.ofUInt8 c.toUInt8 = c := by
  refine Char.toNat_inj.1 ((toNat_ofUInt8 _).trans ?_)
  change c.val.toUInt8.toNat = c.toNat
  exact (UInt32.toNat_toUInt8 _).trans (Nat.mod_eq_of_lt (h.trans (by decide)))

theorem utf8EncodeChar_of_lt (h : c.toNat < 128) : String.utf8EncodeChar c = [c.toUInt8] := by
  have hv : c.val.toNat ≤ 127 := Nat.le_of_lt_succ h
  simp only [String.utf8EncodeChar, hv, if_true]
  rfl

theorem le_of_mem_utf8EncodeChar (hc : 128 ≤ c.toNat) (hb : b ∈ String.utf8EncodeChar c) :
    128 ≤ b.toNat := by
  have hv : ¬ c.val.toNat ≤ 127 := Nat.not_le.2 hc
  rw [String.utf8EncodeChar] at hb
  simp only [hv, if_false] at hb
  split_ifs at hb <;> simp only [List.mem_cons, List.not_mem_nil, or_false] at hb
  · rcases hb with rfl | rfl <;> rw [UInt8.toNat_ofNat'] <;> omega
  · rcases hb with rfl | rfl | rfl <;> rw [UInt8.toNat_ofNat'] <;> omega
  · rcases hb with rfl | rfl | rfl | rfl <;> rw [UInt8.toNat_ofNat'] <;> omega

/-- The octets of a text in UTF-8. -/
def encoded (cs : List Char) : List Char :=
  cs.flatMap fun c => (String.utf8EncodeChar c).map Char.ofUInt8

theorem octets_toUTF8 (cs : List Char) : octets (String.ofList cs).toUTF8 = encoded cs := by
  rw [octets, String.toUTF8, String.toByteArray_ofList, List.utf8Encode, encoded]
  simp [List.map_flatMap]

@[simp] theorem encoded_nil : encoded [] = [] := rfl

@[simp] theorem encoded_append (cs ds : List Char) :
    encoded (cs ++ ds) = encoded cs ++ encoded ds :=
  List.flatMap_append

theorem encoded_singleton (c : Char) :
    encoded [c] = (String.utf8EncodeChar c).map Char.ofUInt8 :=
  List.append_nil _

/-- A character of ASCII is its own octet. -/
theorem encoded_cons (h : c.toNat < 128) (cs : List Char) :
    encoded (c :: cs) = c :: encoded cs := by
  rw [encoded, List.flatMap_cons, utf8EncodeChar_of_lt h, List.map_singleton, ofUInt8_toUInt8 h]
  rfl

theorem encoded_of_lt (h : ∀ c ∈ cs, c.toNat < 128) : encoded cs = cs := by
  induction cs with
  | nil => rfl
  | cons c cs ih =>
    rw [encoded_cons (h c List.mem_cons_self), ih fun d hd => h d (List.mem_cons_of_mem c hd)]

theorem length_le_length_encoded (cs : List Char) : cs.length ≤ (encoded cs).length := by
  induction cs with
  | nil => exact le_rfl
  | cons c cs ih =>
    have hpos := c.utf8Size_pos
    rw [← String.length_utf8EncodeChar] at hpos
    rw [← List.singleton_append, encoded_append, encoded_singleton]
    simp only [List.length_append, List.length_map, List.length_singleton]
    omega

/-- The bytes of a text make that text. -/
theorem fromUTF8?_flatMap (t : String) :
    String.fromUTF8? (t.toList.flatMap String.utf8EncodeChar).toByteArray = some t := by
  have hbytes : (t.toList.flatMap String.utf8EncodeChar).toByteArray = t.toByteArray := by
    rw [← t.ofList_toList, String.toByteArray_ofList, List.utf8Encode]
    simp
  rw [hbytes, String.fromUTF8?, dif_pos t.isValidUTF8]
  rfl

end Timetabling.Json
