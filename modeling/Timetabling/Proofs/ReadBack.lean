import Mathlib
import Timetabling.Json.Record
import Timetabling.Json.Writer
import Timetabling.Proofs.Encoding

/-!
# Reading back what has been written

`Reads r w a` says that the reader `r` takes `w` off the front of a text, whatever ends it, and
gives `a`. Numbers and strings are read back because their writers are: the digits of a number are
taken up to the first character that is none, and `scan` takes the octets of one written character
at a time (`Quoted.scan_escape`). Lists and records hand this on from their parts; a record needs in
addition that its members name its fields, each once (`Fills`).
-/

namespace Timetabling

namespace Decimal

theorem digits_zero : digits 0 = ['0'] := by
  rw [digits]
  rfl

theorem digits_ne_nil (n : ℕ) : digits n ≠ [] := by
  rw [digits]
  split_ifs <;> simp

theorem exists_digits_eq_cons (n : ℕ) : ∃ c cs, digits n = c :: cs ∧ c.isDigit = true := by
  obtain ⟨c, cs, hcs⟩ := List.exists_cons_of_ne_nil (digits_ne_nil n)
  exact ⟨c, cs, hcs, isDigit_of_mem_digits (hcs ▸ List.mem_cons_self)⟩

theorem eq_zero_of_head?_digits {n : ℕ} (h : (digits n).head? = some '0') : n = 0 := by
  fun_induction digits n with
  | case1 n hn =>
    have hd : Nat.digitChar n = '0' := by simpa using h
    have hv := digitValue_digitChar hn
    rw [hd] at hv
    exact hv.symm
  | case2 n hn ih =>
    rw [List.head?_append_of_ne_nil _ (digits_ne_nil _)] at h
    have := ih h
    omega

end Decimal

namespace Json

/-- What may follow a value inside a text. -/
def Stops (rest : List Char) : Prop :=
  rest = [] ∨ ∃ c s, rest = c :: s ∧ (c = ',' ∨ c = ']' ∨ c = '}')

theorem Stops.cons {c : Char} (s : List Char) (h : c = ',' ∨ c = ']' ∨ c = '}') :
    Stops (c :: s) :=
  .inr ⟨c, s, rfl, h⟩

/-- The reader `r` takes `w` off the front of a text and gives `a`. -/
structure Reads {α : Type} (r : Reader α) (w : List Char) (a : α) : Prop where
  starts : ∃ c s, w = c :: s ∧ c.toNat < 128 ∧ isBlank c = false ∧ c ≠ ']'
  reads : ∀ rest, Stops rest → r (encoded w ++ rest) = .ok (a, rest)

namespace Reads

variable {α β : Type} {r : Reader α} {w : List Char} {a : α}

theorem map (h : Reads r w a) (f : α → β) : Reads (Reader.map f r) w (f a) where
  starts := h.starts
  reads rest hrest := by rw [Reader.map, h.reads rest hrest]

/-- The first octet is neither a blank nor the end of a list. -/
theorem encoded_eq_cons (h : Reads r w a) :
    ∃ c s, encoded w = c :: s ∧ isBlank c = false ∧ c ≠ ']' := by
  obtain ⟨c, s, rfl, hascii, hc⟩ := h.starts
  exact ⟨c, encoded s, encoded_cons hascii s, hc⟩

theorem skipBlanks (h : Reads r w a) (rest : List Char) :
    Json.skipBlanks (encoded w ++ rest) = encoded w ++ rest := by
  obtain ⟨c, s, hw, hc, -⟩ := h.encoded_eq_cons
  simp [hw, Json.skipBlanks, hc]

theorem whole (h : Reads r w a) : r.whole (String.ofList w) = .ok a := by
  have hread := h.reads [] (.inl rfl)
  rw [List.append_nil] at hread
  rw [Reader.whole, octets_toUTF8, hread]
  rfl

end Reads

/-! ### Numbers -/

namespace Number

theorem foldl_le (n : ℕ) (cs : List Char) :
    n ≤ cs.foldl (fun n c => 10 * n + Decimal.digitValue c) n := by
  induction cs generalizing n with
  | nil => exact le_rfl
  | cons c cs ih => exact le_trans (by omega) (ih (10 * n + Decimal.digitValue c))

theorem absorb_snd (n : ℕ) (cs : List Char)
    (h : cs.foldl (fun n c => 10 * n + Decimal.digitValue c) n < bound) :
    (absorb n cs).2 = cs.length := by
  induction cs generalizing n with
  | nil => rfl
  | cons c cs ih =>
    have hnext := (foldl_le (10 * n + Decimal.digitValue c) cs).trans_lt h
    simp [absorb, hnext, ih _ h]

theorem natural?_digits {n : ℕ} (h : n < bound) :
    Parts.natural? ⟨Decimal.digits n, none, none⟩ = some n := by
  have habsorb := absorb_snd 0 (Decimal.digits n) (by
    change Decimal.value _ < bound
    rwa [Decimal.value_digits])
  simp [Parts.natural?, habsorb, Decimal.value_digits]

theorem span_digits (n : ℕ) {rest : List Char} (hrest : Stops rest) :
    (Decimal.digits n ++ rest).span Char.isDigit = (Decimal.digits n, rest) := by
  have hall : ∀ c ∈ Decimal.digits n, c.isDigit = true :=
    fun c hc => Decimal.isDigit_of_mem_digits hc
  rw [List.span_eq_takeWhile_dropWhile, List.takeWhile_append_of_pos hall,
    List.dropWhile_append_of_pos hall]
  rcases hrest with rfl | ⟨c, s, rfl, rfl | rfl | rfl⟩ <;> simp

theorem readWhole_digits (n : ℕ) {rest : List Char} (hrest : Stops rest) :
    readWhole (Decimal.digits n ++ rest) = .ok (Decimal.digits n, rest) := by
  have hspan := span_digits n hrest
  obtain ⟨c, cs, hcs, hdigit⟩ := Decimal.exists_digits_eq_cons n
  by_cases hc : c = '0'
  · have hn : n = 0 := Decimal.eq_zero_of_head?_digits (by rw [hcs, hc]; rfl)
    rw [hn, Decimal.digits_zero]
    rcases hrest with rfl | ⟨c, s, rfl, rfl | rfl | rfl⟩ <;> rfl
  · rw [hcs, List.cons_append] at hspan ⊢
    simpa [readWhole, digits1, hc, hdigit] using hspan

theorem readParts_digits (n : ℕ) {rest : List Char} (hrest : Stops rest) :
    readParts (Decimal.digits n ++ rest) = .ok (⟨Decimal.digits n, none, none⟩, rest) := by
  rw [readParts, readWhole_digits n hrest]
  rcases hrest with rfl | ⟨c, s, rfl, rfl | rfl | rfl⟩ <;> rfl

theorem read_digits {n : ℕ} (h : n < bound) {rest : List Char} (hrest : Stops rest) :
    read (Decimal.digits n ++ rest) = .ok (some n, rest) := by
  have hparts := readParts_digits n hrest
  have hnatural := natural?_digits h
  obtain ⟨c, cs, hcs, hdigit⟩ := Decimal.exists_digits_eq_cons n
  have hminus : c ≠ '-' := by
    rintro rfl
    simp at hdigit
  rw [hcs, List.cons_append] at hparts
  rw [hcs] at hnatural ⊢
  simp [read, hminus, hparts, Parts.value?, hnatural, Except.map]

end Number

theorem isBlank_of_isDigit {c : Char} (h : c.isDigit = true) : isBlank c = false := by
  by_contra hblank
  simp only [isBlank, Bool.not_eq_false, Bool.or_eq_true, decide_eq_true_eq] at hblank
  rcases hblank with ((rfl | rfl) | rfl) | rfl <;> simp at h

theorem toNat_lt_of_isDigit {c : Char} (h : c.isDigit = true) : c.toNat < 128 := by
  simp only [Char.isDigit, Bool.and_eq_true, decide_eq_true_eq] at h
  have hle : c.toNat ≤ 57 := UInt32.le_iff_toNat_le.1 h.2
  omega

theorem Token.reads_number {n : ℕ} (h : n < Number.bound) :
    Reads Token.read (writeNatural n) (.number (some n)) := by
  obtain ⟨c, cs, hcs, hdigit⟩ := Decimal.exists_digits_eq_cons n
  have hne : ∀ d : Char, d.isDigit = false → c ≠ d := by
    rintro d hd rfl
    simp [hdigit] at hd
  have hascii : encoded (Decimal.digits n) = Decimal.digits n :=
    encoded_of_lt fun c hc => toNat_lt_of_isDigit (Decimal.isDigit_of_mem_digits hc)
  refine ⟨⟨c, cs, hcs, toNat_lt_of_isDigit hdigit, isBlank_of_isDigit hdigit, hne _ rfl⟩,
    fun rest hrest => ?_⟩
  have hread := Number.read_digits h hrest
  rw [writeNatural, hascii]
  rw [hcs, List.cons_append] at hread ⊢
  simp [Token.read, Json.skipBlanks, isBlank_of_isDigit hdigit, hne, hdigit, Reader.map, hread]

/-! ### Strings -/

namespace Quoted

/-- Four digits are one unit. -/
theorem scan_unit {n : ℕ} (h : n < 0x10000) {lead : Option ℕ} {place : Place} {found : Option Char}
    (hunit : afterUnit true lead n = .ok (place, found)) (acc : List UInt8) (s : List Char) :
    scan true (.unit lead 4 0) acc (Hex.lastDigits 4 n ++ s) =
      scan true place (found.toList.foldl push acc) s := by
  have hvalue (k : ℕ) : Hex.value? (Hex.digit (k % 16)) = some (k % 16) :=
    Hex.value?_digit (Nat.mod_lt _ (by decide))
  have hn : 16 * (16 * (16 * (n / 16 / 16 / 16 % 16) + n / 16 / 16 % 16) + n / 16 % 16) + n % 16 =
    n := by omega
  simp [Hex.lastDigits, scan, hvalue, hn, hunit]

theorem hasFour_append {ds : List Char} (h : ds.length = 4) (s : List Char) :
    hasFour (ds ++ s) = true := by
  rw [hasFour, List.take_left' h, h]
  rfl

theorem afterUnit_control {c : Char} (h : c.toNat < 0x20) :
    afterUnit true none c.toNat = .ok (.plain, some c) := by
  have htrail : isTrail c.toNat = false := by
    simp only [isTrail, Bool.and_eq_false_iff, decide_eq_false_iff_not]
    omega
  have hlead : isLead c.toNat = false := by
    simp only [isLead, Bool.and_eq_false_iff, decide_eq_false_iff_not]
    omega
  simp [afterUnit, htrail, hlead]

/-- Octets that mean nothing in a string are taken as they are. -/
theorem scan_plain {bs : List UInt8} (h : ∀ b ∈ bs, 128 ≤ b.toNat) (acc : List UInt8)
    (s : List Char) :
    scan true .plain acc (bs.map Char.ofUInt8 ++ s) = scan true .plain (bs.reverse ++ acc) s := by
  induction bs generalizing acc with
  | nil => rfl
  | cons b bs ih =>
    have hb : 128 ≤ (Char.ofUInt8 b).toNat := by
      rw [toNat_ofUInt8]
      exact h b List.mem_cons_self
    have hne : ∀ d : Char, d.toNat < 128 → Char.ofUInt8 b ≠ d := by
      rintro d hd rfl
      omega
    have hcontrol : ¬ (Char.ofUInt8 b).toNat < 0x20 := by omega
    have hrest := ih (fun b hb => h b (List.mem_cons_of_mem _ hb)) (b :: acc)
    simp [scan, hne, hcontrol, hrest]

theorem scan_singleton {c : Char} (hquote : c ≠ '"') (hslash : c ≠ '\\')
    (hcontrol : ¬ c.toNat < 0x20) (acc : List UInt8) (s : List Char) :
    scan true .plain acc (encoded [c] ++ s) = scan true .plain (push acc c) s := by
  rcases Nat.lt_or_ge c.toNat 128 with hascii | hlarge
  · rw [encoded_cons hascii]
    simp [encoded, scan, push, hquote, hslash, hcontrol, utf8EncodeChar_of_lt hascii]
  · rw [encoded_singleton]
    exact scan_plain (fun b hb => le_of_mem_utf8EncodeChar hlarge hb) acc s

theorem encoded_lastDigits (count n : ℕ) :
    encoded (Hex.lastDigits count n) = Hex.lastDigits count n := by
  have hdigit : ∀ d, d < 16 → (Hex.digit d).toNat < 128 := by decide
  refine encoded_of_lt fun c hc => ?_
  obtain ⟨d, hd, rfl⟩ := Hex.mem_lastDigits hc
  exact hdigit d hd

/-- What is written for a character is read as the bytes of that character. -/
theorem scan_escape (c : Char) (acc : List UInt8) (s : List Char) :
    scan true .plain acc (encoded (escape c) ++ s) = scan true .plain (push acc c) s := by
  unfold escape
  split_ifs with hquote hslash hb hf hn hr ht hcontrol
  · subst hquote; simp [encoded_cons, scan, escaped?]
  · subst hslash; simp [encoded_cons, scan, escaped?]
  · subst hb; simp [encoded_cons, scan, escaped?]
  · subst hf; simp [encoded_cons, scan, escaped?]
  · subst hn; simp [encoded_cons, scan, escaped?]
  · subst hr; simp [encoded_cons, scan, escaped?]
  · subst ht; simp [encoded_cons, scan, escaped?]
  · have hfour : hasFour (Hex.lastDigits 4 c.toNat ++ s) = true := hasFour_append rfl s
    have hunit := scan_unit (by omega) (afterUnit_control hcontrol) acc s
    simp [encoded_cons, encoded_lastDigits, scan, hfour, hunit]
  · exact scan_singleton hquote hslash hcontrol acc s

theorem scan_written (cs : List Char) (acc : List UInt8) (rest : List Char) :
    scan true .plain acc (encoded (cs.flatMap escape) ++ '"' :: rest) =
      .ok (acc.reverse ++ cs.flatMap String.utf8EncodeChar, rest) := by
  induction cs generalizing acc with
  | nil => simp [scan]
  | cons c cs ih => simp [scan_escape, ih, push]

theorem read_written (t : String) (rest : List Char) :
    read (encoded (t.toList.flatMap escape) ++ '"' :: rest) = .ok (t, rest) := by
  simp [read, scan_written, fromUTF8?_flatMap]

end Quoted

theorem encoded_quote (t : String) :
    encoded (Quoted.quote t) = '"' :: encoded (t.toList.flatMap Quoted.escape) ++ ['"'] := by
  simp [Quoted.quote, encoded_cons]

theorem Token.reads_text (t : String) : Reads Token.read (Quoted.quote t) (.text t) := by
  refine ⟨⟨_, _, rfl, by decide, by decide, by decide⟩, fun rest _ => ?_⟩
  simp [encoded_quote, Token.read, Json.skipBlanks, isBlank, Reader.map, Quoted.read_written]

/-! ### Scalars -/

theorem Reads.scalar {α : Type} {keep : Token → Option α} {w : List Char} {t : Token} {a : α}
    (h : Reads Token.read w t) (hkeep : keep t = some a) : Reads (scalar keep) w a where
  starts := h.starts
  reads rest hrest := by simp only [Json.scalar, h.reads rest hrest, hkeep]

theorem reads_natural {bound n : ℕ} (h : n < bound) (hbound : bound ≤ Number.bound) :
    Reads (natural bound) (writeNatural n) n :=
  (Token.reads_number (h.trans_le hbound)).scalar (if_pos h)

theorem reads_uint8 (n : UInt8) : Reads uint8 (writeNatural n.toNat) n := by
  have h := (reads_natural n.toNat_lt (by decide)).map UInt8.ofNat
  rwa [UInt8.ofNat_toNat] at h

theorem reads_uint32 (n : UInt32) : Reads uint32 (writeNatural n.toNat) n := by
  have h := (reads_natural n.toNat_lt (by decide)).map UInt32.ofNat
  rwa [UInt32.ofNat_toNat] at h

theorem reads_text (t : String) : Reads text (Quoted.quote t) t :=
  (Token.reads_text t).scalar rfl

/-! ### Parts in a row -/

/-- Texts in a row with a comma before each, except the first where `first` says so. -/
def inRow : Bool → List (List Char) → List Char
  | _, [] => []
  | first, w :: ws => (if first then w else ',' :: w) ++ inRow false ws

theorem commaSeparated_eq (ws : List (List Char)) : commaSeparated ws = inRow true ws := by
  fun_induction commaSeparated ws with
  | case1 => rfl
  | case2 w => simp [inRow]
  | case3 w ws hws ih =>
    obtain ⟨v, vs, rfl⟩ := List.exists_cons_of_ne_nil hws
    rw [ih]
    simp [inRow]

theorem stops_inRow (ws : List (List Char)) {c : Char} (hc : c = ']' ∨ c = '}')
    (rest : List Char) : Stops (encoded (inRow false ws) ++ c :: rest) := by
  cases ws with
  | nil => exact .cons rest (.inr hc)
  | cons w ws =>
    simp only [inRow, Bool.false_eq_true, if_false, List.cons_append]
    rw [encoded_cons (by decide)]
    exact .cons _ (.inl rfl)

theorem length_le_inRow (first : Bool) (ws : List (List Char)) :
    ws.length ≤ (encoded (inRow first ws)).length + first.toNat := by
  have hrow : ws.length ≤ (inRow first ws).length + first.toNat := by
    induction ws generalizing first with
    | nil => exact Nat.zero_le _
    | cons w ws ih =>
      have := ih false
      cases first <;> simp [inRow] at this ⊢ <;> omega
  exact hrow.trans (Nat.add_le_add_right (length_le_length_encoded _) _)

/-! ### Lists -/

section List

variable {α : Type} {element : Reader α} {w : List Char} {a : α}

theorem listFrom_step (h : Reads element w a) {rest : List Char} (hrest : Stops rest)
    (steps : ℕ) (first : Bool) (acc : List α) :
    listFrom element (steps + 1) first acc (encoded (if first then w else ',' :: w) ++ rest) =
      listFrom element steps false (a :: acc) rest := by
  have hskip := h.skipBlanks rest
  have hread := h.reads rest hrest
  have hcomma : skipBlanks (',' :: (encoded w ++ rest)) = ',' :: (encoded w ++ rest) := by
    simp [skipBlanks, isBlank]
  obtain ⟨c, s, hw, -, hc⟩ := h.encoded_eq_cons
  simp only [hw, List.cons_append] at hskip hread hcomma
  cases first with
  | true => simp [listFrom, hw, hskip, hc, hread]
  | false => simp [listFrom, encoded_cons, hw, hcomma, hskip, hc, hread]

theorem listFrom_inRow {write : α → List Char} {as : List α}
    (h : ∀ a ∈ as, Reads element (write a) a) {steps : ℕ} (hsteps : as.length < steps)
    (first : Bool) (acc : List α) (rest : List Char) :
    listFrom element steps first acc (encoded (inRow first (as.map write)) ++ ']' :: rest) =
      .ok (acc.reverse ++ as, rest) := by
  induction as generalizing steps first acc with
  | nil =>
    obtain ⟨steps, rfl⟩ := Nat.exists_eq_succ_of_ne_zero (Nat.ne_zero_of_lt hsteps)
    simp [listFrom, inRow, skipBlanks, isBlank]
  | cons a as ih =>
    obtain ⟨steps, rfl⟩ := Nat.exists_eq_succ_of_ne_zero (Nat.ne_zero_of_lt hsteps)
    have hstep := listFrom_step (h a List.mem_cons_self)
      (stops_inRow (as.map write) (.inl rfl) rest) steps first acc
    have hlater := ih (fun b hb => h b (List.mem_cons_of_mem a hb)) (Nat.lt_of_succ_lt_succ hsteps)
      false (a :: acc)
    rw [List.map_cons, inRow, encoded_append, List.append_assoc, hstep, hlater]
    simp

theorem reads_list {write : α → List Char} {as : List α}
    (h : ∀ a ∈ as, Reads element (write a) a) :
    Reads (list element) (writeList write as) as := by
  refine ⟨⟨_, _, rfl, by decide, by decide, by decide⟩, fun rest _ => ?_⟩
  have hopen : Token.read (encoded (writeList write as) ++ rest) =
      .ok (.openList, encoded (inRow true (as.map write)) ++ ']' :: rest) := by
    simp [encoded_cons, Token.read, writeList, commaSeparated_eq, skipBlanks, isBlank]
  have hsteps : as.length < (encoded (inRow true (as.map write)) ++ ']' :: rest).length + 1 := by
    have := length_le_inRow true (as.map write)
    simp at this ⊢
    omega
  simp only [list, hopen]
  exact listFrom_inRow h hsteps true [] rest

end List

/-! ### Records -/

def writeMember (m : String × List Char) : List Char := Quoted.quote m.1 ++ ':' :: m.2

section Record

variable {δ α : Type} {fields : List (RecordField δ)} {d d' e : δ} {m : String × List Char}
  {ms : List (String × List Char)}

/-- The member `m` names a field that is not set in `d`, and `d'` is `d` with its value. -/
def Puts (fields : List (RecordField δ)) (d : δ) (m : String × List Char) (d' : δ) : Prop :=
  ∃ f, (fields.find? fun f => f.name = m.1) = some f ∧ f.isSet d = false ∧ Reads (f.fill d) m.2 d'

/-- The members fill in the draft `d`, one after another, up to `e`. -/
inductive Fills (fields : List (RecordField δ)) : δ → List (String × List Char) → δ → Prop where
  | nil {d : δ} : Fills fields d [] d
  | cons {d d' e : δ} {m : String × List Char} {ms : List (String × List Char)}
      (h : Puts fields d m d') (hs : Fills fields d' ms e) : Fills fields d (m :: ms) e

namespace RecordField

theorem fillMembers_step (h : Puts fields d m d') {rest : List Char} (hrest : Stops rest)
    (steps : ℕ) (first : Bool) :
    fillMembers fields (steps + 1) first d
      (encoded (if first then writeMember m else ',' :: writeMember m) ++ rest) =
        fillMembers fields steps false d' rest := by
  obtain ⟨f, hfind, hfree, hreads⟩ := h
  have hread := hreads.reads rest hrest
  cases first <;>
    simp [fillMembers, writeMember, encoded_cons, encoded_quote, skipBlanks, isBlank, expect,
      Except.bind, Quoted.read_written, hfind, hfree, hread]

theorem fillMembers_inRow (h : Fills fields d ms e) {steps : ℕ} (hsteps : ms.length < steps)
    (first : Bool) (rest : List Char) :
    fillMembers fields steps first d (encoded (inRow first (ms.map writeMember)) ++ '}' :: rest) =
      .ok (e, rest) := by
  induction h generalizing steps first with
  | nil =>
    obtain ⟨steps, rfl⟩ := Nat.exists_eq_succ_of_ne_zero (Nat.ne_zero_of_lt hsteps)
    simp [fillMembers, inRow, skipBlanks, isBlank]
  | @cons d d' e m ms h hs ih =>
    obtain ⟨steps, rfl⟩ := Nat.exists_eq_succ_of_ne_zero (Nat.ne_zero_of_lt hsteps)
    have hstep := fillMembers_step h (stops_inRow (ms.map writeMember) (.inr rfl) rest) steps first
    have hlater := ih (Nat.lt_of_succ_lt_succ hsteps) false
    rw [List.map_cons, inRow, encoded_append, List.append_assoc, hstep, hlater]

end RecordField

theorem reads_record {finish : δ → Option α} {a : α} (h : Fills fields d ms e)
    (hfinish : finish e = some a) : Reads (record fields d finish) (writeRecord ms) a := by
  refine ⟨⟨_, _, rfl, by decide, by decide, by decide⟩, fun rest _ => ?_⟩
  have hopen : Token.read (encoded (writeRecord ms) ++ rest) =
      .ok (.openRecord, encoded (inRow true (ms.map writeMember)) ++ '}' :: rest) := by
    change Token.read (encoded ('{' :: commaSeparated (ms.map writeMember) ++ ['}']) ++ rest) = _
    simp [encoded_cons, Token.read, commaSeparated_eq, skipBlanks, isBlank]
  have hsteps :
      ms.length < (encoded (inRow true (ms.map writeMember)) ++ '}' :: rest).length + 1 := by
    have := length_le_inRow true (ms.map writeMember)
    simp at this ⊢
    omega
  simp only [record, hopen, RecordField.fillMembers_inRow h hsteps, hfinish]

end Record

end Json

end Timetabling
