/-!
# Hexadecimal digits
-/

namespace Timetabling.Hex

/-- The value of a hexadecimal digit in either case. -/
def value? (c : Char) : Option Nat :=
  if c.isDigit then some (c.toNat - '0'.toNat)
  else if 'a' ≤ c && c ≤ 'f' then some (c.toNat - 'a'.toNat + 10)
  else if 'A' ≤ c && c ≤ 'F' then some (c.toNat - 'A'.toNat + 10)
  else none

/-- The digit of a number below sixteen, letters in lower case. -/
def digit (n : Nat) : Char := Nat.digitChar n

/-- The last `count` digits of `n`, with leading zeros. -/
def lastDigits : Nat → Nat → List Char
  | 0, _ => []
  | count + 1, n => lastDigits count (n / 16) ++ [digit (n % 16)]

/-- The number written by a list of digits. -/
def number? (cs : List Char) : Option Nat :=
  (cs.mapM value?).map fun ds => ds.foldl (fun n d => 16 * n + d) 0

theorem value?_digit {d : Nat} (h : d < 16) : value? (digit d) = some d := by
  have : ∀ k, k < 16 → value? (digit k) = some k := by decide
  exact this d h

theorem mem_lastDigits {c : Char} {count n : Nat} (h : c ∈ lastDigits count n) :
    ∃ d, d < 16 ∧ c = digit d := by
  induction count generalizing n with
  | zero => cases h
  | succ count ih =>
    rcases List.mem_append.1 h with h | h
    · exact ih h
    · exact ⟨n % 16, Nat.mod_lt n (by decide), List.mem_singleton.1 h⟩

end Timetabling.Hex
