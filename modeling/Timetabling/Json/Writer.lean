import Timetabling.Json.Quoted
import Timetabling.Number.Decimal

/-!
# Writing JSON text

Values are written without blanks.
-/

namespace Timetabling.Json

/-- The texts in a row, with commas between them. -/
def commaSeparated : List (List Char) → List Char
  | [] => []
  | [a] => a
  | a :: as => a ++ ',' :: commaSeparated as

def writeNatural (n : Nat) : List Char := Decimal.digits n

def writeList {α : Type} (element : α → List Char) (as : List α) : List Char :=
  '[' :: commaSeparated (as.map element) ++ [']']

/-- A record with the given names and written values. -/
def writeRecord (members : List (String × List Char)) : List Char :=
  '{' :: commaSeparated (members.map fun m => Quoted.quote m.1 ++ ':' :: m.2) ++ ['}']

end Timetabling.Json
