/-!
# Reading JSON text

A reader takes a value off the front of a text, or says what is wrong with it. Texts are read from
left to right and the first thing wrong decides. They come as bytes, and what these mean in UTF-8
does not matter except inside strings that are kept.
-/

namespace Timetabling.Json

/-- What is wrong with a text. -/
inductive Fault where
  /-- It is not JSON. -/
  | malformed
  /-- It stops where more has to come. -/
  | cutOff
  /-- It is JSON so far, but not of the shape that is read. -/
  | unfit
deriving Repr, DecidableEq

/-- Bytes as readers see them: each as the character of that number, so that the characters of ASCII
stand for themselves. -/
def octets (bytes : ByteArray) : List Char := bytes.data.toList.map Char.ofUInt8

/-- Gives what it has read and the text after it, both texts as octets. -/
abbrev Reader (α : Type) := List Char → Except Fault (α × List Char)

def isBlank (c : Char) : Bool := c = ' ' || c = '\n' || c = '\t' || c = '\r'

def skipBlanks (s : List Char) : List Char := s.dropWhile isBlank

/-- Reads the character `c` after blanks. -/
def expect (c : Char) (s : List Char) : Except Fault (List Char) :=
  match skipBlanks s with
  | [] => .error .cutOff
  | d :: r => if d = c then .ok r else .error .malformed

/-- Reads the letters of a word that has been recognized by its first. -/
def expectWord : List Char → List Char → Except Fault (List Char)
  | [], s => .ok s
  | _ :: _, [] => .error .cutOff
  | c :: cs, d :: s => if d = c then expectWord cs s else .error .malformed

def Reader.map {α β : Type} (f : α → β) (r : Reader α) : Reader β := fun s =>
  match r s with
  | .error e => .error e
  | .ok (a, rest) => .ok (f a, rest)

/-- Reads a whole text: only blanks may follow the value. -/
def Reader.whole {α : Type} (r : Reader α) (text : String) : Except Fault α :=
  match r (octets text.toUTF8) with
  | .error e => .error e
  | .ok (a, rest) => if (skipBlanks rest).isEmpty then .ok a else .error .malformed

/-- Reads a value off the front of some bytes, whatever follows it. -/
def Reader.front {α : Type} (r : Reader α) (bytes : ByteArray) : Except Fault α :=
  match r (octets bytes) with
  | .error e => .error e
  | .ok (a, _) => .ok a

end Timetabling.Json
