import Timetabling.Number.Hex

/-!
# The text of TOML documents

Blanks, comments, line ends, the four kinds of strings, and keys. A reader gives what it has read
and the text after it, or nothing if the text is not well formed.
-/

namespace Timetabling.Toml

abbrev Reader (α : Type) := List Char → Option (α × List Char)

def isBlank (c : Char) : Bool := c = ' ' || c = '\t'

def skipBlanks (s : List Char) : List Char := s.dropWhile isBlank

/-- Control characters other than the tab do not stand in comments and strings. -/
def isPlain (c : Char) : Bool := c = '\t' || 0x20 ≤ c.toNat && c.toNat ≠ 0x7F

/-- A line feed, with or without a carriage return before it. -/
def lineBreak? : List Char → Option (List Char)
  | '\n' :: r => some r
  | '\r' :: '\n' :: r => some r
  | _ => none

def skipComment (s : List Char) : List Char :=
  match s with
  | '#' :: r => r.dropWhile isPlain
  | _ => s

/-- Nothing but blanks and a comment up to the end of the line or text. -/
def lineEnd? (s : List Char) : Option (List Char) :=
  match skipComment (skipBlanks s) with
  | [] => some []
  | rest => lineBreak? rest

/-- Skips blanks, comments and line breaks; a comment has to end with its line. -/
def skipLines (inComment : Bool) : List Char → Option (List Char)
  | [] => if inComment then none else some []
  | '\n' :: r => skipLines false r
  | '\r' :: '\n' :: r => skipLines false r
  | c :: r =>
    if inComment then if isPlain c then skipLines true r else none
    else if c = '#' then skipLines true r
    else if isBlank c then skipLines false r
    else some (c :: r)

/-- The character whose number has exactly `count` hexadecimal digits. -/
def codePoint? (count : Nat) (s : List Char) : Option (Char × List Char) := do
  let digits := s.take count
  let n ← Hex.number? digits
  if digits.length = count && (n < 0xD800 || 0xE000 ≤ n && n < 0x110000) then
    return (Char.ofNat n, s.drop count)
  else none

/-- What follows the backslash of an escape. -/
def escape? : Reader Char
  | 'b' :: r => some ('\x08', r)
  | 't' :: r => some ('\t', r)
  | 'n' :: r => some ('\n', r)
  | 'f' :: r => some ('\x0c', r)
  | 'r' :: r => some ('\r', r)
  | '"' :: r => some ('"', r)
  | '\\' :: r => some ('\\', r)
  | 'u' :: r => codePoint? 4 r
  | 'U' :: r => codePoint? 8 r
  | _ => none

/-- The inside of a one-line string; `steps` bounds the number of its characters. -/
def lineText (quote : Char) : Nat → List Char → Reader String
  | 0, _, _ => none
  | _, _, [] => none
  | steps + 1, acc, c :: r =>
    if c = quote then some (String.ofList acc.reverse, r)
    else if c = '\\' && quote = '"' then
      match escape? r with
      | none => none
      | some (d, r) => lineText quote steps (d :: acc) r
    else if isPlain c then lineText quote steps (c :: acc) r
    else none

/-- Skips blanks and line breaks. -/
def skipSpace : List Char → List Char
  | [] => []
  | '\n' :: r => skipSpace r
  | '\r' :: '\n' :: r => skipSpace r
  | c :: r => if isBlank c then skipSpace r else c :: r

/-- After a backslash at the end of a line: what follows the blanks and line breaks. -/
def continueLine? (s : List Char) : Option (List Char) :=
  (lineBreak? (skipBlanks s)).map skipSpace

/-- The inside of a string between triple quotes. One or two quotes may stand inside, also right
before the three that close it. -/
def blockText (quote : Char) : Nat → List Char → Reader String
  | 0, _, _ => none
  | _, _, [] => none
  | steps + 1, acc, c :: r =>
    if c = quote then
      let run := 1 + (r.takeWhile (· = quote)).length
      let rest := r.dropWhile (· = quote)
      if run < 3 then blockText quote steps (List.replicate run quote ++ acc) rest
      else
        let inside := min (run - 3) 2
        some (String.ofList (List.replicate inside quote ++ acc).reverse,
          List.replicate (run - 3 - inside) quote ++ rest)
    else
      match lineBreak? (c :: r) with
      | some r => blockText quote steps ('\n' :: acc) r
      | none =>
        if c = '\\' && quote = '"' then
          match continueLine? r with
          | some r => blockText quote steps acc r
          | none =>
            match escape? r with
            | none => none
            | some (d, r) => blockText quote steps (d :: acc) r
        else if isPlain c then blockText quote steps (c :: acc) r
        else none

/-- A string after its opening quotes. A line break right after triple quotes is not part of it. -/
def text (quote : Char) (s : List Char) : Option (String × List Char) :=
  match s with
  | a :: b :: r =>
    if a = quote && b = quote then
      blockText quote (r.length + 1) [] ((lineBreak? r).getD r)
    else lineText quote (s.length + 1) [] s
  | _ => lineText quote (s.length + 1) [] s

def isBare (c : Char) : Bool := c.isAlphanum || c = '_' || c = '-'

/-- One name of a key. -/
def name : Reader String
  | '"' :: r => lineText '"' (r.length + 1) [] r
  | '\'' :: r => lineText '\'' (r.length + 1) [] r
  | s =>
    let bare := s.takeWhile isBare
    if bare.isEmpty then none else some (String.ofList bare, s.dropWhile isBare)

/-- Keys have fewer names than this. -/
def keyLimit : Nat := 80

/-- Names with dots between them and blanks around them; `left` is how many may still come. -/
def names : Nat → Reader (List String)
  | 0, _ => none
  | left + 1, s => do
    let (first, s) ← name (skipBlanks s)
    match skipBlanks s with
    | '.' :: r =>
      let (more, s) ← names left r
      return (first :: more, s)
    | s => return ([first], s)

def key : Reader (List String) := names (keyLimit - 1)

end Timetabling.Toml
