import Timetabling.Toml.Scalar

/-!
# Reading TOML documents
-/

namespace Timetabling.Toml

/-- The elements of a list up to the closing bracket. Line breaks and comments may stand between
them, and a comma may follow the last. -/
def elements (value : Reader Node) : Nat → List Node → Reader Node
  | 0, _, _ => none
  | steps + 1, acc, s => do
    match ← skipLines false s with
    | ']' :: r => return (.list acc.reverse, r)
    | s =>
      let (v, s) ← value s
      match ← skipLines false s with
      | ']' :: r => return (.list (v :: acc).reverse, r)
      | ',' :: r => elements value steps (v :: acc) r
      | _ => none

/-- A key, the sign of equality and a value, with blanks between them. -/
def pair (value : Reader Node) (s : List Char) : Option ((List String × Node) × List Char) := do
  let (k, s) ← key s
  match s with
  | '=' :: r =>
    let (v, s) ← value (skipBlanks r)
    return ((k, v), s)
  | _ => none

/-- The members of a table up to the closing brace, all on one line; no comma follows the last. -/
def inlineMembers (value : Reader Node) : Nat → List (List String × Node) → Reader Node
  | 0, _, _ => none
  | steps + 1, acc, s => do
    let (p, s) ← pair value s
    match skipBlanks s with
    | ',' :: r => inlineMembers value steps (p :: acc) r
    | '\x7d' :: r => return (← closedTable (p :: acc).reverse, r)
    | _ => none

def inlineTable (value : Reader Node) (s : List Char) : Option (Node × List Char) :=
  match skipBlanks s with
  | '\x7d' :: r => some (.table .closed [], r)
  | _ => inlineMembers value (s.length + 1) [] s

/-- A value inside which lists and tables are nested at most `depth` deep. -/
def value : Nat → Reader Node
  | _, [] => none
  | depth, c :: r =>
    if c = '"' || c = '\'' then (text c r).map fun (t, r) => (.text t, r)
    else if c = '[' then
      match depth with
      | 0 => none
      | depth + 1 => elements (value depth) (r.length + 1) [] r
    else if c = '\x7b' then
      match depth with
      | 0 => none
      | depth + 1 => inlineTable (value depth) r
    else if c = '+' || c = '-' || c.isDigit then number (c :: r)
    else
      match c :: r with
      | 't' :: 'r' :: 'u' :: 'e' :: r => some (.truth true, r)
      | 'f' :: 'a' :: 'l' :: 's' :: 'e' :: r => some (.truth false, r)
      | s => (special? s).map fun r => (.float, r)

/-- Lists and tables are nested at most this deep. -/
def nestingLimit : Nat := 79

/-- A line that adds to a document. -/
def line (d : Document) (s : List Char) : Option (Document × List Char) :=
  match s with
  | '[' :: '[' :: r => do
    let (k, s) ← key r
    match s with
    | ']' :: ']' :: r => return (← d.addNext k, r)
    | _ => none
  | '[' :: r => do
    let (k, s) ← key r
    match s with
    | ']' :: r => return (← d.addTable k, r)
    | _ => none
  | _ => do
    let ((k, v), s) ← pair (value nestingLimit) s
    return (← d.addValue k v, s)

/-- The lines of a document up to its end. -/
def documentLines : Nat → Document → List Char → Option Document
  | 0, _, _ => none
  | steps + 1, d, s =>
    match skipBlanks s with
    | [] => some d
    | c :: r =>
      if c = '#' || c = '\n' || c = '\r' then
        match lineEnd? (c :: r) with
        | none => none
        | some s => documentLines steps d s
      else
        match line d (c :: r) with
        | none => none
        | some (d, s) =>
          match lineEnd? s with
          | none => none
          | some s => documentLines steps d s

/-- The members of a document, or nothing if the text is not one. A byte order mark may stand
before it. -/
def parse (s : String) : Option Members :=
  let cs :=
    match s.toList with
    | '\uFEFF' :: r => r
    | cs => cs
  (documentLines (cs.length + 1) {} cs).map Document.root

end Timetabling.Toml
