/-!
# TOML documents

A document is a table of tables, built up line by line. How a table came about decides what may be
added to it: a header may turn an implied table into one of its own, a dotted key may go on in a
table that dotted keys have made, and nothing is defined twice.
-/

namespace Timetabling.Toml

/-- How a table came about. -/
inductive Form where
  /-- By a header of its own. -/
  | explicit
  /-- By the header of a table below it. -/
  | implied
  /-- By a dotted key. -/
  | dotted
  /-- Between braces; nothing can be added to it. -/
  | closed
deriving Repr, DecidableEq

/-- A value or table. Of a float, and of a date or time, only the kind is kept. -/
inductive Node where
  | text (value : String)
  | integer (value : Int)
  | float
  | truth (value : Bool)
  | moment
  | list (items : List Node)
  | table (form : Form) (members : List (String × Node))
  /-- The tables under one doubly bracketed header, the latest first. -/
  | tables (latest : List (String × Node)) (earlier : List (List (String × Node)))
deriving Repr

abbrev Members := List (String × Node)

namespace Members

/-- Gives `key` the node `v`, in its place if it has one. -/
def put (key : String) (v : Node) : Members → Members
  | [] => [(key, v)]
  | m :: ms => if m.1 = key then (key, v) :: ms else m :: put key v ms

/-- Defines what a dotted key names. The tables on the way are made where they are missing, and the
one that holds the last key must have been made by dotted keys too. -/
def define : List String → String → Node → Members → Option Members
  | [], key, v, ms => if (ms.lookup key).isSome then none else some (put key v ms)
  | first :: path, key, v, ms =>
    match ms.lookup first with
    | none => (define path key v []).map fun sub => put first (.table .dotted sub) ms
    | some (.table .dotted sub) =>
      (define path key v sub).map fun sub => put first (.table .dotted sub) ms
    | some (.table .implied sub) =>
      if path.isEmpty then none
      else (define path key v sub).map fun sub => put first (.table .implied sub) ms
    | some (.tables latest earlier) =>
      if path.isEmpty then none
      else (define path key v latest).map fun sub => put first (.tables sub earlier) ms
    | some _ => none

/-- Changes the table at the end of a path, making the tables on the way where they are missing; of
several tables under one header the path goes into the latest. -/
def under (f : Members → Option Members) : List String → Members → Option Members
  | [], ms => f ms
  | first :: path, ms =>
    match ms.lookup first with
    | none => (under f path []).map fun sub => put first (.table .implied sub) ms
    | some (.table .closed _) => none
    | some (.table form sub) => (under f path sub).map fun sub => put first (.table form sub) ms
    | some (.tables latest earlier) =>
      (under f path latest).map fun sub => put first (.tables sub earlier) ms
    | some _ => none

/-- Opens the table `key` by a header of its own. -/
def openTable (key : String) (ms : Members) : Option Members :=
  match ms.lookup key with
  | none => some (put key (.table .explicit []) ms)
  | some (.table .implied sub) => some (put key (.table .explicit sub) ms)
  | some _ => none

/-- Opens one more of the tables `key`. -/
def openNext (key : String) (ms : Members) : Option Members :=
  match ms.lookup key with
  | none => some (put key (.tables [] []) ms)
  | some (.tables latest earlier) => some (put key (.tables [] (latest :: earlier)) ms)
  | some _ => none

end Members

/-- The document so far, and the table to which the next lines belong. -/
structure Document where
  root : Members := []
  current : List String := []
deriving Repr

namespace Document

/-- A key is a path and the last name on it. -/
def splitKey (key : List String) : Option (List String × String) :=
  key.getLast?.map fun last => (key.dropLast, last)

def addTable (d : Document) (key : List String) : Option Document := do
  let (path, last) ← splitKey key
  let root ← Members.under (Members.openTable last) path d.root
  return ⟨root, key⟩

def addNext (d : Document) (key : List String) : Option Document := do
  let (path, last) ← splitKey key
  let root ← Members.under (Members.openNext last) path d.root
  return ⟨root, key⟩

def addValue (d : Document) (key : List String) (v : Node) : Option Document := do
  let (path, last) ← splitKey key
  let root ← Members.under (Members.define path last v) d.current d.root
  return { d with root }

end Document

/-- Defines the members of a table written between braces, one after the other. -/
def defineAll : List (List String × Node) → Members → Option Members
  | [], ms => some ms
  | (key, v) :: pairs, ms => do
    let (path, last) ← Document.splitKey key
    defineAll pairs (← Members.define path last v ms)

def closedTable (pairs : List (List String × Node)) : Option Node :=
  (defineAll pairs []).map (.table .closed)

end Timetabling.Toml
