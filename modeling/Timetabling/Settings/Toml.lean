import Timetabling.Settings
import Timetabling.Toml.Parser

/-!
# Settings from TOML

Unknown keys are ignored and missing ones have their defaults. A section may be a table, or a list
of the values of its keys in order; a date stands for a section in which nothing is set.
-/

namespace Timetabling

open Toml

/-- What a section with the given keys sets. -/
def Toml.Node.section? (keys : List String) : Node → Option Members
  | .table _ members => some members
  | .list items => some (keys.zip items)
  | .tables latest earlier =>
    some (keys.zip ((latest :: earlier).reverse.map fun members => .table .explicit members))
  | .moment => some []
  | _ => none

/-- The value of `key`, or `unset` if it is missing. -/
def Toml.Members.get {α : Type} (ms : Members) (key : String) (unset : α)
    (decode : Node → Option α) : Option α :=
  match ms.lookup key with
  | none => some unset
  | some v => decode v

def Toml.Node.natural64? : Node → Option UInt64
  | .integer n => if 0 ≤ n then some (UInt64.ofNat n.toNat) else none
  | _ => none

def Toml.Node.truth? : Node → Option Bool
  | .truth b => some b
  | _ => none

def Toml.Node.text? : Node → Option String
  | .text t => some t
  | _ => none

namespace SolverSettings

def ofNode (v : Node) : Option SolverSettings := do
  let standard : SolverSettings := {}
  let ms ← v.section? ["deadline_secs", "lcv_slot_aware"]
  return {
    deadlineSecs := ← ms.get "deadline_secs" standard.deadlineSecs Node.natural64?
    slotAwareOrder := ← ms.get "lcv_slot_aware" standard.slotAwareOrder Node.truth? }

end SolverSettings

namespace ServerSettings

def ofNode (v : Node) : Option ServerSettings := do
  let standard : ServerSettings := {}
  let ms ← v.section? ["bind"]
  return { bind := ← ms.get "bind" standard.bind Node.text? }

end ServerSettings

namespace Settings

def ofMembers (ms : Members) : Option Settings := do
  return {
    solver := ← ms.get "solver" {} SolverSettings.ofNode
    server := ← ms.get "server" {} ServerSettings.ofNode
    logFilter := ← ms.get "log_filter" none fun v => v.text?.map some }

/-- Reads settings and refuses them if they are not valid. -/
def ofToml (s : String) : Except SettingsError Settings :=
  match (Toml.parse s).bind ofMembers with
  | none => .error .format
  | some settings => settings.validate

/-- Settings from the bytes of a file, if there is one. -/
def load (file : Option ByteArray) : Except SettingsError Settings :=
  match file with
  | none => .error (.file .notFound)
  | some bytes =>
    match String.fromUTF8? bytes with
    | none => .error (.file .notUtf8)
    | some s => ofToml s

/-- The settings if a variable may name their file: without the variable, the defaults. -/
def loadNamed (named : Option (Option ByteArray)) : Except SettingsError Settings :=
  match named with
  | none => .ok {}
  | some file => load file

end Settings

end Timetabling
