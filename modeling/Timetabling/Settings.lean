/-!
# Settings

What can be set from outside, with its defaults and limits.
-/

namespace Timetabling

structure SolverSettings where
  /-- The seconds for one search if its request names none. -/
  deadlineSecs : UInt64 := 30
  /-- Whether the order of candidates looks at slots. -/
  slotAwareOrder : Bool := true
deriving Repr, DecidableEq

structure ServerSettings where
  bind : String := "127.0.0.1:8080"
deriving Repr, DecidableEq

structure Settings where
  solver : SolverSettings := {}
  server : ServerSettings := {}
  logFilter : Option String := none
deriving Repr, DecidableEq

/-- Why a file could not be read as text. -/
inductive FileFault where
  | notFound
  | notUtf8
deriving Repr, DecidableEq

def FileFault.message : FileFault → String
  | .notFound => "No such file or directory (os error 2)"
  | .notUtf8 => "stream did not contain valid UTF-8"

inductive SettingsError where
  | file (fault : FileFault)
  /-- The text is not of the right format or shape. -/
  | format
  | invalid (reason : String)
deriving Repr, DecidableEq

/-- What is wrong; how a text fails its format is not told. -/
def SettingsError.message? : SettingsError → Option String
  | .file fault => some ("IO error: " ++ fault.message)
  | .format => none
  | .invalid reason => some ("Invalid configuration: " ++ reason)

namespace Settings

/-- The filter of the log, if none is set the level `info`. -/
def effectiveLogFilter (s : Settings) : String := s.logFilter.getD "info"

/-- Refuses settings with which no search could run or nothing could be served. -/
def validate (s : Settings) : Except SettingsError Settings :=
  if s.solver.deadlineSecs = 0 then
    .error (.invalid "solver.deadline_secs must be greater than zero")
  else if s.server.bind.isEmpty then .error (.invalid "server.bind must not be empty")
  else .ok s

end Settings

end Timetabling
