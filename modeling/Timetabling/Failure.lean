import Timetabling.Settings
import Timetabling.Solver

/-!
# What can go wrong in scheduling
-/

namespace Timetabling

inductive SchedulingError where
  | noFeasibleSolution (reason : Infeasibility)
  | unknownSubject (subject : SubjectId)
  | settings (cause : SettingsError)
deriving Repr, DecidableEq

def unknownSubjectText (x : SubjectId) : String := "Unknown subject: " ++ Decimal.text x.toNat

/-- The text of an error, as far as its cause is told. -/
def SchedulingError.message? : SchedulingError → Option String
  | .noFeasibleSolution reason => some reason.report
  | .unknownSubject x => some (unknownSubjectText x)
  | .settings cause => cause.message?.map fun text => "Configuration error: " ++ text

/-- An event that was not taken, and why. -/
structure PublishError where
  cause : String
deriving Repr, DecidableEq

def PublishError.message (e : PublishError) : String := "Event publish failed: " ++ e.cause

end Timetabling
