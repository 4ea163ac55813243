import Timetabling.Api.Server
import Timetabling.Settings.Toml
import Timetabling.Proofs.HardRules
import Timetabling.Proofs.Narrowing
import Timetabling.Proofs.ArcConsistency
import Timetabling.Proofs.Completeness
import Timetabling.Proofs.ForwardCheck
import Timetabling.Proofs.SearchSteps
import Timetabling.Proofs.SearchInvariant
import Timetabling.Proofs.Survey
import Timetabling.Proofs.Soundness
import Timetabling.Proofs.ValueOrder
import Timetabling.Proofs.Offer
import Timetabling.Proofs.Verdict
import Timetabling.Proofs.Relief
import Timetabling.Proofs.ListOrder
import Timetabling.Proofs.Lifecycle
import Timetabling.Proofs.Exhaustion
import Timetabling.Proofs.DoubleBooking
import Timetabling.Proofs.Interference
import Timetabling.Proofs.Traffic
import Timetabling.Proofs.Calls
import Timetabling.Proofs.Counters
import Timetabling.Proofs.Accounting
import Timetabling.Proofs.Tally
import Timetabling.Proofs.Leftover
import Timetabling.Proofs.CandidateOrder
import Timetabling.Proofs.Ranking
import Timetabling.Proofs.Pricing
import Timetabling.Proofs.SearchSize
import Timetabling.Proofs.WrittenForm
import Timetabling.Proofs.IdlePeriods
import Timetabling.Proofs.Overflow
import Timetabling.Proofs.RoundTrip
