import Vici.MatchService

/-!
# The text of a match reply

One line for each of the first jobs of a result, and a summary line when the
result is partial. Amounts are printed in whole dollars and durations in tenths
of an hour, both rounded half to even.
-/
namespace Vici.MatchFormatter
open Models MatchSelection MatchService

def maxJobsInSms : ℕ := 5

/-- `(value or default)[:limit]`: an empty string counts as missing. -/
def truncated (value : Option String) (default : String) (limit : ℕ) : String :=
  let text := if (value.getD "").isEmpty then default else value.getD ""
  String.ofList (text.toList.take limit)

/-- `:.0f` of an amount of cents in dollars -/
def wholeDollars (cents : ℕ) : String := toString (Money.round ((cents : ℚ) / Money.centsPerDollar))

/-- `:.1f` of a duration -/
def tenths (hours : ℚ) : String :=
  let t := (Money.round (hours * 10)).toNat
  toString (t / 10) ++ "." ++ toString (t % 10)

def formatJobLine (rank : ℕ) (cand : JobCandidate) : String :=
  let phone := if (cand.posterPhone.getD "").isEmpty then "N/A" else cand.posterPhone.getD ""
  let durStr := if cand.duration = 0 then "flat" else tenths cand.duration ++ "h"
  toString rank ++ ". " ++ truncated cand.job.description "Job" 30 ++ " @ " ++
    truncated cand.job.location "?" 20 ++ " | $" ++ wholeDollars cand.earnings ++ "/" ++ durStr ++
    " | " ++ phone

def formatMatchSms (result : MatchResult) : String :=
  if result.isEmpty then
    "No matching jobs found for your goal right now. Text us again soon!"
  else
    let lines := ((result.jobs.take maxJobsInSms).zipIdx 1).map fun p => formatJobLine p.2 p.1
    let summary := if result.isPartial then
      ["Best available: $" ++ wholeDollars result.totalEarnings ++ " of $" ++
        wholeDollars result.workGoal.targetEarnings ++ " goal"] else []
    "\n".intercalate (lines ++ summary)

example : formatMatchSms ⟨[threeCents], fiveCentGoal, 3, true⟩ =
    "1. Job @ ? | $0/flat | N/A\nBest available: $0 of $0 goal" := by decide +kernel

end Vici.MatchFormatter
