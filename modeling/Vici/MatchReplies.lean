import Vici.MatchFormatter
import Vici.OfferedJobs

/-!
# What a reply promises

The text has a line for each of the first jobs of a result only, while the
total of a partial result, and the silence of a full one, are about all of
them. Every job of a result pays something, so the lines add up to the total
exactly when none is left out.
-/
namespace Vici.MatchReplies
open Models AppPrograms SessionPrograms MatchSelection MatchService MatchFormatter OfferedJobs

/-- The jobs which get a line of their own. -/
def listed (result : MatchResult) : List JobCandidate := result.jobs.take maxJobsInSms

def jobLines (result : MatchResult) : List String :=
  ((listed result).zipIdx 1).map fun p => formatJobLine p.2 p.1

def listedEarnings (result : MatchResult) : ℕ := ((listed result).map JobCandidate.earnings).sum

theorem listedEarnings_add (result : MatchResult) (htotal : result.totalEarnings =
      (result.jobs.map JobCandidate.earnings).sum) :
    listedEarnings result +
        ((result.jobs.drop maxJobsInSms).map JobCandidate.earnings).sum = result.totalEarnings := by
  rw [htotal, listedEarnings, listed, ← List.sum_append, ← List.map_append,
    List.take_append_drop]

/-- Every job of a result pays, so every job left out is money left out. -/
theorem listedEarnings_eq_iff {result : MatchResult}
    (htotal : result.totalEarnings = (result.jobs.map JobCandidate.earnings).sum)
    (hpays : ∀ c ∈ result.jobs, 0 < c.earnings) :
    listedEarnings result = result.totalEarnings ↔ result.jobs.length ≤ maxJobsInSms := by
  have hadd := listedEarnings_add result htotal
  rw [← List.drop_eq_nil_iff]
  constructor
  · intro hall
    apply List.eq_nil_iff_forall_not_mem.mpr
    intro c hc
    have hpay : 0 < c.earnings := hpays c (List.mem_of_mem_drop hc)
    have hle := List.single_le_sum (fun _ _ => Nat.zero_le _) _
      (List.mem_map_of_mem (f := JobCandidate.earnings) hc)
    omega
  · intro hnone
    rw [hnone] at hadd
    simpa using hadd

theorem formatMatchSms_of_jobs {result : MatchResult} (hsome : result.isEmpty = false) :
    formatMatchSms result = "\n".intercalate (jobLines result ++
      if result.isPartial then ["Best available: $" ++ wholeDollars result.totalEarnings ++
        " of $" ++ wholeDollars result.workGoal.targetEarnings ++ " goal"] else []) := by
  simp only [formatMatchSms, hsome, Bool.false_eq_true, if_false]
  rfl

/-- The text keeps what the result promises exactly when it has a line for every job. -/
theorem listed_deliver {searcher : JobEmbeddingSearcher} {goal : WorkGoal}
    {queryText : Option String} {w w' : AppWorld} {r : MatchResult}
    (h : (matchJobs searcher goal queryText).run w = (.ok r, w')) (hsome : r.isEmpty = false) :
    ∃ summary, formatMatchSms r = "\n".intercalate (jobLines r ++ summary) ∧
      (listedEarnings r = r.totalEarnings ↔ r.jobs.length ≤ maxJobsInSms) ∧
      (r.jobs.length ≤ maxJobsInSms → r.isPartial = false →
        summary = [] ∧ goal.targetEarnings ≤ listedEarnings r) ∧
      (r.jobs.length ≤ maxJobsInSms → r.isPartial = true →
        summary = ["Best available: $" ++ wholeDollars (listedEarnings r) ++
          " of $" ++ wholeDollars goal.targetEarnings ++ " goal"]) := by
  obtain ⟨candidates, w₁, _, rfl⟩ := eq_resultFor_of_run h
  have hpays : ∀ c ∈ (resultFor candidates goal).jobs, 0 < c.earnings :=
    fun c hc => (mem_of_mem_resultFor hc).2
  have hiff := listedEarnings_eq_iff rfl hpays
  refine ⟨_, formatMatchSms_of_jobs hsome, hiff, ?_, ?_⟩
  · intro hlength hwhole
    rw [hiff.mpr hlength]
    constructor
    · rw [hwhole]
      rfl
    · exact not_lt.mp (of_decide_eq_false hwhole)
  · intro hlength hpartial
    rw [hiff.mpr hlength, if_pos hpartial]
    rfl

theorem listed_deliver_varied :
    ∃ r w', variedMatch 30 (by decide) = (.ok r, w') ∧ r.jobs.length = maxJobsInSms ∧
      ∃ summary, formatMatchSms r = "\n".intercalate (jobLines r ++ summary) ∧
        (listedEarnings r = r.totalEarnings ↔ r.jobs.length ≤ maxJobsInSms) ∧
        (r.jobs.length ≤ maxJobsInSms → r.isPartial = false →
          summary = [] ∧ 30 ≤ listedEarnings r) ∧
        (r.jobs.length ≤ maxJobsInSms → r.isPartial = true →
          summary = ["Best available: $" ++ wholeDollars (listedEarnings r) ++
            " of $" ++ wholeDollars 30 ++ " goal"]) := by
  have hanswer : (variedMatch 30 (by decide)).1.toOption.any (fun r =>
      !r.isEmpty && decide (r.jobs.length = maxJobsInSms)) = true := by decide +kernel
  obtain ⟨r, w', hrun, hr⟩ := exists_of_answer hanswer
  obtain ⟨hsome, hlength⟩ := Bool.and_eq_true_iff.mp hr
  exact ⟨r, w', hrun, of_decide_eq_true hlength, listed_deliver hrun (by simpa using hsome)⟩

/-- Six jobs of three cents, and a goal which takes all of them. -/
def sixJobDatabase : Database :=
  { Database.empty with
    jobs := [1, 2, 3, 4, 5, 6].map fun id => { threeCentJob with id := id, messageId := id } }

def eighteenCentGoal : WorkGoal := ⟨1, 7, 18, none, none, by decide⟩

theorem listed_short_of_goal :
    ∃ r w, (matchJobs none eighteenCentGoal none).run (.opened sixJobDatabase []) = (.ok r, w) ∧
      r.isEmpty = false ∧ r.isPartial = false ∧ r.totalEarnings = 18 ∧
        listedEarnings r = 15 ∧ formatMatchSms r = "\n".intercalate (jobLines r) := by
  have hanswerable : Answerable none eighteenCentGoal none sixJobDatabase.jobs :=
    ⟨⟨_, rfl⟩, by decide, by decide⟩
  obtain ⟨w, hrun⟩ := run_matchJobs_of_calm (w := .opened sixJobDatabase []) rfl hanswerable
  refine ⟨_, w, hrun, ?_⟩
  decide +kernel

end Vici.MatchReplies
