import Vici.AppPrograms

/-!
# Retrieval of match-eligible jobs

Eligibility is decided partly by the query (status, pay type, deadline) and
partly afterwards (computable earnings). The full scan stops at a row limit
which is applied before the second part; the retrieval by ids has no limit, but
binds every id.
-/
namespace Vici.JobRepository
open Models Datetimes AppPrograms SessionPrograms

def maxCandidates : ℕ := 500

/-- The `WHERE` clause; the deadline is normalised to UTC before it is bound. -/
def eligibilityStmt (deadline : Option Datetime) : Except AppError (Job → Bool) :=
  match deadline with
  | none => .ok fun job => decide (job.status = .available) && decide (job.payType ≠ .unknown)
  | some d =>
      match d.astimezoneUTC with
      | none => .error .overflow
      | some utc => .ok fun job =>
          decide (job.status = .available) && decide (job.payType ≠ .unknown) &&
            (job.idealDatetime.isNone || decide (job.datetimeFlexible = some true) ||
              job.idealDatetime.any fun ideal => decide (ideal.instant ≤ utc.instant))

theorem eligibilityStmt_error {deadline : Option Datetime} {e : AppError}
    (h : eligibilityStmt deadline = .error e) : e = .overflow := by
  unfold eligibilityStmt at h
  split at h
  · cases h
  · split at h
    · cases h
      rfl
    · cases h

def computableOnly (rawJobs : List Job) : List Job :=
  rawJobs.filter fun job => job.payTerms.incomputableReason.isNone

def findCandidatesForGoal (deadline : Option Datetime) : App (List Job) :=
  match eligibilityStmt deadline with
  | .error e => .raise e
  | .ok eligible => .query fun db => computableOnly ((db.jobs.filter eligible).take maxCandidates)

/-- The eligible jobs of the given ids, in the caller's order. -/
def findCandidatesByIds (jobIds : List ℤ) (deadline : Option Datetime) : App (List Job) :=
  if jobIds.isEmpty then pure []
  else
    match eligibilityStmt deadline with
    | .error e => .raise e
    | .ok eligible => do
        bindParameters (jobIds.all isInteger)
        .query fun db =>
          let jobs := computableOnly
            (db.jobs.filter fun job => eligible job && decide ((job.id : ℤ) ∈ jobIds))
          let byId := jobs.map fun job => ((job.id : ℤ), job)
          jobIds.filterMap (dictGet byId)

/-- The poster of a job, reached through the message it was extracted from. -/
def findPosters (jobs : List Job) : App (List (ℕ × Option User)) :=
  .query fun db =>
    let messageIds := jobs.map Job.messageId
    let rows := (db.messages.filter fun m => decide (m.id ∈ messageIds)).flatMap fun m =>
      (db.users.filter fun u => decide (u.id = m.userId)).map fun u => (m.id, u)
    jobs.map fun job => (job.id, dictGet rows job.messageId)

end Vici.JobRepository
