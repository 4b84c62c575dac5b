import Vici.Money
import Vici.Datetimes

/-!
# Tables of the application

Every row type of the database, with the enumerations its columns draw from.
A column constraint of the schema is a field of the row, so that no row can
break it; uniqueness and foreign keys relate rows and are checked by the
statements that insert, as is what a parameter must be to be bound at all.
Columns which no modelled function reads are left out.
-/
namespace Vici.Models
open Datetimes

/-- The greatest value of an `INTEGER` column. -/
def maxInteger : ℕ := 2 ^ 31 - 1

/-- What may be bound as an `INTEGER`. -/
def isInteger (i : ℤ) : Bool := decide (-(maxInteger + 1) ≤ i ∧ i ≤ maxInteger)

/-- What may be bound as text: the database has no character U+0000. -/
def isText (s : String) : Bool := s.toList.all fun c => decide (c ≠ Char.ofNat 0)

/-- Classification assigned to an inbound message by the extraction pipeline. -/
inductive MessageType where
  | jobPosting | workGoal | unknown
  deriving DecidableEq, Repr

inductive SyncStatus where
  | pending | synced | failed
  deriving DecidableEq, Repr

inductive JobStatus where
  | available | accepted | inProgress | completed
  deriving DecidableEq, Repr

inductive PayType where
  | hourly | flat | unknown
  deriving DecidableEq, Repr

/-- Lifecycle events recorded in `audit_log`. -/
inductive AuditEvent where
  | received | duplicate | rateLimited | gptClassified | jobCreated | workGoalCreated
  deriving DecidableEq, Repr

/-- Reasons a job's earnings cannot be computed. -/
inductive Incomputable where
  | unknownPayType | nullPayRate | nullDurationHourly
  deriving DecidableEq, Repr

/-- How a job pays; amounts are integer cents. -/
structure PayTerms where
  rate : Option ℕ
  payType : PayType
  durationHours : Option ℚ
  deriving DecidableEq

namespace PayTerms

def incomputableReason (terms : PayTerms) : Option Incomputable :=
  if terms.payType = .unknown then some .unknownPayType
  else if terms.rate = none then some .nullPayRate
  else if terms.payType = .hourly ∧ terms.durationHours = none then some .nullDurationHourly
  else none

/-- Hourly jobs need a duration; flat jobs pay their rate outright. The product is exact;
where a float would overflow, see `overflows`. -/
def earnings (terms : PayTerms) : Option ℤ :=
  if terms.incomputableReason ≠ none then none
  else terms.rate.bind fun rate =>
    match terms.payType with
    | .hourly => terms.durationHours.map fun hours => Money.round (rate * hours)
    | _ => some rate

/-- From here on a float is infinite. -/
def floatBound : ℚ := 2 ^ 1024 - 2 ^ 970

/-- The product of rate and hours is infinite, so that it cannot be rounded. -/
def overflows (terms : PayTerms) : Bool :=
  match terms.payType, terms.rate, terms.durationHours with
  | .hourly, some rate, some hours => decide (floatBound ≤ rate * hours)
  | _, _, _ => false

theorem earnings_eq_none_iff (terms : PayTerms) :
    terms.earnings = none ↔ terms.incomputableReason ≠ none := by
  obtain ⟨rate, payType, hours⟩ := terms
  cases rate <;> cases payType <;> cases hours <;> simp [earnings, incomputableReason]

theorem earnings_nonneg {terms : PayTerms} (hhours : ∀ h ∈ terms.durationHours, 0 ≤ h) {e : ℤ}
    (he : terms.earnings = some e) : 0 ≤ e := by
  unfold earnings at he
  split_ifs at he
  obtain ⟨rate, _, he⟩ := Option.bind_eq_some_iff.mp he
  cases hpay : terms.payType with
  | hourly =>
      obtain ⟨hours, hh, rfl⟩ := Option.map_eq_some_iff.mp (by simpa [hpay] using he)
      exact Money.round_nonneg (mul_nonneg (Nat.cast_nonneg _) (hhours hours hh))
  | flat =>
      obtain rfl : (rate : ℤ) = e := by simpa [hpay] using he
      exact Int.natCast_nonneg _
  | unknown =>
      obtain rfl : (rate : ℤ) = e := by simpa [hpay] using he
      exact Int.natCast_nonneg _

end PayTerms

structure Job where
  id : ℕ
  messageId : ℕ
  description : Option String
  location : Option String
  payRate : Option ℕ
  payType : PayType
  estimatedDurationHours : Option ℚ
  idealDatetime : Option Datetime
  datetimeFlexible : Option Bool
  status : JobStatus
  /-- `ck_job_pay_rate_positive` -/
  payRate_pos : ∀ r ∈ payRate, 0 < r
  /-- `ck_job_estimated_duration_positive` -/
  duration_pos : ∀ h ∈ estimatedDurationHours, 0 < h
  deriving DecidableEq

def Job.payTerms (job : Job) : PayTerms :=
  ⟨job.payRate, job.payType, job.estimatedDurationHours⟩

theorem Job.earnings_nonneg {job : Job} {e : ℤ} (h : job.payTerms.earnings = some e) : 0 ≤ e :=
  PayTerms.earnings_nonneg (fun hours hh => (job.duration_pos hours hh).le) h

structure WorkGoal where
  id : ℕ
  messageId : ℕ
  targetEarnings : ℕ
  targetTimeframe : Option String
  targetDeadline : Option Datetime
  /-- `ck_work_goal_target_earnings_positive` -/
  targetEarnings_pos : 0 < targetEarnings
  deriving DecidableEq

structure Match where
  id : ℕ
  jobId : ℕ
  workGoalId : ℕ
  deriving DecidableEq, Repr

structure User where
  id : ℕ
  phoneHash : String
  phoneE164 : Option String
  deriving DecidableEq, Repr

structure Message where
  id : ℕ
  messageSid : String
  userId : ℕ
  body : String
  messageType : Option MessageType
  rawGptResponse : Option String
  deriving DecidableEq, Repr

/-- One row per admitted message, counted over a rolling window. -/
structure RateLimit where
  id : ℕ
  userId : ℕ
  createdAt : ℤ
  deriving DecidableEq, Repr

structure AuditLog where
  id : ℕ
  messageSid : String
  messageId : Option ℕ
  event : AuditEvent
  deriving DecidableEq, Repr

structure PineconeSyncQueue where
  id : ℕ
  jobId : ℕ
  status : SyncStatus
  attempts : ℕ
  lastError : Option String
  deriving DecidableEq, Repr

/-- The tables, rows in the order in which they were inserted. -/
structure Database where
  users : List User
  messages : List Message
  rateLimits : List RateLimit
  auditLogs : List AuditLog
  jobs : List Job
  workGoals : List WorkGoal
  matchRows : List Match
  syncQueue : List PineconeSyncQueue
  deriving DecidableEq

def Database.empty : Database := ⟨[], [], [], [], [], [], [], []⟩

/-- The next primary key: one past every key in the table. -/
def nextId (ids : List ℕ) : ℕ := ids.foldr max 0 + 1

theorem lt_nextId {ids : List ℕ} {i : ℕ} (h : i ∈ ids) : i < nextId ids := by
  induction ids with
  | nil => cases h
  | cons j js ih =>
      simp only [nextId, List.foldr_cons] at ih ⊢
      rcases List.mem_cons.mp h with rfl | h
      · omega
      · have := ih h
        omega

theorem nextId_notMem (ids : List ℕ) : nextId ids ∉ ids := fun h => (lt_nextId h).false

section
variable {ρ κ : Type} [DecidableEq κ] {rows : List ρ} {key : ρ → κ} {k : κ}

/-- The check of a unique key: no row has it. -/
theorem any_key_eq_false (h : ∀ r ∈ rows, key r ≠ k) :
    (rows.any fun r => decide (key r = k)) = false := by
  rw [List.any_eq_false]
  intro r hr
  simpa using h r hr

/-- The check of a foreign key: not every row lacks it. -/
theorem all_key_ne_eq_false (h : ∃ r ∈ rows, key r = k) :
    (rows.all fun r => decide (key r ≠ k)) = false := by
  obtain ⟨r, hr, hkey⟩ := h
  rw [List.all_eq_false]
  exact ⟨r, hr, by simpa using hkey⟩

end

end Vici.Models
