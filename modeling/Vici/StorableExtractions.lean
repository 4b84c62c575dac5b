import Vici.DeadlineRule
import Vici.OfferedJobs
import Vici.Handlers

/-!
# What the extraction schema accepts and the tables do not

The extraction schema wants an amount of dollars to be positive. Rounded to
cents it may become zero, which the create schemas refuse, or exceed the
`INTEGER` column, which the table refuses, as it does a datetime without an
instant in UTC and a text with U+0000. Nothing else stands between an accepted
extraction and its row; but the handler of a goal matches it as well, and that
raises for some answers of the index and for some tables of jobs.
-/
namespace Vici.StorableExtractions
open Models Datetimes AppPrograms SessionPrograms SmsRepositories RowCreation Handlers
open JobRepository MatchService OfferedJobs DeadlineRule

variable {fromisoformat : String → Option Datetime} {searcher : JobEmbeddingSearcher}
variable {ctx : PipelineContext}

/-- The cents of the amount are a positive value of an `INTEGER` column. -/
def CentsFit (amount : PositiveAmount) : Prop :=
  0 < amountCents amount ∧ amountCents amount ≤ maxInteger

/-- More than half a cent, and less than half a cent above the greatest integer. -/
def AmountFits (amount : PositiveAmount) : Prop :=
  1 / 200 < amount.1 ∧ amount.1 < (2 ^ 31 - 1 / 2) / 100

theorem centsFit_iff (amount : PositiveAmount) : CentsFit amount ↔ AmountFits amount := by
  have hnonneg : 0 ≤ Money.dollarsToCents amount.1 :=
    Money.round_nonneg (mul_nonneg amount.2.le (Nat.cast_nonneg _))
  have hpos : 0 < amountCents amount ↔ 1 ≤ Money.dollarsToCents amount.1 := by
    rw [amountCents]
    omega
  have hmax : amountCents amount ≤ maxInteger ↔
      Money.dollarsToCents amount.1 ≤ 2 ^ 31 - 1 := by
    rw [amountCents, maxInteger]
    omega
  rw [CentsFit, hpos, hmax, Money.dollarsToCents, Money.le_round_iff_of_odd (by decide),
    Money.round_le_iff_of_odd (by decide), AmountFits, Money.centsPerDollar]
  push_cast
  constructor
  · intro h
    exact ⟨by linarith [h.1], by linarith [h.2]⟩
  · intro h
    exact ⟨by linarith [h.1], by linarith [h.2]⟩

/-- The texts which go into the row of a job. -/
def jobTexts (extracted : JobExtraction) : List String :=
  [extracted.description.1, extracted.location.1] ++
    (extracted.rawDurationText.map Subtype.val).toList ++
    (extracted.rawDatetimeText.map Subtype.val).toList ++
    (extracted.inferredTimezone.map Subtype.val).toList

/-- The pay is a positive number of cents which the column holds, the date has an instant in
UTC, and the texts are such as the database stores. -/
structure JobFits (fromisoformat : String → Option Datetime) (extracted : JobExtraction) :
    Prop where
  amount : ∀ amount ∈ extracted.payRate, AmountFits amount
  datetime : ∀ parsed ∈ (extracted.idealDatetime.map Subtype.val).bind fromisoformat,
    WithinReach parsed
  texts : ∀ text ∈ jobTexts extracted, isText text = true

structure GoalFits (fromisoformat : String → Option Datetime) (extracted : WorkGoalExtraction) :
    Prop where
  amount : AmountFits extracted.targetEarnings
  deadline : ∀ parsed ∈ (extracted.targetDeadline.map Subtype.val).bind fromisoformat,
    WithinReach parsed
  timeframe : isText extracted.targetTimeframe.1 = true

/-- The index names ids of the column only, and there is a table for the jobs which come into
question for the goal. -/
structure Matchable (fromisoformat : String → Option Datetime) (searcher : JobEmbeddingSearcher)
    (smsText : String) (jobs : List Job) (extracted : WorkGoalExtraction) : Prop where
  index : indexFits searcher (some smsText) = true
  pool : selectable (amountCents extracted.targetEarnings) (pool searcher (some smsText)
    (Datetime.coerceLlmDatetime fromisoformat (extracted.targetDeadline.map Subtype.val))
      jobs) = true

/-- The message is stored and no earlier attempt has left a row for it. -/
structure Fresh (ctx : PipelineContext) (db : Database) : Prop where
  positive : 0 < ctx.messageId
  stored : ctx.messageId ∈ db.messages.map Message.id
  messageSid : isText ctx.messageSid = true
  noJob : ∀ j ∈ db.jobs, j.messageId ≠ ctx.messageId
  noGoal : ∀ g ∈ db.workGoals, g.messageId ≠ ctx.messageId

/-- The job is accepted, its row meets the constraints, and the undisturbed handler returns. -/
def JobStorable (fromisoformat : String → Option Datetime) (ctx : PipelineContext)
    (db : Database) (extracted : JobExtraction) : Prop :=
  (∃ create, JobCreate.ofExtraction fromisoformat ctx.messageId extracted = some create ∧
    (∀ r ∈ create.payRate, 0 < r ∧ r ≤ maxInteger) ∧
    ∀ h ∈ create.estimatedDurationHours, 0 < h) ∧
  ∃ actions w', (jobPostingHandle fromisoformat ctx).run (.opened db []) = (.ok actions, w')

/-- The same of a work goal, whose handler also matches it. -/
def WorkGoalStorable (fromisoformat : String → Option Datetime) (searcher : JobEmbeddingSearcher)
    (ctx : PipelineContext) (db : Database) (extracted : WorkGoalExtraction) : Prop :=
  (∃ create, WorkGoalCreate.ofExtraction fromisoformat ctx.messageId extracted = some create ∧
    0 < create.targetEarnings ∧ create.targetEarnings ≤ maxInteger) ∧
  ∃ actions w', (workGoalHandle fromisoformat searcher ctx).run (.opened db []) =
    (.ok actions, w')

theorem exists_jobCreate_iff (fromisoformat : String → Option Datetime) {messageId : ℕ}
    {extracted : JobExtraction} (hpos : 0 < messageId) :
    (∃ create, JobCreate.ofExtraction fromisoformat messageId extracted = some create ∧
        (∀ r ∈ create.payRate, 0 < r ∧ r ≤ maxInteger) ∧
        ∀ h ∈ create.estimatedDurationHours, 0 < h) ↔
      ∀ amount ∈ extracted.payRate, CentsFit amount := by
  unfold JobCreate.ofExtraction
  constructor
  · intro h amount hamount
    obtain ⟨create, hcreate, hrate, _⟩ := h
    split_ifs at hcreate
    cases hcreate
    exact hrate _ (Option.mem_map_of_mem amountCents hamount)
  · intro h
    have hrate : ∀ r ∈ extracted.payRate.map amountCents, 0 < r ∧ r ≤ maxInteger := by
      intro r hr
      obtain ⟨amount, hamount, rfl⟩ := Option.map_eq_some_iff.mp hr
      exact h amount hamount
    rw [dif_pos ⟨hpos, fun r hr => (hrate r hr).1⟩]
    refine ⟨_, rfl, hrate, ?_⟩
    intro q hq
    obtain ⟨amount, _, rfl⟩ := Option.map_eq_some_iff.mp hq
    exact amount.2

theorem exists_workGoalCreate_iff (fromisoformat : String → Option Datetime) {messageId : ℕ}
    {extracted : WorkGoalExtraction} (hpos : 0 < messageId) :
    (∃ create, WorkGoalCreate.ofExtraction fromisoformat messageId extracted = some create ∧
        0 < create.targetEarnings ∧ create.targetEarnings ≤ maxInteger) ↔
      CentsFit extracted.targetEarnings := by
  unfold WorkGoalCreate.ofExtraction
  constructor
  · intro h
    obtain ⟨create, hcreate, hrange⟩ := h
    split_ifs at hcreate
    cases hcreate
    exact hrange
  · intro h
    rw [dif_pos ⟨hpos, h.1⟩]
    exact ⟨_, rfl, h⟩

theorem isInteger_natCast {n : ℕ} : isInteger n = true ↔ n ≤ maxInteger := by
  unfold isInteger
  rw [decide_eq_true_iff]
  omega

theorem all_isInteger_iff (value : Option ℕ) :
    (value.all fun n : ℕ => isInteger n) = true ↔ ∀ n ∈ value, n ≤ maxInteger := by
  cases value <;> simp [isInteger_natCast]

theorem isTimestamp_coerced_iff {value : Option String} :
    (Datetime.coerceLlmDatetime fromisoformat value).all isTimestamp = true ↔
      ∀ parsed ∈ value.bind fromisoformat, WithinReach parsed := by
  rw [← inCalendar_coerced_iff, Option.all_eq_true]
  simp only [isTimestamp, isSome_astimezoneUTC_iff, Option.mem_def]

theorem all_isText_iff {n : ℕ} (value : Option (BoundedStr 0 n)) :
    (value.all fun text => isText text.1) = true ↔
      ∀ text ∈ (value.map Subtype.val).toList, isText text = true := by
  cases value <;> simp

/-- Which rows of a job can be bound. -/
theorem jobCreate_fits_iff {messageId : ℕ} {extracted : JobExtraction} {create : JobCreate}
    (h : JobCreate.ofExtraction fromisoformat messageId extracted = some create) :
    create.fits = true ↔ (∀ r ∈ create.payRate, r ≤ maxInteger) ∧
      (∀ parsed ∈ (extracted.idealDatetime.map Subtype.val).bind fromisoformat,
        WithinReach parsed) ∧ ∀ text ∈ jobTexts extracted, isText text = true := by
  unfold JobCreate.ofExtraction at h
  split_ifs at h
  cases h
  rw [← isTimestamp_coerced_iff]
  simp only [JobCreate.fits, jobTexts, Bool.and_eq_true, all_isText_iff, List.forall_mem_append,
    List.forall_mem_cons, all_isInteger_iff, and_assoc]
  simp

theorem workGoalCreate_fits_iff {messageId : ℕ} {extracted : WorkGoalExtraction}
    {create : WorkGoalCreate}
    (h : WorkGoalCreate.ofExtraction fromisoformat messageId extracted = some create) :
    create.fits = true ↔ create.targetEarnings ≤ maxInteger ∧
      (∀ parsed ∈ (extracted.targetDeadline.map Subtype.val).bind fromisoformat,
        WithinReach parsed) ∧ isText extracted.targetTimeframe.1 = true := by
  unfold WorkGoalCreate.ofExtraction at h
  split_ifs at h
  cases h
  rw [← isTimestamp_coerced_iff]
  simp only [WorkGoalCreate.fits, Bool.and_eq_true, isInteger_natCast, and_assoc]

/-- What is created from a job and can be bound comes from a job which fits. -/
theorem jobFits_of_create {messageId : ℕ} {extracted : JobExtraction} {create : JobCreate}
    (hof : JobCreate.ofExtraction fromisoformat messageId extracted = some create)
    (hfits : create.fits = true) : JobFits fromisoformat extracted := by
  obtain ⟨hrate, hdatetime, htexts⟩ := (jobCreate_fits_iff hof).mp hfits
  have hpos : 0 < messageId := ofExtraction_messageId hof ▸ create.messageId_pos
  have hcents := (exists_jobCreate_iff fromisoformat hpos).mp ⟨create, hof,
    fun r hr => ⟨create.payRate_pos r hr, hrate r hr⟩, create.duration_pos⟩
  exact ⟨fun amount hamount => (centsFit_iff amount).mp (hcents amount hamount), hdatetime,
    htexts⟩

theorem exists_create_of_jobFits {messageId : ℕ} {extracted : JobExtraction}
    (hpos : 0 < messageId) (h : JobFits fromisoformat extracted) :
    ∃ create, JobCreate.ofExtraction fromisoformat messageId extracted = some create ∧
      ((∀ r ∈ create.payRate, 0 < r ∧ r ≤ maxInteger) ∧
        ∀ h ∈ create.estimatedDurationHours, 0 < h) ∧ create.fits = true := by
  obtain ⟨create, hof, hrate, hduration⟩ := (exists_jobCreate_iff fromisoformat hpos).mpr
    fun amount hamount => (centsFit_iff amount).mpr (h.amount amount hamount)
  exact ⟨create, hof, ⟨hrate, hduration⟩,
    (jobCreate_fits_iff hof).mpr ⟨fun r hr => (hrate r hr).2, h.datetime, h.texts⟩⟩

theorem goalFits_of_create {messageId : ℕ} {extracted : WorkGoalExtraction}
    {create : WorkGoalCreate}
    (hof : WorkGoalCreate.ofExtraction fromisoformat messageId extracted = some create)
    (hfits : create.fits = true) : GoalFits fromisoformat extracted := by
  obtain ⟨hearnings, hdeadline, htimeframe⟩ := (workGoalCreate_fits_iff hof).mp hfits
  have hpos : 0 < messageId := workGoal_ofExtraction_messageId hof ▸ create.messageId_pos
  have hcents := (exists_workGoalCreate_iff fromisoformat hpos).mp
    ⟨create, hof, create.targetEarnings_pos, hearnings⟩
  exact ⟨(centsFit_iff _).mp hcents, hdeadline, htimeframe⟩

theorem exists_create_of_goalFits {messageId : ℕ} {extracted : WorkGoalExtraction}
    (hpos : 0 < messageId) (h : GoalFits fromisoformat extracted) :
    ∃ create, WorkGoalCreate.ofExtraction fromisoformat messageId extracted = some create ∧
      (0 < create.targetEarnings ∧ create.targetEarnings ≤ maxInteger) ∧
        create.fits = true := by
  obtain ⟨create, hof, hrange⟩ := (exists_workGoalCreate_iff fromisoformat hpos).mpr
    ((centsFit_iff _).mpr h.amount)
  exact ⟨create, hof, hrange,
    (workGoalCreate_fits_iff hof).mpr ⟨hrange.2, h.deadline, h.timeframe⟩⟩

/-- Undisturbed, the handler of a new job returns exactly if the row can be bound. -/
theorem run_jobPostingHandle_iff {extracted : JobExtraction} {create : JobCreate} {w : AppWorld}
    (hcalm : w.faults = []) (hjob : ctx.result.job = some extracted)
    (hstored : ctx.messageId ∈ w.store.session.messages.map Message.id)
    (hsid : isText ctx.messageSid = true)
    (hnew : ∀ j ∈ w.store.session.jobs, j.messageId ≠ ctx.messageId)
    (hcreate : JobCreate.ofExtraction fromisoformat ctx.messageId extracted = some create) :
    (∃ actions w', (jobPostingHandle fromisoformat ctx).run w = (.ok actions, w')) ↔
      create.fits = true := by
  simp only [jobPostingHandle, hjob, hcreate]
  constructor
  · intro h
    obtain ⟨actions, w', h⟩ := h
    obtain ⟨job, w₁, hstatement, _⟩ := Program.run_bind_ok h
    obtain ⟨d, hinsert⟩ := Program.run_statement_inv hstatement
    exact insertJob_fits hinsert
  · intro hfits
    have hmessage := ofExtraction_messageId hcreate
    obtain ⟨job, hinsert⟩ := insertJob_of_fits (hmessage ▸ hnew) (hmessage ▸ hstored) hfits
    let w₁ : AppWorld := { w with store := { w.store with session := { w.store.session with
      jobs := w.store.session.jobs ++ [job] } } }
    have hw₁ : w₁.faults = [] := hcalm
    have hstored₁ : ctx.messageId ∈ w₁.store.session.messages.map Message.id := hstored
    obtain ⟨row, haudit⟩ := insertAudit_of_mem hsid .jobCreated hstored₁
    rw [Program.run_bind_of_ok (Program.run_statement_ok hcalm hinsert), writeAudit,
      Program.run_bind_of_ok (Program.run_statement_ok hw₁ haudit)]
    exact ⟨_, _, rfl⟩

/-- The handler of a new goal also needs its match to return. -/
theorem run_workGoalHandle_iff {extracted : WorkGoalExtraction} {create : WorkGoalCreate}
    {w : AppWorld} (hcalm : w.faults = []) (hgoal : ctx.result.workGoal = some extracted)
    (hstored : ctx.messageId ∈ w.store.session.messages.map Message.id)
    (hsid : isText ctx.messageSid = true)
    (hnew : ∀ g ∈ w.store.session.workGoals, g.messageId ≠ ctx.messageId)
    (hcreate : WorkGoalCreate.ofExtraction fromisoformat ctx.messageId extracted = some create) :
    (∃ actions w', (workGoalHandle fromisoformat searcher ctx).run w = (.ok actions, w')) ↔
      create.fits = true ∧
        Matchable fromisoformat searcher ctx.smsText w.store.session.jobs extracted := by
  have hmessage := workGoal_ofExtraction_messageId hcreate
  simp only [workGoalHandle, hgoal, hcreate]
  by_cases hfits : create.fits = true
  · obtain ⟨goal, hinsert, hearnings, hdeadline⟩ := insertWorkGoal_of_fits (hmessage ▸ hnew)
      (hmessage ▸ hstored) hfits
    let w₁ : AppWorld := { w with store := { w.store with session := { w.store.session with
      workGoals := w.store.session.workGoals ++ [goal] } } }
    have hw₁ : w₁.faults = [] := hcalm
    have hstored₁ : ctx.messageId ∈ w₁.store.session.messages.map Message.id := hstored
    obtain ⟨row, haudit⟩ := insertAudit_of_mem hsid .workGoalCreated hstored₁
    rw [Program.run_bind_of_ok (Program.run_statement_ok hcalm hinsert), writeAudit,
      Program.run_bind_of_ok (Program.run_statement_ok hw₁ haudit)]
    let w₂ : AppWorld := { w₁ with store := { w₁.store with session := { w₁.store.session with
      auditLogs := w₁.store.session.auditLogs ++ [row] } } }
    have hw₂ : w₂.faults = [] := hcalm
    refine Program.exists_run_map_iff.trans ((matchJobs_returns_iff hw₂).trans ?_)
    rw [workGoal_ofExtraction_earnings hcreate] at hearnings
    rw [workGoal_ofExtraction_deadline hcreate] at hdeadline
    constructor
    · intro h
      exact ⟨hfits, h.index, by simpa only [hearnings, hdeadline] using h.pool⟩
    · rintro ⟨_, hmatchable⟩
      refine ⟨?_, hmatchable.index, ?_⟩
      · rw [hdeadline]
        exact eligibilityStmt_coerced_iff.mpr ((workGoalCreate_fits_iff hcreate).mp hfits).2.1
      · rw [hearnings, hdeadline]
        exact hmatchable.pool
  · refine iff_of_false ?_ fun h => hfits h.1
    intro h
    obtain ⟨actions, w', h⟩ := h
    obtain ⟨goal, w₁, hstatement, _⟩ := Program.run_bind_ok h
    obtain ⟨d, hinsert⟩ := Program.run_statement_inv hstatement
    exact hfits (insertWorkGoal_fits hinsert)

theorem jobStorable_iff {db : Database} {extracted : JobExtraction} (hfresh : Fresh ctx db)
    (hjob : ctx.result.job = some extracted) :
    JobStorable fromisoformat ctx db extracted ↔ JobFits fromisoformat extracted := by
  have hrun {create : JobCreate}
      (hof : JobCreate.ofExtraction fromisoformat ctx.messageId extracted = some create) :
      (∃ actions w', (jobPostingHandle fromisoformat ctx).run (.opened db []) =
        (.ok actions, w')) ↔ create.fits = true :=
    run_jobPostingHandle_iff rfl hjob hfresh.stored hfresh.messageSid hfresh.noJob hof
  constructor
  · rintro ⟨⟨create, hof, _⟩, hreturns⟩
    exact jobFits_of_create hof ((hrun hof).mp hreturns)
  · intro h
    obtain ⟨create, hof, hrange, hfits⟩ := exists_create_of_jobFits hfresh.positive h
    exact ⟨⟨create, hof, hrange⟩, (hrun hof).mpr hfits⟩

theorem workGoalStorable_iff {db : Database} {extracted : WorkGoalExtraction}
    (hfresh : Fresh ctx db) (hgoal : ctx.result.workGoal = some extracted) :
    WorkGoalStorable fromisoformat searcher ctx db extracted ↔
      GoalFits fromisoformat extracted ∧
        Matchable fromisoformat searcher ctx.smsText db.jobs extracted := by
  have hrun {create : WorkGoalCreate}
      (hof : WorkGoalCreate.ofExtraction fromisoformat ctx.messageId extracted = some create) :
      (∃ actions w', (workGoalHandle fromisoformat searcher ctx).run (.opened db []) =
        (.ok actions, w')) ↔ create.fits = true ∧
          Matchable fromisoformat searcher ctx.smsText db.jobs extracted :=
    run_workGoalHandle_iff rfl hgoal hfresh.stored hfresh.messageSid hfresh.noGoal hof
  constructor
  · rintro ⟨⟨create, hof, _⟩, hreturns⟩
    obtain ⟨hfits, hmatchable⟩ := (hrun hof).mp hreturns
    exact ⟨goalFits_of_create hof hfits, hmatchable⟩
  · rintro ⟨hgoal, hmatchable⟩
    obtain ⟨create, hof, hrange, hfits⟩ := exists_create_of_goalFits hfresh.positive hgoal
    exact ⟨⟨create, hof, hrange⟩, (hrun hof).mpr ⟨hfits, hmatchable⟩⟩

/-- Everything an extraction schema accepts can be stored, exactly as far as its amounts fit,
its datetime is within reach and its texts are such as the database stores; and the handler of
a goal returns, exactly as far as the goal can also be matched. -/
theorem storable_iff (fromisoformat : String → Option Datetime) (searcher : JobEmbeddingSearcher)
    {ctx : PipelineContext} {db : Database} (hfresh : Fresh ctx db) :
    (∀ extracted, ctx.result.job = some extracted →
        (JobStorable fromisoformat ctx db extracted ↔ JobFits fromisoformat extracted)) ∧
      ∀ extracted, ctx.result.workGoal = some extracted →
        (WorkGoalStorable fromisoformat searcher ctx db extracted ↔
          GoalFits fromisoformat extracted ∧
            Matchable fromisoformat searcher ctx.smsText db.jobs extracted) :=
  ⟨fun _ hjob => jobStorable_iff hfresh hjob, fun _ hgoal => workGoalStorable_iff hfresh hgoal⟩

/-- A flat job of the given pay. -/
def digging (payRate : PositiveAmount) : JobExtraction where
  description := ⟨"dig", by decide⟩
  idealDatetime := none
  datetimeFlexible := true
  rawDatetimeText := none
  inferredTimezone := none
  estimatedDurationHours := none
  rawDurationText := none
  location := ⟨"here", by decide⟩
  payRate := some payRate
  payType := .flat

theorem fifty_dollars_pos : (0 : ℚ) < 50 := by norm_num

theorem today_bounded : 1 ≤ "today".length ∧ "today".length ≤ 255 := by decide

def fiftyDollars : WorkGoalExtraction where
  targetEarnings := ⟨50, fifty_dollars_pos⟩
  targetTimeframe := ⟨"today", today_bounded⟩
  targetDeadline := none

/-- A message which waits for its classification, as the handlers see it. -/
def waiting (result : ExtractionResult) : PipelineContext :=
  ⟨result, "yard work", "hash", 9, 1, "SM1", "+1"⟩

/-- Its row, in a table with jobs of other messages. -/
def waitingDatabase : Database :=
  { variedJobs with messages := [⟨9, "SM1", 1, "yard work", none, none⟩] }

theorem fresh_waiting (result : ExtractionResult) : Fresh (waiting result) waitingDatabase :=
  ⟨Nat.succ_pos 8, List.mem_singleton_self 9, (by decide : isText "SM1" = true),
    (by decide : ∀ j ∈ variedJobs.jobs, j.messageId ≠ 9), fun _ hg => by cases hg⟩

theorem storable_iff_fifteen_dollars :
    JobStorable (fun _ => none) (waiting ⟨.jobPosting, some (digging ⟨15, by norm_num⟩),
        some fiftyDollars, "\x7b\x7d"⟩) waitingDatabase (digging ⟨15, by norm_num⟩) ∧
      WorkGoalStorable (fun _ => none) (rankedIds variedIds) (waiting ⟨.jobPosting,
        some (digging ⟨15, by norm_num⟩), some fiftyDollars, "\x7b\x7d"⟩) waitingDatabase
          fiftyDollars := by
  obtain ⟨hjob, hgoal⟩ := storable_iff (fun _ => none) (rankedIds variedIds)
    (fresh_waiting ⟨.jobPosting, some (digging ⟨15, by norm_num⟩), some fiftyDollars, "\x7b\x7d"⟩)
  refine ⟨(hjob _ rfl).mpr ⟨?_, ?_, by decide⟩, (hgoal _ rfl).mpr ⟨⟨?_, ?_, by decide⟩, ?_⟩⟩
  · rintro amount ⟨⟩
    constructor <;> norm_num
  · rintro parsed ⟨⟩
  · constructor <;> norm_num [fiftyDollars]
  · rintro parsed ⟨⟩
  · exact ⟨by decide +kernel, by decide +kernel⟩

/-- A tenth of a cent rounds to nothing, and thirty million dollars overflow the
column; both raise in the handler. -/
theorem tiny_and_huge_not_storable :
    ¬JobStorable (fun _ => none) (waiting ⟨.jobPosting, some (digging ⟨1 / 1000, by norm_num⟩),
        none, "\x7b\x7d"⟩) waitingDatabase (digging ⟨1 / 1000, by norm_num⟩) ∧
      ¬JobStorable (fun _ => none) (waiting ⟨.jobPosting, some (digging ⟨30000000, by norm_num⟩),
        none, "\x7b\x7d"⟩) waitingDatabase (digging ⟨30000000, by norm_num⟩) ∧
      ((jobPostingHandle (fun _ => none) (waiting ⟨.jobPosting,
        some (digging ⟨1 / 1000, by norm_num⟩), none, "\x7b\x7d"⟩)).run
          (.opened waitingDatabase [])).1 = .error (.raised (.app .validation)) ∧
      ((jobPostingHandle (fun _ => none) (waiting ⟨.jobPosting,
        some (digging ⟨30000000, by norm_num⟩), none, "\x7b\x7d"⟩)).run
          (.opened waitingDatabase [])).1 = .error (.raised (.infra .data)) := by
  refine ⟨?_, ?_, by decide +kernel, by decide +kernel⟩
  · rw [jobStorable_iff (fresh_waiting _) rfl]
    intro h
    have hlow := (h.amount _ rfl).1
    norm_num at hlow
  · rw [jobStorable_iff (fresh_waiting _) rfl]
    intro h
    have hhigh := (h.amount _ rfl).2
    norm_num at hhigh

end Vici.StorableExtractions
