import Vici.Migrations

/-!
# The tables of the service after an upgrade

The head schema is the one which the service works on. The rows which it reads
there as its own tables keep every key of them, whatever they have been
migrated from, so that a run of the service may start from an upgraded database.
-/
namespace Vici.MigratedTables
open SchemaChanges Migrations KeyedRows TableIntegrity
open RowCreation (PositiveAmount)
open MoneyMigration (MoneyColumns Cents)
open Models (MessageType SyncStatus JobStatus PayType AuditEvent)

def messageTypeText : MessageType → String
  | .jobPosting => "job_posting"
  | .workGoal => "work_goal"
  | .unknown => "unknown"

def syncStatusText : SyncStatus → String
  | .pending => "pending"
  | .synced => "synced"
  | .failed => "failed"

def jobStatusText : JobStatus → String
  | .available => "available"
  | .accepted => "accepted"
  | .inProgress => "in_progress"
  | .completed => "completed"

def payTypeText : PayType → String
  | .hourly => "hourly"
  | .flat => "flat"
  | .unknown => "unknown"

def auditEventText : AuditEvent → String
  | .received => "received"
  | .duplicate => "duplicate"
  | .rateLimited => "rate_limited"
  | .gptClassified => "gpt_classified"
  | .jobCreated => "job_created"
  | .workGoalCreated => "work_goal_created"

/-- A key or an amount. -/
def number (n : ℕ) : Value := .integer n

structure ReadsUser (row : Row) (u : Models.User) : Prop where
  id : row .id = some (number u.id)
  phoneHash : row .phoneHash = some (.text u.phoneHash)
  phoneE164 : row .phoneE164 = u.phoneE164.map .text

structure ReadsMessage (row : Row) (m : Models.Message) : Prop where
  id : row .id = some (number m.id)
  messageSid : row .messageSid = some (.text m.messageSid)
  userId : row .userId = some (number m.userId)
  body : row .body = some (.text m.body)
  messageType : row .messageType = m.messageType.map fun t => .text (messageTypeText t)
  rawGptResponse : row .rawGptResponse = m.rawGptResponse.map .text

structure ReadsJob (row : Row) (job : Models.Job) : Prop where
  id : row .id = some (number job.id)
  messageId : row .messageId = some (number job.messageId)
  description : row .description = job.description.map .text
  location : row .location = job.location.map .text
  payRate : row .payRate = job.payRate.map number
  payType : row .payType = some (.text (payTypeText job.payType))
  estimatedDurationHours : row .estimatedDurationHours = job.estimatedDurationHours.map .float
  idealDatetime : row .idealDatetime = job.idealDatetime.map fun d => .timestamp d.instant
  datetimeFlexible : row .datetimeFlexible = job.datetimeFlexible.map .boolean
  status : row .status = some (.text (jobStatusText job.status))

structure ReadsWorkGoal (row : Row) (goal : Models.WorkGoal) : Prop where
  id : row .id = some (number goal.id)
  messageId : row .messageId = some (number goal.messageId)
  targetEarnings : row .targetEarnings = some (number goal.targetEarnings)
  targetTimeframe : row .targetTimeframe = goal.targetTimeframe.map .text
  targetDeadline : row .targetDeadline = goal.targetDeadline.map fun d => .timestamp d.instant

structure ReadsMatch (row : Row) (m : Models.Match) : Prop where
  id : row .id = some (number m.id)
  jobId : row .jobId = some (number m.jobId)
  workGoalId : row .workGoalId = some (number m.workGoalId)

structure ReadsRateLimit (row : Row) (r : Models.RateLimit) : Prop where
  id : row .id = some (number r.id)
  userId : row .userId = some (number r.userId)
  createdAt : row .createdAt = some (.timestamp r.createdAt)

structure ReadsAuditLog (row : Row) (a : Models.AuditLog) : Prop where
  id : row .id = some (number a.id)
  messageSid : row .messageSid = some (.text a.messageSid)
  messageId : row .messageId = a.messageId.map number
  event : row .event = some (.text (auditEventText a.event))

structure ReadsSyncQueue (row : Row) (e : Models.PineconeSyncQueue) : Prop where
  id : row .id = some (number e.id)
  jobId : row .jobId = some (number e.jobId)
  status : row .status = some (.text (syncStatusText e.status))
  attempts : row .attempts = some (number e.attempts)
  lastError : row .lastError = e.lastError.map .text

/-- The tables which the service reads from the rows of the head. -/
structure Reads (rows : Rows) (d : Models.Database) : Prop where
  users : List.Forall₂ ReadsUser (rows .user) d.users
  messages : List.Forall₂ ReadsMessage (rows .message) d.messages
  rateLimits : List.Forall₂ ReadsRateLimit (rows .rateLimit) d.rateLimits
  auditLogs : List.Forall₂ ReadsAuditLog (rows .auditLog) d.auditLogs
  jobs : List.Forall₂ ReadsJob (rows .job) d.jobs
  workGoals : List.Forall₂ ReadsWorkGoal (rows .workGoal) d.workGoals
  matchRows : List.Forall₂ ReadsMatch (rows .matchRow) d.matchRows
  syncQueue : List.Forall₂ ReadsSyncQueue (rows .pineconeSyncQueue) d.syncQueue

section
variable {rows : Rows} {t u : TableName} {α β κ : Type} {R : Row → α → Prop} {R' : Row → β → Prop}
variable {xs : List α} {ys : List β} {key : α → κ}

theorem nodup_of_unique {cs : List ColumnName} {f : κ → List Value} (hf : Function.Injective f)
    (h : (Constraint.unique cs : Check).Holds rows t) (hreads : List.Forall₂ R (rows t) xs)
    (hkey : ∀ row x, R row x → Constraint.keyOf cs row = some (f (key x))) :
    (xs.map key).Nodup := by
  have hkeys : ∀ {rs : List Row} {xs : List α}, List.Forall₂ R rs xs →
      rs.filterMap (Constraint.keyOf cs) = (xs.map key).map f := by
    intro rs xs hforall
    induction hforall with
    | nil => rfl
    | cons hhead _ ih => simp [hkey _ _ hhead, ih]
  rw [Constraint.Holds, hkeys hreads] at h
  exact (List.nodup_map_iff hf).mp h

theorem number_injective : Function.Injective number := by
  intro m n h
  simpa [number] using h

theorem nodup_of_unique_number {c : ColumnName} {key : α → ℕ}
    (h : (Constraint.unique [c] : Check).Holds rows t) (hreads : List.Forall₂ R (rows t) xs)
    (hkey : ∀ row x, R row x → row c = some (number (key x))) : (xs.map key).Nodup := by
  refine nodup_of_unique (f := fun n => [number n]) ?_ h hreads fun row x hrow => ?_
  · intro m n hmn
    exact number_injective (List.singleton_inj.mp hmn)
  · simp [Constraint.keyOf, hkey row x hrow]

theorem nodup_of_unique_text {c : ColumnName} {key : α → String}
    (h : (Constraint.unique [c] : Check).Holds rows t) (hreads : List.Forall₂ R (rows t) xs)
    (hkey : ∀ row x, R row x → row c = some (.text (key x))) : (xs.map key).Nodup := by
  refine nodup_of_unique (f := fun s => [Value.text s]) ?_ h hreads fun row x hrow => ?_
  · intro r s hrs
    simpa using hrs
  · simp [Constraint.keyOf, hkey row x hrow]

theorem mem_of_references {c : ColumnName} {f : α → Option ℕ} {id : β → ℕ}
    (h : (Constraint.references c u .id : Check).Holds rows t)
    (hreads : List.Forall₂ R (rows t) xs) (hreads' : List.Forall₂ R' (rows u) ys)
    (hkey : ∀ row x, R row x → row c = (f x).map number)
    (hid : ∀ row y, R' row y → row .id = some (number (id y))) :
    ∀ x ∈ xs, ∀ i ∈ f x, i ∈ ys.map id := by
  intro x hx i hi
  obtain ⟨row, hrow, hR⟩ := exists_of_forall₂ hreads hx
  obtain ⟨other, hother, hfound⟩ := h row hrow (number i) (by rw [hkey row x hR, hi]; rfl)
  obtain ⟨y, hy, hR'⟩ := exists_of_forall₂ hreads'.flip hother
  have hsame : number (id y) = number i := Option.some.inj ((hid other y hR').symm.trans hfound)
  exact List.mem_map.mpr ⟨y, hy, number_injective hsame⟩

theorem refers_of_references {c : ColumnName} {f : α → ℕ} {id : β → ℕ}
    (h : (Constraint.references c u .id : Check).Holds rows t)
    (hreads : List.Forall₂ R (rows t) xs) (hreads' : List.Forall₂ R' (rows u) ys)
    (hkey : ∀ row x, R row x → row c = some (number (f x)))
    (hid : ∀ row y, R' row y → row .id = some (number (id y))) : Refers f (ys.map id) xs :=
  fun x hx => mem_of_references (f := fun x => some (f x)) h hreads hreads' hkey hid x hx _ rfl

end

theorem intact_of_reads {rows : Rows} {d : Models.Database} (hv : Valid ⟨schemaAt head, rows⟩)
    (h : Reads rows d) : Intact d where
  userIds := nodup_of_unique_number (hv.holdsAt .user (.pkey .user) rfl) h.users
    fun _ _ => ReadsUser.id
  phoneHashes := nodup_of_unique_text (hv.holdsAt .user .ixUserPhoneHash rfl) h.users
    fun _ _ => ReadsUser.phoneHash
  messageIds := nodup_of_unique_number (hv.holdsAt .message (.pkey .message) rfl) h.messages
    fun _ _ => ReadsMessage.id
  messageSids := nodup_of_unique_text (hv.holdsAt .message .ixMessageMessageSid rfl) h.messages
    fun _ _ => ReadsMessage.messageSid
  senders := refers_of_references (hv.holdsAt .message (.fkey .message .userId) rfl) h.messages
    h.users (fun _ _ => ReadsMessage.userId) fun _ _ => ReadsUser.id
  limitIds := nodup_of_unique_number (hv.holdsAt .rateLimit (.pkey .rateLimit) rfl) h.rateLimits
    fun _ _ => ReadsRateLimit.id
  limitUsers := refers_of_references (hv.holdsAt .rateLimit (.fkey .rateLimit .userId) rfl)
    h.rateLimits h.users (fun _ _ => ReadsRateLimit.userId) fun _ _ => ReadsUser.id
  auditIds := nodup_of_unique_number (hv.holdsAt .auditLog (.pkey .auditLog) rfl) h.auditLogs
    fun _ _ => ReadsAuditLog.id
  auditMessages := mem_of_references (hv.holdsAt .auditLog (.fkey .auditLog .messageId) rfl)
    h.auditLogs h.messages (fun _ _ => ReadsAuditLog.messageId) fun _ _ => ReadsMessage.id
  jobIds := nodup_of_unique_number (hv.holdsAt .job (.pkey .job) rfl) h.jobs
    fun _ _ => ReadsJob.id
  jobMessageIds := nodup_of_unique_number (hv.holdsAt .job .uqJobMessageId rfl) h.jobs
    fun _ _ => ReadsJob.messageId
  jobMessages := refers_of_references (hv.holdsAt .job (.fkey .job .messageId) rfl) h.jobs
    h.messages (fun _ _ => ReadsJob.messageId) fun _ _ => ReadsMessage.id
  goalIds := nodup_of_unique_number (hv.holdsAt .workGoal (.pkey .workGoal) rfl) h.workGoals
    fun _ _ => ReadsWorkGoal.id
  goalMessageIds := nodup_of_unique_number (hv.holdsAt .workGoal .uqWorkGoalMessageId rfl)
    h.workGoals fun _ _ => ReadsWorkGoal.messageId
  goalMessages := refers_of_references (hv.holdsAt .workGoal (.fkey .workGoal .messageId) rfl)
    h.workGoals h.messages (fun _ _ => ReadsWorkGoal.messageId) fun _ _ => ReadsMessage.id
  matchIds := nodup_of_unique_number (hv.holdsAt .matchRow (.pkey .matchRow) rfl) h.matchRows
    fun _ _ => ReadsMatch.id
  matchPairs := by
    refine nodup_of_unique (f := fun p : ℕ × ℕ => [number p.1, number p.2]) ?_
      (hv.holdsAt .matchRow .uqMatchJobWorkGoal rfl) h.matchRows fun row m hrow => ?_
    · intro p q hpq
      simpa [number, Prod.ext_iff] using hpq
    · simp [Constraint.keyOf, hrow.jobId, hrow.workGoalId, PersistedMatches.pair]
  matchJobs := refers_of_references (hv.holdsAt .matchRow (.fkey .matchRow .jobId) rfl) h.matchRows
    h.jobs (fun _ _ => ReadsMatch.jobId) fun _ _ => ReadsJob.id
  matchGoals := refers_of_references (hv.holdsAt .matchRow (.fkey .matchRow .workGoalId) rfl)
    h.matchRows h.workGoals (fun _ _ => ReadsMatch.workGoalId) fun _ _ => ReadsWorkGoal.id
  queueIds := nodup_of_unique_number (hv.holdsAt .pineconeSyncQueue (.pkey .pineconeSyncQueue) rfl)
    h.syncQueue fun _ _ => ReadsSyncQueue.id
  queueJobs := refers_of_references
    (hv.holdsAt .pineconeSyncQueue (.fkey .pineconeSyncQueue .jobId) rfl) h.syncQueue h.jobs
    (fun _ _ => ReadsSyncQueue.jobId) fun _ _ => ReadsJob.id

/-- The amounts of revision 005, in dollars. -/
structure HoldsDollars (rows : Rows) (columns : MoneyColumns PositiveAmount) : Prop where
  payRate : List.Forall₂ (fun row dollars => row .payRate = dollars.map fun d => .float d.1)
    (rows .job) columns.payRate
  targetEarnings : List.Forall₂ (fun row dollars => row .targetEarnings = some (.float dollars.1))
    (rows .workGoal) columns.targetEarnings

/-- The amounts of revision 006, in cents. -/
structure HoldsCents (rows : Rows) (columns : MoneyColumns Cents) : Prop where
  payRate : List.Forall₂ (fun row cents => row .payRate = cents.map fun c => number c.1)
    (rows .job) columns.payRate
  targetEarnings : List.Forall₂ (fun row cents => row .targetEarnings = some (number cents.1))
    (rows .workGoal) columns.targetEarnings

/-- A column which is converted value by value, on either side. -/
theorem forall₂_convert {α β : Type} {rows : List Row} {xs : List α} {ys : List β}
    {A : Row → α → Prop} {B : Row → β → Prop} {P : Row → Prop} {g : Row → Row} {Q : α → β → Prop}
    (hread : List.Forall₂ A rows xs)
    (hone : ∀ row x y, A row x → (Q x y ↔ P row ∧ B (g row) y)) :
    List.Forall₂ Q xs ys ↔ (∀ row ∈ rows, P row) ∧ List.Forall₂ B (rows.map g) ys := by
  induction hread generalizing ys with
  | nil => simp
  | cons hhead _ ih =>
      cases ys with
      | nil => simp
      | cons y ys =>
          rw [List.forall₂_cons, List.map_cons, List.forall₂_cons, List.forall_mem_cons, ih,
            hone _ _ y hhead]
          tauto

theorem rounds_float_iff {dollars : PositiveAmount} {cents : Cents} :
    MoneyMigration.roundedCents dollars = .ok cents ↔
      Rounds (.float dollars.1) ∧ roundedCents (.float dollars.1) = some (number cents.1) := by
  have hcents := cents.2
  have hrounds : Rounds (.float dollars.1) ↔
      0 < Money.dollarsToCents dollars.1 ∧
        Money.dollarsToCents dollars.1 ≤ Models.maxInteger := by
    simp [Rounds]
  have hrounded : roundedCents (.float dollars.1) = some (number cents.1) ↔
      Money.dollarsToCents dollars.1 = cents.1 := by
    simp [roundedCents, number]
  rw [MoneyMigration.roundedCents_eq_ok_iff, RowCreation.amountCents, hrounds, hrounded]
  omega

/-- Revision 006 does to the rows what `MoneyMigration.upgrade` does to the two columns. -/
theorem upgrade_iff_migrated {rows : Rows} {columns : MoneyColumns PositiveAmount}
    {cents : MoneyColumns Cents} (h : HoldsDollars rows columns) :
    MoneyMigration.upgrade columns = .ok cents ↔
      Convertible rows ∧ HoldsCents (fun t => (rows t).map (migrated 5 t)) cents := by
  rw [MoneyMigration.upgrade_eq_ok_iff, MoneyMigration.mapM_eq_ok_iff,
    MoneyMigration.mapM_eq_ok_iff,
    forall₂_convert (P := fun row => ∀ v ∈ row .payRate, Rounds v) (g := migrated 5 .job)
      (B := fun row cents => row .payRate = cents.map fun c => number c.1) h.payRate ?_,
    forall₂_convert (P := fun row => ∀ v ∈ row .targetEarnings, Rounds v)
      (g := migrated 5 .workGoal)
      (B := fun row cents => row .targetEarnings = some (number cents.1)) h.targetEarnings ?_]
  · constructor
    · rintro ⟨⟨hrate, hrates⟩, htarget, htargets⟩
      exact ⟨⟨hrate, htarget⟩, ⟨hrates, htargets⟩⟩
    · rintro ⟨⟨hrate, htarget⟩, ⟨hrates, htargets⟩⟩
      exact ⟨⟨hrate, hrates⟩, htarget, htargets⟩
  · intro row dollars c hrow
    have hmigrated : migrated 5 .workGoal row .targetEarnings =
      (row .targetEarnings).bind roundedCents := rfl
    rw [hmigrated, hrow, rounds_float_iff]
    simp
  · intro row dollars c hrow
    have hmigrated : migrated 5 .job row .payRate = (row .payRate).bind roundedCents := rfl
    rw [hmigrated, hrow]
    cases dollars with
    | none =>
        cases c <;> simp [MoneyMigration.roundedCentsOrNull, number]
    | some d =>
        cases c with
        | none =>
            cases hd : MoneyMigration.roundedCents d <;>
              simp [MoneyMigration.roundedCentsOrNull, roundedCents, hd, Except.map]
        | some c =>
            have hconverted : MoneyMigration.roundedCentsOrNull (some d) = .ok (some c) ↔
                MoneyMigration.roundedCents d = .ok c := by
              cases hd : MoneyMigration.roundedCents d <;>
                simp [MoneyMigration.roundedCentsOrNull, hd, Except.map]
            rw [hconverted, rounds_float_iff]
            simp

/-- An upgrade to the head, from any revision: it fails over amounts only and then
leaves nothing, it keeps every row, and what the service reads afterwards is intact. -/
theorem upgraded {k : ℕ} {rows : Rows} (hk : k ≤ head) (hv : Valid ⟨schemaAt k, rows⟩) :
    (∀ db, upgradeHead k ⟨schemaAt k, rows⟩ = .ok db ↔
      (k < 6 → Convertible rows) ∧
        db = ⟨schemaAt head, fun t => (rows t).map (migrated k t)⟩) ∧
    ∀ db, upgradeHead k ⟨schemaAt k, rows⟩ = .ok db →
      Valid db ∧ ∀ d, Reads db.rows d → Intact d := by
  refine ⟨fun db => upgradeHead_eq_ok_iff hk hv, fun db hdb => ?_⟩
  have hvalid : Valid db := hv.run hdb
  obtain ⟨_, rfl⟩ := (upgradeHead_eq_ok_iff hk hv).mp hdb
  exact ⟨hvalid, fun d hd => intact_of_reads hvalid hd⟩

/-- The poster of a job at 15.50 dollars and an earner who asks for 500. -/
def storedRows : Rows
  | .user => [
      fun | .id => some (.integer 1) | .phoneHash => some (.text "aa")
          | .phoneE164 => some (.text "+15550001") | .createdAt => some (.timestamp 0) | _ => none,
      fun | .id => some (.integer 2) | .phoneHash => some (.text "bb")
          | .createdAt => some (.timestamp 0) | _ => none]
  | .message => [
      fun | .id => some (.integer 1) | .messageSid => some (.text "SM1")
          | .userId => some (.integer 1) | .body => some (.text "painter, 15.50 an hour")
          | .messageType => some (.text "job_posting")
          | .rawGptResponse => some (.text "\x7b\x7d") | .createdAt => some (.timestamp 0)
          | _ => none,
      fun | .id => some (.integer 2) | .messageSid => some (.text "SM2")
          | .userId => some (.integer 2) | .body => some (.text "need 500")
          | .messageType => some (.text "work_goal")
          | .rawGptResponse => some (.text "\x7b\x7d") | .createdAt => some (.timestamp 0)
          | _ => none]
  | .job => [
      fun | .id => some (.integer 1) | .messageId => some (.integer 1)
          | .description => some (.text "painter") | .payRate => some (.float (31 / 2))
          | .payType => some (.text "hourly") | .estimatedDurationHours => some (.float 4)
          | .status => some (.text "available") | .createdAt => some (.timestamp 0) | _ => none]
  | .workGoal => [
      fun | .id => some (.integer 1) | .messageId => some (.integer 2)
          | .targetEarnings => some (.float 500) | .createdAt => some (.timestamp 0) | _ => none]
  | .matchRow => [
      fun | .id => some (.integer 1) | .jobId => some (.integer 1)
          | .workGoalId => some (.integer 1) | .createdAt => some (.timestamp 0) | _ => none]
  | .rateLimit => [
      fun | .id => some (.integer 1) | .userId => some (.integer 1) | .count => some (.integer 1)
          | .createdAt => some (.timestamp 0) | _ => none]
  | .auditLog => [
      fun | .id => some (.integer 1) | .messageSid => some (.text "SM1")
          | .messageId => some (.integer 1) | .event => some (.text "received")
          | .createdAt => some (.timestamp 0) | _ => none]
  | .pineconeSyncQueue => [
      fun | .id => some (.integer 1) | .jobId => some (.integer 1)
          | .status => some (.text "pending") | .attempts => some (.integer 0)
          | .createdAt => some (.timestamp 0) | _ => none]

/-- What the service reads once the amounts are in cents. -/
def storedTables : Models.Database where
  users := [⟨1, "aa", some "+15550001"⟩, ⟨2, "bb", none⟩]
  messages := [⟨1, "SM1", 1, "painter, 15.50 an hour", some .jobPosting, some "\x7b\x7d"⟩,
    ⟨2, "SM2", 2, "need 500", some .workGoal, some "\x7b\x7d"⟩]
  rateLimits := [⟨1, 1, 0⟩]
  auditLogs := [⟨1, "SM1", some 1, .received⟩]
  jobs := [⟨1, 1, some "painter", none, some 1550, .hourly, some 4, none, none, .available,
    by decide, by decide +kernel⟩]
  workGoals := [⟨1, 2, 50000, none, none, by decide⟩]
  matchRows := [⟨1, 1, 1⟩]
  syncQueue := [⟨1, 1, .pending, 0, none⟩]

theorem valid_storedRows : Valid ⟨schemaAt 5, storedRows⟩ := by
  have hempty : Valid ⟨schemaAt 5, effectAll (beforeCents 0) fun _ => []⟩ := by
    have hbase : Valid (⟨[], fun _ => []⟩ : Database) := by
      constructor <;> simp
    refine hbase.run ((run_eq_ok_iff (alterAll_beforeCents (k := 0) (by decide) (.inl rfl))).mpr
      ⟨fits_beforeCents (by decide) ?_, rfl⟩)
    simp [Signed]
  constructor
  · exact hempty.grounded
  · intro t ht
    cases t <;> cases ht
  · intro t row hrow c hc
    revert row
    cases t <;> cases c <;> first | decide | exact absurd (by decide) hc
  · intro t table ht
    cases t <;> cases ht <;> decide +kernel
  · intro t table ht
    cases t <;> cases ht <;> decide +kernel

theorem convertible_storedRows : Convertible storedRows := by
  constructor
  · simp only [rounds_iff]
    decide +kernel
  · simp only [rounds_iff]
    decide +kernel

theorem upgraded_storedRows :
    Valid ⟨schemaAt 5, storedRows⟩ ∧ ∃ db, upgradeHead 5 ⟨schemaAt 5, storedRows⟩ = .ok db ∧
      Reads db.rows storedTables ∧ Valid db ∧ Intact storedTables := by
  have hupgraded := upgraded (by decide) valid_storedRows
  have hrun := (hupgraded.1 _).mpr ⟨fun _ => convertible_storedRows, rfl⟩
  have hreads : Reads (fun t => (storedRows t).map (migrated 5 t)) storedTables := by
    -- The constructors leave the two rounded amounts.
    constructor <;> repeat' constructor
    · decide +kernel
    · decide +kernel
  obtain ⟨hvalid, hintact⟩ := hupgraded.2 _ hrun
  exact ⟨valid_storedRows, _, hrun, hreads, hvalid, hintact _ hreads⟩

end Vici.MigratedTables
