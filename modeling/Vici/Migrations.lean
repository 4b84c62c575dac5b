import Vici.SchemaChanges
import Vici.MoneyMigration
import Vici.TableIntegrity

/-!
# The migrations

The revisions of the database, each as the statements of its `upgrade` and its
`downgrade`. A command upgrades to the head, or downgrades to an earlier
revision, in one transaction. Indexes which are not unique constrain nothing and
are left out; PostgreSQL names a foreign key after its table and column.
-/
namespace Vici.Migrations
open SchemaChanges

inductive TableName where
  | user | message | job | workGoal | matchRow | rateLimit | auditLog | pineconeSyncQueue
  deriving DecidableEq, Repr

inductive ColumnName where
  | id | createdAt | userId | messageId | jobId | workGoalId
  | phoneHash | phoneE164
  | messageSid | body | messageType | rawGptResponse
  | description | location | payRate | payType | estimatedDurationHours | rawDurationText
  | idealDatetime | rawDatetimeText | inferredTimezone | datetimeFlexible
  | status | targetEarnings | targetTimeframe | targetDeadline
  | count | event | detail | attempts | lastError
  deriving DecidableEq, Repr

inductive ConstraintName where
  | pkey (t : TableName)
  | fkey (t : TableName) (c : ColumnName)
  | ixUserPhoneHash | ixMessageMessageSid
  | ckJobPayRatePositive | ckJobEstimatedDurationPositive | uqJobMessageId
  | ckWorkGoalTargetEarningsPositive | uqWorkGoalMessageId
  | uqMatchJobWorkGoal | uqRateLimitUserWindow
  | ckJobPayType | ckPsqStatus | ckAuditLogMessageSidConsistent | ckJobStatusValid
  deriving DecidableEq, Repr

/-- A stored value; floats are exact rationals and timestamps microseconds in UTC. -/
inductive Value where
  | integer (n : ℤ)
  | text (s : String)
  | float (q : ℚ)
  | boolean (b : Bool)
  | timestamp (instant : ℤ)
  deriving DecidableEq

abbrev Row := SchemaChanges.Row ColumnName Value
abbrev Rows := SchemaChanges.Rows TableName ColumnName Value
abbrev Schema := SchemaChanges.Schema TableName ColumnName ConstraintName Value
abbrev Database := SchemaChanges.Database TableName ColumnName ConstraintName Value
abbrev Statement := SchemaChanges.Statement TableName ColumnName ConstraintName Value
abbrev Check := SchemaChanges.Constraint TableName ColumnName Value

def integer : Value → Bool
  | .integer n => decide (-2 ^ 31 ≤ n ∧ n < 2 ^ 31)
  | _ => false

def text : Value → Bool
  | .text _ => true
  | _ => false

def float : Value → Bool
  | .float _ => true
  | _ => false

def boolean : Value → Bool
  | .boolean _ => true
  | _ => false

def timestamptz : Value → Bool
  | .timestamp _ => true
  | _ => false

/-- `x > 0`; a check passes unless it is false, so also on NULL. -/
def positive : List (Option Value) → Bool
  | [some (.integer n)] => decide (0 < n)
  | [some (.float q)] => decide (0 < q)
  | _ => true

/-- `x IN (..)` -/
def oneOf (texts : List String) : List (Option Value) → Bool
  | [some (.text s)] => decide (s ∈ texts)
  | _ => true

/-- `message_id IS NULL OR message_sid IS NOT NULL` -/
def messageSidConsistent : List (Option Value) → Bool
  | [messageId, messageSid] => messageId.isNone || messageSid.isSome
  | _ => true

section
variable (t target : TableName) (c : ColumnName)

def primaryKey : ConstraintName × Check := (.pkey t, .unique [.id])

def foreignKey : ConstraintName × Check := (.fkey t c, .references c target .id)

end

def upgrade001 : List Statement := [
  .createTable .user
    ⟨[⟨.id, integer, false⟩, ⟨.phoneHash, text, false⟩, ⟨.createdAt, timestamptz, false⟩],
      [primaryKey .user]⟩,
  .addConstraint .user .ixUserPhoneHash (.unique [.phoneHash]),
  .createTable .message
    ⟨[⟨.id, integer, false⟩, ⟨.messageSid, text, false⟩, ⟨.userId, integer, false⟩,
        ⟨.body, text, false⟩, ⟨.messageType, text, true⟩, ⟨.rawGptResponse, text, true⟩,
        ⟨.createdAt, timestamptz, false⟩],
      [foreignKey .message .user .userId, primaryKey .message]⟩,
  .addConstraint .message .ixMessageMessageSid (.unique [.messageSid]),
  .createTable .job
    ⟨[⟨.id, integer, false⟩, ⟨.userId, integer, false⟩, ⟨.messageId, integer, false⟩,
        ⟨.description, text, true⟩, ⟨.location, text, true⟩, ⟨.payRate, float, false⟩,
        ⟨.estimatedDurationHours, float, true⟩, ⟨.idealDatetime, timestamptz, true⟩,
        ⟨.datetimeFlexible, boolean, true⟩, ⟨.createdAt, timestamptz, false⟩],
      [(.ckJobPayRatePositive, .check [.payRate] positive),
        (.ckJobEstimatedDurationPositive, .check [.estimatedDurationHours] positive),
        foreignKey .job .user .userId, foreignKey .job .message .messageId, primaryKey .job,
        (.uqJobMessageId, .unique [.messageId])]⟩,
  .createTable .workGoal
    ⟨[⟨.id, integer, false⟩, ⟨.userId, integer, false⟩, ⟨.messageId, integer, false⟩,
        ⟨.targetEarnings, float, false⟩, ⟨.targetTimeframe, text, true⟩,
        ⟨.createdAt, timestamptz, false⟩],
      [(.ckWorkGoalTargetEarningsPositive, .check [.targetEarnings] positive),
        foreignKey .workGoal .user .userId, foreignKey .workGoal .message .messageId,
        primaryKey .workGoal, (.uqWorkGoalMessageId, .unique [.messageId])]⟩,
  .createTable .matchRow
    ⟨[⟨.id, integer, false⟩, ⟨.jobId, integer, false⟩, ⟨.workGoalId, integer, false⟩,
        ⟨.createdAt, timestamptz, false⟩],
      [foreignKey .matchRow .job .jobId, foreignKey .matchRow .workGoal .workGoalId,
        primaryKey .matchRow, (.uqMatchJobWorkGoal, .unique [.jobId, .workGoalId])]⟩,
  .createTable .rateLimit
    ⟨[⟨.id, integer, false⟩, ⟨.userId, integer, false⟩, ⟨.createdAt, timestamptz, false⟩,
        ⟨.count, integer, false⟩],
      [foreignKey .rateLimit .user .userId, primaryKey .rateLimit,
        (.uqRateLimitUserWindow, .unique [.userId, .createdAt])]⟩,
  .createTable .auditLog
    ⟨[⟨.id, integer, false⟩, ⟨.messageSid, text, false⟩, ⟨.messageId, integer, true⟩,
        ⟨.event, text, false⟩, ⟨.detail, text, true⟩, ⟨.createdAt, timestamptz, false⟩],
      [foreignKey .auditLog .message .messageId, primaryKey .auditLog]⟩]

def downgrade001 : List Statement := [
  .dropTable .auditLog, .dropTable .rateLimit, .dropTable .matchRow, .dropTable .workGoal,
  .dropTable .job, .dropTable .message, .dropTable .user]

def upgrade002 : List Statement := [
  .addColumn .job ⟨.payType, text, false⟩ (some (.text "unknown")),
  .addConstraint .job .ckJobPayType (.check [.payType] (oneOf ["hourly", "flat", "unknown"])),
  .addColumn .job ⟨.rawDatetimeText, text, true⟩ none,
  .addColumn .job ⟨.inferredTimezone, text, true⟩ none,
  .addColumn .job ⟨.rawDurationText, text, true⟩ none,
  .alterNullable .job .payRate true,
  .createTable .pineconeSyncQueue
    ⟨[⟨.id, integer, false⟩, ⟨.jobId, integer, false⟩, ⟨.status, text, false⟩,
        ⟨.attempts, integer, false⟩, ⟨.lastError, text, true⟩, ⟨.createdAt, timestamptz, false⟩],
      [foreignKey .pineconeSyncQueue .job .jobId, primaryKey .pineconeSyncQueue]⟩,
  .addConstraint .pineconeSyncQueue .ckPsqStatus
    (.check [.status] (oneOf ["pending", "synced", "failed"]))]

def downgrade002 : List Statement := [
  .dropTable .pineconeSyncQueue,
  .dropColumn .job .rawDurationText,
  .dropColumn .job .inferredTimezone,
  .dropColumn .job .rawDatetimeText,
  .dropColumn .job .payType,
  .alterNullable .job .payRate false]

def upgrade003 : List Statement := [
  .dropConstraint .job (.fkey .job .userId),
  .dropColumn .job .userId,
  .dropConstraint .workGoal (.fkey .workGoal .userId),
  .dropColumn .workGoal .userId,
  .dropConstraint .rateLimit .uqRateLimitUserWindow,
  .addConstraint .auditLog .ckAuditLogMessageSidConsistent
    (.check [.messageId, .messageSid] messageSidConsistent)]

def downgrade003 : List Statement := [
  .dropConstraint .auditLog .ckAuditLogMessageSidConsistent,
  .addConstraint .rateLimit .uqRateLimitUserWindow (.unique [.userId, .createdAt]),
  .addColumn .workGoal ⟨.userId, integer, true⟩ none,
  .addConstraint .workGoal (.fkey .workGoal .userId) (.references .userId .user .id),
  .addColumn .job ⟨.userId, integer, true⟩ none,
  .addConstraint .job (.fkey .job .userId) (.references .userId .user .id)]

def upgrade004 : List Statement := [.addColumn .user ⟨.phoneE164, text, true⟩ none]

def downgrade004 : List Statement := [.dropColumn .user .phoneE164]

def upgrade005 : List Statement := [
  .addColumn .job ⟨.status, text, false⟩ (some (.text "available")),
  .addConstraint .job .ckJobStatusValid
    (.check [.status] (oneOf ["available", "accepted", "in_progress", "completed"]))]

def downgrade005 : List Statement := [
  .dropConstraint .job .ckJobStatusValid,
  .dropColumn .job .status]

/-- `ROUND(x * 100)::INTEGER`; the type of the column refuses what is out of range. -/
def roundedCents : Value → Option Value
  | .float q => some (.integer (Money.dollarsToCents q))
  | _ => none

/-- The plain cast of an `INTEGER` to a `FLOAT`. -/
def asFloat : Value → Option Value
  | .integer n => some (.float n)
  | _ => none

def upgrade006 : List Statement := [
  .alterType .job .payRate integer roundedCents,
  .alterType .workGoal .targetEarnings integer roundedCents]

def downgrade006 : List Statement := [
  .alterType .workGoal .targetEarnings float asFloat,
  .alterType .job .payRate float asFloat]

def upgrade007 : List Statement := [.dropColumn .rateLimit .count]

def downgrade007 : List Statement :=
  [.addColumn .rateLimit ⟨.count, integer, false⟩ (some (.integer 1))]

def upgrade008 : List Statement := [.addColumn .workGoal ⟨.targetDeadline, timestamptz, true⟩ none]

def downgrade008 : List Statement := [.dropColumn .workGoal .targetDeadline]

structure Revision where
  upgrade : List Statement
  downgrade : List Statement

def revisions : List Revision := [
  ⟨upgrade001, downgrade001⟩, ⟨upgrade002, downgrade002⟩, ⟨upgrade003, downgrade003⟩,
  ⟨upgrade004, downgrade004⟩, ⟨upgrade005, downgrade005⟩, ⟨upgrade006, downgrade006⟩,
  ⟨upgrade007, downgrade007⟩, ⟨upgrade008, downgrade008⟩]

def head : ℕ := revisions.length

/-- What is run on a database at revision `k` to bring it to the head. -/
def pending (k : ℕ) : List Statement := ((revisions.drop k).map Revision.upgrade).flatten

/-- What is run on a database at the head to take it back to revision `k`. -/
def reverting (k : ℕ) : List Statement :=
  ((revisions.drop k).reverse.map Revision.downgrade).flatten

def upgradeHead (k : ℕ) (db : Database) : Except Refusal Database := run (pending k) db

def downgradeTo (k : ℕ) (db : Database) : Except Refusal Database := run (reverting k) db

/-- The schema to which the revisions up to `k` lead. -/
def schemaAt (k : ℕ) : Schema :=
  (alterAll ((revisions.take k).map Revision.upgrade).flatten []).toOption.getD []

/-- The schema to which the head is taken back. -/
def revertedTo (k : ℕ) : Schema := (alterAll (reverting k) (schemaAt head)).toOption.getD []

set_option maxRecDepth 4000 in
theorem alterAll_pending {k : ℕ} (hk : k ≤ head) :
    alterAll (pending k) (schemaAt k) = .ok (schemaAt head) := by
  change k ≤ 8 at hk
  interval_cases k <;> rfl

set_option maxRecDepth 4000 in
theorem alterAll_reverting {k : ℕ} (hk : k ≤ head) :
    alterAll (reverting k) (schemaAt head) = .ok (revertedTo k) := by
  change k ≤ 8 at hk
  interval_cases k <;> rfl

set_option maxRecDepth 4000 in
/-- The columns which a downgrade restores as nullable are gone again at the head. -/
theorem alterAll_pending_revertedTo {k : ℕ} (hk : k ≤ head) :
    alterAll (pending k) (revertedTo k) = .ok (schemaAt head) := by
  change k ≤ 8 at hk
  interval_cases k <;> rfl

/-- A row of revision `k` as the head has it. -/
def migrated (k : ℕ) (t : TableName) (row : Row) : Row := fun c =>
  match t, c with
  | .job, .payType => if k < 2 then some (.text "unknown") else row c
  | .job, .rawDatetimeText | .job, .inferredTimezone | .job, .rawDurationText =>
      if k < 2 then none else row c
  | .job, .userId | .workGoal, .userId => if k < 3 then none else row c
  | .user, .phoneE164 => if k < 4 then none else row c
  | .job, .status => if k < 5 then some (.text "available") else row c
  | .job, .payRate | .workGoal, .targetEarnings =>
      if k < 6 then (row c).bind roundedCents else row c
  | .rateLimit, .count => if k < 7 then none else row c
  | .workGoal, .targetDeadline => if k < 8 then none else row c
  | _, _ => row c

theorem onRowAll_pending {k : ℕ} (hk : k ≤ head) (t : TableName) (row : Row) :
    onRowAll (pending k) t row = migrated k t row := by
  change k ≤ 8 at hk
  funext c
  interval_cases k <;> cases t <;> cases c <;> rfl

/-- The amount is a positive number of cents within the range of the column. -/
def Rounds (v : Value) : Prop :=
  ∃ q, v = .float q ∧ 0 < Money.dollarsToCents q ∧ Money.dollarsToCents q ≤ Models.maxInteger

structure Convertible (rows : Rows) : Prop where
  payRate : ∀ row ∈ rows .job, ∀ v ∈ row .payRate, Rounds v
  targetEarnings : ∀ row ∈ rows .workGoal, ∀ v ∈ row .targetEarnings, Rounds v

section
variable {S : Schema} {rows : Rows} {t : TableName} {c : ColumnName} {k : ℕ}

theorem rounds_iff {v : Value} :
    Rounds v ↔ ∃ w ∈ roundedCents v, integer w ∧ positive [some w] := by
  cases v with
  | float q =>
      simp only [Rounds, roundedCents, integer, positive, Models.maxInteger]
      simp
      omega
  | integer n => simp [Rounds, roundedCents]
  | text s => simp [Rounds, roundedCents]
  | boolean b => simp [Rounds, roundedCents]
  | timestamp i => simp [Rounds, roundedCents]

theorem fits_roundedCents (h : S.involved t c = [(t, .check [c] positive)]) :
    Statement.Fits S rows (.alterType t c integer roundedCents) ↔
      ∀ row ∈ rows t, ∀ v ∈ row c, Rounds v := by
  rw [Statement.Fits, h]
  simp only [List.forall_mem_singleton, Constraint.Holds, Rows.change_same, List.forall_mem_map,
    List.map_cons, List.map_nil, Function.update_self]
  rw [← forall₂_and]
  refine forall₂_congr fun row _ => ?_
  cases row c with
  | none => simp [positive]
  | some v =>
      simp only [Option.mem_some_iff, forall_eq', Option.bind_some]
      rw [rounds_iff]
      cases roundedCents v <;> simp

theorem fits_upgrade006 : FitsAll upgrade006 (schemaAt 5) rows ↔ Convertible rows := by
  rw [upgrade006, fitsAll_cons rfl, fitsAll_cons rfl, fits_roundedCents rfl,
    fits_roundedCents rfl]
  constructor
  · rintro ⟨hrate, htarget, _⟩
    exact ⟨hrate, htarget⟩
  · intro h
    exact ⟨h.payRate, h.targetEarnings, trivial⟩

/-- Every audit row names the message it is about, as the column has required from the start. -/
def Signed (rows : Rows) : Prop := ∀ row ∈ rows .auditLog, (row .messageSid).isSome

/-- A new column whose default passes its check. -/
theorem holds_of_default {v : Value} {test : List (Option Value) → Bool} (h : test [some v]) :
    Constraint.Holds (rows.change t c fun _ => some v) t (.check [c] test) := by
  simp only [Constraint.Holds, Rows.change_same, List.forall_mem_map, List.map_cons, List.map_nil,
    Function.update_self]
  exact fun _ _ => h

theorem fits_upgrade001 : FitsAll upgrade001 S rows := by
  refine fun _ _ => ⟨trivial, fun _ _ => ⟨?_, fun _ _ => ⟨trivial, fun _ _ => ⟨?_, ?_⟩⟩⟩⟩
  · exact List.nodup_nil
  · exact List.nodup_nil
  · exact fun _ _ => ⟨trivial, fun _ _ => ⟨trivial, fun _ _ => ⟨trivial, fun _ _ =>
      ⟨trivial, fun _ _ => ⟨trivial, trivial⟩⟩⟩⟩⟩

theorem fits_upgrade002 : FitsAll upgrade002 S rows := by
  refine fun _ _ => ⟨fun _ _ => rfl, fun _ _ => ⟨holds_of_default (by decide), ?_⟩⟩
  refine fun _ _ => ⟨fun _ _ => rfl, fun _ _ => ⟨fun _ _ => rfl, fun _ _ => ⟨fun _ _ => rfl, ?_⟩⟩⟩
  refine fun _ _ => ⟨.inl rfl, fun _ _ => ⟨trivial, fun _ _ => ⟨?_, trivial⟩⟩⟩
  exact fun row hrow => absurd hrow List.not_mem_nil

theorem fits_upgrade003 (h : Signed rows) : FitsAll upgrade003 S rows := by
  refine fun _ _ => ⟨trivial, fun _ _ => ⟨trivial, fun _ _ => ⟨trivial, fun _ _ =>
    ⟨trivial, fun _ _ => ⟨trivial, fun _ _ => ⟨fun row hrow => ?_, trivial⟩⟩⟩⟩⟩⟩
  have hsid : (row .messageSid).isSome := h row hrow
  simp [messageSidConsistent, hsid]

theorem fits_upgrade004 : FitsAll upgrade004 S rows :=
  fun _ _ => ⟨fun _ _ => rfl, trivial⟩

theorem fits_upgrade005 : FitsAll upgrade005 S rows :=
  fun _ _ => ⟨fun _ _ => rfl, fun _ _ => ⟨holds_of_default (by decide), trivial⟩⟩

theorem fits_upgrade007 : FitsAll upgrade007 S rows := fun _ _ => ⟨trivial, trivial⟩

theorem fits_upgrade008 : FitsAll upgrade008 S rows :=
  fun _ _ => ⟨fun _ _ => rfl, trivial⟩

/-- What is pending before the money columns are converted. -/
def beforeCents (k : ℕ) : List Statement :=
  (((revisions.take 5).drop k).map Revision.upgrade).flatten

theorem fits_beforeCents (hk : k ≤ 5) (h : Signed rows) : FitsAll (beforeCents k) S rows := by
  have h₄ (S : Schema) (rows : Rows) : FitsAll (upgrade005 ++ []) S rows :=
    fits_upgrade005.append fun _ => trivial
  have h₃ (S : Schema) (rows : Rows) : FitsAll (upgrade004 ++ (upgrade005 ++ [])) S rows :=
    fits_upgrade004.append fun S' => h₄ S' _
  have h₂ {S : Schema} {rows : Rows} (hsigned : Signed rows) :
      FitsAll (upgrade003 ++ (upgrade004 ++ (upgrade005 ++ []))) S rows :=
    (fits_upgrade003 hsigned).append fun S' => h₃ S' _
  have hnone : Signed (effectAll upgrade002 (effectAll upgrade001 rows)) :=
    fun row hrow => absurd hrow List.not_mem_nil
  interval_cases k
  · exact fits_upgrade001.append fun _ => fits_upgrade002.append fun _ => h₂ hnone
  · exact fits_upgrade002.append fun _ => h₂ h
  · exact h₂ h
  · exact h₃ S rows
  · exact h₄ S rows
  · trivial

/-- The statements up to revision 005 leave the amounts alone. -/
theorem convertible_beforeCents (hk : k ≤ 5)
    (hcleared : ∀ t, (∃ s ∈ beforeCents k, s.Clears t) → rows t = []) :
    Convertible (effectAll (beforeCents k) rows) ↔ Convertible rows := by
  have hrate (row : Row) : onRowAll (beforeCents k) .job row .payRate = row .payRate := by
    interval_cases k <;> rfl
  have htarget (row : Row) :
      onRowAll (beforeCents k) .workGoal row .targetEarnings = row .targetEarnings := by
    interval_cases k <;> rfl
  have hsame {t : TableName} {c : ColumnName}
      (hc : ∀ row : Row, onRowAll (beforeCents k) t row c = row c) :
      (∀ row ∈ effectAll (beforeCents k) rows t, ∀ v ∈ row c, Rounds v) ↔
        ∀ row ∈ rows t, ∀ v ∈ row c, Rounds v := by
    rw [effectAll_of_empty (hcleared t)]
    simp only [List.forall_mem_map, hc]
  constructor
  · intro h
    exact ⟨(hsame hrate).mp h.payRate, (hsame htarget).mp h.targetEarnings⟩
  · intro h
    exact ⟨(hsame hrate).mpr h.payRate, (hsame htarget).mpr h.targetEarnings⟩

set_option maxRecDepth 4000 in
theorem alterAll_beforeCents (hk : k ≤ 5) (hS : S = schemaAt k ∨ S = revertedTo k) :
    alterAll (beforeCents k) S = .ok (schemaAt 5) := by
  rcases hS with rfl | rfl
  · interval_cases k <;> rfl
  · interval_cases k <;> rfl

/-- Only the amounts can stand against an upgrade. -/
theorem fits_pending (hk : k ≤ head) (hS : S = schemaAt k ∨ S = revertedTo k)
    (hsigned : Signed rows)
    (hcleared : ∀ t, (∃ s ∈ pending k, s.Clears t) → rows t = []) :
    FitsAll (pending k) S rows ↔ (k < 6 → Convertible rows) := by
  by_cases hcents : k < 6
  · have hsplit : pending k = beforeCents k ++ (upgrade006 ++ (upgrade007 ++ upgrade008)) := by
      interval_cases k <;> rfl
    have hlater (S' : Schema) (rows' : Rows) : FitsAll (upgrade007 ++ upgrade008) S' rows' :=
      fits_upgrade007.append fun _ => fits_upgrade008
    have hempty (t : TableName) (h : ∃ s ∈ beforeCents k, s.Clears t) : rows t = [] := by
      obtain ⟨s, hs, hclears⟩ := h
      exact hcleared t ⟨s, hsplit ▸ List.mem_append_left _ hs, hclears⟩
    have hk' : k ≤ 5 := by omega
    have hcentsSchema : alterAll upgrade006 (schemaAt 5) = .ok (schemaAt 6) := rfl
    rw [hsplit, fitsAll_append (alterAll_beforeCents hk' hS), fitsAll_append hcentsSchema,
      fits_upgrade006, convertible_beforeCents hk' hempty]
    simp [fits_beforeCents hk' hsigned, hlater, hcents]
  · change k ≤ 8 at hk
    simp only [hcents, false_imp_iff, iff_true]
    interval_cases k
    · exact fits_upgrade007.append fun _ => fits_upgrade008.append fun _ => trivial
    · exact fits_upgrade008.append fun _ => trivial
    · trivial

end

section
variable {k : ℕ} {rows : Rows}

theorem signed_of_valid (hk : k ≤ head) (hv : Valid ⟨schemaAt k, rows⟩) : Signed rows := by
  change k ≤ 8 at hk
  intro row hrow
  rcases Nat.eq_zero_or_pos k with rfl | hpos
  · have hnone : rows .auditLog = [] := hv.undefined .auditLog rfl
    simp [hnone] at hrow
  · have hcolumn : ∃ table, (schemaAt k).lookup .auditLog = some table ∧
        (⟨.messageSid, text, false⟩ : Column ColumnName Value) ∈ table.columns := by
      interval_cases k <;> exact ⟨_, rfl, .tail _ (.head _)⟩
    obtain ⟨table, htable, hmem⟩ := hcolumn
    have hadmits := hv.admits .auditLog table htable row hrow _ hmem
    cases hvalue : row .messageSid with
    | none => simp [hvalue, Column.Admits] at hadmits
    | some v => rfl

/-- The tables which pending revisions create are not there yet. -/
theorem cleared_of_valid (hk : k ≤ head) (hv : Valid ⟨schemaAt k, rows⟩) (t : TableName)
    (h : ∃ s ∈ pending k, s.Clears t) : rows t = [] := by
  change k ≤ 8 at hk
  have hlookup : (schemaAt k).lookup t = none ∨ ¬∃ s ∈ pending k, s.Clears t := by
    rcases Nat.lt_or_ge 1 k with hlt | hle
    · refine .inr ?_
      interval_cases k <;> cases t <;> decide
    · interval_cases k
      · exact .inl rfl
      · cases t <;> first | exact .inl rfl | exact .inr (by decide)
  rcases hlookup with hnone | hnever
  · exact hv.undefined t hnone
  · exact absurd h hnever

theorem upgradeHead_eq_ok_iff {db : Database} (hk : k ≤ head) (hv : Valid ⟨schemaAt k, rows⟩) :
    upgradeHead k ⟨schemaAt k, rows⟩ = .ok db ↔
      (k < 6 → Convertible rows) ∧
        db = ⟨schemaAt head, fun t => (rows t).map (migrated k t)⟩ := by
  have hrows : effectAll (pending k) rows = fun t => (rows t).map (migrated k t) := by
    funext t
    rw [effectAll_of_empty (cleared_of_valid hk hv t)]
    exact List.map_congr_left fun row _ => onRowAll_pending hk t row
  rw [upgradeHead, run_eq_ok_iff (alterAll_pending hk), hrows,
    fits_pending hk (.inl rfl) (signed_of_valid hk hv) (cleared_of_valid hk hv)]

end

end Vici.Migrations
