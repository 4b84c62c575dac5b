import Vici.AppPrograms

/-!
# From extraction results to rows

The extraction schema and the create schemas are structures which carry what
they have checked. A creation fails in one of two places: the create schema
refuses an amount which rounds to no cents, or the table refuses the row. An
insert checks that its values can be bound (the range of an integer, an instant
of the calendar, text without U+0000), the unique message and the foreign key.
The parser of datetimes and the serialised response are parameters.
-/
namespace Vici.RowCreation
open Models Datetimes AppPrograms

abbrev PositiveAmount := {q : ℚ // 0 < q}

structure JobExtraction where
  description : BoundedStr 1 1000
  idealDatetime : Option (BoundedStr 0 100)
  datetimeFlexible : Bool
  rawDatetimeText : Option (BoundedStr 0 255)
  inferredTimezone : Option (BoundedStr 0 100)
  estimatedDurationHours : Option PositiveAmount
  rawDurationText : Option (BoundedStr 0 255)
  location : BoundedStr 1 255
  payRate : Option PositiveAmount
  payType : PayType

structure WorkGoalExtraction where
  targetEarnings : PositiveAmount
  targetTimeframe : BoundedStr 1 255
  targetDeadline : Option (BoundedStr 0 100)

structure ExtractionResult where
  messageType : MessageType
  job : Option JobExtraction
  workGoal : Option WorkGoalExtraction
  /-- The result as JSON, which escapes every character below U+0020. -/
  modelDumpJson : String

structure JobCreate where
  messageId : ℕ
  description : BoundedStr 1 1000
  location : BoundedStr 1 255
  payRate : Option ℕ
  payType : PayType
  estimatedDurationHours : Option ℚ
  rawDurationText : Option (BoundedStr 0 255)
  idealDatetime : Option Datetime
  rawDatetimeText : Option (BoundedStr 0 255)
  inferredTimezone : Option (BoundedStr 0 100)
  datetimeFlexible : Bool
  messageId_pos : 0 < messageId
  payRate_pos : ∀ r ∈ payRate, 0 < r
  duration_pos : ∀ h ∈ estimatedDurationHours, 0 < h

structure WorkGoalCreate where
  messageId : ℕ
  targetEarnings : ℕ
  targetTimeframe : BoundedStr 1 255
  targetDeadline : Option Datetime
  messageId_pos : 0 < messageId
  targetEarnings_pos : 0 < targetEarnings

/-- The cents of an extracted amount. -/
def amountCents (dollars : PositiveAmount) : ℕ := (Money.dollarsToCents dollars.1).toNat

/-- The job of an extraction; a pay rate below half a cent is refused. -/
def JobCreate.ofExtraction (fromisoformat : String → Option Datetime) (messageId : ℕ)
    (extracted : JobExtraction) : Option JobCreate :=
  if h : 0 < messageId ∧ ∀ r ∈ extracted.payRate.map amountCents, 0 < r then
    some
      { messageId
        description := extracted.description
        location := extracted.location
        payRate := extracted.payRate.map amountCents
        payType := extracted.payType
        estimatedDurationHours := extracted.estimatedDurationHours.map Subtype.val
        rawDurationText := extracted.rawDurationText
        idealDatetime := Datetime.coerceLlmDatetime fromisoformat
          (extracted.idealDatetime.map Subtype.val)
        rawDatetimeText := extracted.rawDatetimeText
        inferredTimezone := extracted.inferredTimezone
        datetimeFlexible := extracted.datetimeFlexible
        messageId_pos := h.1
        payRate_pos := h.2
        duration_pos := by
          intro q hq
          obtain ⟨amount, _, rfl⟩ := Option.map_eq_some_iff.mp hq
          exact amount.2 }
  else none

def WorkGoalCreate.ofExtraction (fromisoformat : String → Option Datetime) (messageId : ℕ)
    (extracted : WorkGoalExtraction) : Option WorkGoalCreate :=
  if h : 0 < messageId ∧ 0 < amountCents extracted.targetEarnings then
    some
      { messageId
        targetEarnings := amountCents extracted.targetEarnings
        targetTimeframe := extracted.targetTimeframe
        targetDeadline := Datetime.coerceLlmDatetime fromisoformat
          (extracted.targetDeadline.map Subtype.val)
        messageId_pos := h.1
        targetEarnings_pos := h.2 }
  else none

/-- What may be bound as a timestamp: a datetime whose instant the calendar has in UTC. -/
def isTimestamp (d : Datetime) : Bool := d.astimezoneUTC.isSome

/-- Every value of the row can be bound. -/
def JobCreate.fits (create : JobCreate) : Bool :=
  (create.payRate.all fun r : ℕ => isInteger r) && create.idealDatetime.all isTimestamp &&
    isText create.description.1 && isText create.location.1 &&
    (create.rawDurationText.all fun t => isText t.1) &&
    (create.rawDatetimeText.all fun t => isText t.1) &&
    create.inferredTimezone.all fun t => isText t.1

def WorkGoalCreate.fits (create : WorkGoalCreate) : Bool :=
  isInteger create.targetEarnings && create.targetDeadline.all isTimestamp &&
    isText create.targetTimeframe.1

/-- `JobRepository.create` -/
def insertJob (create : JobCreate) (db : Database) : Except AppExn (Job × Database) :=
  if !create.fits then .error (.infra .data)
  else if db.jobs.any fun j => decide (j.messageId = create.messageId) then
    .error (.infra .integrity)
  else if db.messages.all fun m => decide (m.id ≠ create.messageId) then
    .error (.infra .integrity)
  else
    let job : Job :=
      { id := nextId (db.jobs.map Job.id)
        messageId := create.messageId
        description := some create.description.1
        location := some create.location.1
        payRate := create.payRate
        payType := create.payType
        estimatedDurationHours := create.estimatedDurationHours
        idealDatetime := create.idealDatetime
        datetimeFlexible := some create.datetimeFlexible
        status := .available
        payRate_pos := create.payRate_pos
        duration_pos := create.duration_pos }
    .ok (job, { db with jobs := db.jobs ++ [job] })

/-- `WorkGoalRepository.create` -/
def insertWorkGoal (create : WorkGoalCreate) (db : Database) :
    Except AppExn (WorkGoal × Database) :=
  if !create.fits then .error (.infra .data)
  else if db.workGoals.any fun g => decide (g.messageId = create.messageId) then
    .error (.infra .integrity)
  else if db.messages.all fun m => decide (m.id ≠ create.messageId) then
    .error (.infra .integrity)
  else
    let goal : WorkGoal :=
      { id := nextId (db.workGoals.map WorkGoal.id)
        messageId := create.messageId
        targetEarnings := create.targetEarnings
        targetTimeframe := some create.targetTimeframe.1
        targetDeadline := create.targetDeadline
        targetEarnings_pos := create.targetEarnings_pos }
    .ok (goal, { db with workGoals := db.workGoals ++ [goal] })

section
variable {db d : Database}

theorem insertJob_ok {create : JobCreate} {job : Job} (h : insertJob create db = .ok (job, d)) :
    (∀ j ∈ db.jobs, j.messageId ≠ create.messageId) ∧ job.messageId = create.messageId ∧
      d = { db with jobs := db.jobs ++ [job] } := by
  unfold insertJob at h
  split_ifs at h with _ hseen
  cases h
  refine ⟨fun j hj hid => hseen ?_, rfl, rfl⟩
  exact List.any_eq_true.mpr ⟨j, hj, decide_eq_true hid⟩

/-- Where the message is stored and has no job yet, a row which fits is inserted. -/
theorem insertJob_of_fits {create : JobCreate}
    (hfresh : ∀ j ∈ db.jobs, j.messageId ≠ create.messageId)
    (hmessage : create.messageId ∈ db.messages.map Message.id) (hfits : create.fits = true) :
    ∃ job, insertJob create db = .ok (job, { db with jobs := db.jobs ++ [job] }) := by
  have hunique : (db.jobs.any fun j => decide (j.messageId = create.messageId)) = false :=
    any_key_eq_false hfresh
  have hknown : (db.messages.all fun m => decide (m.id ≠ create.messageId)) = false :=
    all_key_ne_eq_false (List.mem_map.mp hmessage)
  simp only [insertJob, hfits, hunique, hknown, Bool.not_true, Bool.false_eq_true, if_false]
  exact ⟨_, rfl⟩

theorem insertWorkGoal_of_fits {create : WorkGoalCreate}
    (hfresh : ∀ g ∈ db.workGoals, g.messageId ≠ create.messageId)
    (hmessage : create.messageId ∈ db.messages.map Message.id) (hfits : create.fits = true) :
    ∃ goal, insertWorkGoal create db =
        .ok (goal, { db with workGoals := db.workGoals ++ [goal] }) ∧
      goal.targetEarnings = create.targetEarnings ∧
        goal.targetDeadline = create.targetDeadline := by
  have hunique : (db.workGoals.any fun g => decide (g.messageId = create.messageId)) = false :=
    any_key_eq_false hfresh
  have hknown : (db.messages.all fun m => decide (m.id ≠ create.messageId)) = false :=
    all_key_ne_eq_false (List.mem_map.mp hmessage)
  simp only [insertWorkGoal, hfits, hunique, hknown, Bool.not_true, Bool.false_eq_true, if_false]
  exact ⟨_, rfl, rfl, rfl⟩

/-- A row which is inserted fits. -/
theorem insertJob_fits {create : JobCreate} {job : Job} (h : insertJob create db = .ok (job, d)) :
    create.fits = true := by
  unfold insertJob at h
  split_ifs at h with hfits
  simpa using hfits

theorem insertWorkGoal_fits {create : WorkGoalCreate} {goal : WorkGoal}
    (h : insertWorkGoal create db = .ok (goal, d)) : create.fits = true := by
  unfold insertWorkGoal at h
  split_ifs at h with hfits
  simpa using hfits

theorem insertJob_id {create : JobCreate} {job : Job} (h : insertJob create db = .ok (job, d)) :
    job.id ∉ db.jobs.map Job.id := by
  unfold insertJob at h
  split_ifs at h
  cases h
  exact nextId_notMem _

theorem insertJob_description {create : JobCreate} {job : Job}
    (h : insertJob create db = .ok (job, d)) : job.description = some create.description.1 := by
  unfold insertJob at h
  split_ifs at h
  cases h
  rfl

/-- The foreign key of a job leads to a stored message. -/
theorem insertJob_message {create : JobCreate} {job : Job}
    (h : insertJob create db = .ok (job, d)) : create.messageId ∈ db.messages.map Message.id := by
  unfold insertJob at h
  split_ifs at h with _ _ hknown
  by_contra hnone
  apply hknown
  refine List.all_eq_true.mpr fun m hm => decide_eq_true ?_
  intro hid
  exact hnone (hid ▸ List.mem_map_of_mem hm)

theorem insertWorkGoal_id {create : WorkGoalCreate} {goal : WorkGoal}
    (h : insertWorkGoal create db = .ok (goal, d)) : goal.id ∉ db.workGoals.map WorkGoal.id := by
  unfold insertWorkGoal at h
  split_ifs at h
  cases h
  exact nextId_notMem _

theorem insertWorkGoal_message {create : WorkGoalCreate} {goal : WorkGoal}
    (h : insertWorkGoal create db = .ok (goal, d)) :
    create.messageId ∈ db.messages.map Message.id := by
  unfold insertWorkGoal at h
  split_ifs at h with _ _ hknown
  simpa using hknown

theorem insertWorkGoal_ok {create : WorkGoalCreate} {goal : WorkGoal}
    (h : insertWorkGoal create db = .ok (goal, d)) :
    (∀ g ∈ db.workGoals, g.messageId ≠ create.messageId) ∧ goal.messageId = create.messageId ∧
      d = { db with workGoals := db.workGoals ++ [goal] } := by
  unfold insertWorkGoal at h
  split_ifs at h with _ hseen
  cases h
  refine ⟨fun g hg hid => hseen ?_, rfl, rfl⟩
  exact List.any_eq_true.mpr ⟨g, hg, decide_eq_true hid⟩

/-- What the tables refuse they refuse as an infrastructure error. -/
theorem insertJob_ne_app {create : JobCreate} (e : AppError) :
    insertJob create db ≠ .error (.app e) := by
  unfold insertJob
  split_ifs <;> simp

theorem insertWorkGoal_ne_app {create : WorkGoalCreate} (e : AppError) :
    insertWorkGoal create db ≠ .error (.app e) := by
  unfold insertWorkGoal
  split_ifs <;> simp

theorem ofExtraction_messageId {fromisoformat : String → Option Datetime} {messageId : ℕ}
    {extracted : JobExtraction} {create : JobCreate}
    (h : JobCreate.ofExtraction fromisoformat messageId extracted = some create) :
    create.messageId = messageId := by
  unfold JobCreate.ofExtraction at h
  split_ifs at h
  cases h
  rfl

theorem ofExtraction_description {fromisoformat : String → Option Datetime} {messageId : ℕ}
    {extracted : JobExtraction} {create : JobCreate}
    (h : JobCreate.ofExtraction fromisoformat messageId extracted = some create) :
    create.description = extracted.description := by
  unfold JobCreate.ofExtraction at h
  split_ifs at h
  cases h
  rfl

theorem workGoal_ofExtraction_messageId {fromisoformat : String → Option Datetime}
    {messageId : ℕ} {extracted : WorkGoalExtraction} {create : WorkGoalCreate}
    (h : WorkGoalCreate.ofExtraction fromisoformat messageId extracted = some create) :
    create.messageId = messageId := by
  unfold WorkGoalCreate.ofExtraction at h
  split_ifs at h
  cases h
  rfl

theorem workGoal_ofExtraction_earnings {fromisoformat : String → Option Datetime}
    {messageId : ℕ} {extracted : WorkGoalExtraction} {create : WorkGoalCreate}
    (h : WorkGoalCreate.ofExtraction fromisoformat messageId extracted = some create) :
    create.targetEarnings = amountCents extracted.targetEarnings := by
  unfold WorkGoalCreate.ofExtraction at h
  split_ifs at h
  cases h
  rfl

theorem workGoal_ofExtraction_deadline {fromisoformat : String → Option Datetime}
    {messageId : ℕ} {extracted : WorkGoalExtraction} {create : WorkGoalCreate}
    (h : WorkGoalCreate.ofExtraction fromisoformat messageId extracted = some create) :
    create.targetDeadline = Datetime.coerceLlmDatetime fromisoformat
      (extracted.targetDeadline.map Subtype.val) := by
  unfold WorkGoalCreate.ofExtraction at h
  split_ifs at h
  cases h
  rfl

end

end Vici.RowCreation
