import Vici.TableIntegrity

/-!
# The audit log as a journal of the messages

Every durable change of a message leaves its rows in the audit log, in the same
commit. So the log and the other tables can be read against each other: the
counts of a message's events are the counts of its rows, a message has a type
once a classification is on record, and a row without a message tells of a
delivery which was turned away.
-/
namespace Vici.AuditJournal
open Models AppPrograms SmsRepositories RowCreation DeliveryFootprints ActionRuns
open RateLimitPurge PersistedMatches SyncQueueRepository ServiceRuns TableIntegrity

/-- The rows of an event which are linked to a message. -/
def notes (event : AuditEvent) (messageId : ℕ) (d : Database) : ℕ :=
  d.auditLogs.countP fun row => decide (row.event = event ∧ row.messageId = some messageId)

def jobsOf (messageId : ℕ) (d : Database) : ℕ :=
  d.jobs.countP fun j => decide (j.messageId = messageId)

def workGoalsOf (messageId : ℕ) (d : Database) : ℕ :=
  d.workGoals.countP fun g => decide (g.messageId = messageId)

/-- What is on record of a message of the type. -/
structure Recorded (d : Database) (messageId : ℕ) (t : Option MessageType) : Prop where
  received : notes .received messageId d = 1
  jobCreated : notes .jobCreated messageId d = jobsOf messageId d
  workGoalCreated : notes .workGoalCreated messageId d = workGoalsOf messageId d
  /-- Each of the two rows was made by a classification of its own. -/
  gptClassified : jobsOf messageId d + workGoalsOf messageId d ≤ notes .gptClassified messageId d
  typed : t.isSome ↔ 0 < notes .gptClassified messageId d
  jobPosting : t = some .jobPosting → jobsOf messageId d = 1
  workGoal : t = some .workGoal → workGoalsOf messageId d = 1
  one_job : jobsOf messageId d ≤ 1
  one_workGoal : workGoalsOf messageId d ≤ 1

/-- The row is of a delivery which was turned away. -/
def TurnedAway (row : AuditLog) : Prop := row.event = .duplicate ∨ row.event = .rateLimited

structure Journal (d : Database) : Prop where
  recorded : ∀ m ∈ d.messages, Recorded d m.id m.messageType
  linked : ∀ row ∈ d.auditLogs, ∀ i ∈ row.messageId,
    ∃ m ∈ d.messages, m.id = i ∧ m.messageSid = row.messageSid
  unlinked : ∀ row ∈ d.auditLogs, row.messageId = none ↔ TurnedAway row
  duplicates : ∀ row ∈ d.auditLogs, row.event = .duplicate → row.messageSid ∈ sids d

theorem journal_empty : Journal .empty := by
  constructor <;> simp [Database.empty]

section
variable {hmac : String → String} {d d' : Database} {i : ℕ} {t : Option MessageType}
variable {event : AuditEvent} {messageSid : String} {messageId : Option ℕ}

theorem notes_audited (event' : AuditEvent) :
    notes event i (audited messageSid event' messageId d) =
      notes event i d + if event' = event ∧ messageId = some i then 1 else 0 := by
  rw [notes, audited, List.countP_append, List.countP_singleton]
  simp [notes]

theorem jobsOf_concat (job : Job) :
    jobsOf i { d with jobs := d.jobs ++ [job] } =
      jobsOf i d + if job.messageId = i then 1 else 0 := by
  rw [jobsOf, List.countP_append, List.countP_singleton]
  simp [jobsOf]

theorem workGoalsOf_concat (goal : WorkGoal) :
    workGoalsOf i { d with workGoals := d.workGoals ++ [goal] } =
      workGoalsOf i d + if goal.messageId = i then 1 else 0 := by
  rw [workGoalsOf, List.countP_append, List.countP_singleton]
  simp [workGoalsOf]

theorem jobsOf_eq_zero (h : ∀ j ∈ d.jobs, j.messageId ≠ i) : jobsOf i d = 0 :=
  List.countP_eq_zero.mpr fun j hj => by simpa using h j hj

theorem workGoalsOf_eq_zero (h : ∀ g ∈ d.workGoals, g.messageId ≠ i) : workGoalsOf i d = 0 :=
  List.countP_eq_zero.mpr fun g hg => by simpa using h g hg

theorem notes_eq_zero (h : ∀ row ∈ d.auditLogs, row.messageId ≠ some i) : notes event i d = 0 :=
  List.countP_eq_zero.mpr fun row hrow => by simpa using fun _ => h row hrow

/-- The counts of a message are the same in both databases. -/
structure SameCounts (i : ℕ) (d d' : Database) : Prop where
  notes : ∀ event, notes event i d' = notes event i d
  jobsOf : jobsOf i d' = jobsOf i d
  workGoalsOf : workGoalsOf i d' = workGoalsOf i d

theorem Recorded.congr (h : Recorded d i t) (hsame : SameCounts i d d') : Recorded d' i t := by
  obtain ⟨hnotes, hjobs, hgoals⟩ := hsame
  constructor <;> simp only [hnotes, hjobs, hgoals]
  · exact h.received
  · exact h.jobCreated
  · exact h.workGoalCreated
  · exact h.gptClassified
  · exact h.typed
  · exact h.jobPosting
  · exact h.workGoal
  · exact h.one_job
  · exact h.one_workGoal

/-- Rows of one message go to the end of the journal. -/
theorem Journal.extended {rows : List AuditLog} (h : Journal d) (i : ℕ) (messageSid : String)
    (hlogs : d'.auditLogs = d.auditLogs ++ rows)
    (hrows : ∀ row ∈ rows, row.messageId = some i ∧ row.messageSid = messageSid ∧ ¬TurnedAway row)
    (hkept : ∀ m ∈ d.messages, ∃ n ∈ d'.messages, n.id = m.id ∧ n.messageSid = m.messageSid)
    (hmessage : ∃ m ∈ d'.messages, m.id = i ∧ m.messageSid = messageSid)
    (hrecorded : ∀ m ∈ d'.messages, Recorded d' m.id m.messageType) : Journal d' := by
  refine ⟨hrecorded, ?_, ?_, ?_⟩ <;> rw [hlogs]
  · intro row hrow j hj
    rcases List.mem_append.mp hrow with hrow | hrow
    · obtain ⟨m, hm, rfl, hsid⟩ := h.linked row hrow j hj
      obtain ⟨n, hn, hid, hnsid⟩ := hkept m hm
      exact ⟨n, hn, hid, hnsid.trans hsid⟩
    · obtain ⟨hof, hsid, _⟩ := hrows row hrow
      obtain rfl : i = j := Option.some.inj (hof.symm.trans hj)
      rw [hsid]
      exact hmessage
  · intro row hrow
    rcases List.mem_append.mp hrow with hrow | hrow
    · exact h.unlinked row hrow
    · obtain ⟨hof, _, haway⟩ := hrows row hrow
      simp [hof, haway]
  · intro row hrow hevent
    rcases List.mem_append.mp hrow with hrow | hrow
    · obtain ⟨m, hm, hsid⟩ := List.mem_map.mp (h.duplicates row hrow hevent)
      obtain ⟨n, hn, _, hnsid⟩ := hkept m hm
      exact List.mem_map.mpr ⟨n, hn, hnsid.trans hsid⟩
    · exact absurd (.inl hevent) (hrows row hrow).2.2

theorem Journal.congr (h : Journal d) (hmessages : d'.messages = d.messages)
    (hlogs : d'.auditLogs = d.auditLogs) (hjobs : d'.jobs = d.jobs)
    (hgoals : d'.workGoals = d.workGoals) : Journal d' := by
  refine ⟨?_, ?_, ?_, ?_⟩
  · rw [hmessages]
    refine fun m hm => (h.recorded m hm).congr ⟨fun event => ?_, ?_, ?_⟩
    · rw [notes, hlogs, notes]
    · rw [jobsOf, hjobs, jobsOf]
    · rw [workGoalsOf, hgoals, workGoalsOf]
  · rw [hlogs, hmessages]
    exact h.linked
  · rw [hlogs]
    exact h.unlinked
  · rw [hlogs, sids, hmessages]
    exact h.duplicates

theorem Journal.rejected (h : Journal d)
    (hevent : event = .rateLimited ∨ event = .duplicate ∧ messageSid ∈ sids d) :
    Journal (audited messageSid event none d) := by
  refine ⟨fun m hm => (h.recorded m hm).congr ⟨fun event' => ?_, rfl, rfl⟩, ?_, ?_, ?_⟩
  · simp [notes_audited]
  · intro row hrow j hj
    rcases List.mem_append.mp hrow with hrow | hrow
    · exact h.linked row hrow j hj
    · rw [List.mem_singleton.mp hrow] at hj
      cases hj
  · intro row hrow
    rcases List.mem_append.mp hrow with hrow | hrow
    · exact h.unlinked row hrow
    · rw [List.mem_singleton.mp hrow]
      rcases hevent with rfl | ⟨rfl, _⟩ <;> simp [TurnedAway]
  · intro row hrow hduplicate
    rcases List.mem_append.mp hrow with hrow | hrow
    · exact h.duplicates row hrow hduplicate
    · rw [List.mem_singleton.mp hrow] at hduplicate ⊢
      rcases hevent with rfl | ⟨rfl, hsid⟩
      · cases hduplicate
      · exact hsid

/-- A message comes in with its first row, and its key is in no table before. -/
theorem Journal.stored {inbound : Webhook.InboundSms} {message : Message} (hd : Intact d)
    (h : Journal d) (hok : storeMessage inbound d = .ok (message, d')) : Journal d' := by
  have hnone : message.messageType = none := by
    obtain ⟨_, hinsert, _⟩ := storeMessage_parts hok
    exact (insertMessage_ok hinsert).2.2.2.1
  obtain ⟨_, hsid, _, hid, rfl⟩ := storeMessage_ok hok
  have hfresh : message.id ∉ d.messages.map Message.id := hid ▸ nextId_notMem _
  have hnotes (event : AuditEvent) : notes event message.id d = 0 :=
    notes_eq_zero fun row hrow hof => hfresh (hd.auditMessages row hrow _ hof)
  have hjobs : jobsOf message.id d = 0 :=
    jobsOf_eq_zero fun j hj hof => hfresh (hof ▸ hd.jobMessages j hj)
  have hgoals : workGoalsOf message.id d = 0 :=
    workGoalsOf_eq_zero fun g hg hof => hfresh (hof ▸ hd.goalMessages g hg)
  refine h.extended message.id inbound.messageSid rfl ?_ ?_ ?_ ?_
  · intro row hrow
    rw [List.mem_singleton.mp hrow]
    exact ⟨rfl, rfl, by simp [TurnedAway]⟩
  · exact fun m hm => ⟨m, List.mem_append_left _ hm, rfl, rfl⟩
  · exact ⟨message, List.mem_append_right _ (List.mem_singleton_self _), rfl, hsid⟩
  · intro m hm
    rcases List.mem_append.mp hm with hm | hm
    · have hne : message.id ≠ m.id := fun heq => hfresh (heq ▸ List.mem_map_of_mem hm)
      refine (h.recorded m hm).congr ⟨fun event => ?_, rfl, rfl⟩
      rw [notes_audited, if_neg (by simp [hne])]
      rfl
    · obtain rfl := List.mem_singleton.mp hm
      have hcount (event : AuditEvent) :
          notes event m.id (audited inbound.messageSid .received (some m.id)
            { d with messages := d.messages ++ [m] }) = if .received = event then 1 else 0 := by
        rw [notes_audited]
        change notes event m.id d + _ = _
        simp [hnotes]
      have hj : jobsOf m.id (audited inbound.messageSid .received (some m.id)
          { d with messages := d.messages ++ [m] }) = 0 := hjobs
      have hg : workGoalsOf m.id (audited inbound.messageSid .received (some m.id)
          { d with messages := d.messages ++ [m] }) = 0 := hgoals
      rw [hnone]
      constructor <;> simp [hcount, hj, hg]

/-- The event of the row which a unit of work of the type creates. -/
def rowEvent : MessageType → Option AuditEvent
  | .jobPosting => some .jobCreated
  | .workGoal => some .workGoalCreated
  | .unknown => none

/-- A unit of work counts one classification, and the row of its type where there was none. -/
theorem Recorded.worked {t₀ : Option MessageType} {t : MessageType} (h : Recorded d i t₀)
    (hnotes : ∀ event, notes event i d' = notes event i d +
      (if event = .gptClassified then 1 else 0) + if rowEvent t = some event then 1 else 0)
    (hjobs : jobsOf i d' = jobsOf i d + if t = .jobPosting then 1 else 0)
    (hgoals : workGoalsOf i d' = workGoalsOf i d + if t = .workGoal then 1 else 0)
    (hfreeJob : t = .jobPosting → jobsOf i d = 0)
    (hfreeGoal : t = .workGoal → workGoalsOf i d = 0) : Recorded d' i (some t) := by
  obtain ⟨hreceived, hjobCreated, hgoalCreated, hgpt, _, _, _, honeJob, honeGoal⟩ := h
  cases t <;> constructor <;> simp [hnotes, hjobs, hgoals, rowEvent] <;> grind

/-- The counts of one message change only, and it is recorded with its new type. -/
theorem Journal.worked {m : Message} {t : MessageType} {raw : String} {rows : List AuditLog}
    (h : Journal d) (hm : m ∈ d.messages)
    (hmessages : d'.messages = d.messages.map (classifyRow m.id t raw))
    (hlogs : d'.auditLogs = d.auditLogs ++ rows)
    (hrows : ∀ row ∈ rows, row.messageId = some m.id ∧ row.messageSid = m.messageSid ∧
      ¬TurnedAway row)
    (hothers : ∀ i, m.id ≠ i → SameCounts i d d') (hof : Recorded d' m.id (some t)) :
    Journal d' := by
  have hkept : ∀ n ∈ d.messages, ∃ n' ∈ d'.messages, n'.id = n.id ∧
      n'.messageSid = n.messageSid := by
    intro n hn
    rw [hmessages]
    exact ⟨_, List.mem_map_of_mem hn, classifyRow_id .., classifyRow_messageSid ..⟩
  refine h.extended m.id m.messageSid hlogs hrows hkept (hkept m hm) ?_
  rw [hmessages]
  intro n' hn'
  obtain ⟨n, hn, rfl⟩ := List.mem_map.mp hn'
  rw [classifyRow_id]
  by_cases hid : n.id = m.id
  · rw [classifyRow, if_pos hid, hid]
    exact hof
  · rw [classifyRow, if_neg hid]
    exact (h.recorded n hn).congr (hothers n.id (Ne.symm hid))

/-- A unit of work records a classification, the row made from it, and its type. -/
theorem Journal.committed {searcher : MatchService.JobEmbeddingSearcher}
    {input : Attempts.ProcessMessageInput}
    {faults : List (Option AppFault)} {actions : List PostCommitAction} (h : Journal d)
    (hcommits : Commits hmac searcher input faults d d' actions) : Journal d' := by
  have hmine {m : Message} (hfound : Found input d m) :
      m ∈ d.messages ∧ input.messageSid = m.messageSid :=
    ⟨List.mem_of_find?_eq_some hfound, (by simpa using List.find?_some hfound : _ = _).symm⟩
  cases hcommits with
  | @unknown m raw hfound =>
      obtain ⟨hm, hsid⟩ := hmine hfound
      have hnotes (event : AuditEvent) (i : ℕ) :
          notes event i (classified m.id .unknown raw
            (audited input.messageSid .gptClassified (some m.id) d)) =
          notes event i d + if .gptClassified = event ∧ some m.id = some i then 1 else 0 :=
        notes_audited _
      refine h.worked hm rfl rfl ?_ (fun i hi => ⟨fun event => ?_, rfl, rfl⟩)
        ((h.recorded m hm).worked (fun event => ?_) rfl rfl (by simp) (by simp))
      · simp [hsid, TurnedAway]
      · simp [hnotes, hi]
      · simp [hnotes, rowEvent, eq_comm]
  | @jobPosting m raw create job d₁ hfound hcreate hinsert =>
      obtain ⟨hm, hsid⟩ := hmine hfound
      obtain ⟨hnew, hof, rfl⟩ := insertJob_ok hinsert
      have hnotes (event : AuditEvent) (i : ℕ) :
          notes event i (classified m.id .jobPosting raw (audited input.messageSid .jobCreated
            (some m.id) { audited input.messageSid .gptClassified (some m.id) d with
              jobs := d.jobs ++ [job] })) =
          notes event i d + (if .gptClassified = event ∧ some m.id = some i then 1 else 0) +
            if .jobCreated = event ∧ some m.id = some i then 1 else 0 := by
        rw [← notes_audited .gptClassified]
        exact notes_audited _
      have hjobs (i : ℕ) : jobsOf i { audited input.messageSid .gptClassified (some m.id) d with
          jobs := d.jobs ++ [job] } = jobsOf i d + if m.id = i then 1 else 0 := by
        rw [← hcreate, ← hof]
        exact jobsOf_concat job
      refine h.worked hm rfl (List.append_assoc ..) ?_ (fun i hi => ⟨fun event => ?_, ?_, rfl⟩)
        ((h.recorded m hm).worked (fun event => ?_) ?_ rfl (fun _ => ?_) (by simp))
      · simp [hsid, TurnedAway]
      · exact (hnotes event i).trans (by simp [hi])
      · exact (hjobs i).trans (by simp [hi])
      · exact (hnotes event m.id).trans (by simp [rowEvent, eq_comm])
      · exact (hjobs m.id).trans (by simp)
      · exact jobsOf_eq_zero (hcreate ▸ hnew)
  | @workGoal m raw create goal d₁ _ _ _ _ hfound hcreate hinsert _ _ _ _ =>
      obtain ⟨hm, hsid⟩ := hmine hfound
      obtain ⟨hnew, hof, rfl⟩ := insertWorkGoal_ok hinsert
      have hnotes (event : AuditEvent) (i : ℕ) :
          notes event i (audited input.messageSid .workGoalCreated
            (some m.id) { audited input.messageSid .gptClassified (some m.id) d with
              workGoals := d.workGoals ++ [goal] }) =
          notes event i d + (if .gptClassified = event ∧ some m.id = some i then 1 else 0) +
            if .workGoalCreated = event ∧ some m.id = some i then 1 else 0 := by
        rw [← notes_audited .gptClassified]
        exact notes_audited _
      have hgoals (i : ℕ) :
          workGoalsOf i { audited input.messageSid .gptClassified (some m.id) d with
            workGoals := d.workGoals ++ [goal] } =
          workGoalsOf i d + if m.id = i then 1 else 0 := by
        rw [← hcreate, ← hof]
        exact workGoalsOf_concat goal
      refine h.worked hm rfl (List.append_assoc ..) ?_ (fun i hi => ⟨fun event => ?_, rfl, ?_⟩)
        ((h.recorded m hm).worked (fun event => ?_) rfl ?_ (by simp) (fun _ => ?_))
      · simp [hsid, TurnedAway]
      · exact (hnotes event i).trans (by simp [hi])
      · exact (hgoals i).trans (by simp [hi])
      · exact (hnotes event m.id).trans (by simp [rowEvent, eq_comm])
      · exact (hgoals m.id).trans (by simp)
      · exact workGoalsOf_eq_zero (hcreate ▸ hnew)

theorem Journal.writes (hd : Intact d) (h : Journal d) (hwrites : Writes hmac d d') :
    Journal d' := by
  cases hwrites with
  | kept => exact h
  | rejected hevent => exact h.rejected hevent
  | counted hok =>
      obtain ⟨_, rfl⟩ := insertRateLimit_ok hok
      exact h.congr rfl rfl rfl rfl
  | upserted hok =>
      obtain ⟨_, _, _, rfl⟩ := upsertUser_ok hok
      exact h.congr rfl rfl rfl rfl
  | stored hok => exact h.stored hd hok
  | committed hcommits => exact h.committed hcommits
  | queued hok =>
      obtain ⟨_, rfl⟩ := insertEntry_ok hok
      exact h.congr rfl rfl rfl rfl
  | marked hmarks =>
      obtain ⟨_, rfl, _⟩ := hmarks
      exact h.congr rfl rfl rfl rfl
  | purged => exact h.congr rfl rfl rfl rfl

end

section
variable {cfg : Webhook.Config} {fromisoformat : String → Option Datetimes.Datetime}
variable {requests : ℕ → Webhook.Request} {s t : State} {a : Action} {d : Database}

theorem journal_step (hs : Sane s ∧ Journal s.database)
    (h : step cfg fromisoformat requests s a = some t) : Sane t ∧ Journal t.database :=
  ⟨sane_step hs.1 h, hs.2.writes hs.1.intact (hs.1.writes h)⟩

/-- In every state of the service the log is a journal of the other tables. -/
theorem journal_reachable (hd : Intact d) (hjournal : Journal d)
    (h : Reachable (step cfg fromisoformat requests) (initial d) t) : Journal t.database :=
  (reachable_invariant (fun s => Sane s ∧ Journal s.database) (fun _ _ _ => journal_step)
    ⟨sane_initial hd, hjournal⟩ h).2

end

theorem journal_reachable_swept :
    ∃ s, exec (step (Webhook.unsignedConfig 5 60) (fun _ => none) DeliveryRaces.deliveredTwice)
        (initial .empty) sweptAndPurged = some s ∧ s.database.messages ≠ [] ∧
      notes .jobCreated 1 s.database = 1 ∧ Journal s.database := by
  have hrun : (exec (step (Webhook.unsignedConfig 5 60) (fun _ => none)
      DeliveryRaces.deliveredTwice) (initial .empty) sweptAndPurged).map (fun s =>
        (s.database.messages ≠ [] ∧ notes .jobCreated 1 s.database = 1 : Bool)) = some true := by
    decide +kernel
  obtain ⟨s, hrun, hcounts⟩ := Option.map_eq_some_iff.mp hrun
  obtain ⟨hmessages, hnotes⟩ := of_decide_eq_true hcounts
  exact ⟨s, hrun, hmessages, hnotes,
    journal_reachable intact_empty journal_empty ⟨sweptAndPurged, hrun⟩⟩

end Vici.AuditJournal
