import Vici.Orchestrator
import Vici.ActionRuns

/-!
# Attempts at one message

The workflow runs the activity again when an attempt fails or its
acknowledgement is lost, and every attempt asks for a new classification. The
tables refuse a second job and a second work goal of a message, but nothing
relates one table to the other or to the recorded classification. So a message
keeps one meaning as long as a classification which has led to a row is not
contradicted by a later attempt.
-/
namespace Vici.Attempts
open Models Datetimes AppPrograms SessionPrograms SmsRepositories RowCreation MatchService
open Handlers Orchestrator ActionRuns
open Program (Triple Keeps Staged)

structure ProcessMessageInput where
  messageSid : String
  fromNumber : String
  body : String

/-- One session for the lookup of the message and the run of the orchestrator. -/
def processMessageActivity (hmac : String → String) (o : PipelineOrchestrator)
    (gpt : ExtractionService) (input : ProcessMessageInput) : App Unit := do
  let phoneHash ← hashPhone hmac input.fromNumber
  .closing (do
    bindParameters (isText input.messageSid)
    let row ← .query fun db => db.messages.find? fun m => decide (m.messageSid = input.messageSid)
    match row with
    | none => .raise .messageNotFound
    | some message => do
        let _ ← run o gpt ⟨input.body, phoneHash, message.id, message.userId,
          input.messageSid, input.fromNumber⟩
        pure ())

/-- An attempt does nothing on its own: what a run keeps, and the database as it was
found satisfies, holds however the attempt ends. -/
theorem processMessageActivity_triple (hmac : String → String) {o : PipelineOrchestrator}
    {gpt : ExtractionService} {input : ProcessMessageInput} {d : Database}
    {P : Program.Assertion Database Effect}
    (hback : ∀ s, P s → P { s with session := s.committed })
    (hfound : ∀ s : AppStore, s.committed = d → s.session = d → s.log = [] → P s)
    (hrun : ∀ message phoneHash,
      d.messages.find? (fun m => decide (m.messageSid = input.messageSid)) = some message →
        Triple (fun s => s.committed = d ∧ s.session = d ∧ s.log = [])
          (run o gpt ⟨input.body, phoneHash, message.id, message.userId, input.messageSid,
            input.fromNumber⟩) (fun _ => P) (fun _ => P)) :
    Triple (fun s => s.committed = d ∧ s.session = d ∧ s.log = [])
      (processMessageActivity hmac o gpt input) (fun _ => P) (fun _ => P) := by
  have hstart (s : AppStore) (hs : s.committed = d ∧ s.session = d ∧ s.log = []) : P s :=
    hfound s hs.1 hs.2.1 hs.2.2
  refine .bind (Q := fun _ s => s.committed = d ∧ s.session = d ∧ s.log = []) ?_ fun phoneHash => ?_
  · exact (hashPhone_triple hmac _ _).consequence (fun _ hs => hs) (fun _ _ hs => hs.1)
      fun _ => hstart
  · refine .closing (.bind (bindParameters_triple fun _ s _ hs => hback s (hstart s hs))
      fun _ => .bind (Q := fun row s => (s.committed = d ∧ s.session = d ∧ s.log = []) ∧
        row = d.messages.find? fun m => decide (m.messageSid = input.messageSid))
        (.query (fun _ s _ hs => hback s (hstart s hs.1)) fun s hs => ⟨hs.1, by rw [hs.1.2.1]⟩)
        fun row => ?_)
    split
    · exact .raise fun s hs => hback s (hstart s hs.1)
    · rename_i message
      rintro w ⟨hw, hrow⟩
      have hbody : Triple (fun s => s.committed = d ∧ s.session = d ∧ s.log = []) (do
          let _ ← run o gpt ⟨input.body, phoneHash, message.id, message.userId,
            input.messageSid, input.fromNumber⟩
          pure ()) (fun _ s => P { s with session := s.committed })
          (fun _ s => P { s with session := s.committed }) :=
        .bind ((hrun message phoneHash hrow.symm).consequence (fun _ hs => hs)
          (fun _ _ hs => hs) fun _ s hs => hback s hs) fun _ => .pure fun s hs => hback s hs
      exact hbody w hw

/-- The part of an attempt which ends with the commit; it returns the registered actions. -/
def commitMessage (hmac : String → String) (o : PipelineOrchestrator) (gpt : ExtractionService)
    (input : ProcessMessageInput) : App (List PostCommitAction) := do
  let phoneHash ← hashPhone hmac input.fromNumber
  .closing (do
    bindParameters (isText input.messageSid)
    let row ← .query fun db => db.messages.find? fun m => decide (m.messageSid = input.messageSid)
    match row with
    | none => .raise .messageNotFound
    | some message => do
        let staged ← stage o gpt ⟨input.body, phoneHash, message.id, message.userId,
          input.messageSid, input.fromNumber⟩
        .commit
        pure staged.2)

/-- An attempt is this part, followed by its actions. -/
theorem processMessageActivity_eq (hmac : String → String) (o : PipelineOrchestrator)
    (gpt : ExtractionService) (input : ProcessMessageInput) :
    processMessageActivity hmac o gpt input = (do
      let actions ← commitMessage hmac o gpt input
      .closing (.forEach runAction actions)) := by
  unfold processMessageActivity commitMessage
  rw [bind_assoc]
  congr 1
  funext phoneHash
  rw [← Program.closing_bind]
  · congr 1
    simp only [bind_assoc]
    congr 1
    funext _
    congr 1
    funext row
    cases row with
    | none => rfl
    | some message => simp only [run, finish, bind_assoc, pure_bind, bind_pure_unit]
  · intro w actions w' h
    obtain ⟨_, w₀, _, h⟩ := Program.run_bind_ok h
    obtain ⟨row, w₁, _, h⟩ := Program.run_bind_ok h
    cases row with
    | none => cases h
    | some message =>
        obtain ⟨staged, w₂, _, h⟩ := Program.run_bind_ok h
        obtain ⟨_, w₃, hcommit, h⟩ := Program.run_bind_ok h
        cases h
        rw [Program.run_commit_ok hcommit]

/-- The part of an attempt before its commit. -/
def stageMessage (hmac : String → String) (o : PipelineOrchestrator) (gpt : ExtractionService)
    (input : ProcessMessageInput) : App (List PostCommitAction) := do
  let phoneHash ← hashPhone hmac input.fromNumber
  bindParameters (isText input.messageSid)
  let row ← .query fun db => db.messages.find? fun m => decide (m.messageSid = input.messageSid)
  match row with
  | none => .raise .messageNotFound
  | some message => do
      let staged ← stage o gpt ⟨input.body, phoneHash, message.id, message.userId,
        input.messageSid, input.fromNumber⟩
      pure staged.2

section
variable {hmac : String → String} {input : ProcessMessageInput} {gpt : ExtractionService}
variable {o : PipelineOrchestrator} {w : AppWorld}

/-- An attempt stages, commits, and drops its session however that has ended. -/
theorem run_commitMessage (hmac : String → String) (o : PipelineOrchestrator)
    (gpt : ExtractionService) (input : ProcessMessageInput) (d : Database)
    (faults : List (Option AppFault)) {r : Except AppStop (List PostCommitAction)}
    (h : (do
      let actions ← stageMessage hmac o gpt input
      .commit
      pure actions : App (List PostCommitAction)).run (.opened d faults) = (r, w)) :
    (commitMessage hmac o gpt input).run (.opened d faults) =
      (r, { w with store := { w.store with session := w.store.committed } }) := by
  have hbody (phoneHash : String) : (do
      let actions ← (do
        bindParameters (isText input.messageSid)
        let row ← .query fun db => db.messages.find? fun m =>
          decide (m.messageSid = input.messageSid)
        match row with
        | none => .raise .messageNotFound
        | some message => do
            let staged ← stage o gpt ⟨input.body, phoneHash, message.id, message.userId,
              input.messageSid, input.fromNumber⟩
            pure staged.2)
      .commit
      pure actions : App (List PostCommitAction)) = (do
        bindParameters (isText input.messageSid)
        let row ← .query fun db => db.messages.find? fun m =>
          decide (m.messageSid = input.messageSid)
        match row with
        | none => .raise .messageNotFound
        | some message => do
            let staged ← stage o gpt ⟨input.body, phoneHash, message.id, message.userId,
              input.messageSid, input.fromNumber⟩
            .commit
            pure staged.2) := by
    simp only [bind_assoc]
    congr 1
    funext _
    congr 1
    funext row
    cases row with
    | none => rfl
    | some message => simp only [bind_assoc, pure_bind]
  unfold commitMessage
  unfold stageMessage at h
  rw [bind_assoc] at h
  by_cases hempty : input.fromNumber.isEmpty = true
  · rw [hashPhone, if_pos hempty] at h ⊢
    cases h
    rfl
  · have hhash := run_hashPhone hmac (by simpa using hempty) (.opened d faults)
    rw [Program.run_bind_of_ok hhash] at h ⊢
    rw [hbody] at h
    exact Program.run_closing h

/-- Before the commit nothing is durable and nothing is logged. -/
theorem stageMessage_settled {d : Database} :
    Triple (fun s => s.committed = d ∧ s.log = []) (stageMessage hmac o gpt input)
      (fun _ s => s.committed = d ∧ s.log = []) (fun _ s => s.committed = d ∧ s.log = []) := by
  refine .bind (Q := fun _ s => s.committed = d ∧ s.log = []) ?_ fun phoneHash => .bind
    ((bindParameters_triple fun _ _ _ hs => hs).consequence (fun _ hs => hs) (fun _ _ hs => hs.1)
      fun _ _ hs => hs) fun _ => .bind (Q := fun _ s => s.committed = d ∧ s.log = [])
        (.query (fun _ _ _ hs => hs) fun _ hs => hs) fun row => ?_
  · exact (hashPhone_triple hmac _ _).consequence (fun _ hs => hs) (fun _ _ hs => hs.1)
      fun _ _ hs => hs
  · split
    · exact .raise fun _ hs => hs
    · exact .bind (staged_stage.consequence (fun _ hs => hs) (fun _ _ hs => hs)
        fun _ _ hs => hs.1) fun staged => .pure fun _ hs => hs

end

def HasJob (d : Database) (messageId : ℕ) : Prop := ∃ j ∈ d.jobs, j.messageId = messageId

def HasWorkGoal (d : Database) (messageId : ℕ) : Prop :=
  ∃ g ∈ d.workGoals, g.messageId = messageId

instance (d : Database) (messageId : ℕ) : Decidable (HasJob d messageId) :=
  inferInstanceAs (Decidable (∃ j ∈ d.jobs, j.messageId = messageId))

instance (d : Database) (messageId : ℕ) : Decidable (HasWorkGoal d messageId) :=
  inferInstanceAs (Decidable (∃ g ∈ d.workGoals, g.messageId = messageId))

/-- The domain rows of a message, in both tables together. -/
def domainRows (d : Database) (messageId : ℕ) : ℕ :=
  d.jobs.countP (fun j => decide (j.messageId = messageId)) +
    d.workGoals.countP fun g => decide (g.messageId = messageId)

structure OneMeaning (messageId : ℕ) (d : Database) : Prop where
  at_most_one : domainRows d messageId ≤ 1
  jobPosting_iff : ∀ m ∈ d.messages, m.id = messageId →
    (m.messageType = some .jobPosting ↔ HasJob d messageId)
  workGoal_iff : ∀ m ∈ d.messages, m.id = messageId →
    (m.messageType = some .workGoal ↔ HasWorkGoal d messageId)
  otherwise : ∀ m ∈ d.messages, m.id = messageId →
    (m.messageType = some .unknown ∨ m.messageType = none) →
      ¬HasJob d messageId ∧ ¬HasWorkGoal d messageId

/-- The two databases agree on the tables which give a message its meaning. -/
structure SameRows (d d' : Database) : Prop where
  jobs : d'.jobs = d.jobs
  workGoals : d'.workGoals = d.workGoals
  messages : d'.messages = d.messages

theorem SameRows.refl (d : Database) : SameRows d d := ⟨rfl, rfl, rfl⟩

theorem OneMeaning.congr {messageId : ℕ} {d d' : Database} (h : OneMeaning messageId d)
    (hrows : SameRows d d') : OneMeaning messageId d' := by
  obtain ⟨hjobs, hgoals, hmessages⟩ := hrows
  constructor
  · rw [domainRows, hjobs, hgoals]
    exact h.at_most_one
  · rw [hmessages]
    simpa only [HasJob, hjobs] using h.jobPosting_iff
  · rw [hmessages]
    simpa only [HasWorkGoal, hgoals] using h.workGoal_iff
  · rw [hmessages]
    simpa only [HasJob, HasWorkGoal, hjobs, hgoals] using h.otherwise

/-- What a handler of the type adds to the domain tables. -/
def AddsRows (d : Database) (messageId : ℕ) (d' : Database) : MessageType → Prop
  | .jobPosting => ¬HasJob d messageId ∧ d'.workGoals = d.workGoals ∧
      ∃ j : Job, j.messageId = messageId ∧ d'.jobs = d.jobs ++ [j]
  | .workGoal => ¬HasWorkGoal d messageId ∧ d'.jobs = d.jobs ∧
      ∃ g : WorkGoal, g.messageId = messageId ∧ d'.workGoals = d.workGoals ++ [g]
  | .unknown => d'.jobs = d.jobs ∧ d'.workGoals = d.workGoals

/-- The type agrees with the row which the message has already. -/
def Agrees (d : Database) (messageId : ℕ) (t : MessageType) : Prop :=
  (HasJob d messageId → t = .jobPosting) ∧ (HasWorkGoal d messageId → t = .workGoal)

theorem countP_eq_zero_of_not_hasJob {d : Database} {messageId : ℕ} (h : ¬HasJob d messageId) :
    d.jobs.countP (fun j => decide (j.messageId = messageId)) = 0 :=
  List.countP_eq_zero.mpr fun j hj hid => h ⟨j, hj, of_decide_eq_true hid⟩

theorem countP_eq_zero_of_not_hasWorkGoal {d : Database} {messageId : ℕ}
    (h : ¬HasWorkGoal d messageId) :
    d.workGoals.countP (fun g => decide (g.messageId = messageId)) = 0 :=
  List.countP_eq_zero.mpr fun g hg hid => h ⟨g, hg, of_decide_eq_true hid⟩

/-- A message which is recorded with a type and has the row of that type has one meaning. -/
theorem OneMeaning.of_type {d : Database} {messageId : ℕ} {t : MessageType}
    (htype : ∀ m ∈ d.messages, m.id = messageId → m.messageType = some t)
    (hrows : domainRows d messageId ≤ 1) (hjob : HasJob d messageId ↔ t = .jobPosting)
    (hgoal : HasWorkGoal d messageId ↔ t = .workGoal) : OneMeaning messageId d := by
  constructor
  · exact hrows
  · intro m hm hid
    rw [htype m hm hid, hjob, Option.some.injEq]
  · intro m hm hid
    rw [htype m hm hid, hgoal, Option.some.injEq]
  · intro m hm hid hother
    rw [htype m hm hid] at hother
    rw [hjob, hgoal]
    rcases hother with hunknown | hnone
    · cases hunknown
      exact ⟨by decide, by decide⟩
    · cases hnone

/-- Rows of an agreeing type, recorded with that type, give the message one meaning. -/
theorem oneMeaning_of_addsRows {d d' : Database} {messageId : ℕ} {t : MessageType} {raw : String}
    (hagrees : Agrees d messageId t) (hrows : AddsRows d messageId d' t)
    (hmessages : d'.messages = d.messages.map (classifyRow messageId t raw)) :
    OneMeaning messageId d' := by
  have htype : ∀ m ∈ d'.messages, m.id = messageId → m.messageType = some t := by
    intro m hm hid
    rw [hmessages] at hm
    obtain ⟨n, _, rfl⟩ := List.mem_map.mp hm
    rw [classifyRow_id] at hid
    rw [classifyRow, if_pos hid]
  cases t with
  | jobPosting =>
      obtain ⟨hjob, hgoals, j, hj, hjobs⟩ := hrows
      have hgoal : ¬HasWorkGoal d messageId := fun h => by cases hagrees.2 h
      have hhas : HasJob d' messageId := ⟨j, by rw [hjobs]; simp, hj⟩
      have hnone : ¬HasWorkGoal d' messageId := by rwa [HasWorkGoal, hgoals]
      refine .of_type htype ?_ (iff_of_true hhas rfl) (iff_of_false hnone (by decide))
      rw [domainRows, hjobs, hgoals, List.countP_append, countP_eq_zero_of_not_hasJob hjob,
        countP_eq_zero_of_not_hasWorkGoal hgoal]
      simp [hj]
  | workGoal =>
      obtain ⟨hgoal, hjobs, g, hg, hgoals⟩ := hrows
      have hjob : ¬HasJob d messageId := fun h => by cases hagrees.1 h
      have hhas : HasWorkGoal d' messageId := ⟨g, by rw [hgoals]; simp, hg⟩
      have hnone : ¬HasJob d' messageId := by rwa [HasJob, hjobs]
      refine .of_type htype ?_ (iff_of_false hnone (by decide)) (iff_of_true hhas rfl)
      rw [domainRows, hjobs, hgoals, List.countP_append, countP_eq_zero_of_not_hasJob hjob,
        countP_eq_zero_of_not_hasWorkGoal hgoal]
      simp [hg]
  | unknown =>
      obtain ⟨hjobs, hgoals⟩ := hrows
      have hjob : ¬HasJob d messageId := fun h => by cases hagrees.1 h
      have hgoal : ¬HasWorkGoal d messageId := fun h => by cases hagrees.2 h
      have hjob' : ¬HasJob d' messageId := by rwa [HasJob, hjobs]
      have hgoal' : ¬HasWorkGoal d' messageId := by rwa [HasWorkGoal, hgoals]
      refine .of_type htype ?_ (iff_of_false hjob' (by decide)) (iff_of_false hgoal' (by decide))
      rw [domainRows, hjobs, hgoals, countP_eq_zero_of_not_hasJob hjob,
        countP_eq_zero_of_not_hasWorkGoal hgoal]
      omega

section
variable {fromisoformat : String → Option Datetime} {searcher : JobEmbeddingSearcher}
variable {ctx : PipelineContext} {d : Database}

theorem jobPostingHandle_triple :
    Triple (fun s => SameRows d s.session) (jobPostingHandle fromisoformat ctx)
      (fun _ s => s.session.messages = d.messages ∧
        AddsRows d ctx.messageId s.session .jobPosting) (fun _ _ => True) := by
  rcases jobPostingHandle_cases fromisoformat ctx with
    ⟨e, _, heq⟩ | ⟨extracted, create, _, hcreate, heq⟩
  · rw [heq]
    exact .raise fun _ _ => trivial
  · rw [heq]
    refine .bind (Q := fun _ s => s.session.messages = d.messages ∧
      AddsRows d ctx.messageId s.session .jobPosting) ?_ fun _ => .bind
        (keeps_writeAudit (fun _ _ hs => hs) _ _ _).triple fun _ => .pure fun _ hs => hs
    refine .statement_of_ok ?_
    rintro s job d' ⟨hjobs, hgoals, hmessages⟩ hok
    obtain ⟨hnew, hid, rfl⟩ := insertJob_ok hok
    rw [ofExtraction_messageId hcreate] at hnew hid
    refine ⟨hmessages, ?_, hgoals, job, hid, by rw [← hjobs]⟩
    rintro ⟨j, hj, hj'⟩
    exact hnew j (hjobs ▸ hj) hj'

theorem workGoalHandle_triple :
    Triple (fun s => SameRows d s.session) (workGoalHandle fromisoformat searcher ctx)
      (fun _ s => s.session.messages = d.messages ∧
        AddsRows d ctx.messageId s.session .workGoal) (fun _ _ => True) := by
  rcases workGoalHandle_cases fromisoformat searcher ctx with
    ⟨e, _, heq⟩ | ⟨extracted, create, _, hcreate, heq⟩
  · rw [heq]
    exact .raise fun _ _ => trivial
  · rw [heq]
    refine .bind (Q := fun _ s => s.session.messages = d.messages ∧
      AddsRows d ctx.messageId s.session .workGoal) ?_ fun wg => .bind
        (keeps_writeAudit (fun _ _ hs => hs) _ _ _).triple fun _ => .bind
          (keeps_matchJobs (fun _ _ hs => hs) (fun _ _ hs _ => hs) trivial trivial searcher
            wg _).triple
            fun _ => .pure fun _ hs => hs
    refine .statement_of_ok ?_
    rintro s goal d' ⟨hjobs, hgoals, hmessages⟩ hok
    obtain ⟨hnew, hid, rfl⟩ := insertWorkGoal_ok hok
    rw [workGoal_ofExtraction_messageId hcreate] at hnew hid
    refine ⟨hmessages, ?_, hjobs, goal, hid, by rw [← hgoals]⟩
    rintro ⟨g, hg, hg'⟩
    exact hnew g (hgoals ▸ hg) hg'

/-- Each handler of the production chain adds the rows of its type. -/
theorem dispatch_handle_triple (result : ExtractionResult) :
    Triple (fun s => SameRows d s.session)
      (((production fromisoformat searcher).dispatch result).handle ctx)
      (fun _ s => s.session.messages = d.messages ∧ AddsRows d ctx.messageId s.session
        ((production fromisoformat searcher).dispatch result).messageType)
      (fun _ _ => True) := by
  rcases dispatch_production fromisoformat searcher result with h | h | h
  · rw [h]
    exact jobPostingHandle_triple
  · rw [h]
    exact workGoalHandle_triple
  · rw [h]
    exact .pure fun s hs => ⟨hs.messages, hs.jobs, hs.workGoals⟩

/-- The session before the commit: the rows of the dispatched handler, and the message
classified with its type. -/
theorem stage_triple {gpt : ExtractionService} {m : MessageInput} :
    Triple (fun s => SameRows d s.session) (stage (production fromisoformat searcher) gpt m)
      (fun staged s => gpt m.smsText = some staged.1 ∧
        AddsRows d m.messageId s.session
          ((production fromisoformat searcher).dispatch staged.1).messageType ∧
        s.session.messages = d.messages.map (classifyRow m.messageId
          ((production fromisoformat searcher).dispatch staged.1).messageType
          staged.1.modelDumpJson)) (fun _ _ => True) := by
  refine .bind ((process_triple m.smsText).consequence (fun _ hs => hs) (fun _ _ hs => hs)
    fun _ _ _ => trivial) fun result => ?_
  rintro w ⟨hw, hgpt⟩
  have hrest : Triple (fun s => SameRows d s.session) (do
      writeAudit m.messageSid .gptClassified (some m.messageId)
      let actions ← ((production fromisoformat searcher).dispatch result).handle
        (m.context result)
      recordClassification m.messageId
        ((production fromisoformat searcher).dispatch result).messageType result.modelDumpJson
      pure (result, actions)) (fun staged s => staged.1 = result ∧
        AddsRows d m.messageId s.session
          ((production fromisoformat searcher).dispatch result).messageType ∧
        s.session.messages = d.messages.map (classifyRow m.messageId
          ((production fromisoformat searcher).dispatch result).messageType result.modelDumpJson))
      (fun _ _ => True) := by
    refine .bind (keeps_writeAudit (fun s _ hs => ⟨hs.jobs, hs.workGoals, hs.messages⟩)
      _ _ _).triple fun _ => .bind (dispatch_handle_triple result) fun actions => ?_
    refine .bind (Q := fun _ s => AddsRows d m.messageId s.session
        ((production fromisoformat searcher).dispatch result).messageType ∧
      s.session.messages = d.messages.map (classifyRow m.messageId
        ((production fromisoformat searcher).dispatch result).messageType
          result.modelDumpJson)) ?_
      fun _ => .pure fun _ hs => ⟨rfl, hs⟩
    refine .statement_of_ok ?_
    rintro s _ d' ⟨hmessages, hrows⟩ hok
    cases hok
    exact ⟨hrows, by rw [hmessages]⟩
  have hw' := hrest w hw
  rcases hrun : Program.run _ w with ⟨e | staged, w'⟩ <;> rw [hrun] at hw'
  · trivial
  · obtain ⟨rfl, hrows⟩ := hw'
    exact ⟨hgpt, hrows⟩

end

/-- The MessageSid leads to the one message, and that has one meaning. -/
def Meant (messageSid : String) (messageId : ℕ) (d : Database) : Prop :=
  (∀ m, d.messages.find? (fun m => decide (m.messageSid = messageSid)) = some m →
    m.id = messageId) ∧ OneMeaning messageId d

theorem Meant.congr {messageSid : String} {messageId : ℕ} {d d' : Database}
    (h : Meant messageSid messageId d) (hrows : SameRows d d') : Meant messageSid messageId d' :=
  ⟨by rw [hrows.messages]; exact h.1, h.2.congr hrows⟩

section
variable {fromisoformat : String → Option Datetime} {searcher : JobEmbeddingSearcher}
variable {gpt : ExtractionService} {messageSid : String} {messageId : ℕ} {d : Database}

theorem meant_of_staged {d' : Database} {t : MessageType} {raw : String}
    (h : Meant messageSid messageId d) (hagrees : Agrees d messageId t)
    (hrows : AddsRows d messageId d' t)
    (hmessages : d'.messages = d.messages.map (classifyRow messageId t raw)) :
    Meant messageSid messageId d' := by
  refine ⟨fun m hm => ?_, oneMeaning_of_addsRows hagrees hrows hmessages⟩
  rw [hmessages, find?_map_classifyRow] at hm
  obtain ⟨n, hn, rfl⟩ := Option.map_eq_some_iff.mp hm
  rw [classifyRow_id]
  exact h.1 n hn

/-- Every database which the log has made durable is meant, and so is the present one. -/
def Durable (messageSid : String) (messageId : ℕ) (s : AppStore) : Prop :=
  Meant messageSid messageId s.committed ∧ ∀ d, .committed d ∈ s.log → Meant messageSid messageId d

theorem Durable.logged {s : AppStore} (h : Durable messageSid messageId s) (e : Effect) :
    Durable messageSid messageId (Program.logged e s) := by
  refine ⟨h.1, fun d hd => ?_⟩
  rcases List.mem_append.mp hd with hd | hd
  · exact h.2 d hd
  · cases List.mem_singleton.mp hd

theorem Durable.commit {s : AppStore} (h : Durable messageSid messageId s)
    (hsession : Meant messageSid messageId s.session) :
    Durable messageSid messageId ⟨s.session, s.session, s.log ++ [.committed s.session]⟩ := by
  refine ⟨hsession, fun d hd => ?_⟩
  rcases List.mem_append.mp hd with hd | hd
  · exact h.2 d hd
  · cases List.mem_singleton.mp hd
    exact hsession

/-- The deferred actions leave the rows of the message alone. -/
theorem keeps_durable_runAction (action : PostCommitAction) :
    Keeps (fun s => Durable messageSid messageId s ∧ SameRows s.committed s.session)
      (fun _ => True) (runAction action) := by
  refine .bind (.update fun s hs => ⟨hs.1.logged _, hs.2⟩) fun _ => ?_
  refine .attempt (keeps_perform (fun s entry _ hs => ?_) (fun s hs => ?_) (fun s hs => ?_)
    fun s e _ hs => ⟨hs.1.logged e, hs.2⟩) (fun e h hh _ => ?_) fun _ _ _ => trivial
  · exact ⟨hs.1, hs.2.jobs, hs.2.workGoals, hs.2.messages⟩
  · exact ⟨hs.1.commit (hs.1.1.congr hs.2), .refl _⟩
  · exact ⟨hs.1, .refl _⟩
  · cases hh
    exact .pure _

theorem finish_durable (actions : List PostCommitAction) :
    Triple (fun s => Durable messageSid messageId s ∧ Meant messageSid messageId s.session)
      (finish actions) (fun _ => Durable messageSid messageId)
      (fun _ => Durable messageSid messageId) := by
  refine .bind (Q := fun _ s => Durable messageSid messageId s ∧ SameRows s.committed s.session)
    (.commit (fun _ _ _ hs => hs.1) (fun _ _ _ hs => hs.1.commit hs.2)
      fun s hs => ⟨hs.1.commit hs.2, .refl _⟩) fun _ => ?_
  exact (Keeps.forEach keeps_durable_runAction actions).consequence (fun _ hs => hs)
    (fun _ _ hs => hs.1) fun _ _ hs => hs.1.1

/-- A run whose classification agrees with the rows of the message keeps its meaning. -/
theorem run_durable {m : MessageInput} (hmeant : Meant messageSid m.messageId d)
    (hagrees : ∀ result, gpt m.smsText = some result → Agrees d m.messageId
      ((production fromisoformat searcher).dispatch result).messageType) :
    Triple (fun s => s.committed = d ∧ s.session = d ∧ s.log = [])
      (run (production fromisoformat searcher) gpt m)
      (fun _ => Durable messageSid m.messageId) (fun _ => Durable messageSid m.messageId) := by
  have hdurable {s : AppStore} (hs : Staged d [] s) : Durable messageSid m.messageId s := by
    refine ⟨hs.1 ▸ hmeant, fun x hx => ?_⟩
    rw [hs.2] at hx
    cases hx
  refine .bind (((staged_stage (d := d) (l := [])).and (stage_triple (d := d))).consequence
    (fun s hs => ⟨⟨hs.1, hs.2.2⟩, hs.2.1 ▸ .refl d⟩) (fun _ _ hs => hs)
    fun _ _ hs => hdurable hs.1.1) fun staged => ?_
  refine .bind ((finish_durable staged.2).consequence (fun s hs => ⟨hdurable hs.1, ?_⟩)
    (fun _ _ hs => hs) fun _ _ hs => hs) fun _ => .pure fun _ hs => hs
  obtain ⟨_, hgpt, hrows, hmessages⟩ := hs
  exact meant_of_staged hmeant (hagrees _ hgpt) hrows hmessages

theorem processMessageActivity_durable (hmac : String → String) {input : ProcessMessageInput}
    (hmeant : Meant input.messageSid messageId d)
    (hagrees : ∀ result, gpt input.body = some result → Agrees d messageId
      ((production fromisoformat searcher).dispatch result).messageType) :
    Triple (fun s => s.committed = d ∧ s.session = d ∧ s.log = [])
      (processMessageActivity hmac (production fromisoformat searcher) gpt input)
      (fun _ => Durable input.messageSid messageId)
      (fun _ => Durable input.messageSid messageId) := by
  refine processMessageActivity_triple hmac (fun _ hs => hs) (fun s hcommitted _ hlog => ?_) ?_
  · refine ⟨hcommitted ▸ hmeant, fun x hx => ?_⟩
    rw [hlog] at hx
    cases hx
  · intro message phoneHash hrow
    obtain rfl : message.id = messageId := hmeant.1 message hrow
    exact run_durable hmeant hagrees

end

/-- One attempt: what GPT answers to it, and what the environment does. -/
structure Attempt where
  gpt : ExtractionService
  faults : List (Option AppFault)

/-- The database, and every state of it which the attempts so far have made durable. -/
structure Progress where
  database : Database
  durable : List Database

def committedIn (log : List (Event Database Effect)) : List Database :=
  log.filterMap fun
    | .committed d => some d
    | _ => none

def Progress.attempt (hmac : String → String) (o : PipelineOrchestrator)
    (input : ProcessMessageInput) (x : Progress) (a : Attempt) : Progress :=
  let s := ((processMessageActivity hmac o a.gpt input).run (.opened x.database a.faults)).2.store
  ⟨s.committed, x.durable ++ committedIn s.log⟩

def step (hmac : String → String) (o : PipelineOrchestrator) (input : ProcessMessageInput)
    (x : Progress) (a : Attempt) : Option Progress := some (x.attempt hmac o input a)

/-- The classification is dispatched to the handler of the row which the message has. -/
def Uncontradicted (o : PipelineOrchestrator) (input : ProcessMessageInput) (messageId : ℕ)
    (x : Progress) (a : Attempt) : Prop :=
  ∀ result, a.gpt input.body = some result →
    Agrees x.database messageId (o.dispatch result).messageType

section
variable {fromisoformat : String → Option Datetime} {searcher : JobEmbeddingSearcher}
variable {hmac : String → String} {input : ProcessMessageInput} {messageId : ℕ}

def AllMeant (messageSid : String) (messageId : ℕ) (x : Progress) : Prop :=
  Meant messageSid messageId x.database ∧ ∀ d ∈ x.durable, Meant messageSid messageId d

theorem allMeant_step {x y : Progress} {a : Attempt}
    (hok : Uncontradicted (production fromisoformat searcher) input messageId x a)
    (hx : AllMeant input.messageSid messageId x)
    (h : step hmac (production fromisoformat searcher) input x a = some y) :
    AllMeant input.messageSid messageId y := by
  obtain rfl := Option.some.inj h
  have hstore : Durable input.messageSid messageId ((processMessageActivity hmac
      (production fromisoformat searcher) a.gpt input).run (.opened x.database a.faults)).2.store :=
    (processMessageActivity_durable hmac hx.1 hok).store ⟨rfl, rfl, rfl⟩
  refine ⟨hstore.1, fun d hd => ?_⟩
  rcases List.mem_append.mp hd with hd | hd
  · exact hx.2 d hd
  · obtain ⟨e, he, hcommitted⟩ := List.mem_filterMap.mp hd
    cases e with
    | committed d' =>
        cases hcommitted
        exact hstore.2 d he
    | effect _ => cases hcommitted

/-- As long as no attempt contradicts a row of the message, the message has one meaning
in every durable state. -/
theorem one_meaning {db : Database} {run : List Attempt} {x : Progress}
    (hmeant : Meant input.messageSid messageId db)
    (hok : Along (step hmac (production fromisoformat searcher) input)
      (Uncontradicted (production fromisoformat searcher) input messageId) ⟨db, []⟩ run)
    (hrun : exec (step hmac (production fromisoformat searcher) input) ⟨db, []⟩ run = some x) :
    OneMeaning messageId x.database ∧ ∀ d ∈ x.durable, OneMeaning messageId d := by
  have hinit : AllMeant input.messageSid messageId ⟨db, []⟩ := ⟨hmeant, fun _ hd => by cases hd⟩
  have hall := exec_invariant (AllMeant input.messageSid messageId)
    (fun _ _ _ hok hx hy => allMeant_step hok hx hy) hok hinit hrun
  exact ⟨hall.1.2, fun d hd => (hall.2 d hd).2⟩

end

/-- A message without rows and without a type has one meaning, none so far. -/
theorem oneMeaning_of_unprocessed {messageId : ℕ} {d : Database} (hjob : ¬HasJob d messageId)
    (hgoal : ¬HasWorkGoal d messageId)
    (htype : ∀ m ∈ d.messages, m.id = messageId → m.messageType = none) :
    OneMeaning messageId d where
  at_most_one := by
    rw [domainRows, countP_eq_zero_of_not_hasJob hjob, countP_eq_zero_of_not_hasWorkGoal hgoal]
    omega
  jobPosting_iff m hm hid := by simp [htype m hm hid, hjob]
  workGoal_iff m hm hid := by simp [htype m hm hid, hgoal]
  otherwise _ _ _ _ := ⟨hjob, hgoal⟩

theorem meant_helloDatabase : Meant "SM1" 1 helloDatabase := by
  refine ⟨fun m hm => ?_, oneMeaning_of_unprocessed ?_ ?_ ?_⟩
  · cases hm
    rfl
  · rintro ⟨j, hj, _⟩
    cases hj
  · rintro ⟨g, hg, _⟩
    cases hg
  · intro m hm _
    cases List.mem_singleton.mp hm
    rfl

/-- GPT reads the message as a job, or as a goal of one dollar. -/
def answersJob : ExtractionService := fun _ => some
  ⟨.jobPosting, some ⟨⟨"Mow", by decide⟩, none, true, none, none, none, none,
    ⟨"Here", by decide⟩, none, .unknown⟩, none, "\x7b\x7d"⟩

def answersWorkGoal : ExtractionService := fun _ => some
  ⟨.workGoal, none, some ⟨⟨1, by decide⟩, ⟨"today", by decide⟩, none⟩, "\x7b\x7d"⟩

def plainChain : PipelineOrchestrator := production (fun _ => none) none

theorem one_meaning_same_answer :
    ∃ x, exec (step id plainChain ⟨"SM1", "+1", "hi"⟩) ⟨helloDatabase, []⟩
        [⟨answersJob, []⟩, ⟨answersJob, []⟩] = some x ∧ OneMeaning 1 x.database := by
  have hok : Along (step id plainChain ⟨"SM1", "+1", "hi"⟩)
      (Uncontradicted plainChain ⟨"SM1", "+1", "hi"⟩ 1) ⟨helloDatabase, []⟩
      [⟨answersJob, []⟩, ⟨answersJob, []⟩] := by
    refine .cons ?_ rfl (.cons ?_ rfl trivial)
    all_goals
      intro result hresult
      cases hresult
      refine ⟨fun _ => rfl, ?_⟩
      rintro ⟨g, hg, _⟩
      cases hg
  exact ⟨_, rfl, (one_meaning meant_helloDatabase hok rfl).1⟩

/-- The first attempt commits a job and its acknowledgement is lost; the second one is
answered with a goal, which is committed as well. -/
theorem job_and_work_goal :
    ∃ x, exec (step id plainChain ⟨"SM1", "+1", "hi"⟩) ⟨helloDatabase, []⟩
        [⟨answersJob, []⟩, ⟨answersWorkGoal, []⟩] = some x ∧
      HasJob x.database 1 ∧ HasWorkGoal x.database 1 ∧ ¬OneMeaning 1 x.database := by
  refine ⟨_, rfl, ?_, ?_, fun h => absurd h.at_most_one ?_⟩
  all_goals decide +kernel

end Vici.Attempts
