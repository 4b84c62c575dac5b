import Vici.MatchFormatter
import Vici.RowCreation
import Vici.SmsRepositories
import Vici.SyncQueueRepository

/-!
# The handlers of classified messages

A handler stages its rows in the session and names the side effects which are
to run after the commit; it neither commits nor causes an effect itself. That
contract, and that a terminal handler accepts every result, are fields of a
handler. A deferred action degrades on failure, an upsert to an entry in the
queue and a reply to nothing.
-/
namespace Vici.Handlers
open Models Datetimes AppPrograms SessionPrograms SmsRepositories RowCreation MatchService
open MatchFormatter SyncQueueRepository
open Program (Triple Keeps Staged)

structure PipelineContext where
  result : ExtractionResult
  smsText : String
  phoneHash : String
  messageId : ℕ
  userId : ℕ
  messageSid : String
  fromNumber : String

structure MessageHandler where
  messageType : MessageType
  isTerminal : Bool
  canHandle : ExtractionResult → Bool
  handle : PipelineContext → App (List PostCommitAction)
  terminal_accepts : isTerminal = true → ∀ r, canHandle r = true
  flushOnly : ∀ ctx d l, Keeps (Staged d l) (fun _ => True) (handle ctx)

section
variable {P : Program.Assertion Database Effect} {R : AppError → Prop}

theorem keeps_findCandidatesForGoal (hR : R .overflow) (deadline : Option Datetime) :
    Keeps P R (JobRepository.findCandidatesForGoal deadline) := by
  unfold JobRepository.findCandidatesForGoal
  split
  · rename_i e herror
    exact .raise (JobRepository.eligibilityStmt_error herror ▸ hR)
  · exact .query _

theorem keeps_findCandidatesByIds (hR : R .overflow) (jobIds : List ℤ)
    (deadline : Option Datetime) :
    Keeps P R (JobRepository.findCandidatesByIds jobIds deadline) := by
  unfold JobRepository.findCandidatesByIds
  split_ifs
  · exact .pure _
  · split
    · rename_i e herror
      exact .raise (JobRepository.eligibilityStmt_error herror ▸ hR)
    · exact .bind keeps_bindParameters fun _ => .query _

theorem keeps_semanticIds (searcher : String → ℕ → List (ℤ × ℚ)) (queryText : String) :
    Keeps P R (semanticIds searcher queryText) := by
  refine .attempt (S := fun _ => True) (.bind .step fun _ => .pure _) (fun e h hh _ => ?_)
    fun a ha _ => by cases ha
  cases hh
  exact .pure _

theorem keeps_retrieveCandidates (hR : R .overflow) (searcher : JobEmbeddingSearcher)
    (goal : WorkGoal) (queryText : Option String) :
    Keeps P R (retrieveCandidates searcher goal queryText) := by
  have hscan : Keeps P R (JobRepository.findCandidatesForGoal goal.targetDeadline) :=
    keeps_findCandidatesForGoal hR _
  unfold retrieveCandidates
  split
  case h_2 => exact hscan
  case h_1 search text =>
    split_ifs
    · exact hscan
    · refine .bind (keeps_semanticIds search text) fun ranked => ?_
      split_ifs
      · exact hscan
      · refine .bind (keeps_findCandidatesByIds hR _ _) fun jobs => ?_
        split_ifs
        · exact .pure _
        · exact hscan

theorem keeps_buildCandidates (hR : R .overflow) (jobs : List Job) :
    Keeps P R (buildCandidates jobs) := by
  refine .bind (.query _) fun posters => ?_
  split_ifs
  · exact .raise hR
  · exact .pure _

theorem keeps_allocateTables (hR : R .memory) (candidates : List MatchSelection.JobCandidate)
    (target : ℕ) : Keeps P R (allocateTables candidates target) := by
  unfold allocateTables
  split_ifs
  · exact .pure _
  · exact .step
  · exact .raise hR

/-- Matching changes the session's match rows and nothing else. -/
theorem keeps_matchJobs
    (hrows : ∀ s rows, P s → P { s with session := { s.session with matchRows := rows } })
    (hback : ∀ s t, P s → P t → P { t with session := s.session }) (hR : R .overflow)
    (hmemory : R .memory) (searcher : JobEmbeddingSearcher) (goal : WorkGoal)
    (queryText : Option String) : Keeps P R (matchJobs searcher goal queryText) := by
  have hpersist (jobIds : List ℕ) : Keeps P R (persistMatches jobIds goal.id) := by
    refine keeps_persistMatches (fun s jobId d hs hok => ?_) hback jobIds
    unfold insertMatch at hok
    split_ifs at hok
    cases hok
    exact hrows s _ hs
  refine .bind (keeps_retrieveCandidates hR searcher goal queryText) fun rawJobs => ?_
  split_ifs
  · exact .pure _
  · refine .bind (keeps_buildCandidates hR _) fun candidates =>
      .bind (keeps_allocateTables hmemory _ _) fun _ => ?_
    dsimp only
    split_ifs
    · exact .pure _
    · exact .bind (hpersist _) fun _ => .pure _

end

def jobPostingHandle (fromisoformat : String → Option Datetime) (ctx : PipelineContext) :
    App (List PostCommitAction) :=
  match ctx.result.job with
  | none => .raise .assertion
  | some extracted =>
      match JobCreate.ofExtraction fromisoformat ctx.messageId extracted with
      | none => .raise .validation
      | some jobCreate => do
          let job ← .statement (insertJob jobCreate)
          writeAudit ctx.messageSid .jobCreated (some ctx.messageId)
          pure [.upsertEmbedding job.id extracted.description.1 ctx.phoneHash]

def jobPostingHandler (fromisoformat : String → Option Datetime) : MessageHandler where
  messageType := .jobPosting
  isTerminal := false
  canHandle result := decide (result.messageType = .jobPosting) && result.job.isSome
  handle := jobPostingHandle fromisoformat
  terminal_accepts h := by cases h
  flushOnly ctx d l := by
    unfold jobPostingHandle
    split
    · exact .raise trivial
    · split
      · exact .raise trivial
      · exact .bind (Staged.statement fun _ _ _ => trivial) fun _ =>
          .bind (keeps_writeAudit (fun _ _ hs => hs) _ _ _) fun _ => .pure _

def workGoalHandle (fromisoformat : String → Option Datetime) (searcher : JobEmbeddingSearcher)
    (ctx : PipelineContext) : App (List PostCommitAction) :=
  match ctx.result.workGoal with
  | none => .raise .assertion
  | some extracted =>
      match WorkGoalCreate.ofExtraction fromisoformat ctx.messageId extracted with
      | none => .raise .validation
      | some wgCreate => do
          let wg ← .statement (insertWorkGoal wgCreate)
          writeAudit ctx.messageSid .workGoalCreated (some ctx.messageId)
          let matchResult ← matchJobs searcher wg (some ctx.smsText)
          pure [.sendMatchReply ctx.fromNumber (formatMatchSms matchResult)]

def workGoalHandler (fromisoformat : String → Option Datetime)
    (searcher : JobEmbeddingSearcher) : MessageHandler where
  messageType := .workGoal
  isTerminal := false
  canHandle result := decide (result.messageType = .workGoal) && result.workGoal.isSome
  handle := workGoalHandle fromisoformat searcher
  terminal_accepts h := by cases h
  flushOnly ctx d l := by
    unfold workGoalHandle
    split
    · exact .raise trivial
    · split
      · exact .raise trivial
      · refine .bind (Staged.statement fun _ _ _ => trivial) fun wg =>
          .bind (keeps_writeAudit (fun _ _ hs => hs) _ _ _) fun _ => .bind ?_ fun _ => .pure _
        exact keeps_matchJobs (fun _ _ hs => hs) (fun _ _ _ ht => ht) trivial trivial searcher
          wg _

/-- Catch-all: a reply and no row. -/
def unknownMessageHandler : MessageHandler where
  messageType := .unknown
  isTerminal := true
  canHandle _ := true
  handle ctx := pure [.sendUnknownReply ctx.fromNumber]
  terminal_accepts _ _ := rfl
  flushOnly _ _ _ := .pure _

/-- The handler refuses a result which gives no row; else it stages the row. -/
theorem jobPostingHandle_cases (fromisoformat : String → Option Datetime) (ctx : PipelineContext) :
    (∃ e, (e = .assertion ∨ e = .validation) ∧ jobPostingHandle fromisoformat ctx = .raise e) ∨
      ∃ extracted create, ctx.result.job = some extracted ∧
        JobCreate.ofExtraction fromisoformat ctx.messageId extracted = some create ∧
        jobPostingHandle fromisoformat ctx = (do
          let job ← .statement (insertJob create)
          writeAudit ctx.messageSid .jobCreated (some ctx.messageId)
          pure [.upsertEmbedding job.id extracted.description.1 ctx.phoneHash]) := by
  unfold jobPostingHandle
  split
  · exact .inl ⟨_, .inl rfl, rfl⟩
  · rename_i extracted hjob
    split
    · exact .inl ⟨_, .inr rfl, rfl⟩
    · rename_i create hcreate
      exact .inr ⟨extracted, create, hjob, hcreate, rfl⟩

theorem workGoalHandle_cases (fromisoformat : String → Option Datetime)
    (searcher : JobEmbeddingSearcher) (ctx : PipelineContext) :
    (∃ e, (e = .assertion ∨ e = .validation) ∧
        workGoalHandle fromisoformat searcher ctx = .raise e) ∨
      ∃ extracted create, ctx.result.workGoal = some extracted ∧
        WorkGoalCreate.ofExtraction fromisoformat ctx.messageId extracted = some create ∧
        workGoalHandle fromisoformat searcher ctx = (do
          let wg ← .statement (insertWorkGoal create)
          writeAudit ctx.messageSid .workGoalCreated (some ctx.messageId)
          let matchResult ← matchJobs searcher wg (some ctx.smsText)
          pure [.sendMatchReply ctx.fromNumber (formatMatchSms matchResult)]) := by
  unfold workGoalHandle
  split
  · exact .inl ⟨_, .inl rfl, rfl⟩
  · rename_i extracted hgoal
    split
    · exact .inl ⟨_, .inr rfl, rfl⟩
    · rename_i create hcreate
      exact .inr ⟨extracted, create, hgoal, hcreate, rfl⟩

def unknownReplyText : String :=
  "Hi from Vici! We didn't understand your message. " ++
    "Text us a job (include pay, location, time) or your earnings goal " ++
    "(e.g., 'I need $200 today')."

/-- The embedding is computed, then upserted. -/
def writeJobEmbedding (jobId : ℕ) (description phoneHash : String) : App Unit := do
  .step
  .external (.vectorUpserted jobId description phoneHash)

def sendSms (toNumber body : String) : App Unit := .external (.smsSent toNumber body)

/-- What the closure of a registered action does when it is awaited. -/
def perform : PostCommitAction → App Unit
  | .upsertEmbedding jobId description phoneHash =>
      .attempt (writeJobEmbedding jobId description phoneHash) fun _ => some
        (.attempt (do
          let _ ← enqueue jobId
          .commit) fun _ => some .rollback)
  | .sendMatchReply toNumber body =>
      .attempt (sendSms toNumber body) fun _ => some (pure ())
  | .sendUnknownReply toNumber =>
      .attempt (sendSms toNumber unknownReplyText) fun _ => some (pure ())

/-- An awaited action never takes the process down with it. -/
theorem survives_perform (action : PostCommitAction) : Program.Survives (perform action) := by
  have hsms (toNumber body : String) : Program.Survives
      (.attempt (sendSms toNumber body) fun _ => some (pure ())) := by
    refine .attempt (.external _) fun e handler hh => ?_
    cases hh
    exact .pure _
  cases action with
  | upsertEmbedding jobId description phoneHash =>
      have hwrite : Program.Survives (writeJobEmbedding jobId description phoneHash) :=
        .bind .step fun _ => .external _
      rw [perform]
      refine .attempt hwrite fun e handler hh => ?_
      cases hh
      refine .attempt (.bind (.statement _) fun _ => .commit) fun e handler hh => ?_
      cases hh
      exact .rollback
  | sendMatchReply toNumber body => exact hsms toNumber body
  | sendUnknownReply toNumber => exact hsms toNumber unknownReplyText

section
variable {P : Program.Assertion Database Effect}

/-- An upsert may queue the job instead, and commit or roll back the entry. -/
theorem keeps_upsertEmbedding {jobId : ℕ} {description phoneHash : String}
    (hqueue : ∀ s entry, entry.jobId = jobId → P s → P { s with session := { s.session with
      syncQueue := s.session.syncQueue ++ [entry] } })
    (hcommit : ∀ s, P s → P ⟨s.session, s.session, s.log ++ [.committed s.session]⟩)
    (hback : ∀ s, P s → P { s with session := s.committed })
    (heffect : ∀ s, P s → P (Program.logged (.vectorUpserted jobId description phoneHash) s)) :
    Keeps P (fun _ => True) (perform (.upsertEmbedding jobId description phoneHash)) := by
  have hwrite : Keeps P (fun _ => True) (writeJobEmbedding jobId description phoneHash) :=
    .bind .step fun _ => .external heffect
  rw [perform]
  refine .attempt hwrite (fun e h hh _ => ?_) fun _ _ _ => trivial
  cases hh
  refine .attempt (S := fun _ => True) (.bind (.statement (fun s entry d hs hok => ?_)
    fun _ _ _ _ => trivial) fun _ => .commit hcommit) (fun e h hh _ => ?_) fun _ _ _ => trivial
  · obtain ⟨rfl, rfl⟩ := insertEntry_ok hok
    exact hqueue s _ rfl hs
  · cases hh
    exact .rollback hback

/-- An action may queue a job, commit and roll back, and cause effects of its own. -/
theorem keeps_perform {action : PostCommitAction}
    (hqueue : ∀ s entry, (∃ description phoneHash,
        action = .upsertEmbedding entry.jobId description phoneHash) → P s →
      P { s with session := { s.session with syncQueue := s.session.syncQueue ++ [entry] } })
    (hcommit : ∀ s, P s → P ⟨s.session, s.session, s.log ++ [.committed s.session]⟩)
    (hback : ∀ s, P s → P { s with session := s.committed })
    (heffect : ∀ s e, (∀ a, e ≠ .ran a) → P s → P (Program.logged e s)) :
    Keeps P (fun _ => True) (perform action) := by
  have hsms (toNumber body : String) : Keeps P (fun _ => True)
      (.attempt (sendSms toNumber body) fun _ => some (pure ())) := by
    refine .attempt (S := fun _ => True) (.external fun s => heffect s _ (by simp))
      (fun e h hh _ => ?_) fun _ _ _ => trivial
    cases hh
    exact .pure _
  cases action with
  | upsertEmbedding jobId description phoneHash =>
      refine keeps_upsertEmbedding (fun s entry hentry => ?_) hcommit hback
        fun s => heffect s _ (by simp)
      exact hqueue s entry ⟨description, phoneHash, by rw [hentry]⟩
  | sendMatchReply toNumber body => exact hsms toNumber body
  | sendUnknownReply toNumber => exact hsms toNumber unknownReplyText

end

end Vici.Handlers
