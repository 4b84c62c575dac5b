import Vici.Attempts
import Vici.StorableExtractions

/-!
# Workflows which are counted as failed

The workflow runs the activity up to four times and then hands it to the failure
activity. What it learns of an attempt is its report; a report may be lost after
the commit of the attempt, as may the answer of the commit, and then the message
is processed again, against the rows which the first commit has left. Whether
that goes through depends on the new classification, so a workflow may be counted
as failed whose work was done.
-/
namespace Vici.WorkflowFailures
open Models Datetimes AppPrograms SessionPrograms SmsRepositories RowCreation MatchService
open JobRepository Handlers Orchestrator Attempts ActionRuns OfferedJobs DeadlineRule
open StorableExtractions
open Program (Triple Keeps Holds Staged Survives)

/-- The result leads to a row which the message lacks and the tables accept, or to none. -/
def Accepts (fromisoformat : String → Option Datetime) (searcher : JobEmbeddingSearcher)
    (d : Database) (messageId : ℕ) (result : ExtractionResult) : Prop :=
  match ((production fromisoformat searcher).dispatch result).messageType with
  | .jobPosting => 0 < messageId ∧ ¬HasJob d messageId ∧
      ∀ extracted ∈ result.job, JobFits fromisoformat extracted
  | .workGoal => 0 < messageId ∧ ¬HasWorkGoal d messageId ∧
      ∀ extracted ∈ result.workGoal, GoalFits fromisoformat extracted
  | .unknown => True

/-- If it is a goal, it can be matched against the jobs as they are. -/
def Matched (fromisoformat : String → Option Datetime) (searcher : JobEmbeddingSearcher)
    (smsText : String) (d : Database) (result : ExtractionResult) : Prop :=
  ((production fromisoformat searcher).dispatch result).messageType = .workGoal →
    ∀ extracted ∈ result.workGoal, Matchable fromisoformat searcher smsText d.jobs extracted

/-- The message is found, and GPT's answer to it is parsed and leads to what the tables accept
and the match returns for. -/
def Settles (fromisoformat : String → Option Datetime) (searcher : JobEmbeddingSearcher)
    (input : ProcessMessageInput) (d : Database) (gpt : ExtractionService) : Prop :=
  input.fromNumber.isEmpty = false ∧ isText input.messageSid = true ∧ ∃ message result,
    d.messages.find? (fun m => decide (m.messageSid = input.messageSid)) = some message ∧
      gpt input.body = some result ∧ Accepts fromisoformat searcher d message.id result ∧
        Matched fromisoformat searcher input.body d result

section
variable {fromisoformat : String → Option Datetime} {searcher : JobEmbeddingSearcher}
variable {hmac : String → String} {input : ProcessMessageInput} {gpt : ExtractionService}
variable {o : PipelineOrchestrator} {ctx : PipelineContext} {d : Database} {w w' : AppWorld}
variable {actions : List PostCommitAction} {faults : List (Option AppFault)}

theorem jobPostingHandle_ok
    (h : (jobPostingHandle fromisoformat ctx).run w = (.ok actions, w')) :
    0 < ctx.messageId ∧ ¬HasJob w.store.session ctx.messageId ∧
      ∀ extracted ∈ ctx.result.job, JobFits fromisoformat extracted := by
  rcases jobPostingHandle_cases fromisoformat ctx with
    ⟨_, _, heq⟩ | ⟨extracted, create, hjob, hcreate, heq⟩
  · rw [heq] at h
    cases h
  · rw [heq] at h
    obtain ⟨job, w₁, hstatement, _⟩ := Program.run_bind_ok h
    obtain ⟨y, hinsert⟩ := Program.run_statement_inv hstatement
    have hmessage := ofExtraction_messageId hcreate
    obtain ⟨hnew, _, _⟩ := insertJob_ok hinsert
    refine ⟨hmessage ▸ create.messageId_pos, ?_, ?_⟩
    · rintro ⟨j, hj, hid⟩
      exact hnew j hj (hid.trans hmessage.symm)
    · intro extracted' hmem
      obtain rfl : extracted = extracted' := Option.some.inj (hjob.symm.trans hmem)
      exact jobFits_of_create hcreate (insertJob_fits hinsert)

theorem workGoalHandle_ok
    (h : (workGoalHandle fromisoformat searcher ctx).run w = (.ok actions, w')) :
    0 < ctx.messageId ∧ ¬HasWorkGoal w.store.session ctx.messageId ∧
      ∀ extracted ∈ ctx.result.workGoal, GoalFits fromisoformat extracted := by
  rcases workGoalHandle_cases fromisoformat searcher ctx with
    ⟨_, _, heq⟩ | ⟨extracted, create, hgoal, hcreate, heq⟩
  · rw [heq] at h
    cases h
  · rw [heq] at h
    obtain ⟨goal, w₁, hstatement, _⟩ := Program.run_bind_ok h
    obtain ⟨y, hinsert⟩ := Program.run_statement_inv hstatement
    have hmessage := workGoal_ofExtraction_messageId hcreate
    obtain ⟨hnew, _, _⟩ := insertWorkGoal_ok hinsert
    refine ⟨hmessage ▸ create.messageId_pos, ?_, ?_⟩
    · rintro ⟨g, hg, hid⟩
      exact hnew g hg (hid.trans hmessage.symm)
    · intro extracted' hmem
      obtain rfl : extracted = extracted' := Option.some.inj (hgoal.symm.trans hmem)
      exact goalFits_of_create hcreate (insertWorkGoal_fits hinsert)

/-- What the dispatched handler returns for, the tables have accepted. -/
theorem accepts_of_handle {result : ExtractionResult} (hrows : SameRows d w.store.session)
    (h : (((production fromisoformat searcher).dispatch result).handle ctx).run w =
      (.ok actions, w')) (hresult : ctx.result = result) :
    Accepts fromisoformat searcher d ctx.messageId result := by
  subst hresult
  unfold Accepts
  rcases dispatch_production fromisoformat searcher ctx.result with heq | heq | heq
  · rw [heq] at h ⊢
    have hok := jobPostingHandle_ok h
    rw [HasJob, hrows.jobs] at hok
    exact hok
  · rw [heq] at h ⊢
    have hok := workGoalHandle_ok h
    rw [HasWorkGoal, hrows.workGoals] at hok
    exact hok
  · rw [heq]
    trivial

/-- Undisturbed, the handler returns exactly for what is accepted and can be matched. -/
theorem run_handle_iff {result : ExtractionResult} (hcalm : w.faults = [])
    (hrows : SameRows d w.store.session) (hresult : ctx.result = result)
    (hsid : isText ctx.messageSid = true)
    (hstored : ctx.messageId ∈ d.messages.map Message.id) :
    (∃ actions w', (((production fromisoformat searcher).dispatch result).handle ctx).run w =
        (.ok actions, w')) ↔
      Accepts fromisoformat searcher d ctx.messageId result ∧
        Matched fromisoformat searcher ctx.smsText d result := by
  have haccepts (h : ∃ actions w', (((production fromisoformat searcher).dispatch result).handle
      ctx).run w = (.ok actions, w')) : Accepts fromisoformat searcher d ctx.messageId result := by
    obtain ⟨actions, w', hrun⟩ := h
    exact accepts_of_handle hrows hrun hresult
  subst hresult
  have hcan := (production fromisoformat searcher).canHandle_dispatch ctx.result
  rw [← hrows.messages] at hstored
  rcases dispatch_production fromisoformat searcher ctx.result with heq | heq | heq
  · refine ⟨fun h => ⟨haccepts h, fun htype => ?_⟩, fun h => ?_⟩
    · rw [heq] at htype
      cases htype
    · obtain ⟨h, _⟩ := h
      unfold Accepts at h
      rw [heq] at h hcan ⊢
      obtain ⟨hpos, hnew, hfits⟩ := h
      obtain ⟨extracted, hjob⟩ := Option.isSome_iff_exists.mp (Bool.and_eq_true_iff.mp hcan).2
      obtain ⟨create, hcreate, _, hcreateFits⟩ := exists_create_of_jobFits hpos
        (hfits extracted hjob)
      refine (run_jobPostingHandle_iff hcalm hjob hstored hsid (fun j hj hid => ?_) hcreate).mpr
        hcreateFits
      exact hnew ⟨j, hrows.jobs ▸ hj, hid⟩
  · obtain ⟨extracted, hgoal⟩ : ∃ extracted, ctx.result.workGoal = some extracted := by
      rw [heq] at hcan
      exact Option.isSome_iff_exists.mp (Bool.and_eq_true_iff.mp hcan).2
    have hmatched : Matched fromisoformat searcher ctx.smsText d ctx.result ↔
        Matchable fromisoformat searcher ctx.smsText w.store.session.jobs extracted := by
      rw [Matched, heq, hgoal, hrows.jobs]
      exact ⟨fun h => h rfl extracted rfl, fun h _ _ hmem => Option.some.inj hmem ▸ h⟩
    have hreturns (h : Accepts fromisoformat searcher d ctx.messageId ctx.result) :
        (∃ actions w', (workGoalHandle fromisoformat searcher ctx).run w = (.ok actions, w')) ↔
          Matchable fromisoformat searcher ctx.smsText w.store.session.jobs extracted := by
      unfold Accepts at h
      rw [heq] at h
      obtain ⟨hpos, hnew, hfits⟩ := h
      obtain ⟨create, hcreate, _, hcreateFits⟩ := exists_create_of_goalFits hpos
        (hfits extracted hgoal)
      refine (run_workGoalHandle_iff hcalm hgoal hstored hsid (fun g hg hid => ?_) hcreate).trans
        (and_iff_right hcreateFits)
      exact hnew ⟨g, hrows.workGoals ▸ hg, hid⟩
    rw [hmatched]
    refine ⟨fun h => ⟨haccepts h, ?_⟩, fun h => ?_⟩
    · have haccepted := haccepts h
      rw [heq] at h
      exact (hreturns haccepted).mp h
    · rw [heq]
      exact (hreturns h.1).mpr h.2
  · refine ⟨fun h => ⟨haccepts h, fun htype => ?_⟩, fun _ => ?_⟩
    · rw [heq] at htype
      cases htype
    · rw [heq]
      exact ⟨_, _, rfl⟩

theorem run_process_of_calm {smsText : String} {result : ExtractionResult} (hcalm : w.faults = [])
    (hgpt : gpt smsText = some result) : (process gpt smsText).run w = (.ok result, w) := by
  rw [process, Program.run_bind_of_ok (Program.run_step_of_calm hcalm), hgpt]
  rfl

/-- Undisturbed, the unit of work is staged exactly if its handler returns. -/
theorem run_stage_iff {m : MessageInput} {result : ExtractionResult} (hcalm : w.faults = [])
    (hsession : w.store.session = d) (hsid : isText m.messageSid = true)
    (hstored : m.messageId ∈ d.messages.map Message.id) (hgpt : gpt m.smsText = some result) :
    (∃ staged w', (stage (production fromisoformat searcher) gpt m).run w = (.ok staged, w')) ↔
      Accepts fromisoformat searcher d m.messageId result ∧
        Matched fromisoformat searcher m.smsText d result := by
  subst hsession
  obtain ⟨row, haudit⟩ := insertAudit_of_mem hsid .gptClassified hstored
  rw [stage, Program.run_bind_of_ok (run_process_of_calm hcalm hgpt), writeAudit,
    Program.run_bind_of_ok (Program.run_statement_ok hcalm haudit)]
  set w₁ : AppWorld := { w with store := { w.store with session := { w.store.session with
    auditLogs := w.store.session.auditLogs ++ [row] } } }
  have hw₁ : w₁.faults = [] := hcalm
  have hhandle : (∃ actions w', (((production fromisoformat searcher).dispatch result).handle
      (m.context result)).run w₁ = (.ok actions, w')) ↔
        Accepts fromisoformat searcher w.store.session m.messageId result ∧
          Matched fromisoformat searcher m.smsText w.store.session result :=
    run_handle_iff hw₁ ⟨rfl, rfl, rfl⟩ rfl hsid hstored
  refine Iff.trans ⟨fun h => ?_, fun h => ?_⟩ hhandle
  · obtain ⟨staged, w', hrest⟩ := h
    obtain ⟨actions, w₂, hactions, _⟩ := Program.run_bind_ok hrest
    exact ⟨actions, w₂, hactions⟩
  · obtain ⟨actions, w₂, hactions⟩ := h
    rw [Program.run_bind_of_ok hactions, recordClassification,
      Program.run_bind_of_ok (Program.run_statement_ok (Program.calm_run hw₁ hactions) rfl)]
    exact ⟨_, _, rfl⟩

/-- Undisturbed, an attempt comes to its commit exactly if its message settles. -/
theorem run_stageMessage_iff (hmac : String → String) :
    (∃ actions w', (stageMessage hmac (production fromisoformat searcher) gpt input).run
      (.opened d []) = (.ok actions, w')) ↔ Settles fromisoformat searcher input d gpt := by
  constructor
  · intro h
    obtain ⟨actions, w', h⟩ := h
    obtain ⟨phoneHash, w₁, hhash, h⟩ := Program.run_bind_ok h
    obtain ⟨hfilled, _, rfl⟩ := run_hashPhone_ok hhash
    obtain ⟨_, w₂, hbind, h⟩ := Program.run_bind_ok h
    obtain ⟨hsid, rfl⟩ := run_bindParameters_ok hbind
    rw [Program.run_bind_of_ok (Program.run_query_of_calm rfl)] at h
    cases hrow : d.messages.find? fun m => decide (m.messageSid = input.messageSid) with
    | none =>
        simp only [World.opened, hrow] at h
        cases h
    | some message =>
        simp only [World.opened, hrow] at h
        obtain ⟨staged, w₃, hstage, _⟩ := Program.run_bind_ok h
        have hgpt := stage_ok hstage
        have hstored : message.id ∈ d.messages.map Message.id :=
          List.mem_map_of_mem (List.mem_of_find?_eq_some hrow)
        obtain ⟨haccepts, hmatched⟩ := (run_stage_iff rfl rfl hsid hstored hgpt).mp ⟨_, _, hstage⟩
        exact ⟨hfilled, hsid, message, staged.1, hrow, hgpt, haccepts, hmatched⟩
  · rintro ⟨hfilled, hsid, message, result, hrow, hgpt, haccepts, hmatched⟩
    have hstored : message.id ∈ d.messages.map Message.id :=
      List.mem_map_of_mem (List.mem_of_find?_eq_some hrow)
    have hhash := run_hashPhone hmac hfilled (.opened d [])
    let m : MessageInput := ⟨input.body, hmac input.fromNumber, message.id, message.userId,
      input.messageSid, input.fromNumber⟩
    obtain ⟨staged, w₁, hstage⟩ : ∃ staged w', (stage (production fromisoformat searcher) gpt
        m).run (.opened d []) = (.ok staged, w') :=
      (run_stage_iff rfl rfl hsid hstored hgpt).mpr ⟨haccepts, hmatched⟩
    rw [stageMessage, Program.run_bind_of_ok hhash, bindParameters_of_fits hsid, pure_bind,
      Program.run_bind_of_ok (Program.run_query_of_calm rfl)]
    simp only [World.opened, hrow]
    exact ⟨staged.2, _, Program.run_bind_of_ok hstage⟩

end

/-- One attempt: what GPT answers, what the environment does before the commit and after it,
and whether the workflow learns how the attempt has ended. -/
structure Try where
  gpt : ExtractionService
  faults : List (Option AppFault)
  later : List (Option AppFault)
  acknowledged : Bool

/-- How an attempt ends, the database it leaves, and what its unit of work has made durable. -/
structure Ended where
  result : Except AppStop Unit
  database : Database
  durable : List Database

def Try.run (hmac : String → String) (o : PipelineOrchestrator) (input : ProcessMessageInput)
    (d : Database) (t : Try) : Ended :=
  match (commitMessage hmac o t.gpt input).run (.opened d t.faults) with
  | (.error stop, w) => ⟨.error stop, w.store.committed, committedIn w.store.log⟩
  | (.ok actions, w) =>
      let (r, w') := (Program.closing (.forEach runAction actions)).run { w with faults := t.later }
      ⟨r, w'.store.committed, committedIn w.store.log⟩

def processMsgRetryMaxAttempts : ℕ := 4

/-- `failed` stands for the run of `handle_process_message_failure_activity`. -/
inductive Outcome where
  | completed
  | failed
  deriving DecidableEq

/-- What the workflow does after an attempt: it returns; it runs the failure activity, at
once for an error which is not retryable and else after the last attempt; or it goes on. An
attempt whose process is gone, or whose end is not reported, times out. -/
def outcomeAfter (attempts : ℕ) (reported : Option (Except AppStop Unit)) : Option Outcome :=
  match reported with
  | some (.ok ()) => some .completed
  | some (.error (.raised (.app .messageNotFound))) => some .failed
  | _ => if attempts = processMsgRetryMaxAttempts then some .failed else none

structure State where
  database : Database
  /-- What the units of work of the attempts have made durable. -/
  durable : List Database
  attempts : ℕ
  outcome : Option Outcome

inductive Action where
  | attempt (t : Try)
  | others (d : Database)

def start (d : Database) : State := ⟨d, [], 0, none⟩

/-- The message has its row. -/
def Stored (messageSid : String) (d : Database) : Prop :=
  ∃ m ∈ d.messages, m.messageSid = messageSid

instance (messageSid : String) (d : Database) : Decidable (Stored messageSid d) :=
  inferInstanceAs (Decidable (∃ m ∈ d.messages, m.messageSid = messageSid))

/-- `ProcessMessageWorkflow.run`, attempt by attempt. In between others may change the
database in any way which leaves the message where it is. -/
def step (hmac : String → String) (o : PipelineOrchestrator) (input : ProcessMessageInput)
    (s : State) : Action → Option State
  | .attempt t =>
      match s.outcome with
      | some _ => none
      | none =>
          let e := t.run hmac o input s.database
          some ⟨e.database, s.durable ++ e.durable, s.attempts + 1,
            outcomeAfter (s.attempts + 1) (if t.acknowledged then some e.result else none)⟩
  | .others d => if Stored input.messageSid d then some { s with database := d } else none

section
variable {fromisoformat : String → Option Datetime} {searcher : JobEmbeddingSearcher}
variable {hmac : String → String} {o : PipelineOrchestrator} {input : ProcessMessageInput}
variable {gpt : ExtractionService} {d : Database} {t : Try} {s s' : State}

/-- Every run of the activity is a try: the moves which its commit has left come later. -/
theorem exists_try_of_activity (hmac : String → String) (o : PipelineOrchestrator)
    (gpt : ExtractionService) (input : ProcessMessageInput) (d : Database)
    (faults : List (Option AppFault)) (acknowledged : Bool) :
    ∃ later w, (processMessageActivity hmac o gpt input).run (.opened d faults) =
        ((Try.run hmac o input d ⟨gpt, faults, later, acknowledged⟩).result, w) ∧
      w.store.committed = (Try.run hmac o input d ⟨gpt, faults, later, acknowledged⟩).database := by
  rw [processMessageActivity_eq]
  rcases hcommit : (commitMessage hmac o gpt input).run (.opened d faults) with
    ⟨stop | actions, w⟩
  · refine ⟨[], w, ?_, ?_⟩
    · rw [Program.run_bind_of_error hcommit]
      simp only [Try.run, hcommit]
    · simp only [Try.run, hcommit]
  · refine ⟨w.faults, ((Program.closing (.forEach runAction actions)).run w).2, ?_, ?_⟩
    · rw [Program.run_bind_of_ok hcommit]
      simp only [Try.run, hcommit]
    · simp only [Try.run, hcommit]

theorem stored_invariant (messageSid : String) : PipelineInvariant (Stored messageSid) where
  audited _ _ h := h
  job _ _ _ _ h hok := by
    obtain ⟨_, _, rfl⟩ := insertJob_ok hok
    exact h
  workGoal _ _ _ _ h hok := by
    obtain ⟨_, _, rfl⟩ := insertWorkGoal_ok hok
    exact h
  matched _ _ h := h
  classified _ messageId type raw h := by
    obtain ⟨m, hm, hsid⟩ := h
    refine ⟨_, List.mem_map_of_mem hm, ?_⟩
    rw [classifyRow_messageSid]
    exact hsid
  queued _ _ h := h

/-- A message which is stored is found. -/
theorem keeps_commitMessage :
    Keeps (Holds (Stored input.messageSid)) (· ≠ .messageNotFound)
      (commitMessage hmac (production fromisoformat searcher) gpt input) := by
  have hinvariant := stored_invariant input.messageSid
  refine .bind (keeps_hashPhone (by decide) _ _) fun phoneHash =>
    Holds.closing (.bind keeps_bindParameters fun _ => .query_bind fun s hs => ?_)
  split
  · rename_i hnone
    obtain ⟨m, hm, hsid⟩ := hs.2
    exact absurd (decide_eq_true hsid) (List.find?_eq_none.mp hnone m hm)
  · exact .bind (hinvariant.keeps_stage (fun _ he => he) _) fun staged =>
      .bind (.commit fun s hs => ⟨hs.2, hs.2⟩) fun _ => .pure _

/-- What follows a commit ends, unless the process is lost. -/
theorem actions_end (actions : List PostCommitAction) (w : AppWorld) :
    ((Program.closing (.forEach runAction actions) : App Unit).run w).1 = .ok () ∨
      some .crashes ∈ w.faults ∧
        ((Program.closing (.forEach runAction actions) : App Unit).run w).1 = .error .crashed := by
  have hraises : Triple (fun _ => True) (Program.closing (.forEach runAction actions) : App Unit)
      (fun _ _ => True) (fun e _ => e = .crashed) := by
    refine .closing ((Triple.forEach (fun _ _ _ => True) (fun _ action _ => ?_) [] actions))
    refine .bind (.update fun _ _ => trivial) fun _ => .attempt (Triple.trivial _)
      (fun _ _ => rfl) (fun e handler hh => ?_) fun e hh => by cases hh
    cases hh
    exact .pure fun _ _ => trivial
  have hsurvives : Survives (Program.closing (.forEach runAction actions) : App Unit) := by
    refine .closing (.forEach (fun action => .bind (.update _) fun _ => .attempt ?_
      fun e handler hh => ?_) actions)
    · exact survives_perform action
    · cases hh
      exact .pure _
  rcases hrun : (Program.closing (.forEach runAction actions) : App Unit).run w with ⟨e | _, w'⟩
  · obtain rfl := hraises.error trivial hrun
    refine .inr ⟨?_, rfl⟩
    by_contra hcrash
    exact hsurvives w hcrash (by rw [hrun])
  · exact .inl rfl

theorem stored_of_run (hstored : Stored input.messageSid d) :
    Stored input.messageSid
      (t.run hmac (production fromisoformat searcher) input d).database := by
  have hactions (actions : List PostCommitAction) : Keeps (Holds (Stored input.messageSid))
      (fun _ => True) (Program.closing (.forEach runAction actions) : App Unit) :=
    Holds.closing (.forEach (stored_invariant input.messageSid).keeps_runAction actions)
  have hkeeps : Keeps (Holds (Stored input.messageSid)) (· ≠ .messageNotFound)
      (commitMessage hmac (production fromisoformat searcher) t.gpt input) := keeps_commitMessage
  have hcommit := hkeeps.store (w := .opened d t.faults) ⟨hstored, hstored⟩
  rcases hrun : (commitMessage hmac (production fromisoformat searcher) t.gpt input).run
    (.opened d t.faults) with ⟨stop | actions, w⟩
  · rw [hrun] at hcommit
    simp only [Try.run, hrun]
    exact hcommit.1
  · rw [hrun] at hcommit
    simp only [Try.run, hrun]
    exact ((hactions actions).store (w := { w with faults := t.later }) hcommit).1

/-- All of the try up to its commit succeeds, and the commit, which is made in the world `w`,
takes place. -/
def Try.Takes (hmac : String → String) (o : PipelineOrchestrator) (input : ProcessMessageInput)
    (d : Database) (t : Try) (w : AppWorld) : Prop :=
  ∃ actions, (stageMessage hmac o t.gpt input).run (.opened d t.faults) = (.ok actions, w) ∧
    w.applies = true

/-- A try whose unit of work stops ends there, with an error which is retried. -/
theorem run_of_stopped (fromisoformat : String → Option Datetime) (searcher : JobEmbeddingSearcher)
    (hmac : String → String) (hstored : Stored input.messageSid d) {stop : AppStop} {w : AppWorld}
    (h : (commitMessage hmac (production fromisoformat searcher) t.gpt input).run
      (.opened d t.faults) = (.error stop, w)) :
    t.run hmac (production fromisoformat searcher) input d =
        ⟨.error stop, w.store.committed, committedIn w.store.log⟩ ∧
      stop ≠ .raised (.app .messageNotFound) := by
  have hkeeps : Keeps (Holds (Stored input.messageSid)) (· ≠ .messageNotFound)
      (commitMessage hmac (production fromisoformat searcher) t.gpt input) := keeps_commitMessage
  refine ⟨by simp only [Try.run, h], ?_⟩
  rintro rfl
  exact (hkeeps.error (w := .opened d t.faults) ⟨hstored, hstored⟩ h).2 _ rfl rfl

/-- A try either commits nothing and ends with an error which is retried; or its commit takes
place, and it ends well unless it does not hear of it or its process is lost. -/
theorem run_cases (fromisoformat : String → Option Datetime) (searcher : JobEmbeddingSearcher)
    (hmac : String → String) (hstored : Stored input.messageSid d) (t : Try) :
    let e := t.run hmac (production fromisoformat searcher) input d
    (e.durable = [] ∧ e.result ≠ .ok () ∧
        e.result ≠ .error (.raised (.app .messageNotFound)) ∧
        ¬∃ w, t.Takes hmac (production fromisoformat searcher) input d w) ∨
      ∃ w, t.Takes hmac (production fromisoformat searcher) input d w ∧ e.durable ≠ [] ∧
        (w.next.1 = none ∧
            (e.result = .ok () ∨ some .crashes ∈ t.later ∧ e.result = .error .crashed) ∨
          ∃ x, w.next.1 = some (.loses x) ∧ e.result = .error (.raised (.infra x))) := by
  intro e
  have hstopped {stop : AppStop} {w : AppWorld} (h : (commitMessage hmac
      (production fromisoformat searcher) t.gpt input).run (.opened d t.faults) =
        (.error stop, w)) : e = ⟨.error stop, w.store.committed, committedIn w.store.log⟩ ∧
          stop ≠ .raised (.app .messageNotFound) := run_of_stopped _ _ _ hstored h
  rcases hstage : (stageMessage hmac (production fromisoformat searcher) t.gpt input).run
    (.opened d t.faults) with ⟨stop | actions, w₁⟩
  · obtain ⟨he, hfound⟩ := hstopped (run_commitMessage hmac _ _ input d t.faults
      (Program.run_bind_of_error hstage))
    refine .inl ⟨?_, by simp [he], by simpa [he] using hfound, ?_⟩
    · rw [he, (stageMessage_settled.error (w := .opened d t.faults) ⟨rfl, rfl⟩ hstage).2]
      rfl
    · rintro ⟨w, actions, hok, _⟩
      rw [hstage] at hok
      cases hok
  · have hlog := (stageMessage_settled.ok (w := .opened d t.faults) ⟨rfl, rfl⟩ hstage).2
    rcases hcommit : (Program.commit : App Unit).run w₁ with ⟨stop | _, w₂⟩
    · obtain ⟨he, hfound⟩ := hstopped (run_commitMessage hmac _ _ input d t.faults
        ((Program.run_bind_of_ok hstage).trans (Program.run_bind_of_error hcommit)))
      by_cases happlies : w₁.applies = true
      · obtain ⟨x, hnext, rfl, hw₂⟩ := Program.run_call_lost hcommit happlies
        refine .inr ⟨w₁, ⟨actions, hstage, happlies⟩, ?_, .inr ⟨x, hnext, by rw [he]⟩⟩
        simp [he, hw₂, hlog, committedIn]
      · have hw₂ := Program.run_call_store (ε := AppError) (fun s : AppStore =>
          ⟨s.session, s.session, s.log ++ [.committed s.session]⟩) w₁
        rw [show Program.call _ = (Program.commit : App Unit) from rfl, hcommit,
          if_neg happlies] at hw₂
        refine .inl ⟨?_, by simp [he], by simpa [he] using hfound, ?_⟩
        · rw [he, hw₂, hlog]
          rfl
        · rintro ⟨w, actions', hok, hw⟩
          rw [hstage] at hok
          cases hok
          exact happlies hw
    · have hrun := run_commitMessage hmac _ _ input d t.faults
        ((Program.run_bind_of_ok hstage).trans (Program.run_bind_of_ok hcommit))
      have hw₂ := Program.run_commit_ok hcommit
      refine .inr ⟨w₁, ⟨actions, hstage, Program.applies_of_run_call hcommit⟩, ?_,
        .inl ⟨Program.next_of_run_call hcommit, ?_⟩⟩
      · simp only [e, Try.run, hrun]
        simp [hw₂, hlog, committedIn]
      · simpa only [e, Try.run, hrun] using actions_end actions _

theorem durable_iff (hstored : Stored input.messageSid d) :
    (t.run hmac (production fromisoformat searcher) input d).durable ≠ [] ↔
      ∃ w, t.Takes hmac (production fromisoformat searcher) input d w := by
  rcases run_cases fromisoformat searcher hmac hstored t with
    ⟨hnone, _, _, hmissed⟩ | ⟨w, htakes, hne, _⟩
  · exact iff_of_false (fun hne => hne hnone) hmissed
  · exact iff_of_true hne ⟨w, htakes⟩

/-- For an undisturbed try this is a matter of the message and of GPT's answer. -/
theorem takes_iff_of_calm (hcalm : t.faults = []) :
    (∃ w, t.Takes hmac (production fromisoformat searcher) input d w) ↔
      Settles fromisoformat searcher input d t.gpt := by
  rw [← run_stageMessage_iff hmac]
  constructor
  · rintro ⟨w, actions, hstage, _⟩
    exact ⟨actions, w, hcalm ▸ hstage⟩
  · rintro ⟨actions, w, hstage⟩
    refine ⟨w, actions, hcalm.symm ▸ hstage, ?_⟩
    exact World.applies_of_calm (Program.calm_run rfl hstage)

/-- After its commit the process lives on, and the workflow learns of its end. -/
def Try.Reported (t : Try) : Prop := t.acknowledged = true ∧ some .crashes ∉ t.later

/-- If the commit of the last attempt takes place, then the attempt hears of it and is
reported; and it does take place where an earlier attempt has committed. -/
def LastTakes (hmac : String → String) (o : PipelineOrchestrator) (input : ProcessMessageInput)
    (s : State) : Action → Prop
  | .attempt t => s.attempts + 1 = processMsgRetryMaxAttempts →
      (∀ w, t.Takes hmac o input s.database w → w.next.1 = none ∧ t.Reported) ∧
        (s.durable ≠ [] → ∃ w, t.Takes hmac o input s.database w)
  | .others _ => True

theorem outcomeAfter_of_unsettled {attempts : ℕ} {reported : Option (Except AppStop Unit)}
    (hok : reported ≠ some (.ok ()))
    (hfound : reported ≠ some (.error (.raised (.app .messageNotFound)))) :
    outcomeAfter attempts reported =
      if attempts = processMsgRetryMaxAttempts then some .failed else none := by
  unfold outcomeAfter
  split
  · exact absurd rfl hok
  · exact absurd rfl hfound
  · rfl

/-- The workflow returns when an attempt is reported to have ended well; else it goes on, up
to the last attempt. -/
theorem outcome_of_try (fromisoformat : String → Option Datetime)
    (searcher : JobEmbeddingSearcher) (hmac : String → String)
    (hstored : Stored input.messageSid d) (t : Try) (attempts : ℕ) :
    let e := t.run hmac (production fromisoformat searcher) input d
    let outcome := outcomeAfter attempts (if t.acknowledged then some e.result else none)
    (e.result = .ok () ∧ t.acknowledged = true ∧ outcome = some .completed) ∨
      (¬(e.result = .ok () ∧ t.acknowledged = true) ∧
        outcome = if attempts = processMsgRetryMaxAttempts then some .failed else none) := by
  intro e outcome
  have hfound : e.result ≠ .error (.raised (.app .messageNotFound)) := by
    rcases run_cases fromisoformat searcher hmac hstored t with
      ⟨_, _, hfound, _⟩ | ⟨w, _, _, ⟨_, hok | ⟨_, hcrashed⟩⟩ | ⟨x, _, hlost⟩⟩
    · exact hfound
    · simp [e, hok]
    · simp [e, hcrashed]
    · simp [e, hlost]
  by_cases hreported : e.result = .ok () ∧ t.acknowledged = true
  · refine .inl ⟨hreported.1, hreported.2, ?_⟩
    simp only [outcome, hreported.1, hreported.2, if_true, outcomeAfter]
  · refine .inr ⟨hreported, outcomeAfter_of_unsettled ?_ ?_⟩
    · intro hok
      split_ifs at hok with hacknowledged
      exact hreported ⟨Option.some.inj hok, hacknowledged⟩
    · intro hnotFound
      split_ifs at hnotFound
      exact hfound (Option.some.inj hnotFound)

theorem step_attempt (hstep : step hmac o input s (.attempt t) = some s') :
    s.outcome = none ∧ s'.database = (t.run hmac o input s.database).database ∧
      s'.durable = s.durable ++ (t.run hmac o input s.database).durable ∧
      s'.attempts = s.attempts + 1 ∧ s'.outcome = outcomeAfter (s.attempts + 1)
        (if t.acknowledged then some (t.run hmac o input s.database).result else none) := by
  unfold step at hstep
  cases houtcome : s.outcome with
  | some outcome => simp [houtcome] at hstep
  | none =>
      simp only [houtcome] at hstep
      cases hstep
      exact ⟨rfl, rfl, rfl, rfl, rfl⟩

theorem step_others (hstep : step hmac o input s (.others d) = some s') :
    Stored input.messageSid d ∧ s' = { s with database := d } := by
  simp only [step] at hstep
  split_ifs at hstep with hd
  exact ⟨hd, (Option.some.inj hstep).symm⟩

/-- After a last attempt which meets the condition, a failed workflow has committed nothing. -/
theorem uncommitted_of_last (hstored : Stored input.messageSid s.database)
    (hok : LastTakes hmac (production fromisoformat searcher) input s (.attempt t))
    (hstep : step hmac (production fromisoformat searcher) input s (.attempt t) = some s')
    (hfailed : s'.outcome = some .failed) : s'.durable = [] := by
  obtain ⟨_, _, hdurable, _, houtcome⟩ := step_attempt hstep
  rw [hfailed] at houtcome
  rcases outcome_of_try fromisoformat searcher hmac hstored t (s.attempts + 1) with
    ⟨_, _, hcompleted⟩ | ⟨hunreported, hgoes⟩
  · rw [hcompleted] at houtcome
    cases houtcome
  · rw [hgoes] at houtcome
    split_ifs at houtcome with hlast
    obtain ⟨hheard, hagain⟩ := hok hlast
    rcases run_cases fromisoformat searcher hmac hstored t with
      ⟨hnone, _, _, hmissed⟩ | ⟨w, htakes, _, hend⟩
    · rw [hdurable, hnone, List.append_nil]
      by_contra hcommitted
      exact hmissed (hagain hcommitted)
    · obtain ⟨hnext, hacknowledged, hcrash⟩ := hheard w htakes
      rcases hend with ⟨_, hend | ⟨hcrashes, _⟩⟩ | ⟨x, hlost, _⟩
      · exact absurd ⟨hend, hacknowledged⟩ hunreported
      · exact absurd hcrashes hcrash
      · rw [hnext] at hlost
        cases hlost

/-- For a last attempt whose process is not lost behind its commit, the condition is also
needed. -/
theorem last_of_uncommitted (hstored : Stored input.messageSid s.database)
    (hlater : t.later = [])
    (hstep : step hmac (production fromisoformat searcher) input s (.attempt t) = some s')
    (h : s'.outcome = some .failed → s'.durable = []) :
    LastTakes hmac (production fromisoformat searcher) input s (.attempt t) := by
  intro hlast
  obtain ⟨_, _, hdurable, _, houtcome⟩ := step_attempt hstep
  have hcommitted (hne : s'.durable ≠ []) : t.acknowledged = true ∧
      (t.run hmac (production fromisoformat searcher) input s.database).result = .ok () := by
    rcases outcome_of_try fromisoformat searcher hmac hstored t (s.attempts + 1) with
      ⟨hend, hacknowledged, _⟩ | ⟨_, hgoes⟩
    · exact ⟨hacknowledged, hend⟩
    · rw [hgoes, if_pos hlast] at houtcome
      exact absurd (h houtcome) hne
  constructor
  · intro w htakes
    have hne : s'.durable ≠ [] := by
      rw [hdurable]
      exact List.append_ne_nil_of_right_ne_nil _ ((durable_iff hstored).mpr ⟨w, htakes⟩)
    obtain ⟨hacknowledged, hend⟩ := hcommitted hne
    refine ⟨?_, hacknowledged, hlater ▸ List.not_mem_nil⟩
    rcases run_cases fromisoformat searcher hmac hstored t with
      ⟨_, _, _, hmissed⟩ | ⟨w', htakes', _, ⟨hnext, _⟩ | ⟨x, _, hlost⟩⟩
    · exact absurd ⟨w, htakes⟩ hmissed
    · obtain ⟨actions, hstage, _⟩ := htakes
      obtain ⟨actions', hstage', _⟩ := htakes'
      rw [hstage] at hstage'
      cases hstage'
      exact hnext
    · rw [hend] at hlost
      cases hlost
  · intro hne
    have hend := (hcommitted (by
      rw [hdurable]
      exact List.append_ne_nil_of_left_ne_nil hne _)).2
    rcases run_cases fromisoformat searcher hmac hstored t with ⟨_, herror, _⟩ | ⟨w, htakes, _⟩
    · exact absurd hend herror
    · exact ⟨w, htakes⟩

/-- The message stays stored, and a failed workflow has committed nothing. -/
def Uncommitted (input : ProcessMessageInput) (s : State) : Prop :=
  Stored input.messageSid s.database ∧ (s.outcome = some .failed → s.durable = [])

theorem stored_of_step {a : Action} (hstored : Stored input.messageSid s.database)
    (hstep : step hmac (production fromisoformat searcher) input s a = some s') :
    Stored input.messageSid s'.database := by
  cases a with
  | attempt t =>
      obtain ⟨_, hdatabase, _⟩ := step_attempt hstep
      rw [hdatabase]
      exact stored_of_run hstored
  | others d =>
      obtain ⟨hd, rfl⟩ := step_others hstep
      exact hd

theorem uncommitted_of_step {a : Action}
    (hok : LastTakes hmac (production fromisoformat searcher) input s a)
    (hs : Uncommitted input s)
    (hstep : step hmac (production fromisoformat searcher) input s a = some s') :
    Uncommitted input s' := by
  refine ⟨stored_of_step hs.1 hstep, ?_⟩
  cases a with
  | attempt t => exact uncommitted_of_last hs.1 hok hstep
  | others d =>
      obtain ⟨_, rfl⟩ := step_others hstep
      exact hs.2

/-- A failed workflow has committed nothing, as long as its last attempt meets the condition;
and a last attempt whose process is not lost behind its commit has to meet it. -/
theorem failed_uncommitted {run : List Action} (hstored : Stored input.messageSid d)
    (hrun : exec (step hmac (production fromisoformat searcher) input) (start d) run = some s) :
    (Along (step hmac (production fromisoformat searcher) input)
        (LastTakes hmac (production fromisoformat searcher) input) (start d) run →
      s.outcome = some .failed → s.durable = []) ∧
    (∀ t s', t.later = [] → s.attempts + 1 = processMsgRetryMaxAttempts →
      step hmac (production fromisoformat searcher) input s (.attempt t) = some s' →
      ((s'.outcome = some .failed → s'.durable = []) ↔
        LastTakes hmac (production fromisoformat searcher) input s (.attempt t))) ∧
    ∀ t : Try, t.faults = [] →
      ((∃ w, t.Takes hmac (production fromisoformat searcher) input s.database w) ↔
        Settles fromisoformat searcher input s.database t.gpt) := by
  refine ⟨?_, ?_, fun t hcalm => takes_iff_of_calm hcalm⟩
  · intro hok
    have hstart : Uncommitted input (start d) := ⟨hstored, fun h => by cases h⟩
    exact (exec_invariant (Uncommitted input)
      (fun _ _ _ ha hs hstep => uncommitted_of_step ha hs hstep) hok hstart hrun).2
  · intro t s' hlater _ hstep
    have hstored' : Stored input.messageSid s.database :=
      exec_invariant (fun x => Stored input.messageSid x.database)
        (fun _ _ _ _ hs hstep => stored_of_step hs hstep) (along_true _ run) hstored hrun
    constructor
    · exact last_of_uncommitted hstored' hlater hstep
    · intro hlast
      exact uncommitted_of_last hstored' hlast hstep

end

/-- An attempt whose answer is not to be had. -/
def unanswered : Try := ⟨fun _ => none, [], [], true⟩

/-- An attempt which stages its job and whose commit is refused. -/
def refused : Try :=
  ⟨answersJob, List.replicate 6 none ++ [some (.refuses (.unavailable "postgres"))], [], true⟩

theorem not_takes_refused (w : AppWorld) :
    ¬refused.Takes id plainChain ⟨"SM1", "+1", "hi"⟩ helloDatabase w := by
  rintro ⟨actions, hstage, happlies⟩
  have hrefused : ((stageMessage id plainChain refused.gpt ⟨"SM1", "+1", "hi"⟩).run
      (.opened helloDatabase refused.faults)).2.applies = false := by decide +kernel
  rw [hstage] at hrefused
  rw [hrefused] at happlies
  cases happlies

theorem failed_uncommitted_refused :
    ∃ s, exec (step id plainChain ⟨"SM1", "+1", "hi"⟩) (start helloDatabase)
        [.attempt unanswered, .attempt refused, .attempt unanswered, .attempt refused] =
          some s ∧ s.outcome = some .failed ∧ s.durable = [] := by
  have hok : Along (step id plainChain ⟨"SM1", "+1", "hi"⟩)
      (LastTakes id plainChain ⟨"SM1", "+1", "hi"⟩) (start helloDatabase)
      [.attempt unanswered, .attempt refused, .attempt unanswered, .attempt refused] := by
    refine .cons (fun h => ?_) rfl (.cons (fun h => ?_) rfl (.cons (fun h => ?_) rfl
      (.cons (fun h => ?_) rfl trivial)))
    · cases h
    · cases h
    · cases h
    · exact ⟨fun w htakes => absurd htakes (not_takes_refused w), fun hne => absurd rfl hne⟩
  refine ⟨_, rfl, rfl, ?_⟩
  exact (failed_uncommitted (by decide : Stored "SM1" helloDatabase) rfl).1 hok rfl

/-- The first attempt commits its job and loses its report; each later one finds the job. -/
theorem failed_though_committed :
    ∃ s, exec (step id plainChain ⟨"SM1", "+1", "hi"⟩) (start helloDatabase)
        [.attempt ⟨answersJob, [], [], false⟩, .attempt ⟨answersJob, [], [], true⟩,
          .attempt ⟨answersJob, [], [], true⟩, .attempt ⟨answersJob, [], [], true⟩] = some s ∧
      s.outcome = some .failed ∧ s.durable ≠ [] ∧ HasJob s.database 1 := by
  refine ⟨_, rfl, ?_⟩
  decide +kernel

end Vici.WorkflowFailures
