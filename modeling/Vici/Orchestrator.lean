import Vici.Handlers

/-!
# The orchestrator and its unit of work

A run classifies the message, stages an audit row, the handler's rows and the
classification, and commits once. Only then are the registered actions awaited,
each on its own: an exception of one is logged and the next one follows. Before
the commit nothing is durable and nothing has an effect. A commit may take place
although the run is told of an error; then everything staged is durable.
-/
namespace Vici.Orchestrator
open Models Datetimes AppPrograms SessionPrograms SmsRepositories RowCreation MatchService Handlers
open SyncQueueRepository
open Program (Triple Keeps Staged)

/-- The chain ends with the one terminal handler; the constructor checks it. -/
structure PipelineOrchestrator where
  handlers : List MessageHandler
  terminal_last : ∃ h, handlers.getLast? = some h ∧ h.isTerminal = true
  terminal_only_last : ∀ h ∈ handlers.dropLast, h.isTerminal = false

namespace PipelineOrchestrator

/-- The terminal handler at the end accepts what no other handler has accepted. -/
theorem dispatches (o : PipelineOrchestrator) (result : ExtractionResult) :
    (o.handlers.find? fun h => h.canHandle result).isSome := by
  obtain ⟨h, hlast, hterminal⟩ := o.terminal_last
  rw [List.find?_isSome]
  exact ⟨h, List.mem_of_getLast? hlast, h.terminal_accepts hterminal result⟩

/-- The first handler which can handle the result. -/
def dispatch (o : PipelineOrchestrator) (result : ExtractionResult) : MessageHandler :=
  (o.handlers.find? fun h => h.canHandle result).get (o.dispatches result)

theorem dispatch_mem (o : PipelineOrchestrator) (result : ExtractionResult) :
    o.dispatch result ∈ o.handlers :=
  List.mem_of_find?_eq_some (Option.some_get (o.dispatches result)).symm

theorem canHandle_dispatch (o : PipelineOrchestrator) (result : ExtractionResult) :
    (o.dispatch result).canHandle result = true := by
  have hfind : (o.handlers.find? fun h => h.canHandle result) = some (o.dispatch result) :=
    (Option.some_get (o.dispatches result)).symm
  exact List.find?_some (p := fun h : MessageHandler => h.canHandle result) hfind

end PipelineOrchestrator

/-- What GPT answers to a text; `none` is a response that cannot be parsed. -/
abbrev ExtractionService := String → Option ExtractionResult

def process (gpt : ExtractionService) (smsText : String) : App ExtractionResult := do
  .step
  match gpt smsText with
  | none => .raise .extractionParse
  | some result => pure result

/-- The arguments of a run. -/
structure MessageInput where
  smsText : String
  phoneHash : String
  messageId : ℕ
  userId : ℕ
  messageSid : String
  fromNumber : String

def MessageInput.context (m : MessageInput) (result : ExtractionResult) : PipelineContext :=
  ⟨result, m.smsText, m.phoneHash, m.messageId, m.userId, m.messageSid, m.fromNumber⟩

/-- Everything before the commit: the result, and the actions which were registered. -/
def stage (o : PipelineOrchestrator) (gpt : ExtractionService) (m : MessageInput) :
    App (ExtractionResult × List PostCommitAction) := do
  let result ← process gpt m.smsText
  writeAudit m.messageSid .gptClassified (some m.messageId)
  let actions ← (o.dispatch result).handle (m.context result)
  recordClassification m.messageId (o.dispatch result).messageType result.modelDumpJson
  pure (result, actions)

/-- An action is awaited; whatever it raises is logged. -/
def runAction (action : PostCommitAction) : App Unit := do
  .update (Program.logged (.ran action))
  .attempt (perform action) fun _ => some (pure ())

def finish (actions : List PostCommitAction) : App Unit := do
  .commit
  .forEach runAction actions

/-- `PipelineOrchestrator.run` -/
def run (o : PipelineOrchestrator) (gpt : ExtractionService) (m : MessageInput) :
    App ExtractionResult := do
  let staged ← stage o gpt m
  finish staged.2
  pure staged.1

/-- The chain which the application is composed with. -/
def production (fromisoformat : String → Option Datetime) (searcher : JobEmbeddingSearcher) :
    PipelineOrchestrator where
  handlers := [jobPostingHandler fromisoformat, workGoalHandler fromisoformat searcher,
    unknownMessageHandler]
  terminal_last := ⟨unknownMessageHandler, rfl, rfl⟩
  terminal_only_last := by
    intro h hh
    simp only [List.dropLast, List.mem_cons, List.not_mem_nil, or_false] at hh
    rcases hh with rfl | rfl <;> rfl

/-- A result is dispatched to one of its three handlers. -/
theorem dispatch_production (fromisoformat : String → Option Datetime)
    (searcher : JobEmbeddingSearcher) (result : ExtractionResult) :
    (production fromisoformat searcher).dispatch result = jobPostingHandler fromisoformat ∨
      (production fromisoformat searcher).dispatch result =
        workGoalHandler fromisoformat searcher ∨
      (production fromisoformat searcher).dispatch result = unknownMessageHandler := by
  have hmem := (production fromisoformat searcher).dispatch_mem result
  rw [production] at hmem ⊢
  simpa only [List.mem_cons, List.not_mem_nil, or_false] using hmem

section
variable {o : PipelineOrchestrator} {gpt : ExtractionService} {m : MessageInput}
variable {d : Database} {l : List (Event Database Effect)}

theorem process_triple {P : Program.Assertion Database Effect} (smsText : String) :
    Triple P (process gpt smsText) (fun result s => P s ∧ gpt smsText = some result)
      (fun e s => P s ∧ Program.Allowed (fun _ => True) e) := by
  refine .bind (.step fun _ => Program.stopped) fun _ => ?_
  split
  · exact .raise fun s hs => ⟨hs, fun _ _ => trivial⟩
  · rename_i result hgpt
    exact .pure fun s hs => ⟨hs, hgpt⟩

theorem keeps_process {P : Program.Assertion Database Effect} {R : AppError → Prop}
    (hR : R .extractionParse) (smsText : String) : Keeps P R (process gpt smsText) := by
  refine .bind .step fun _ => ?_
  split
  · exact .raise hR
  · exact .pure _

theorem staged_stage : Keeps (Staged d l) (fun _ => True) (stage o gpt m) :=
  .bind (keeps_process trivial _) fun result =>
    .bind (keeps_writeAudit (fun _ _ hs => hs) _ _ _) fun _ =>
    .bind ((o.dispatch result).flushOnly _ d l) fun _ =>
      .bind (Staged.statement fun _ _ _ => trivial) fun _ => .pure _

theorem stage_ok {staged : ExtractionResult × List PostCommitAction} {w w' : AppWorld}
    (h : (stage o gpt m).run w = (.ok staged, w')) : gpt m.smsText = some staged.1 := by
  obtain ⟨result, w₁, hprocess, h⟩ := Program.run_bind_ok h
  obtain ⟨_, w₂, _, h⟩ := Program.run_bind_ok h
  obtain ⟨actions, w₃, _, h⟩ := Program.run_bind_ok h
  obtain ⟨_, w₄, _, h⟩ := Program.run_bind_ok h
  cases h
  exact ((process_triple (P := fun _ => True) m.smsText).ok trivial hprocess).2

end

/-- The actions which were awaited, in their order. -/
def ranActions (log : List (Event Database Effect)) : List PostCommitAction :=
  log.filterMap fun
    | .effect (.ran a) => some a
    | _ => none

/-- The effect which a deferred action is there for. -/
def effectOf : PostCommitAction → Effect
  | .upsertEmbedding jobId description phoneHash => .vectorUpserted jobId description phoneHash
  | .sendMatchReply toNumber body => .smsSent toNumber body
  | .sendUnknownReply toNumber => .smsSent toNumber unknownReplyText

/-- The effect took place once, or not at all because the environment was against it. -/
def Attempted (e : Effect) (w w' : AppWorld) : Prop :=
  ∃ events, w'.store.log = w.store.log ++ events ∧ ranActions events = [] ∧
    (outward events = [e] ∨ outward events = [] ∧ w.Struck w')

/-- The actions are performed one after another; what one of them raises stays with it. -/
inductive Executed : List PostCommitAction → AppWorld → AppWorld → Prop
  | nil (w : AppWorld) : Executed [] w w
  | cons {action : PostCommitAction} {actions : List PostCommitAction} {w w₁ w₂ w' : AppWorld}
      {r : Except AppStop Unit} :
      w₁ = { w with store := Program.logged (.ran action) w.store } →
      (perform action).run w₁ = (r, w₂) → r ≠ .error .crashed →
      Attempted (effectOf action) w₁ w₂ → Executed actions w₂ w' →
      Executed (action :: actions) w w'

/-- Since the log was `l` it has only been told of commits. -/
def Quiet (l : List (Event Database Effect)) (s : AppStore) : Prop :=
  ∃ events, s.log = l ++ events ∧ ranActions events = [] ∧ outward events = []

section
variable {w w' : AppWorld} {e : Effect}

theorem Attempted.of_landed {events : List (Event Database Effect)}
    (hlog : w'.store.log = w.store.log ++ .effect e :: events) (he : ∀ a, e ≠ .ran a)
    (hran : ranActions events = []) (hnone : outward events = []) : Attempted e w w' := by
  refine ⟨.effect e :: events, hlog, ?_, .inl ?_⟩
  all_goals
    cases e with
    | ran a => exact absurd rfl (he a)
    | _ =>
      first
      | exact hran
      | exact congrArg (_ :: ·) hnone

/-- A call whose error is caught is a call attempted, if what catches it only commits. -/
theorem attempted_of_caught {body fallback : App Unit} (he : ∀ a, e ≠ .ran a)
    (hok : ∀ w', body.run w = (.ok (), w') → w'.store.log = w.store.log ++ [.effect e])
    (hraised : ∀ x w', body.run w = (.error (.raised x), w') →
      w'.store.log = w.store.log ++ [.effect e] ∨ w'.store.log = w.store.log ∧ w.Struck w')
    (hfallback : ∀ l, Keeps (Quiet l) (fun _ => True) fallback) {r : Except AppStop Unit}
    (h : (Program.attempt body fun _ => some fallback).run w = (r, w'))
    (hcrash : r ≠ .error .crashed) : Attempted e w w' := by
  rcases hrun : body.run w with ⟨(x | _) | _, w₁⟩
  · rw [Program.run_attempt_of_caught hrun rfl] at h
    obtain ⟨events, hlog, hran, hnone⟩ : Quiet w₁.store.log w'.store := by
      have hquiet := (hfallback w₁.store.log).store (w := w₁) ⟨[], by simp, rfl, rfl⟩
      rwa [h] at hquiet
    rcases hraised _ _ hrun with hlanded | ⟨hsame, hstruck⟩
    · refine .of_landed ?_ he hran hnone
      rw [hlog, hlanded, List.append_assoc, List.singleton_append]
    · refine ⟨events, by rw [hlog, hsame], hran, .inr ⟨hnone, ?_⟩⟩
      exact hstruck.mono List.suffix_rfl (Program.faults_of_run h)
  · simp only [Program.attempt, hrun, Prod.mk.injEq] at h
    exact absurd h.1.symm hcrash
  · rw [Program.run_attempt_of_ok hrun] at h
    cases h
    exact .of_landed (hok _ hrun) he rfl rfl

/-- An external call leaves its effect, or the environment was against it. -/
theorem run_external_log {r : Except AppStop Unit}
    (h : (Program.external e : App Unit).run w = (r, w')) :
    w'.store.log = w.store.log ++ [.effect e] ∨ w'.store.log = w.store.log ∧ w.Struck w' := by
  rcases r with s | _
  · obtain ⟨hstruck, _, hsame | ⟨_, _, _, hlost⟩⟩ := Program.run_call_error h
    · exact .inr ⟨by rw [hsame], hstruck⟩
    · exact .inl (by rw [hlost]; rfl)
  · exact .inl (by rw [Program.run_call_ok h]; rfl)

theorem attempted_sms {toNumber body : String} {r : Except AppStop Unit}
    (h : (Program.attempt (sendSms toNumber body) fun _ => some (pure ())).run w = (r, w'))
    (hcrash : r ≠ .error .crashed) : Attempted (.smsSent toNumber body) w w' := by
  refine attempted_of_caught (by simp) (fun w' hrun => ?_)
    (fun x w' hrun => run_external_log hrun) (fun l => .pure ()) h hcrash
  rw [Program.run_call_ok hrun]
  rfl

theorem quiet_enqueue (jobId : ℕ) (l : List (Event Database Effect)) :
    Keeps (Quiet l) (fun _ => True) (.attempt (do
      let _ ← enqueue jobId
      .commit) fun _ => some .rollback) := by
  refine .attempt (S := fun _ => True) (.bind (.statement (fun _ _ _ hs _ => hs)
    fun _ _ _ _ => trivial) fun _ => .commit fun s hs => ?_) (fun e h hh _ => ?_)
      fun _ _ _ => trivial
  · obtain ⟨events, hlog, hran, hnone⟩ := hs
    refine ⟨events ++ [.committed s.session], ?_, ?_, ?_⟩
    · rw [hlog, List.append_assoc]
    · rw [ranActions, List.filterMap_append]
      exact List.append_eq_nil_iff.mpr ⟨hran, rfl⟩
    · rw [outward_append, hnone]
      rfl
  · cases hh
    exact .rollback fun _ hs => hs

theorem attempted_upsert {jobId : ℕ} {description phoneHash : String} {r : Except AppStop Unit}
    (h : (perform (.upsertEmbedding jobId description phoneHash)).run w = (r, w'))
    (hcrash : r ≠ .error .crashed) :
    Attempted (.vectorUpserted jobId description phoneHash) w w' := by
  rw [perform] at h
  refine attempted_of_caught (by simp) (fun w₂ hrun => ?_) (fun x w₂ hrun => ?_)
    (quiet_enqueue jobId) h hcrash
  · obtain ⟨_, w₁, hstep, hrun⟩ := Program.run_bind_ok hrun
    rw [Program.run_call_ok hrun, ← Program.run_step_ok hstep]
    rfl
  · rcases hstep : (Program.step : App Unit).run w with ⟨s | _, w₁⟩
    · rw [writeJobEmbedding, Program.run_bind_of_error hstep] at hrun
      cases hrun
      obtain ⟨hstruck, hsame⟩ := Program.run_step_error hstep
      exact .inr ⟨by rw [hsame], hstruck⟩
    · rw [writeJobEmbedding, Program.run_bind_of_ok hstep] at hrun
      rw [← Program.run_step_ok hstep]
      refine (run_external_log hrun).imp_right fun hmissed => ⟨hmissed.1, ?_⟩
      exact hmissed.2.mono (Program.faults_of_run hstep) List.suffix_rfl

/-- However an action ends, it was attempted. -/
theorem attempted_of_perform {action : PostCommitAction} {r : Except AppStop Unit}
    (h : (perform action).run w = (r, w')) (hcrash : r ≠ .error .crashed) :
    Attempted (effectOf action) w w' := by
  cases action with
  | upsertEmbedding jobId description phoneHash => exact attempted_upsert h hcrash
  | sendMatchReply toNumber body => exact attempted_sms h hcrash
  | sendUnknownReply toNumber => exact attempted_sms h hcrash

/-- Whatever an action raises, the loop goes on behind it. -/
theorem run_runAction {action : PostCommitAction} {r : Except AppStop Unit}
    (h : (runAction action).run w = (r, w')) (hcrash : r ≠ .error .crashed) :
    r = .ok () ∧ ∃ r' : Except AppStop Unit, (perform action).run { w with
      store := Program.logged (.ran action) w.store } = (r', w') ∧ r' ≠ .error .crashed := by
  rcases hrun : (perform action).run { w with store := Program.logged (.ran action) w.store }
    with ⟨(x | _) | _, w₁⟩
  all_goals
    rw [runAction, Program.run_bind_of_ok (a := ()) rfl] at h
    simp only [Program.attempt, hrun] at h
    cases h
  · exact ⟨rfl, _, rfl, by simp⟩
  · exact absurd rfl hcrash
  · exact ⟨rfl, _, rfl, by simp⟩

theorem executed_of_run {actions : List PostCommitAction} {r : Except AppStop Unit}
    (h : (Program.forEach runAction actions).run w = (r, w')) (hcrash : r ≠ .error .crashed) :
    r = .ok () ∧ Executed actions w w' := by
  induction actions generalizing w with
  | nil =>
      cases h
      exact ⟨rfl, .nil _⟩
  | cons action actions ih =>
      rcases hrun : (runAction action).run w with ⟨s | _, w₁⟩
      · rw [Program.forEach, Program.run_bind_of_error hrun] at h
        cases h
        cases (run_runAction hrun hcrash).1
      · rw [Program.forEach, Program.run_bind_of_ok hrun] at h
        obtain ⟨_, r', hperform, hr'⟩ := run_runAction hrun (by simp)
        obtain ⟨hr, hrest⟩ := ih h
        exact ⟨hr, .cons rfl hperform hr' (attempted_of_perform hperform hr') hrest⟩

/-- Each action has left its mark once, in the order of the list. -/
theorem Executed.ranActions {actions : List PostCommitAction} (h : Executed actions w w') :
    ∃ post, w'.store.log = w.store.log ++ post ∧ ranActions post = actions := by
  induction h with
  | nil w => exact ⟨[], by simp, rfl⟩
  | @cons action actions w w₁ w₂ w' r hw₁ hperform hcrash hattempted hrest ih =>
      obtain ⟨events, hlog, hran, _⟩ := hattempted
      obtain ⟨post, hpost, hactions⟩ := ih
      refine ⟨.effect (.ran action) :: events ++ post, ?_, ?_⟩
      · rw [hpost, hlog, hw₁]
        simp [Program.logged]
      · rw [Orchestrator.ranActions, List.filterMap_append]
        exact congrArg₂ (· ++ ·) (congrArg (action :: ·) hran) hactions

end

section
variable {o : PipelineOrchestrator} {gpt : ExtractionService} {m : MessageInput}
variable {w w₁ w₂ : AppWorld} {staged : ExtractionResult × List PostCommitAction}

theorem run_of_stage (hstage : (stage o gpt m).run w = (.ok staged, w₁)) :
    (run o gpt m).run w = (do
      finish staged.2
      pure staged.1 : App ExtractionResult).run w₁ := Program.run_bind_of_ok hstage

/-- Behind the commit only a crash stops the run. -/
theorem run_of_committed (hstage : (stage o gpt m).run w = (.ok staged, w₁))
    (hcommit : (Program.commit : App Unit).run w₁ = (.ok (), w₂))
    {r : Except AppStop ExtractionResult} {w' : AppWorld} (h : (run o gpt m).run w = (r, w'))
    (hcrash : r ≠ .error .crashed) :
    r = .ok staged.1 ∧ gpt m.smsText = some staged.1 ∧
      w₂.store.committed = w₁.store.session ∧
        w₂.store.log = w.store.log ++ [.committed w₁.store.session] ∧
          Executed staged.2 w₂ w' := by
  have hw₁ := staged_stage.ok ⟨rfl, rfl⟩ hstage
  have hw₂ := Program.run_commit_ok hcommit
  rw [run_of_stage hstage, finish, bind_assoc, Program.run_bind_of_ok hcommit] at h
  rcases hactions : (Program.forEach runAction staged.2).run w₂ with ⟨x | _, w₃⟩
  · rw [Program.run_bind_of_error hactions] at h
    cases h
    cases (executed_of_run hactions fun hx => hcrash (congrArg _ (Except.error.inj hx))).1
  · rw [Program.run_bind_of_ok hactions] at h
    cases h
    refine ⟨rfl, stage_ok hstage, by rw [hw₂], by rw [hw₂, hw₁.2], ?_⟩
    exact (executed_of_run hactions (by simp)).2

/-- A run that raises has changed nothing, or it was told nothing of its commit. -/
theorem run_of_raised {e : AppExn} {w' : AppWorld}
    (h : (run o gpt m).run w = (.error (.raised e), w')) :
    w'.store.committed = w.store.committed ∧ w'.store.log = w.store.log ∨
      ∃ staged w₁ x, (stage o gpt m).run w = (.ok staged, w₁) ∧
        w₁.next.1 = some (.loses x) ∧ e = .infra x ∧
          w'.store.committed = w₁.store.session ∧
            w'.store.log = w.store.log ++ [.committed w₁.store.session] := by
  have hpre : Staged w.store.committed w.store.log w.store := ⟨rfl, rfl⟩
  rcases hstage : (stage o gpt m).run w with ⟨x | staged, w₁⟩
  · rw [run, Program.run_bind_of_error hstage] at h
    cases h
    exact .inl (staged_stage.error hpre hstage).1
  · have hw₁ := staged_stage.ok hpre hstage
    rcases hcommit : (Program.commit : App Unit).run w₁ with ⟨x | _, w₂⟩
    · rw [run_of_stage hstage, finish, bind_assoc, Program.run_bind_of_error hcommit] at h
      cases h
      rcases (Program.run_call_error hcommit).2.2 with hsame | ⟨y, hnext, he, hlost⟩
      · exact .inl ⟨by rw [hsame, hw₁.1], by rw [hsame, hw₁.2]⟩
      · cases he
        exact .inr ⟨staged, w₁, y, rfl, hnext, rfl, by rw [hlost], by rw [hlost, hw₁.2]⟩
    · cases (run_of_committed hstage hcommit h (by simp)).1

/-- A run returns only through its commit. -/
theorem run_of_returned {result : ExtractionResult} {w' : AppWorld}
    (h : (run o gpt m).run w = (.ok result, w')) :
    ∃ actions w₁ w₂, (stage o gpt m).run w = (.ok (result, actions), w₁) ∧
      (Program.commit : App Unit).run w₁ = (.ok (), w₂) := by
  obtain ⟨staged, w₁, hstage, h⟩ := Program.run_bind_ok h
  obtain ⟨_, w₃, hfinish, h⟩ := Program.run_bind_ok h
  obtain ⟨_, w₂, hcommit, _⟩ := Program.run_bind_ok hfinish
  cases h
  exact ⟨staged.2, w₁, w₂, hstage, hcommit⟩

end

/-- Nothing which a run writes into a database breaks `I`. -/
structure PipelineInvariant (I : Database → Prop) : Prop where
  audited : ∀ d logs, I d → I { d with auditLogs := logs }
  job : ∀ create d job d', I d → insertJob create d = .ok (job, d') → I d'
  workGoal : ∀ create d goal d', I d → insertWorkGoal create d = .ok (goal, d') → I d'
  matched : ∀ d rows, I d → I { d with matchRows := rows }
  classified : ∀ d messageId t raw, I d →
    I { d with messages := d.messages.map (classifyRow messageId t raw) }
  queued : ∀ d entry, I d → I { d with syncQueue := d.syncQueue ++ [entry] }

namespace PipelineInvariant
variable {I : Database → Prop} {R : AppError → Prop} {gpt : ExtractionService}
variable {fromisoformat : String → Option Datetime} {searcher : JobEmbeddingSearcher}

theorem keeps_writeAudit (h : PipelineInvariant I) (messageSid : String) (event : AuditEvent)
    (messageId : Option ℕ) : Keeps (Program.Holds I) R (writeAudit messageSid event messageId) :=
  SmsRepositories.keeps_writeAudit (fun s logs hs => ⟨hs.1, h.audited s.session logs hs.2⟩) _ _ _

/-- Each handler of the chain; only the lookup of the message raises `messageNotFound`. -/
theorem keeps_dispatch (h : PipelineInvariant I) (hR : ∀ e, e ≠ .messageNotFound → R e)
    (result : ExtractionResult) (ctx : PipelineContext) :
    Keeps (Program.Holds I) R
      (((production fromisoformat searcher).dispatch result).handle ctx) := by
  have hrefused (e : AppError) (he : e = .assertion ∨ e = .validation) : R e :=
    hR e (by rcases he with rfl | rfl <;> decide)
  rcases dispatch_production fromisoformat searcher result with heq | heq | heq
  · rw [heq]
    show Keeps _ _ (jobPostingHandle fromisoformat ctx)
    rcases jobPostingHandle_cases fromisoformat ctx with ⟨e, he, heq⟩ | ⟨_, _, _, _, heq⟩
    · rw [heq]
      exact .raise (hrefused e he)
    · rw [heq]
      refine .bind (Program.Holds.statement (fun d job d' hd hok => h.job _ d job d' hd hok)
        fun d e _ herror => ?_) fun job => .bind (h.keeps_writeAudit _ _ _) fun _ => .pure _
      exact absurd herror (insertJob_ne_app e)
  · rw [heq]
    show Keeps _ _ (workGoalHandle fromisoformat searcher ctx)
    rcases workGoalHandle_cases fromisoformat searcher ctx with
      ⟨e, he, heq⟩ | ⟨_, _, _, _, heq⟩
    · rw [heq]
      exact .raise (hrefused e he)
    · rw [heq]
      refine .bind (Program.Holds.statement (fun d goal d' hd hok => h.workGoal _ d goal d' hd hok)
        fun d e _ herror => ?_) fun goal => .bind (h.keeps_writeAudit _ _ _) fun _ =>
          .bind (keeps_matchJobs (fun s rows hs => ⟨hs.1, h.matched s.session rows hs.2⟩)
            (fun s t hs ht => ⟨ht.1, hs.2⟩) (hR _ (by decide)) (hR _ (by decide)) searcher
            goal _) fun _ => .pure _
      exact absurd herror (insertWorkGoal_ne_app e)
  · rw [heq]
    exact .pure _

theorem keeps_stage (h : PipelineInvariant I) (hR : ∀ e, e ≠ .messageNotFound → R e)
    (m : MessageInput) :
    Keeps (Program.Holds I) R (stage (production fromisoformat searcher) gpt m) := by
  refine .bind (keeps_process (hR _ (by decide)) _) fun result =>
    .bind (h.keeps_writeAudit _ _ _) fun _ => .bind (h.keeps_dispatch hR result _) fun actions =>
      .bind (Program.Holds.statement ?_ ?_) fun _ => .pure _
  · intro d _ d' hd hok
    cases hok
    exact h.classified d _ _ _ hd
  · intro d e _ herror
    cases herror

theorem keeps_runAction (h : PipelineInvariant I) (action : PostCommitAction) :
    Keeps (Program.Holds I) (fun _ => True) (runAction action) := by
  refine .bind (.update fun s hs => hs) fun _ => .attempt (keeps_perform
    (fun s entry _ hs => ⟨hs.1, h.queued s.session entry hs.2⟩) (fun s hs => ⟨hs.2, hs.2⟩)
      (fun s hs => ⟨hs.1, hs.1⟩) fun s e _ hs => hs) ?_ fun _ _ _ => trivial
  intro e handler hh _
  cases hh
  exact .pure _

theorem keeps_run (h : PipelineInvariant I) (m : MessageInput) :
    Keeps (Program.Holds I) (fun _ => True) (run (production fromisoformat searcher) gpt m) := by
  refine .bind (h.keeps_stage (fun _ _ => trivial) m) fun staged =>
    .bind (.bind (.commit fun s hs => ⟨hs.2, hs.2⟩) fun _ => ?_) fun _ => .pure _
  exact .forEach h.keeps_runAction staged.2

end PipelineInvariant

/-- A run raises without effects and without a trace in the database, or its unit of work is
durable as a whole and only the answer of the commit was lost; behind a commit which returns
every action is executed once. -/
theorem run_atomic {fromisoformat : String → Option Datetime} {searcher : JobEmbeddingSearcher}
    {gpt : ExtractionService} {m : MessageInput} {w w' : AppWorld}
    {r : Except AppStop ExtractionResult}
    (h : (run (production fromisoformat searcher) gpt m).run w = (r, w')) :
    (∀ e, r = .error (.raised e) →
      w'.store.committed = w.store.committed ∧ w'.store.log = w.store.log ∨
        ∃ staged w₁ x,
          (stage (production fromisoformat searcher) gpt m).run w = (.ok staged, w₁) ∧
            w₁.next.1 = some (.loses x) ∧ e = .infra x ∧
              w'.store.committed = w₁.store.session ∧
                w'.store.log = w.store.log ++ [.committed w₁.store.session]) ∧
    (∀ result actions w₁ w₂,
      (stage (production fromisoformat searcher) gpt m).run w = (.ok (result, actions), w₁) →
      (Program.commit : App Unit).run w₁ = (.ok (), w₂) → r ≠ .error .crashed →
        r = .ok result ∧ gpt m.smsText = some result ∧
          w₂.store.committed = w₁.store.session ∧
            w₂.store.log = w.store.log ++ [.committed w₁.store.session] ∧
              Executed actions w₂ w' ∧
                ∃ post, w'.store.log = w₂.store.log ++ post ∧ ranActions post = actions) ∧
    (∀ result, r = .ok result → ∃ actions w₁ w₂,
      (stage (production fromisoformat searcher) gpt m).run w = (.ok (result, actions), w₁) ∧
        (Program.commit : App Unit).run w₁ = (.ok (), w₂)) := by
  refine ⟨?_, ?_, ?_⟩
  · rintro e rfl
    exact run_of_raised h
  · intro result actions w₁ w₂ hstage hcommit hcrash
    obtain ⟨hr, hresult, hdurable, hlog, hexecuted⟩ :=
      run_of_committed hstage hcommit h hcrash
    exact ⟨hr, hresult, hdurable, hlog, hexecuted, hexecuted.ranActions⟩
  · rintro result rfl
    exact run_of_returned h

def helloDatabase : Database :=
  { Database.empty with
    users := [⟨1, "+1", some "+1"⟩]
    messages := [⟨1, "SM1", 1, "hi", none, none⟩] }

def helloInput : MessageInput := ⟨"hi", "+1", 1, 1, "SM1", "+1"⟩

def answersUnknown : ExtractionService := fun _ => some ⟨.unknown, none, none, "\x7b\x7d"⟩

/-- The four steps of the unit of work succeed; the reply is refused. -/
def replyRefused : AppWorld :=
  .opened helloDatabase [none, none, none, none, some (.refuses (.unavailable "twilio"))]

theorem run_atomic_refused_reply :
    ∃ staged w₂ post, w₂.store.committed = staged ∧ Executed [.sendUnknownReply "+1"] w₂
        ((run (production (fun _ => none) none) answersUnknown helloInput).run replyRefused).2 ∧
      ((run (production (fun _ => none) none) answersUnknown helloInput).run
          replyRefused).2.store.log = .committed staged :: post ∧
        ranActions post = [.sendUnknownReply "+1"] := by
  obtain ⟨_, hcommitted, _⟩ := run_atomic (Prod.eta
    ((run (production (fun _ => none) none) answersUnknown helloInput).run replyRefused)).symm
  obtain ⟨_, _, hdurable, hlog, hexecuted, post, hpost, hran⟩ :=
    hcommitted ⟨.unknown, none, none, "\x7b\x7d"⟩ [.sendUnknownReply "+1"] _ _ rfl rfl
      (by rintro ⟨⟩)
  refine ⟨_, _, post, hdurable, hexecuted, ?_, hran⟩
  rw [hpost, hlog]
  rfl

/-- The three statements are staged; the commit takes place and its answer is lost. -/
def commitLost : AppWorld :=
  .opened helloDatabase [none, none, none, some (.loses (.unavailable "postgres"))]

/-- The run raises, and the classified message is durable. -/
theorem lost_commit_durable :
    ((run (production (fun _ => none) none) answersUnknown helloInput).run commitLost).1 =
        .error (.raised (.infra (.unavailable "postgres"))) ∧
      ((run (production (fun _ => none) none) answersUnknown helloInput).run
          commitLost).2.store.committed.messages =
        [⟨1, "SM1", 1, "hi", some .unknown, some "\x7b\x7d"⟩] ∧
      ((run (production (fun _ => none) none) answersUnknown helloInput).run
          commitLost).2.store.committed ≠ commitLost.store.committed := by
  refine ⟨rfl, rfl, ?_⟩
  intro heq
  cases congrArg Database.messages heq

end Vici.Orchestrator
