import Vici.TableIntegrity
import Vici.WorkflowFailures

/-!
# Messages which settle

Undisturbed, an attempt ends well exactly if its message settles: it then commits
once, and the one effect which its action is for takes place. A workflow goes on
until an attempt is reported to have ended well, or until its attempts are used up;
so one undisturbed attempt which settles the message completes it.
-/
namespace Vici.SettledMessages
open Models Datetimes AppPrograms SessionPrograms SmsRepositories MatchService Handlers
open Orchestrator ActionRuns WorkflowFailures
open Attempts hiding step
open ServiceRuns (Commits commits_of_stage)
open Program (Triple)

/-- What an undisturbed action adds to the log. -/
def entriesOf (action : PostCommitAction) : List (Event Database Effect) :=
  [.effect (.ran action), .effect (effectOf action)]

section
variable {w : AppWorld}

theorem run_perform_of_calm (hcalm : w.faults = []) (action : PostCommitAction) :
    (perform action).run w =
      (.ok (), { w with store := Program.logged (effectOf action) w.store }) := by
  cases action with
  | upsertEmbedding jobId description phoneHash =>
      rw [perform]
      apply Program.run_attempt_of_ok
      rw [writeJobEmbedding, Program.run_bind_of_ok (Program.run_step_of_calm hcalm)]
      exact Program.run_external_of_calm hcalm
  | sendMatchReply toNumber body =>
      rw [perform]
      exact Program.run_attempt_of_ok (Program.run_external_of_calm hcalm)
  | sendUnknownReply toNumber =>
      rw [perform]
      exact Program.run_attempt_of_ok (Program.run_external_of_calm hcalm)

theorem run_runAction_of_calm (hcalm : w.faults = []) (action : PostCommitAction) :
    (runAction action).run w = (.ok (), { w with store := { w.store with
      log := w.store.log ++ entriesOf action } }) := by
  set w₁ : AppWorld := { w with store := Program.logged (.ran action) w.store }
  have hupdate : (Program.update (Program.logged (.ran action)) : App Unit).run w = (.ok (), w₁) :=
    rfl
  have hperform := run_perform_of_calm (w := w₁) hcalm action
  rw [runAction, Program.run_bind_of_ok hupdate, Program.run_attempt_of_ok hperform]
  simp [w₁, Program.logged, entriesOf]

theorem run_actions_of_calm (hcalm : w.faults = []) (actions : List PostCommitAction) :
    (Program.forEach runAction actions).run w = (.ok (), { w with store := { w.store with
      log := w.store.log ++ actions.flatMap entriesOf } }) := by
  induction actions generalizing w with
  | nil =>
      rw [List.flatMap_nil, List.append_nil]
      rfl
  | cons action actions ih =>
      rw [Program.forEach, Program.run_bind_of_ok (run_runAction_of_calm hcalm action)]
      have hrest := ih (w := { w with store := { w.store with
        log := w.store.log ++ entriesOf action } }) hcalm
      rw [hrest]
      simp

end

section
variable {hmac : String → String} {fromisoformat : String → Option Datetime}
variable {searcher : JobEmbeddingSearcher} {input : ProcessMessageInput}
variable {o : PipelineOrchestrator} {gpt : ExtractionService} {d d' : Database} {w : AppWorld}
variable {actions : List PostCommitAction}

theorem length_of_commits {faults : List (Option AppFault)}
    (h : Commits hmac searcher input faults d d' actions) : actions.length = 1 := by
  cases h <;> rfl

/-- An undisturbed attempt ends well exactly if the message settles. It then commits once,
and the effect of its one action takes place; otherwise it leaves nothing behind. -/
theorem calm_attempt (hmac : String → String) (fromisoformat : String → Option Datetime)
    (searcher : JobEmbeddingSearcher) (gpt : ExtractionService) (input : ProcessMessageInput)
    (d : Database) :
    let (r, w) := (processMessageActivity hmac (production fromisoformat searcher) gpt input).run
      (.opened d [])
    (r = .ok () ↔ Settles fromisoformat searcher input d gpt) ∧
      (r = .ok () → ∃ action, Commits hmac searcher input [] d w.store.committed [action] ∧
        w.store.log = [.committed w.store.committed, .effect (.ran action),
          .effect (effectOf action)]) ∧
      (r ≠ .ok () → w.store.committed = d ∧ w.store.log = []) := by
  rw [processMessageActivity_eq]
  have hsettles : (∃ actions w, (stageMessage hmac (production fromisoformat searcher) gpt
      input).run (.opened d []) = (.ok actions, w)) ↔
        Settles fromisoformat searcher input d gpt := run_stageMessage_iff hmac
  rcases hstage : (stageMessage hmac (production fromisoformat searcher) gpt input).run
    (.opened d []) with ⟨stop | actions, w⟩
  · have hnothing := stageMessage_settled.error (w := .opened d []) ⟨rfl, rfl⟩ hstage
    have hcommit := run_commitMessage hmac _ _ input d [] (Program.run_bind_of_error hstage)
    rw [Program.run_bind_of_error hcommit]
    refine ⟨iff_of_false (by simp) fun h => ?_, fun h => (by simp at h), fun _ => hnothing⟩
    obtain ⟨_, _, hok⟩ := hsettles.mpr h
    rw [hstage] at hok
    cases hok
  · have hcommits := commits_of_stage hstage
    obtain ⟨action, rfl⟩ := List.length_eq_one_iff.mp (length_of_commits hcommits)
    have hcalm := Program.calm_run rfl hstage
    have hlog := (stageMessage_settled.ok (w := .opened d []) ⟨rfl, rfl⟩ hstage).2
    let w₁ : AppWorld := ⟨⟨w.store.session, w.store.session,
      w.store.log ++ [.committed w.store.session]⟩, w.faults⟩
    have hcommit : (commitMessage hmac (production fromisoformat searcher) gpt input).run
        (.opened d []) = (.ok [action], w₁) :=
      run_commitMessage hmac _ _ input d [] ((Program.run_bind_of_ok hstage).trans
        (Program.run_bind_of_ok (Program.run_commit_of_calm hcalm)))
    rw [Program.run_bind_of_ok hcommit,
      Program.run_closing_of_ok (run_actions_of_calm (w := w₁) hcalm [action])]
    refine ⟨iff_of_true rfl (hsettles.mp ⟨_, _, hstage⟩), fun _ => ⟨action, hcommits, ?_⟩,
      fun h => absurd rfl h⟩
    simp [w₁, hlog, entriesOf]

end

/-- The workflow has used up its attempts if it has failed, has some left if it goes on, and
has made something durable if it is complete. -/
structure Budgeted (input : ProcessMessageInput) (s : State) : Prop where
  stored : Stored input.messageSid s.database
  going : s.outcome = none → s.attempts < processMsgRetryMaxAttempts
  failed : s.outcome = some .failed → s.attempts = processMsgRetryMaxAttempts
  completed : s.outcome = some .completed →
    s.attempts ≤ processMsgRetryMaxAttempts ∧ s.durable ≠ []

def isAttempt : Action → Bool
  | .attempt _ => true
  | .others _ => false

section
variable {hmac : String → String} {fromisoformat : String → Option Datetime}
variable {searcher : JobEmbeddingSearcher} {input : ProcessMessageInput}
variable {d : Database} {t : Try} {s s' : State} {a : Action}

theorem budgeted_start (hstored : Stored input.messageSid d) : Budgeted input (start d) :=
  ⟨hstored, fun _ => Nat.succ_pos 3, (by simp [start]), by simp [start]⟩

/-- After a try the workflow is complete and the commit of the try has taken place; or the try
has not been reported to end well, and the workflow goes on unless this was its last. -/
theorem attempt_cases (hstored : Stored input.messageSid s.database)
    (hstep : step hmac (production fromisoformat searcher) input s (.attempt t) = some s') :
    (s'.outcome = some .completed ∧ s'.durable ≠ [] ∧
        ∃ w, t.Takes hmac (production fromisoformat searcher) input s.database w) ∨
      (s'.outcome =
          (if s.attempts + 1 = processMsgRetryMaxAttempts then some .failed else none) ∧
        (t.faults = [] → t.Reported →
          ¬Settles fromisoformat searcher input s.database t.gpt)) := by
  obtain ⟨_, _, hdurable, _, houtcome⟩ := step_attempt hstep
  rcases outcome_of_try fromisoformat searcher hmac hstored t (s.attempts + 1) with
    ⟨hend, _, hcompleted⟩ | ⟨hunreported, hgoes⟩
  · rcases run_cases fromisoformat searcher hmac hstored t with
      ⟨_, herror, _⟩ | ⟨w, htakes, hne, _⟩
    · exact absurd hend herror
    · refine .inl ⟨houtcome.trans hcompleted, ?_, w, htakes⟩
      rw [hdurable]
      exact List.append_ne_nil_of_right_ne_nil _ hne
  · refine .inr ⟨houtcome.trans hgoes, fun hcalm hreported hsettles => ?_⟩
    obtain ⟨hacknowledged, hcrash⟩ := hreported
    obtain ⟨w, htakes⟩ : ∃ w, t.Takes hmac (production fromisoformat searcher) input
        s.database w := (takes_iff_of_calm hcalm).mpr hsettles
    rcases run_cases fromisoformat searcher hmac hstored t with
      ⟨_, _, _, hmissed⟩ | ⟨w', htakes', _, ⟨_, hend | ⟨hcrashes, _⟩⟩ | ⟨x, hlost, _⟩⟩
    · exact hmissed ⟨w, htakes⟩
    · exact hunreported ⟨hend, hacknowledged⟩
    · exact hcrash hcrashes
    · obtain ⟨actions, hstage, _⟩ := htakes'
      rw [hcalm] at hstage
      rw [World.next_of_calm (Program.calm_run rfl hstage)] at hlost
      cases hlost

theorem budgeted_step (hs : Budgeted input s)
    (hstep : step hmac (production fromisoformat searcher) input s a = some s') :
    Budgeted input s' := by
  have hstored := stored_of_step hs.stored hstep
  cases a with
  | attempt t =>
      obtain ⟨hgoing, _, _, hattempts, _⟩ := step_attempt hstep
      have hlt := hs.going hgoing
      rcases attempt_cases hs.stored hstep with ⟨hcompleted, hne, _⟩ | ⟨hgoes, _⟩
      · refine ⟨hstored, ?_, ?_, fun _ => ⟨hattempts ▸ hlt, hne⟩⟩ <;> simp [hcompleted]
      · refine ⟨hstored, fun hnone => ?_, fun hfailed => ?_, fun hcompleted => ?_⟩
        · rw [hgoes] at hnone
          split_ifs at hnone with hlast
          rw [hattempts]
          exact lt_of_le_of_ne hlt hlast
        · rw [hgoes] at hfailed
          split_ifs at hfailed with hlast
          rw [hattempts, hlast]
        · rw [hgoes] at hcompleted
          split_ifs at hcompleted
          cases hcompleted
  | others d =>
      obtain ⟨_, rfl⟩ := step_others hstep
      exact ⟨hstored, hs.going, hs.failed, hs.completed⟩

theorem attempts_of_step
    (hstep : step hmac (production fromisoformat searcher) input s a = some s') :
    s'.attempts = s.attempts + if isAttempt a then 1 else 0 := by
  cases a with
  | attempt t => exact (step_attempt hstep).2.2.2.1
  | others d =>
      obtain ⟨_, rfl⟩ := step_others hstep
      rfl

theorem attempts_of_run {run : List Action}
    (hrun : exec (step hmac (production fromisoformat searcher) input) s run = some s') :
    s'.attempts = s.attempts + run.countP isAttempt := by
  induction run generalizing s with
  | nil =>
      obtain rfl : s = s' := by simpa [exec] using hrun
      rfl
  | cons a run ih =>
      obtain ⟨m, hm, hrest⟩ := Option.bind_eq_some_iff.mp hrun
      rw [ih hrest, attempts_of_step hm, List.countP_cons]
      omega

/-- The workflow of a stored message makes at most four attempts, all four before it is
counted as failed; it is complete only after an attempt whose commit has taken place, and after
one which is not disturbed and is reported exactly if that attempt settles the message. -/
theorem workflow_ends {run : List Action} (hstored : Stored input.messageSid d)
    (hrun : exec (step hmac (production fromisoformat searcher) input) (start d) run = some s) :
    s.attempts = run.countP isAttempt ∧ Budgeted input s ∧
      (s.outcome = none → ∀ t, ∃ s',
        step hmac (production fromisoformat searcher) input s (.attempt t) = some s' ∧
        (s'.outcome = some .completed →
          ∃ w, t.Takes hmac (production fromisoformat searcher) input s.database w) ∧
        (t.faults = [] → t.Reported → (s'.outcome = some .completed ↔
          Settles fromisoformat searcher input s.database t.gpt))) := by
  have hs : Budgeted input s := exec_invariant (Budgeted input)
    (fun _ _ _ _ hs hstep => budgeted_step hs hstep) (along_true _ run) (budgeted_start hstored)
      hrun
  refine ⟨by simpa [start] using attempts_of_run hrun, hs, fun hgoing t => ?_⟩
  have hstep : ∃ s', step hmac (production fromisoformat searcher) input s (.attempt t) =
      some s' := by
    simp only [step, hgoing]
    exact ⟨_, rfl⟩
  obtain ⟨s', hstep⟩ := hstep
  have htakes (hcompleted : s'.outcome = some .completed) :
      ∃ w, t.Takes hmac (production fromisoformat searcher) input s.database w := by
    rcases attempt_cases hs.stored hstep with ⟨_, _, htakes⟩ | ⟨hgoes, _⟩
    · exact htakes
    · rw [hgoes] at hcompleted
      split_ifs at hcompleted
      cases hcompleted
  refine ⟨s', hstep, htakes, fun hcalm hreported =>
    ⟨fun hcompleted => (takes_iff_of_calm hcalm).mp (htakes hcompleted), fun hsettles => ?_⟩⟩
  rcases attempt_cases hs.stored hstep with ⟨hcompleted, _⟩ | ⟨_, hunsettled⟩
  · exact hcompleted
  · exact absurd hsettles (hunsettled hcalm hreported)

end

/-- Three answers are not to be had, and the fourth one settles the message. -/
theorem workflow_ends_fourth :
    ∃ s s', exec (step id plainChain ⟨"SM1", "+1", "hi"⟩) (start helloDatabase)
        [.attempt unanswered, .attempt unanswered, .attempt unanswered] = some s ∧
      s.attempts = 3 ∧
      step id plainChain ⟨"SM1", "+1", "hi"⟩ s (.attempt ⟨answersJob, [], [], true⟩) = some s' ∧
      s'.outcome = some .completed := by
  obtain ⟨s, hrun, hgoing, hdatabase⟩ : ∃ s, exec (step id plainChain ⟨"SM1", "+1", "hi"⟩)
      (start helloDatabase) [.attempt unanswered, .attempt unanswered, .attempt unanswered] =
        some s ∧ s.outcome = none ∧ s.database = helloDatabase := ⟨_, rfl, rfl, rfl⟩
  have hends := workflow_ends (d := helloDatabase) (by decide) hrun
  obtain ⟨s', hstep, _, hcompletes⟩ := hends.2.2 hgoing ⟨answersJob, [], [], true⟩
  refine ⟨s, s', hrun, hends.1, hstep, (hcompletes rfl ⟨rfl, List.not_mem_nil⟩).mpr ?_⟩
  rw [hdatabase]
  have hfits : ∀ result, answersJob "hi" = some result → ∀ extracted ∈ result.job,
      StorableExtractions.JobFits (fun _ => none) extracted := by
    rintro _ ⟨⟩ extracted ⟨⟩
    exact ⟨(fun _ h => nomatch h), (fun _ h => nomatch h), by decide⟩
  refine ⟨rfl, by decide, _, _, rfl, rfl, ⟨Nat.one_pos, by decide, hfits _ rfl⟩, ?_⟩
  intro hgoal
  cases hgoal

end Vici.SettledMessages
