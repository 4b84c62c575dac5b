import Vici.Attempts

/-!
# Replies to one message

A reply is sent after the commit of the attempt which has registered it. The
work goal of a message is unique, so that an attempt which repeats it fails
before its commit; the catch-all handler leaves no row that could refuse a
repetition. Every attempt which is dispatched to it sends its reply again.
-/
namespace Vici.Replies
open Models Datetimes AppPrograms SessionPrograms SmsRepositories RowCreation MatchService
open Handlers Orchestrator Attempts ActionRuns
open Program (Triple Keeps Staged)

def isReply : Event Database Effect → Bool
  | .effect (.smsSent _ _) => true
  | _ => false

/-- How many messages have gone out. -/
def repliesIn (log : List (Event Database Effect)) : ℕ := log.countP isReply

def Sent (n : ℕ) : Program.Assertion Database Effect := fun s => repliesIn s.log ≤ n

def isReplyAction : PostCommitAction → Bool
  | .upsertEmbedding _ _ _ => false
  | .sendMatchReply _ _ | .sendUnknownReply _ => true

section
variable {n : ℕ}

theorem Sent.other {s t : AppStore} (h : Sent n s) (e : Event Database Effect)
    (he : isReply e = false) (hlog : t.log = s.log ++ [e]) : Sent n t := by
  rw [Sent, hlog, repliesIn, List.countP_append, List.countP_singleton, he]
  exact h

theorem sendSms_triple (toNumber body : String) :
    Triple (Sent n) (.attempt (sendSms toNumber body) fun _ => some (pure ()))
      (fun _ => Sent (n + 1)) (fun _ => Sent (n + 1)) := by
  have hunsent : ∀ s : AppStore, Sent n s → Sent (n + 1) s := fun _ hs => Nat.le_succ_of_le hs
  have hsent : ∀ s : AppStore, Sent n s →
      Sent (n + 1) (Program.logged (.smsSent toNumber body) s) := by
    intro s hs
    rw [Sent, Program.logged, repliesIn, List.countP_append]
    exact Nat.succ_le_succ hs
  refine .attempt (.external (fun _ s _ hs => hunsent s hs) (fun _ s _ hs => hsent s hs) hsent)
    (fun _ hs => hs) (fun e handler hh => ?_) fun _ _ _ hs => hs
  cases hh
  exact .pure fun _ hs => hs

theorem perform_sends (action : PostCommitAction) :
    Triple (Sent n) (perform action) (fun _ => Sent (n + [action].countP isReplyAction))
      (fun _ => Sent (n + [action].countP isReplyAction)) := by
  cases action with
  | upsertEmbedding jobId description phoneHash =>
      have hkeeps := keeps_upsertEmbedding (P := Sent n) (fun _ _ _ hs => hs)
        (fun s hs => hs.other (.committed s.session) rfl rfl) (fun _ hs => hs) fun s hs =>
          hs.other (.effect (.vectorUpserted jobId description phoneHash)) rfl rfl
      exact hkeeps.consequence (fun _ hs => hs) (fun _ _ hs => hs) fun _ _ hs => hs.1
  | sendMatchReply toNumber body => exact sendSms_triple toNumber body
  | sendUnknownReply toNumber => exact sendSms_triple toNumber unknownReplyText

theorem runAction_sends (action : PostCommitAction) :
    Triple (Sent n) (runAction action) (fun _ => Sent (n + [action].countP isReplyAction))
      (fun _ => Sent (n + [action].countP isReplyAction)) := by
  refine .bind (Q := fun _ => Sent n) (.update fun s hs => hs.other (.effect (.ran action)) rfl rfl)
    fun _ => .attempt (perform_sends action) (fun _ hs => hs) (fun e handler hh => ?_)
      fun _ _ _ hs => hs
  cases hh
  exact .pure fun _ hs => hs

/-- A commit sends nothing, and each action at most its own reply. -/
theorem finish_sends (actions : List PostCommitAction) :
    Triple (Sent n) (finish actions) (fun _ => Sent (n + actions.countP isReplyAction))
      (fun _ => Sent (n + actions.countP isReplyAction)) := by
  let inv (done todo : List PostCommitAction) : Program.Assertion Database Effect :=
    fun s => actions = done ++ todo ∧ Sent (n + done.countP isReplyAction) s
  have hbody (done : List PostCommitAction) (a : PostCommitAction)
      (todo : List PostCommitAction) : Triple (inv done (a :: todo)) (runAction a)
        (fun _ => inv (done ++ [a]) todo) (fun _ => Sent (n + actions.countP isReplyAction)) := by
    rintro w ⟨hactions, hw⟩
    have hsplit : actions = done ++ [a] ++ todo := by
      rw [hactions, List.append_assoc, List.singleton_append]
    have hdone : n + done.countP isReplyAction + [a].countP isReplyAction =
        n + (done ++ [a]).countP isReplyAction := by
      rw [List.countP_append, Nat.add_assoc]
    have hle : (done ++ [a]).countP isReplyAction ≤ actions.countP isReplyAction := by
      rw [hsplit]
      exact ((List.prefix_append _ _).sublist).countP_le
    have hafter := runAction_sends a (n := n + done.countP isReplyAction)
    rw [hdone] at hafter
    exact hafter.consequence (fun _ hs => hs) (fun _ _ hs => ⟨hsplit, hs⟩)
      (fun _ _ hs => hs.trans (Nat.add_le_add_left hle n)) w hw
  refine .bind (Q := fun _ => inv [] actions)
    (.commit (fun _ s _ hs => hs.trans (Nat.le_add_right _ _))
      (fun _ s _ hs => (hs.other (.committed s.session) rfl rfl).trans (Nat.le_add_right _ _))
      fun s hs => ⟨rfl, hs.other (.committed s.session) rfl rfl⟩) fun _ => ?_
  refine (Triple.forEach inv hbody [] actions).consequence (fun _ hs => hs) (fun _ s hs => ?_)
    fun _ _ hs => hs
  simpa using hs.2

section
variable {fromisoformat : String → Option Datetime} {searcher : JobEmbeddingSearcher}
variable {gpt : ExtractionService} {d : Database}

/-- A handler of the production chain registers one reply at most, and none for a job. -/
theorem dispatch_registers (result : ExtractionResult) (ctx : PipelineContext) :
    Triple (fun _ => True) (((production fromisoformat searcher).dispatch result).handle ctx)
      (fun actions _ => actions.countP isReplyAction ≤ 1 ∧
        (((production fromisoformat searcher).dispatch result).messageType = .jobPosting →
          actions.countP isReplyAction = 0)) (fun _ _ => True) := by
  rcases dispatch_production fromisoformat searcher result with h | h | h
  · rw [h]
    show Triple _ (jobPostingHandle fromisoformat ctx) _ _
    rcases jobPostingHandle_cases fromisoformat ctx with ⟨_, _, heq⟩ | ⟨_, _, _, _, heq⟩
    · rw [heq]
      exact .raise fun _ _ => trivial
    · rw [heq]
      exact .bind (.trivial _) fun _ => .bind (.trivial _) fun _ =>
        .pure fun _ _ => ⟨Nat.zero_le 1, fun _ => rfl⟩
  · rw [h]
    show Triple _ (workGoalHandle fromisoformat searcher ctx) _ _
    rcases workGoalHandle_cases fromisoformat searcher ctx with ⟨_, _, heq⟩ | ⟨_, _, _, _, heq⟩
    · rw [heq]
      exact .raise fun _ _ => trivial
    · rw [heq]
      exact .bind (.trivial _) fun _ => .bind (.trivial _) fun _ => .bind (.trivial _) fun _ =>
        .pure fun _ _ => ⟨le_rfl, fun htype => by cases htype⟩
  · rw [h]
    exact .pure fun _ _ => ⟨le_rfl, fun htype => by cases htype⟩

theorem stage_registers (m : MessageInput) :
    Triple (fun _ => True) (stage (production fromisoformat searcher) gpt m)
      (fun staged _ => staged.2.countP isReplyAction ≤ 1 ∧
        (((production fromisoformat searcher).dispatch staged.1).messageType = .jobPosting →
          staged.2.countP isReplyAction = 0)) (fun _ _ => True) := by
  refine .bind (.trivial _) fun result => .bind (.trivial _) fun _ => ?_
  refine .bind (dispatch_registers result (m.context result)) fun actions => ?_
  rintro w hw
  have hrest : Triple (fun _ => True) (do
      recordClassification m.messageId
        ((production fromisoformat searcher).dispatch result).messageType result.modelDumpJson
      pure (result, actions) : App (ExtractionResult × List PostCommitAction))
      (fun staged _ => staged = (result, actions)) (fun _ _ => True) :=
    .bind (.trivial _) fun _ => .pure fun _ _ => rfl
  refine hrest.consequence (fun _ hs => hs) (fun staged _ hs => ?_) (fun _ _ hs => hs) w trivial
  rw [hs]
  exact hw

/-- The handler of the result replies when it is committed: the catch-all always, the
one of work goals when the message has none. -/
def Answers (o : PipelineOrchestrator) (d : Database) (messageId : ℕ)
    (result : ExtractionResult) : Prop :=
  (o.dispatch result).messageType = .unknown ∨
    (o.dispatch result).messageType = .workGoal ∧ ¬HasWorkGoal d messageId

/-- Before the commit nothing has been sent, and a reply is registered only for a result
which is to be answered. -/
theorem stage_replies (m : MessageInput) :
    Triple (fun s => s.committed = d ∧ s.session = d ∧ s.log = [])
      (stage (production fromisoformat searcher) gpt m)
      (fun staged s => s.log = [] ∧ gpt m.smsText = some staged.1 ∧
        staged.2.countP isReplyAction ≤ 1 ∧ (0 < staged.2.countP isReplyAction →
          Answers (production fromisoformat searcher) d m.messageId staged.1))
      (fun _ s => s.log = []) := by
  have hquiet : Triple (Staged d []) (stage (production fromisoformat searcher) gpt m)
      (fun _ => Staged d []) (fun e s => Staged d [] s ∧ Program.Allowed (fun _ => True) e) :=
    staged_stage
  refine ((hquiet.and (stage_triple (d := d))).and (stage_registers m)).consequence
    (fun s hs => ⟨⟨⟨hs.1, hs.2.2⟩, hs.2.1 ▸ .refl d⟩, trivial⟩) ?_ fun _ _ hs => hs.1.1.1.2
  rintro staged s ⟨⟨⟨_, hlog⟩, hgpt, hrows, _⟩, hone, hjob⟩
  refine ⟨hlog, hgpt, hone, fun hreply => ?_⟩
  cases htype : ((production fromisoformat searcher).dispatch staged.1).messageType with
  | jobPosting => exact absurd (hjob htype) hreply.ne'
  | workGoal =>
      rw [htype] at hrows
      exact .inr ⟨htype, hrows.1⟩
  | unknown => exact .inl htype

/-- A run sends at most one reply, and none unless its result is one to be answered. -/
theorem run_sends {m : MessageInput} {n : ℕ}
    (hn : ∀ result, gpt m.smsText = some result →
      Answers (production fromisoformat searcher) d m.messageId result → 1 ≤ n) :
    Triple (fun s => s.committed = d ∧ s.session = d ∧ s.log = [])
      (run (production fromisoformat searcher) gpt m) (fun _ => Sent n) (fun _ => Sent n) := by
  have hempty {s : AppStore} (hlog : s.log = []) (k : ℕ) : Sent k s := by
    rw [Sent, hlog]
    exact Nat.zero_le k
  refine .bind ((stage_replies m).consequence (fun _ hs => hs) (fun _ _ hs => hs)
    fun _ _ hs => hempty hs n) fun staged => ?_
  rintro w ⟨hlog, hgpt, hone, hanswers⟩
  have hle : 0 + staged.2.countP isReplyAction ≤ n := by
    rcases Nat.eq_zero_or_pos (staged.2.countP isReplyAction) with hnone | hreply
    · omega
    · have := hn staged.1 hgpt (hanswers hreply)
      omega
  have hfinish : Triple (Sent 0) (do
      finish staged.2
      pure staged.1) (fun _ => Sent n) (fun _ => Sent n) :=
    .bind ((finish_sends staged.2).consequence (fun _ hs => hs) (fun _ _ hs => hs.trans hle)
      fun _ _ hs => hs.trans hle) fun _ => .pure fun _ hs => hs
  exact hfinish w (hempty hlog 0)

/-- One attempt, from the database which it finds. -/
theorem processMessageActivity_sends (hmac : String → String) {input : ProcessMessageInput}
    {n : ℕ}
    (hn : ∀ message, d.messages.find? (fun m => decide (m.messageSid = input.messageSid)) =
        some message → ∀ result, gpt input.body = some result →
      Answers (production fromisoformat searcher) d message.id result → 1 ≤ n) :
    Triple (fun s => s.committed = d ∧ s.session = d ∧ s.log = [])
      (processMessageActivity hmac (production fromisoformat searcher) gpt input)
      (fun _ => Sent n) (fun _ => Sent n) := by
  refine processMessageActivity_triple hmac (fun _ hs => hs) (fun s _ _ hlog => ?_) ?_
  · rw [Sent, hlog]
    exact Nat.zero_le n
  · intro message phoneHash hrow
    exact run_sends (hn message hrow)

end

end

/-- The database, and the number of replies which the attempts so far have sent. -/
structure Conversation where
  database : Database
  replies : ℕ

def Conversation.attempt (hmac : String → String) (o : PipelineOrchestrator)
    (input : ProcessMessageInput) (x : Conversation) (a : Attempt) : Conversation :=
  let s := ((processMessageActivity hmac o a.gpt input).run (.opened x.database a.faults)).2.store
  ⟨s.committed, x.replies + repliesIn s.log⟩

def step (hmac : String → String) (o : PipelineOrchestrator) (input : ProcessMessageInput)
    (x : Conversation) (a : Attempt) : Option Conversation := some (x.attempt hmac o input a)

/-- Once a reply has been sent, no attempt is classified as one to be answered again. -/
def Unrepeated (o : PipelineOrchestrator) (input : ProcessMessageInput) (x : Conversation)
    (a : Attempt) : Prop :=
  0 < x.replies → ∀ message, x.database.messages.find?
      (fun m => decide (m.messageSid = input.messageSid)) = some message →
    ∀ result, a.gpt input.body = some result → ¬Answers o x.database message.id result

section
variable {fromisoformat : String → Option Datetime} {searcher : JobEmbeddingSearcher}
variable {hmac : String → String} {input : ProcessMessageInput}

theorem replies_step {x y : Conversation} {a : Attempt}
    (hok : Unrepeated (production fromisoformat searcher) input x a) (hx : x.replies ≤ 1)
    (h : step hmac (production fromisoformat searcher) input x a = some y) : y.replies ≤ 1 := by
  obtain rfl := Option.some.inj h
  have hattempt : Triple (fun s => s.committed = x.database ∧ s.session = x.database ∧ s.log = [])
      (processMessageActivity hmac (production fromisoformat searcher) a.gpt input)
      (fun _ => Sent (1 - x.replies)) (fun _ => Sent (1 - x.replies)) := by
    refine processMessageActivity_sends hmac fun message hrow result hresult hanswers => ?_
    by_contra hnone
    exact hok (by omega) message hrow result hresult hanswers
  have hsent : Sent (1 - x.replies) ((processMessageActivity hmac
      (production fromisoformat searcher) a.gpt input).run
        (.opened x.database a.faults)).2.store := hattempt.store ⟨rfl, rfl, rfl⟩
  have hle : repliesIn _ ≤ 1 - x.replies := hsent
  simp only [Conversation.attempt]
  omega

/-- However often a message is attempted, its sender gets one reply at most, as long as no
attempt after the reply is classified as one to be answered again. -/
theorem at_most_one_reply {db : Database} {run : List Attempt} {x : Conversation}
    (hok : Along (step hmac (production fromisoformat searcher) input)
      (Unrepeated (production fromisoformat searcher) input) ⟨db, 0⟩ run)
    (hrun : exec (step hmac (production fromisoformat searcher) input) ⟨db, 0⟩ run = some x) :
    x.replies ≤ 1 :=
  exec_invariant (fun x => x.replies ≤ 1) (fun _ _ _ hok hx hy => replies_step hok hx hy) hok
    (Nat.zero_le 1) hrun

end

/-- A goal which is attempted again is refused by the table before it is answered. -/
theorem at_most_one_reply_repeated_goal :
    ∃ x, exec (step id plainChain ⟨"SM1", "+1", "hi"⟩) ⟨helloDatabase, 0⟩
        [⟨answersWorkGoal, []⟩, ⟨answersWorkGoal, []⟩] = some x ∧ x.replies ≤ 1 := by
  have hok : Along (step id plainChain ⟨"SM1", "+1", "hi"⟩)
      (Unrepeated plainChain ⟨"SM1", "+1", "hi"⟩) ⟨helloDatabase, 0⟩
      [⟨answersWorkGoal, []⟩, ⟨answersWorkGoal, []⟩] := by
    refine .cons (fun h => absurd h (Nat.lt_irrefl 0)) rfl (.cons ?_ rfl trivial)
    intro _ message hrow result hresult hanswers
    have hgoals : ∀ message ∈ (Conversation.attempt id plainChain ⟨"SM1", "+1", "hi"⟩
        ⟨helloDatabase, 0⟩ ⟨answersWorkGoal, []⟩).database.messages, HasWorkGoal
          (Conversation.attempt id plainChain ⟨"SM1", "+1", "hi"⟩ ⟨helloDatabase, 0⟩
            ⟨answersWorkGoal, []⟩).database message.id := by
      decide +kernel
    cases hresult
    rcases hanswers with hunknown | ⟨_, hnone⟩
    · exact absurd hunknown (by decide)
    · exact hnone (hgoals message (List.mem_of_find?_eq_some hrow))
  exact ⟨_, rfl, at_most_one_reply hok rfl⟩

/-- The acknowledgement of the first attempt is lost; the second one is not understood
either, and sends the reply again. -/
theorem unknown_reply_sent_twice :
    ∃ x, exec (step id plainChain ⟨"SM1", "+1", "hi"⟩) ⟨helloDatabase, 0⟩
        [⟨answersUnknown, []⟩, ⟨answersUnknown, []⟩] = some x ∧ x.replies = 2 :=
  ⟨_, rfl, rfl⟩

end Vici.Replies
