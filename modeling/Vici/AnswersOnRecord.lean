import Vici.TableIntegrity

/-!
# Every answer is on record

An action is registered in memory, in the step which commits the row it is
about. So the actions of a run and the rows of its commits can be put side by
side: one upsert for each job, one match reply for each work goal, and each is
made from its row and addressed to the sender of the row's message. A match
reply says which jobs the match table relates to its goal, then and later.
Whatever text leaves the service was awaited, and was registered before.
-/
namespace Vici.AnswersOnRecord
open Models AppPrograms SessionPrograms RowCreation Attempts ActionRuns KeyedRows MatchService
open MatchFormatter SyncQueueRepository RateLimitPurge PersistedMatches Orchestrator
open ServiceRuns TableIntegrity
open DeliveryFootprints hiding effectOf
open EmbeddingDocuments (Extends Keyed SentFrom Aligned aligned_initial aligned_step)
open PosterPhones (Registered)
open Program (Refused)

/-- The sender of the message is registered under the number. -/
def CameFrom (hmac : String → String) (d : Database) (messageId : ℕ) (number : String) : Prop :=
  ∃ m ∈ d.messages, m.id = messageId ∧ Registered d.users m.userId (hmac number)

/-- What is on record of a work goal which was answered with the result. -/
structure Answers (hmac : String → String) (calm : Prop) (d : Database) (goal : WorkGoal)
    (number : String) (r : MatchResult) : Prop where
  asked : r.workGoal = goal
  sender : CameFrom hmac d goal.messageId number
  offered : ∀ c ∈ r.jobs, c.job ∈ d.jobs
  /-- No pair of the goal is recorded for a job which was not offered. -/
  recorded : ∀ jobId, (jobId, goal.id) ∈ d.matchRows.map pair →
    jobId ∈ r.jobs.map fun c => c.job.id
  /-- Every offer is recorded, unless an insert was refused. -/
  complete : calm → ∀ c ∈ r.jobs, (c.job.id, goal.id) ∈ d.matchRows.map pair

def ReplyTo (hmac : String → String) (calm : Prop) (d : Database) (goal : WorkGoal)
    (a : PostCommitAction) : Prop :=
  ∃ number r, a = .sendMatchReply number (formatMatchSms r) ∧ Answers hmac calm d goal number r

def UpsertOf (hmac : String → String) (d : Database) (job : Job) (a : PostCommitAction) : Prop :=
  ∃ description number, a = .upsertEmbedding job.id description (hmac number) ∧
    job.description = some description ∧ CameFrom hmac d job.messageId number

def isReply : PostCommitAction → Bool
  | .sendMatchReply .. => true
  | _ => false

def isUpsert : PostCommitAction → Bool
  | .upsertEmbedding .. => true
  | _ => false

def isText : Effect → Bool
  | .smsSent .. => true
  | _ => false

/-- The actions which were registered so far: still to be awaited, awaited, or dropped by an
attempt which did not hear of its commit. -/
def actionsOf (s : State) : List PostCommitAction :=
  s.base.registered ++ s.base.awaited ++ s.unheard

/-- The rows which were committed since `d`, each with its action. -/
structure OnRecord (hmac : String → String) (calm : Prop) (d d' : Database)
    (actions : List PostCommitAction) : Prop where
  replies : ∃ goals, d'.workGoals = d.workGoals ++ goals ∧
    Assigned (ReplyTo hmac calm d') goals (actions.filter isReply)
  upserts : ∃ jobs, d'.jobs = d.jobs ++ jobs ∧
    Assigned (UpsertOf hmac d') jobs (actions.filter isUpsert)
  unknowns : ∀ number, .sendUnknownReply number ∈ actions →
    ∃ messageId, CameFrom hmac d' messageId number

section
variable {hmac : String → String} {calm : Prop} {d d' d'' : Database} {goal : WorkGoal}
variable {number : String} {r : MatchResult} {job : Job} {a : PostCommitAction}
variable {actions actions' : List PostCommitAction}

theorem CameFrom.extend {messageId : ℕ} (h : CameFrom hmac d messageId number)
    (hext : Extends d d') : CameFrom hmac d' messageId number := by
  obtain ⟨m, hm, hid, hregistered⟩ := h
  obtain ⟨n, hn, hnid, _, huser⟩ := hext.messages m hm
  refine ⟨n, hn, hnid.trans hid, ?_⟩
  rw [huser]
  exact hregistered.kept hext.users

/-- A workflow carries the number of the message which it finds. -/
theorem cameFrom_of_found {input : ProcessMessageInput} {m : Message} (hkeyed : Keyed d)
    (hsent : SentFrom hmac d input.messageSid input.fromNumber) (hfound : Found input d m) :
    CameFrom hmac d m.id input.fromNumber := by
  obtain ⟨n, hn, hsid, hregistered⟩ := hsent
  have hsame : Found input d n := (find?_key_eq_some hkeyed.messageSids).mpr ⟨hn, hsid⟩
  obtain rfl : n = m := Option.some.inj (hsame.symm.trans hfound)
  exact ⟨n, hn, rfl, hregistered⟩

theorem ReplyTo.extend (h : ReplyTo hmac calm d goal a) (hext : Extends d d')
    (hpairs : ∀ jobId, (jobId, goal.id) ∈ d'.matchRows.map pair ↔
      (jobId, goal.id) ∈ d.matchRows.map pair) : ReplyTo hmac calm d' goal a := by
  obtain ⟨number, r, ha, hanswers⟩ := h
  exact ⟨number, r, ha, hanswers.asked, hanswers.sender.extend hext,
    fun c hc => hext.jobs _ (hanswers.offered c hc),
    fun jobId hmem => hanswers.recorded jobId ((hpairs jobId).mp hmem),
    fun hcalm c hc => (hpairs _).mpr (hanswers.complete hcalm c hc)⟩

theorem UpsertOf.extend (h : UpsertOf hmac d job a) (hext : Extends d d') :
    UpsertOf hmac d' job a := by
  obtain ⟨description, number, ha, hdescription, hsender⟩ := h
  exact ⟨description, number, ha, hdescription, hsender.extend hext⟩

theorem onRecord_nil (d : Database) : OnRecord hmac calm d d [] where
  replies := ⟨[], (List.append_nil _).symm, .nil⟩
  upserts := ⟨[], (List.append_nil _).symm, .nil⟩
  unknowns := by simp

/-- The same actions in another order. -/
theorem OnRecord.perm (h : OnRecord hmac calm d d' actions) (hperm : actions.Perm actions') :
    OnRecord hmac calm d d' actions' where
  replies := by
    obtain ⟨goals, hgoals, hassigned⟩ := h.replies
    exact ⟨goals, hgoals, hassigned.perm (hperm.filter _)⟩
  upserts := by
    obtain ⟨jobs, hjobs, hassigned⟩ := h.upserts
    exact ⟨jobs, hjobs, hassigned.perm (hperm.filter _)⟩
  unknowns number hmem := h.unknowns number (hperm.mem_iff.mpr hmem)

theorem OnRecord.same (h : OnRecord hmac calm d d' actions) (hext : Extends d' d'')
    (hsame : SameDomain d' d'') : OnRecord hmac calm d d'' actions where
  replies := by
    obtain ⟨goals, hgoals, hassigned⟩ := h.replies
    refine ⟨goals, hsame.workGoals.trans hgoals, hassigned.mono fun g _ a ha => ?_⟩
    exact ha.extend hext fun jobId => by rw [hsame.matchRows]
  upserts := by
    obtain ⟨jobs, hjobs, hassigned⟩ := h.upserts
    exact ⟨jobs, hsame.jobs.trans hjobs, hassigned.mono fun _ _ _ ha => ha.extend hext⟩
  unknowns number hmem := by
    obtain ⟨messageId, hfrom⟩ := h.unknowns number hmem
    exact ⟨messageId, hfrom.extend hext⟩

theorem OnRecord.unknown {messageId : ℕ} (h : OnRecord hmac calm d d' actions)
    (hfrom : CameFrom hmac d' messageId number) :
    OnRecord hmac calm d d' (actions ++ [.sendUnknownReply number]) where
  replies := by simpa [isReply] using h.replies
  upserts := by simpa [isUpsert] using h.upserts
  unknowns number' hmem := by
    rcases List.mem_append.mp hmem with hmem | hmem
    · exact h.unknowns number' hmem
    · cases List.mem_singleton.mp hmem
      exact ⟨messageId, hfrom⟩

/-- A job is inserted, and its upsert registered. -/
theorem OnRecord.upsert {description phoneHash : String} (h : OnRecord hmac calm d d' actions)
    (hext : Extends d' d'') (hjobs : d''.jobs = d'.jobs ++ [job])
    (hgoals : d''.workGoals = d'.workGoals) (hrows : d''.matchRows = d'.matchRows)
    (hnew : UpsertOf hmac d'' job (.upsertEmbedding job.id description phoneHash)) :
    OnRecord hmac calm d d'' (actions ++ [.upsertEmbedding job.id description phoneHash]) where
  replies := by
    obtain ⟨goals, hgoals', hassigned⟩ := h.replies
    refine ⟨goals, hgoals.trans hgoals', ?_⟩
    simp only [List.filter_append, isReply, List.filter_cons, List.filter_nil, if_false,
      Bool.false_eq_true, List.append_nil]
    exact hassigned.mono fun g _ a ha => ha.extend hext fun jobId => by rw [hrows]
  upserts := by
    obtain ⟨jobs, hjobs', hassigned⟩ := h.upserts
    refine ⟨jobs ++ [job], by rw [hjobs, hjobs', List.append_assoc], ?_⟩
    simp only [List.filter_append, isUpsert, List.filter_cons, List.filter_nil, if_true]
    exact (hassigned.mono fun _ _ _ ha => ha.extend hext).concat hnew
  unknowns number hmem := by
    rcases List.mem_append.mp hmem with hmem | hmem
    · obtain ⟨messageId, hfrom⟩ := h.unknowns number hmem
      exact ⟨messageId, hfrom.extend hext⟩
    · cases List.mem_singleton.mp hmem

/-- A work goal is inserted, pairs of it are recorded, and its reply is registered. -/
theorem OnRecord.reply {body : String} (h : OnRecord hmac calm d d' actions)
    (hext : Extends d' d'') (hgoals : d''.workGoals = d'.workGoals ++ [goal])
    (hjobs : d''.jobs = d'.jobs)
    (hpairs : ∀ g ∈ d'.workGoals, ∀ jobId, (jobId, g.id) ∈ d''.matchRows.map pair ↔
      (jobId, g.id) ∈ d'.matchRows.map pair)
    (hnew : ReplyTo hmac calm d'' goal (.sendMatchReply number body)) :
    OnRecord hmac calm d d'' (actions ++ [.sendMatchReply number body]) where
  replies := by
    obtain ⟨goals, hgoals', hassigned⟩ := h.replies
    refine ⟨goals ++ [goal], by rw [hgoals, hgoals', List.append_assoc], ?_⟩
    simp only [List.filter_append, isReply, List.filter_cons, List.filter_nil, if_true]
    refine (hassigned.mono fun g hg a ha => ?_).concat hnew
    exact ha.extend hext (hpairs g (hgoals' ▸ List.mem_append_right _ hg))
  upserts := by
    obtain ⟨jobs, hjobs', hassigned⟩ := h.upserts
    refine ⟨jobs, hjobs.trans hjobs', ?_⟩
    simp only [List.filter_append, isUpsert, List.filter_cons, List.filter_nil, if_false,
      Bool.false_eq_true, List.append_nil]
    exact hassigned.mono fun _ _ _ ha => ha.extend hext
  unknowns number' hmem := by
    rcases List.mem_append.mp hmem with hmem | hmem
    · obtain ⟨messageId, hfrom⟩ := h.unknowns number' hmem
      exact ⟨messageId, hfrom.extend hext⟩
    · cases List.mem_singleton.mp hmem

/-- A unit of work adds at most one row, and the action which it registers is that of its row. -/
theorem OnRecord.committed {searcher : JobEmbeddingSearcher} {input : ProcessMessageInput}
    {faults : List (Option AppFault)} {new : List PostCommitAction}
    (h : OnRecord hmac calm d d' actions) (hd : Intact d')
    (hkeyed : Keyed d') (hsent : SentFrom hmac d' input.messageSid input.fromNumber)
    (hext : Extends d' d'') (hcalm : calm → ¬Refused .integrity faults)
    (hcommits : Commits hmac searcher input faults d' d'' new) :
    OnRecord hmac calm d d'' (actions ++ new) := by
  have hsender {m : Message} (hfound : Found input d' m) :
      CameFrom hmac d'' m.id input.fromNumber :=
    (cameFrom_of_found hkeyed hsent hfound).extend hext
  cases hcommits with
  | unknown hfound => exact (h.same hext ⟨rfl, rfl, rfl⟩).unknown (hsender hfound)
  | jobPosting hfound hcreate hinsert =>
      have hdescription := insertJob_description hinsert
      obtain ⟨_, hof, rfl⟩ := insertJob_ok hinsert
      exact h.upsert hext rfl rfl rfl ⟨_, input.fromNumber, rfl, hdescription, by
        rw [hof, hcreate]
        exact hsender hfound⟩
  | @workGoal m raw create goal d₁ r w w' kept hfound hcreate hinsert hsession hmatch hkept
      hall =>
      have hid := insertWorkGoal_id hinsert
      obtain ⟨_, hof, rfl⟩ := insertWorkGoal_ok hinsert
      have hasked := RecordedOffers.workGoal_of_match hmatch
      have hmem (p : ℕ × ℕ) : p ∈ (united kept goal.id d'.matchRows).map pair ↔
          p ∈ d'.matchRows.map pair ∨ p ∈ kept.map fun jobId => (jobId, goal.id) :=
        mem_map_addAllAbsent pair_newMatch
      refine h.reply hext rfl rfl (fun g hg jobId => ?_) ⟨_, r, rfl, hasked, ?_, ?_, ?_, ?_⟩
      · refine (hmem _).trans (or_iff_left fun hkept => hid ?_)
        obtain ⟨_, _, heq⟩ := List.mem_map.mp hkept
        rw [(Prod.mk.inj heq).2]
        exact List.mem_map_of_mem hg
      · rw [hof, hcreate]
        exact hsender hfound
      · intro c hc
        have hjob := RecordedOffers.job_mem_of_match hmatch hc
        rw [hsession] at hjob
        exact hjob
      · intro jobId hpair
        rcases (hmem _).mp hpair with hold | hnew
        · obtain ⟨row, hrow, heq⟩ := List.mem_map.mp hold
          exact absurd ((Prod.mk.inj heq).2 ▸ hd.matchGoals row hrow) hid
        · obtain ⟨j, hj, heq⟩ := List.mem_map.mp hnew
          exact (Prod.mk.inj heq).1 ▸ hkept.subset hj
      · intro hquiet c hc
        refine (hmem _).mpr (.inr (List.mem_map.mpr ⟨c.job.id, ?_, rfl⟩))
        rw [hall (hcalm hquiet)]
        exact List.mem_map_of_mem hc

end

/-- No insert of the step is refused as a conflict which the tables do not show. -/
def Quiet : Action → Prop
  | .base (.process _ _ attempt) => ¬Refused .integrity attempt.faults
  | _ => True

/-- What is known of a state which a run from `d` has reached. -/
structure Accounted (cfg : Webhook.Config) (calm : Prop) (d : Database) (s : State) : Prop where
  sane : Sane s
  aligned : Aligned cfg s.base
  onRecord : OnRecord cfg.hmac calm d s.database (actionsOf s)
  texts : (s.effects.filter isText).Sublist (s.base.awaited.map effectOf)
  vectors : ∀ jobId description phoneHash, .vectorUpserted jobId description phoneHash ∈ s.effects →
    .upsertEmbedding jobId description phoneHash ∈ s.base.awaited

section
variable {cfg : Webhook.Config} {fromisoformat : String → Option Datetimes.Datetime}
variable {requests : ℕ → Webhook.Request} {s t : State} {a : Action} {d : Database}
variable {run : List Action} {calm : Prop}

theorem keyed_of_intact (hd : Intact d) : Keyed d :=
  ⟨⟨hd.jobIds, hd.messageIds, hd.userIds⟩, hd.messageSids⟩

theorem accounted_initial (hd : Intact d) (hqueue : d.syncQueue = []) :
    Accounted cfg calm d (initial d) where
  sane := sane_initial hd
  aligned := aligned_initial (keyed_of_intact hd) hqueue
  onRecord := onRecord_nil d
  texts := .slnil
  vectors := by simp [initial]

theorem aligned_service (h : Aligned cfg s.base)
    (hstep : step cfg fromisoformat requests s a = some t) :
    Aligned cfg t.base ∧ Extends s.database t.database := by
  cases a with
  | purge now faults =>
      cases hstep
      have hshows : PosterPhones.Shows s.database (purged s.database now faults) := by
        rcases purged_eq s.database now faults with heq | heq <;> rw [heq] <;>
          exact ⟨rfl, rfl, rfl⟩
      have hqueue : (purged s.database now faults).syncQueue = s.database.syncQueue := by
        rcases purged_eq s.database now faults with heq | heq <;> rw [heq]
      have hext := Extends.of_shows hshows
      exact ⟨h.extend hext (h.keyed.of_shows hshows) fun e he => h.queued e (hqueue ▸ he), hext⟩
  | base a =>
      obtain ⟨x, hx, rfl⟩ := Option.map_eq_some_iff.mp hstep
      exact aligned_step h hx

/-- An action which is awaited is moved, not lost. -/
theorem actions_perm {action : ℕ} {b : PostCommitAction}
    (hb : s.base.registered[action]? = some b) :
    (actionsOf s).Perm
      (s.base.registered.eraseIdx action ++ (s.base.awaited ++ [b]) ++ s.unheard) := by
  obtain ⟨hlt, rfl⟩ := List.getElem?_eq_some_iff.mp hb
  have herased := (List.getElem_cons_eraseIdx_perm hlt).symm
  refine ((herased.append_right _).trans ?_).append_right _
  rw [List.cons_append, ← List.append_assoc]
  exact (List.perm_append_singleton _ _).symm

/-- A step which awaits nothing sends no text, and its vectors are those of earlier upserts. -/
theorem unasked_cases {e : Effect} (h : Aligned cfg s.base) (he : Unasked s e) :
    isText e = false ∧ ∀ jobId description phoneHash,
      e = .vectorUpserted jobId description phoneHash →
        .upsertEmbedding jobId description phoneHash ∈ s.base.awaited := by
  rcases he with ⟨_, _, _, rfl⟩ | ⟨locked, p, hp, description, hsome, rfl⟩
  · refine ⟨rfl, ?_⟩
    rintro _ _ _ ⟨⟩
  · refine ⟨rfl, ?_⟩
    rintro _ _ _ ⟨⟩
    obtain ⟨description', hsome', hdirect⟩ := h.claimed hp
    obtain rfl : description = description' := Option.some.inj (hsome.symm.trans hsome')
    exact EmbeddingDocuments.State.direct_iff.mp hdirect

theorem onRecord_of_moves (h : Accounted cfg calm d s) (hquiet : calm → Quiet a)
    (hext : Extends s.database t.database) (hmoves : Moves cfg s a t) :
    OnRecord cfg.hmac calm d t.database (actionsOf t) := by
  cases hmoves with
  | @committed _ _ attempt _ actions _ hinput hcommits hactions hawaited _ =>
      have hsent := h.aligned.workflows _ (List.mem_of_getElem? hinput)
      refine (h.onRecord.committed h.sane.intact h.aligned.keyed hsent hext hquiet
        hcommits).perm ?_
      rcases hactions with ⟨hregistered, hunheard⟩ | ⟨hregistered, hunheard⟩
      · rw [actionsOf, actionsOf, hregistered, hawaited, hunheard]
        simp only [List.append_assoc]
        refine List.Perm.append_left _ ?_
        rw [← List.append_assoc]
        exact List.perm_append_comm
      · rw [actionsOf, actionsOf, hregistered, hawaited, hunheard, List.append_assoc]
  | awaited hb hqueued hregistered hawaited hunheard _ =>
      have hsame : SameDomain s.database t.database := by
        rcases hqueued with heq | ⟨_, _, _, _, _, hinsert⟩
        · rw [heq]
          exact ⟨rfl, rfl, rfl⟩
        · obtain ⟨_, heq⟩ := insertEntry_ok hinsert
          rw [heq]
          exact ⟨rfl, rfl, rfl⟩
      rw [actionsOf, hregistered, hawaited, hunheard]
      exact (h.onRecord.same hext hsame).perm (actions_perm hb)
  | aside hsame hregistered hawaited hunheard _ _ =>
      rw [actionsOf, hregistered, hawaited, hunheard]
      exact h.onRecord.same hext hsame

theorem texts_of_moves (h : Accounted cfg calm d s) (hmoves : Moves cfg s a t) :
    (t.effects.filter isText).Sublist (t.base.awaited.map effectOf) := by
  cases hmoves with
  | committed _ _ _ hawaited heffects =>
      rw [heffects, hawaited]
      exact h.texts
  | awaited _ _ _ hawaited _ heffects =>
      rw [hawaited, List.map_append]
      rcases heffects with heq | heq <;> rw [heq]
      · exact h.texts.trans (List.sublist_append_left _ _)
      · rw [List.filter_append]
        exact h.texts.append List.filter_sublist
  | @aside _ _ new _ _ hawaited _ heffects hnew =>
      have hnone : new.filter isText = [] := by
        refine List.filter_eq_nil_iff.mpr fun e he => ?_
        rw [(unasked_cases h.aligned (hnew e he)).1]
        exact Bool.false_ne_true
      rw [heffects, hawaited, List.filter_append, hnone, List.append_nil]
      exact h.texts

theorem vectors_of_moves (h : Accounted cfg calm d s) (hmoves : Moves cfg s a t) (jobId : ℕ)
    (description phoneHash : String)
    (hmem : .vectorUpserted jobId description phoneHash ∈ t.effects) :
    .upsertEmbedding jobId description phoneHash ∈ t.base.awaited := by
  cases hmoves with
  | committed _ _ _ hawaited heffects =>
      rw [heffects] at hmem
      rw [hawaited]
      exact h.vectors _ _ _ hmem
  | @awaited _ _ b _ _ _ _ hawaited _ heffects =>
      rw [hawaited]
      rcases heffects with heq | heq <;> rw [heq] at hmem
      · exact List.mem_append_left _ (h.vectors _ _ _ hmem)
      · rcases List.mem_append.mp hmem with hmem | hmem
        · exact List.mem_append_left _ (h.vectors _ _ _ hmem)
        · have hlast := List.mem_singleton.mp hmem
          cases b <;> cases hlast
          exact List.mem_append_right _ (List.mem_singleton_self _)
  | aside _ _ hawaited _ heffects hnew =>
      rw [heffects] at hmem
      rw [hawaited]
      rcases List.mem_append.mp hmem with hmem | hmem
      · exact h.vectors _ _ _ hmem
      · exact (unasked_cases h.aligned (hnew _ hmem)).2 _ _ _ rfl

theorem accounted_step (h : Accounted cfg calm d s) (hquiet : calm → Quiet a)
    (hstep : step cfg fromisoformat requests s a = some t) : Accounted cfg calm d t := by
  obtain ⟨haligned, hext⟩ := aligned_service h.aligned hstep
  have hmoves := step_moves h.sane.intact.queueIds hstep
  exact ⟨sane_step h.sane hstep, haligned, onRecord_of_moves h hquiet hext hmoves,
    texts_of_moves h hmoves, vectors_of_moves h hmoves⟩

/-- In every state of the service the rows which were committed and the actions which were
registered belong together, one for one; every text which was sent is that of an awaited
action, at most one for each, and every vector is that of an awaited upsert. -/
theorem answers_on_record (hd : Intact d) (hqueue : d.syncQueue = [])
    (h : exec (step cfg fromisoformat requests) (initial d) run = some t) :
    OnRecord cfg.hmac (∀ a ∈ run, Quiet a) d t.database (actionsOf t) ∧
      (t.effects.filter isText).Sublist (t.base.awaited.map effectOf) ∧
      ∀ jobId description phoneHash, .vectorUpserted jobId description phoneHash ∈ t.effects →
        .upsertEmbedding jobId description phoneHash ∈ t.base.awaited := by
  have hall : Accounted cfg (∀ a ∈ run, Quiet a) d t :=
    exec_invariant (Accounted cfg (∀ a ∈ run, Quiet a) d)
      (fun _ _ _ hmem hs hstep => accounted_step hs (fun hquiet => hquiet _ hmem) hstep)
      (along_of_forall (fun _ ha _ => ha) _) (accounted_initial hd hqueue) h
  exact ⟨hall.onRecord, hall.texts, hall.vectors⟩

end

/-- A job is texted from one number and a work goal from another. -/
def askedAndAnswered : ℕ → Webhook.Request
  | 0 => Webhook.hello
  | _ => { Webhook.hello with form := [("MessageSid", .text "SM2"), ("From", .text "+2"),
      ("Body", .text "need a dollar"), ("AccountSid", .text "AC1")] }

def paysFlat : Orchestrator.ExtractionService := fun _ => some
  ⟨.jobPosting, some ⟨⟨"Dig", by decide⟩, none, true, none, none, none, none,
    ⟨"Park", by decide⟩, some ⟨2, by decide⟩, .flat⟩, none, "\x7b\x7d"⟩

def postThenAsk : List Action :=
  ((List.replicate 8 (.advance 0)).map .deliver ++ [.process none 0 ⟨paysFlat, []⟩] ++
    (List.replicate 8 (.advance 1)).map .deliver ++ [.process none 1 ⟨answersWorkGoal, []⟩,
      .await 1 []] : List EmbeddingDocuments.Action).map .base

theorem answers_on_record_post :
    ∃ t, exec (step (Webhook.unsignedConfig 5 60) (fun _ => none) askedAndAnswered)
        (initial .empty) postThenAsk = some t ∧
      t.effects.filter isText = [.smsSent "+2" "1. Dig @ Park | $2/flat | +1"] ∧
      OnRecord id (∀ a ∈ postThenAsk, Quiet a) .empty t.database (actionsOf t) := by
  have hrun : (exec (step (Webhook.unsignedConfig 5 60) (fun _ => none) askedAndAnswered)
      (initial .empty) postThenAsk).map (fun t => t.effects.filter isText) =
        some [.smsSent "+2" "1. Dig @ Park | $2/flat | +1"] := by
    decide +kernel
  obtain ⟨t, hrun, htexts⟩ := Option.map_eq_some_iff.mp hrun
  exact ⟨t, hrun, htexts, (answers_on_record intact_empty rfl hrun).1⟩

end Vici.AnswersOnRecord
