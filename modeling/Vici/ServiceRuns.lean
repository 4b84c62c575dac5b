import Vici.EmbeddingDocuments
import Vici.RateLimitPurge
import Vici.RecordedOffers

/-!
# Runs of the whole service

Deliveries, attempts, awaited actions, sweeps and purges share one database. A
step of any of them makes one of few changes durable: these are listed here,
each with the check under which it is made, and whatever is to hold of every
state has only to be kept by them. A unit of work is one change, since nothing
of it is durable before its commit.
-/
namespace Vici.ServiceRuns
open Models Datetimes AppPrograms SessionPrograms SmsRepositories RowCreation Webhook
open SyncQueueRepository Handlers Orchestrator Attempts ActionRuns KeyedRows MatchService
open MatchFormatter DeliveryFootprints SweepActivity RateLimitPurge EmbeddingDocuments
open PersistedMatches RecordedOffers
open Program (Triple Keeps Holds Staged Refused)

def classified (messageId : ℕ) (t : MessageType) (raw : String) (d : Database) : Database :=
  { d with messages := d.messages.map (classifyRow messageId t raw) }

/-- The message of a workflow, as an attempt finds it. -/
def Found (input : ProcessMessageInput) (d : Database) (m : Message) : Prop :=
  d.messages.find? (fun m => decide (m.messageSid = input.messageSid)) = some m

/-- The database which a unit of work has found, what it has made of it, and the actions
which it has registered. -/
inductive Commits (hmac : String → String) (searcher : JobEmbeddingSearcher)
    (input : ProcessMessageInput) (faults : List (Option AppFault)) (d : Database) :
    Database → List PostCommitAction → Prop
  | unknown {m : Message} {raw : String} (hfound : Found input d m) :
      Commits hmac searcher input faults d
        (classified m.id .unknown raw (audited input.messageSid .gptClassified (some m.id) d))
        [.sendUnknownReply input.fromNumber]
  | jobPosting {m : Message} {raw : String} {create : JobCreate} {job : Job} {d₁ : Database}
      (hfound : Found input d m) (hcreate : create.messageId = m.id)
      (hinsert : insertJob create (audited input.messageSid .gptClassified (some m.id) d) =
        .ok (job, d₁)) :
      Commits hmac searcher input faults d
        (classified m.id .jobPosting raw (audited input.messageSid .jobCreated (some m.id) d₁))
        [.upsertEmbedding job.id create.description.1 (hmac input.fromNumber)]
  | workGoal {m : Message} {raw : String} {create : WorkGoalCreate} {goal : WorkGoal}
      {d₁ : Database}
      {r : MatchResult} {w w' : AppWorld} {kept : List ℕ}
      (hfound : Found input d m) (hcreate : create.messageId = m.id)
      (hinsert : insertWorkGoal create (audited input.messageSid .gptClassified (some m.id) d) =
        .ok (goal, d₁))
      (hsession : w.store.session = audited input.messageSid .workGoalCreated (some m.id) d₁)
      (hmatch : (matchJobs searcher goal (some input.body)).run w = (.ok r, w'))
      (hkept : kept.Sublist (r.jobs.map fun c => c.job.id))
      (hall : ¬Refused .integrity faults → kept = r.jobs.map fun c => c.job.id) :
      Commits hmac searcher input faults d
        (classified m.id .workGoal raw
          { audited input.messageSid .workGoalCreated (some m.id) d₁ with
            matchRows := united kept goal.id d.matchRows })
        [.sendMatchReply input.fromNumber (formatMatchSms r)]

section
variable {hmac : String → String} {fromisoformat : String → Option Datetime}
variable {searcher : JobEmbeddingSearcher} {gpt : ExtractionService} {input : ProcessMessageInput}
variable {faults : List (Option AppFault)} {d d' : Database} {w w' : AppWorld}
variable {ctx : PipelineContext} {actions : List PostCommitAction}

theorem insertAudit_eq_audited {messageSid : String} {event : AuditEvent} {messageId : Option ℕ}
    (h : insertAudit messageSid event messageId d = .ok ((), d')) :
    d' = audited messageSid event messageId d := by
  unfold insertAudit at h
  split_ifs at h
  cases h
  rfl

theorem run_writeAudit_ok {messageSid : String} {event : AuditEvent} {messageId : Option ℕ}
    (h : (writeAudit messageSid event messageId).run w = (.ok (), w')) :
    w'.store = { w.store with session := audited messageSid event messageId w.store.session } := by
  obtain ⟨d, hinsert, hstore⟩ := Program.run_statement_store h
  rw [hstore, insertAudit_eq_audited hinsert]

theorem run_process_ok {smsText : String} {result : ExtractionResult}
    (h : (process gpt smsText).run w = (.ok result, w')) : w'.store = w.store :=
  ((process_triple (P := (· = w.store)) smsText).ok rfl h).1

/-- Each handler, with the rows which it has staged and the actions which it returns. -/
theorem commits_of_handle {m : Message} {result : ExtractionResult} {w₀ : AppWorld}
    (hfound : Found input d m)
    (hsession : w.store.session = audited input.messageSid .gptClassified (some m.id) d)
    (hfaults : w.faults <:+ faults)
    (hctx : ctx = ⟨result, input.body, hmac input.fromNumber, m.id, m.userId, input.messageSid,
      input.fromNumber⟩)
    (h : (((production fromisoformat searcher).dispatch result).handle ctx).run w =
      (.ok actions, w₀)) (raw : String) :
    Commits hmac searcher input faults d (classified m.id
      ((production fromisoformat searcher).dispatch result).messageType raw w₀.store.session)
      actions := by
  subst hctx
  rcases dispatch_production fromisoformat searcher result with heq | heq | heq <;>
    rw [heq] at h ⊢
  · change (jobPostingHandle fromisoformat _).run w = _ at h
    rcases jobPostingHandle_cases fromisoformat _ with
      ⟨_, _, hhandle⟩ | ⟨extracted, create, _, hcreate, hhandle⟩
    · rw [hhandle] at h
      cases h
    · rw [hhandle] at h
      obtain ⟨job, w₁, hjob, h⟩ := Program.run_bind_ok h
      obtain ⟨_, w₂, haudit, h⟩ := Program.run_bind_ok h
      cases h
      obtain ⟨d₁, hinsert, hstore⟩ := Program.run_statement_store hjob
      rw [run_writeAudit_ok haudit, hstore, ← ofExtraction_description hcreate]
      exact .jobPosting hfound (ofExtraction_messageId hcreate) (hsession ▸ hinsert)
  · change (workGoalHandle fromisoformat searcher _).run w = _ at h
    rcases workGoalHandle_cases fromisoformat searcher _ with
      ⟨_, _, hhandle⟩ | ⟨extracted, create, _, hcreate, hhandle⟩
    · rw [hhandle] at h
      cases h
    · rw [hhandle] at h
      obtain ⟨goal, w₁, hgoal, h⟩ := Program.run_bind_ok h
      obtain ⟨_, w₂, haudit, h⟩ := Program.run_bind_ok h
      obtain ⟨r, w₃, hmatch, h⟩ := Program.run_bind_ok h
      cases h
      obtain ⟨d₁, hinsert, hstore⟩ := Program.run_statement_store hgoal
      have hsession₂ : w₂.store.session =
          audited input.messageSid .workGoalCreated (some m.id) d₁ := by
        rw [run_writeAudit_ok haudit, hstore]
      have hsuffix := ((Program.faults_of_run haudit).trans (Program.faults_of_run hgoal)).trans
        hfaults
      obtain ⟨_, _, hd₁⟩ := insertWorkGoal_ok hinsert
      have hgoal₂ : goal.id ∈ w₂.store.session.workGoals.map WorkGoal.id := by
        rw [hsession₂, hd₁]
        exact List.mem_map_of_mem (List.mem_append_right _ (List.mem_singleton_self _))
      obtain ⟨kept, hkept, hall, hstore₃⟩ := matchJobs_records hgoal₂ hmatch
      have hrows : w₂.store.session.matchRows = d.matchRows := by
        rw [hsession₂, hd₁, hsession]
        rfl
      rw [hstore₃, hrows]
      simp only [withMatches, hsession₂]
      exact .workGoal hfound (workGoal_ofExtraction_messageId hcreate) (hsession ▸ hinsert)
        hsession₂ hmatch hkept fun hquiet => hall fun hrefused =>
          hquiet (hrefused.of_suffix hsuffix)
  · cases h
    rw [hsession]
    exact .unknown hfound

/-- What an attempt stages is what one of the three handlers stands for. -/
theorem commits_of_stage
    (h : (stageMessage hmac (production fromisoformat searcher) gpt input).run
      (.opened d faults) = (.ok actions, w)) :
    Commits hmac searcher input faults d w.store.session actions := by
  obtain ⟨phoneHash, w₁, hhash, h⟩ := Program.run_bind_ok h
  obtain ⟨_, rfl, rfl⟩ := run_hashPhone_ok hhash
  obtain ⟨_, w₂, hbind, h⟩ := Program.run_bind_ok h
  obtain ⟨_, rfl⟩ := run_bindParameters_ok hbind
  obtain ⟨row, w₃, hquery, h⟩ := Program.run_bind_ok h
  obtain ⟨hrow, hstore₃⟩ := Program.run_query_ok hquery
  have hsuffix₃ : w₃.faults <:+ faults := Program.faults_of_run hquery
  cases row with
  | none => cases h
  | some m =>
      obtain ⟨staged, w₄, hstage, h⟩ := Program.run_bind_ok h
      cases h
      obtain ⟨result, w₆, hprocess, hstage⟩ := Program.run_bind_ok hstage
      obtain ⟨_, w₇, haudit, hstage⟩ := Program.run_bind_ok hstage
      obtain ⟨actions', w₈, hhandle, hstage⟩ := Program.run_bind_ok hstage
      obtain ⟨_, w₉, hclassify, hstage⟩ := Program.run_bind_ok hstage
      cases hstage
      have hfound : Found input d m := hrow.symm
      have hsession : w₇.store.session =
          audited input.messageSid .gptClassified (some m.id) d := by
        rw [run_writeAudit_ok haudit, run_process_ok hprocess, hstore₃]
        rfl
      have hsuffix₇ := (Program.faults_of_run haudit).trans (Program.faults_of_run hprocess)
      obtain ⟨d₉, hupdate, hstore₉⟩ := Program.run_statement_store hclassify
      cases hupdate
      rw [hstore₉]
      exact commits_of_handle hfound hsession (hsuffix₇.trans hsuffix₃) rfl hhandle _

/-- An attempt stops with nothing durable; or its commit takes place, and it returns what it has
registered unless it does not hear of it. It shows nothing to the outside world. -/
theorem commitMessage_cases {r : Except AppStop (List PostCommitAction)}
    (h : (commitMessage hmac (production fromisoformat searcher) gpt input).run
      (.opened d faults) = (r, w)) :
    outward w.store.log = [] ∧
      ((∃ stop, r = .error stop) ∧ w.store.committed = d ∧ committedIn w.store.log = [] ∨
        ∃ actions w₁, (stageMessage hmac (production fromisoformat searcher) gpt input).run
            (.opened d faults) = (.ok actions, w₁) ∧
          Commits hmac searcher input faults d w.store.committed actions ∧
            committedIn w.store.log ≠ [] ∧ (r = .ok actions ∨ ∃ stop, r = .error stop)) := by
  rcases hstage : (stageMessage hmac (production fromisoformat searcher) gpt input).run
    (.opened d faults) with ⟨stop | actions, w₁⟩
  · have hrun := run_commitMessage hmac _ _ input d faults (Program.run_bind_of_error hstage)
    obtain ⟨rfl, rfl⟩ := Prod.mk.inj (h.symm.trans hrun)
    have hquiet := stageMessage_settled.error (w := .opened d faults) ⟨rfl, rfl⟩ hstage
    exact ⟨by rw [hquiet.2]; rfl, .inl ⟨⟨_, rfl⟩, hquiet.1, by rw [hquiet.2]; rfl⟩⟩
  · have hquiet := stageMessage_settled.ok (w := .opened d faults) ⟨rfl, rfl⟩ hstage
    have hcommits := commits_of_stage hstage
    rcases hcommit : (Program.commit : App Unit).run w₁ with ⟨stop | _, w₂⟩
    · have hrun := run_commitMessage hmac _ _ input d faults
        ((Program.run_bind_of_ok hstage).trans (Program.run_bind_of_error hcommit))
      obtain ⟨rfl, rfl⟩ := Prod.mk.inj (h.symm.trans hrun)
      obtain ⟨_, _, hsame | ⟨x, _, _, hlost⟩⟩ := Program.run_call_error hcommit
      · simp only [hsame]
        exact ⟨by rw [hquiet.2]; rfl, .inl ⟨⟨_, rfl⟩, hquiet.1, by rw [hquiet.2]; rfl⟩⟩
      · simp only [hlost, hquiet.2]
        exact ⟨rfl, .inr ⟨actions, w₁, rfl, hcommits, by simp [committedIn], .inr ⟨_, rfl⟩⟩⟩
    · have hrun := run_commitMessage hmac _ _ input d faults
        ((Program.run_bind_of_ok hstage).trans (Program.run_bind_of_ok hcommit))
      obtain ⟨rfl, rfl⟩ := Prod.mk.inj (h.symm.trans hrun)
      simp only [Program.run_commit_ok hcommit, hquiet.2]
      exact ⟨rfl, .inr ⟨actions, w₁, rfl, hcommits, by simp [committedIn], .inl rfl⟩⟩

/-- A unit of work leaves its classification with its message. -/
theorem Commits.messages (h : Commits hmac searcher input faults d d' actions) :
    ∃ m t raw, Found input d m ∧ d'.messages = d.messages.map (classifyRow m.id t raw) := by
  cases h with
  | unknown hfound => exact ⟨_, _, _, hfound, rfl⟩
  | jobPosting hfound _ hinsert =>
      obtain ⟨_, _, rfl⟩ := insertJob_ok hinsert
      exact ⟨_, _, _, hfound, rfl⟩
  | workGoal hfound _ hinsert =>
      obtain ⟨_, _, rfl⟩ := insertWorkGoal_ok hinsert
      exact ⟨_, _, _, hfound, rfl⟩

end

section
variable {d x : Database} {a : PostCommitAction}

/-- The job is queued, or nothing has happened to the database. -/
def Queued (a : PostCommitAction) (d x : Database) : Prop :=
  x = d ∨ ∃ jobId description phoneHash entry,
    a = .upsertEmbedding jobId description phoneHash ∧ insertEntry jobId d = .ok (entry, x)

/-- What an awaited action leaves: at most its own entry of the queue, and at most its own
effect. -/
def Awaited (a : PostCommitAction) (d : Database) (s : AppStore) : Prop :=
  Queued a d s.committed ∧ ranActions s.log = [a] ∧
    (outward s.log = [] ∨ outward s.log = [effectOf a])

/-- The same before the effect and before the queue. -/
def Pending (a : PostCommitAction) (d : Database) (s : AppStore) : Prop :=
  s.committed = d ∧ s.session = d ∧ ranActions s.log = [a] ∧ outward s.log = []

theorem Pending.awaited {s : AppStore} (h : Pending a d s) : Awaited a d s :=
  ⟨.inl h.1, h.2.2.1, .inl h.2.2.2⟩

theorem Pending.landed {s : AppStore} (h : Pending a d s) :
    Awaited a d (Program.logged (effectOf a) s) := by
  obtain ⟨hcommitted, _, hran, hnone⟩ := h
  have hother : ranActions [.effect (effectOf a)] = [] := by cases a <;> rfl
  have hlanded : outward [.effect (effectOf a)] = [effectOf a] := by cases a <;> rfl
  refine ⟨.inl hcommitted, ?_, .inr ?_⟩
  · rw [Program.logged, ranActions_concat, hran, hother, List.append_nil]
  · rw [Program.logged, outward_append, hnone, hlanded, List.nil_append]

/-- An upsert which fails queues its job; whether its effect took place is not known. -/
theorem queueing_awaited {jobId : ℕ} {description phoneHash : String}
    (ha : a = .upsertEmbedding jobId description phoneHash) :
    Triple (fun s => s.session = d ∧ s.committed = d ∧ Awaited a d s)
      (.attempt (do
          let _ ← enqueue jobId
          .commit) fun _ => some .rollback)
      (fun _ => Awaited a d) (fun _ => Awaited a d) := by
  have hqueue : Triple (fun s => s.session = d ∧ s.committed = d ∧ Awaited a d s)
      (do
        let _ ← enqueue jobId
        .commit) (fun _ => Awaited a d) (fun _ => Awaited a d) := by
    have hdone (entry : PineconeSyncQueue) (s : AppStore)
        (hs : Awaited a d s ∧ insertEntry jobId d = .ok (entry, s.session)) :
        Awaited a d ⟨s.session, s.session, s.log ++ [.committed s.session]⟩ := by
      obtain ⟨⟨_, hran, houtward⟩, hinsert⟩ := hs
      refine ⟨.inr ⟨jobId, description, phoneHash, entry, ha, hinsert⟩, ?_, ?_⟩
      · rw [ranActions_concat, hran]
        rfl
      · rw [outward_append]
        simpa [outward] using houtward
    refine .bind (Q := fun entry s => Awaited a d s ∧ insertEntry jobId d = .ok (entry, s.session))
      (.statement (fun _ s _ hs => hs.2.2) (fun s _ hs _ => hs.2.2) fun s entry y hs hok => ?_)
      fun entry => .commit (fun _ _ _ hs => hs.1) (fun _ s _ => hdone entry s) (hdone entry)
    exact ⟨hs.2.2, hs.1 ▸ hok⟩
  refine .attempt hqueue (fun _ hs => hs) (fun e handler hh => ?_) ?_
  · cases hh
    exact .rollback (fun _ _ _ hs => hs) fun _ hs => hs
  · intro e hh
    cases hh

theorem perform_awaited (a : PostCommitAction) :
    Triple (Pending a d) (perform a) (fun _ => Awaited a d) (fun _ => Awaited a d) := by
  have hsms (toNumber body : String) (heffect : effectOf a = .smsSent toNumber body) :
      Triple (Pending a d) (.attempt (sendSms toNumber body) fun _ => some (pure ()))
        (fun _ => Awaited a d) (fun _ => Awaited a d) := by
    have hsend : Triple (Pending a d) (sendSms toNumber body) (fun _ => Awaited a d)
        (fun _ => Awaited a d) := by
      rw [sendSms, ← heffect]
      exact .external (fun _ _ _ hs => hs.awaited) (fun _ _ _ hs => hs.landed)
        fun _ hs => hs.landed
    refine .attempt hsend (fun _ hs => hs) (fun e handler hh => ?_) ?_
    · cases hh
      exact .pure fun _ hs => hs
    · intro e hh
      cases hh
  cases a with
  | upsertEmbedding jobId description phoneHash =>
      have hback (s : AppStore) (hs : Pending (.upsertEmbedding jobId description phoneHash) d s) :
          s.session = d ∧ s.committed = d ∧
            Awaited (.upsertEmbedding jobId description phoneHash) d s :=
        ⟨hs.2.1, hs.1, hs.awaited⟩
      have hwrite : Triple (Pending (.upsertEmbedding jobId description phoneHash) d)
          (writeJobEmbedding jobId description phoneHash)
          (fun _ => Awaited (.upsertEmbedding jobId description phoneHash) d)
          (fun _ s => s.session = d ∧ s.committed = d ∧
            Awaited (.upsertEmbedding jobId description phoneHash) d s) :=
        .bind (.step fun _ s _ hs => hback s hs) fun _ => .external (fun _ s _ hs => hback s hs)
          (fun _ s _ hs => ⟨hs.2.1, hs.1, hs.landed⟩) fun _ hs => hs.landed
      rw [perform]
      refine .attempt hwrite (fun _ hs => hs.2.2) (fun e handler hh => ?_) ?_
      · cases hh
        exact queueing_awaited rfl
      · intro e hh
        cases hh
  | sendMatchReply toNumber body => exact hsms toNumber body rfl
  | sendUnknownReply toNumber => exact hsms toNumber unknownReplyText rfl

theorem runAction_awaited (a : PostCommitAction) :
    Triple (· = ⟨d, d, []⟩) (runAction a) (fun _ => Awaited a d) (fun _ => Awaited a d) := by
  refine .bind (Q := fun _ => Pending a d) (.update fun s hs => ?_) fun _ => ?_
  · rw [hs]
    exact ⟨rfl, rfl, rfl, rfl⟩
  · refine .attempt (perform_awaited a) (fun _ hs => hs) (fun e handler hh => ?_) ?_
    · cases hh
      exact .pure fun _ hs => hs
    · intro e hh
      cases hh

end

/-- A claimed entry is marked by the outcome of its write; no other entry changes. -/
def Marked (e e' : PineconeSyncQueue) : Prop :=
  e' = e ∨ e.status = .pending ∧ (e' = { e with status := .synced } ∨ ∃ error,
    e' = { e with status := .failed, attempts := e.attempts + 1, lastError := some error })

def Marks (d x : Database) : Prop :=
  ∃ rows, x = { d with syncQueue := rows } ∧ List.Forall₂ Marked d.syncQueue rows

/-- The vector is made from a row which the sweep has claimed. -/
def FromClaim (d : Database) (locked : ℕ → Bool) (e : Effect) : Prop :=
  ∃ p ∈ claimPending d locked pineconeSyncBatchSize, ∃ description,
    p.description = some description ∧ e = .vectorUpserted p.entry.jobId description p.phoneHash

def Swept (d : Database) (locked : ℕ → Bool) (s : AppStore) : Prop :=
  Holds (Marks d) s ∧ ∀ e ∈ outward s.log, FromClaim d locked e

section
variable {d x : Database} {locked : ℕ → Bool} {e e' entry mark : PineconeSyncQueue}

theorem Marked.id_eq (h : Marked e e') : e'.id = e.id := by
  rcases h with rfl | ⟨_, rfl | ⟨_, rfl⟩⟩ <;> rfl

theorem Marked.jobId_eq (h : Marked e e') : e'.jobId = e.jobId := by
  rcases h with rfl | ⟨_, rfl | ⟨_, rfl⟩⟩ <;> rfl

/-- The mark of an entry replaces the row of its key, and that is the entry's. -/
theorem Marks.flush (hids : (d.syncQueue.map PineconeSyncQueue.id).Nodup)
    (hentry : entry ∈ d.syncQueue) (hmark : Marked entry mark) (h : Marks d x) :
    Marks d { x with syncQueue := overwrite PineconeSyncQueue.id [mark] x.syncQueue } := by
  obtain ⟨rows, rfl, hrows⟩ := h
  refine ⟨_, rfl, ?_⟩
  obtain ⟨hlength, hzip⟩ := List.forall₂_iff_zip.mp hrows
  refine List.forall₂_iff_zip.mpr ⟨?_, fun {a b} hab => ?_⟩
  · rw [hlength, overwrite, List.length_map]
  · rw [overwrite, List.zip_map_right] at hab
    obtain ⟨⟨a', b'⟩, hmem, heq⟩ := List.mem_map.mp hab
    obtain ⟨rfl, rfl⟩ := Prod.mk.inj heq
    have hold : Marked a' b' := hzip hmem
    by_cases hkey : b'.id ∈ [mark].map PineconeSyncQueue.id
    · have hlatest := latest_mem hkey
      rw [List.mem_singleton] at hlatest
      have hid : entry.id = a'.id := by
        rw [← hmark.id_eq, ← hold.id_eq]
        exact (List.mem_singleton.mp hkey).symm
      obtain rfl : entry = a' :=
        List.inj_on_of_nodup_map hids hentry (List.of_mem_zip hmem).1 hid
      simpa [hlatest] using hmark
    · simpa [latest_of_notMem hkey] using hold

theorem keeps_flushEntry_swept (hids : (d.syncQueue.map PineconeSyncQueue.id).Nodup)
    (hentry : entry ∈ d.syncQueue) (hmark : Marked entry mark) :
    Keeps (Swept d locked) (fun _ => True) (flushEntry mark) := by
  refine .statement (fun s _ y hs hok => ?_) fun _ _ _ _ => trivial
  cases hok
  exact ⟨⟨hs.1.1, hs.1.2.flush hids hentry hmark⟩, hs.2⟩

theorem keeps_syncRow_swept {p : PendingJobEmbedding} (str : InfraError → String)
    (hids : (d.syncQueue.map PineconeSyncQueue.id).Nodup)
    (hp : p ∈ claimPending d locked pineconeSyncBatchSize) :
    Keeps (Swept d locked) (fun _ => True) (syncRow str p) := by
  obtain ⟨⟨hentry, hpending, _⟩, _⟩ := mem_claimPending hp
  have hwrite : Keeps (Swept d locked) (fun _ => True) (writeRow p) := by
    unfold writeRow
    split
    · exact .raise trivial
    · rename_i description hsome
      refine .bind .step fun _ => .external fun s hs => ⟨hs.1, fun e he => ?_⟩
      rw [Program.logged, outward_append] at he
      rcases List.mem_append.mp he with he | he
      · exact hs.2 e he
      · rw [List.mem_singleton.mp he]
        exact ⟨p, hp, description, hsome, rfl⟩
  refine .attempt (.bind hwrite fun _ =>
    keeps_flushEntry_swept hids hentry (.inr ⟨hpending, .inl rfl⟩)) (fun e handler hh _ => ?_)
      fun _ _ _ => trivial
  cases hh
  exact keeps_flushEntry_swept hids hentry (.inr ⟨hpending, .inr ⟨_, rfl⟩⟩)

theorem sync_swept (str : InfraError → String)
    (hids : (d.syncQueue.map PineconeSyncQueue.id).Nodup) :
    Triple (· = ⟨d, d, []⟩) (syncPineconeQueueActivity locked str)
      (fun _ => Swept d locked) (fun _ => Swept d locked) := by
  have hnothing : Marks d d :=
    ⟨_, rfl, List.forall₂_same.mpr fun _ _ => .inl rfl⟩
  have hfound : Swept d locked ⟨d, d, []⟩ := ⟨⟨hnothing, hnothing⟩, fun _ he => by cases he⟩
  have hback (s : AppStore) (hs : Swept d locked s) :
      Swept d locked { s with session := s.committed } := ⟨⟨hs.1.1, hs.1.1⟩, hs.2⟩
  refine .closing (.bind (Q := fun pending s => Swept d locked s ∧
    pending = claimPending d locked pineconeSyncBatchSize) (.query ?_ ?_) fun pending => ?_)
  · rintro _ s _ rfl
    exact hfound
  · rintro s rfl
    exact ⟨hfound, rfl⟩
  · rintro w ⟨hw, rfl⟩
    have hcommitted (s : AppStore) (hs : Swept d locked s) :
        Swept d locked ⟨s.session, s.session, s.log ++ [.committed s.session]⟩ := by
      refine ⟨⟨hs.1.2, hs.1.2⟩, fun e he => hs.2 e ?_⟩
      rw [outward_append] at he
      simpa [outward] using he
    have hrows : Triple (fun s => Swept d locked s ∧
        ∀ p ∈ claimPending d locked pineconeSyncBatchSize,
          p ∈ claimPending d locked pineconeSyncBatchSize)
        (.forEach (syncRow str) (claimPending d locked pineconeSyncBatchSize))
        (fun _ s => Swept d locked s ∧ ∀ p ∈ ([] : List PendingJobEmbedding),
          p ∈ claimPending d locked pineconeSyncBatchSize)
        (fun _ s => Swept d locked { s with session := s.committed }) := by
      refine Triple.forEach (fun _ todo s =>
        Swept d locked s ∧ ∀ p ∈ todo, p ∈ claimPending d locked pineconeSyncBatchSize)
          (fun _ p todo => ?_) [] _
      rintro v ⟨hv, hclaimed⟩
      exact (keeps_syncRow_swept str hids (hclaimed p List.mem_cons_self)).consequence
        (fun _ hs => hs)
        (fun _ s hs => ⟨hs, fun q hq => hclaimed q (List.mem_cons_of_mem _ hq)⟩)
        (fun _ s hs => hback s hs.1) v hv
    have hcommit : Triple (Swept d locked) (.commit : App Unit)
        (fun _ s => Swept d locked { s with session := s.committed })
        (fun _ s => Swept d locked { s with session := s.committed }) :=
      .commit (fun _ s _ hs => hback s hs) (fun _ s _ hs => hback _ (hcommitted s hs))
        fun s hs => hback _ (hcommitted s hs)
    exact Triple.bind hrows (fun _ => hcommit.consequence (fun _ hs => hs.1) (fun _ _ hs => hs)
      fun _ _ hs => hs) w ⟨hw, fun _ hp => hp⟩

end

/-- The changes of the database, each with the check which goes before it. -/
inductive Writes (hmac : String → String) : Database → Database → Prop
  | kept {d : Database} : Writes hmac d d
  | rejected {d : Database} {messageSid : String} {event : AuditEvent}
      (hevent : event = .rateLimited ∨ event = .duplicate ∧ messageSid ∈ sids d) :
      Writes hmac d (audited messageSid event none d)
  | counted {d d' : Database} {userId : ℕ} {now : ℤ}
      (h : insertRateLimit userId now d = .ok ((), d')) : Writes hmac d d'
  | upserted {d d' : Database} {phoneHash : String} {phoneE164 : Option String} {user : User}
      (h : upsertUser phoneHash phoneE164 d = (user, d')) : Writes hmac d d'
  | stored {d d' : Database} {inbound : InboundSms} {message : Message}
      (h : storeMessage inbound d = .ok (message, d')) : Writes hmac d d'
  | committed {d d' : Database} {searcher : JobEmbeddingSearcher} {input : ProcessMessageInput}
      {faults : List (Option AppFault)} {actions : List PostCommitAction}
      (h : Commits hmac searcher input faults d d' actions) :
      Writes hmac d d'
  | queued {d d' : Database} {jobId : ℕ} {entry : PineconeSyncQueue}
      (h : insertEntry jobId d = .ok (entry, d')) : Writes hmac d d'
  | marked {d d' : Database} (h : Marks d d') : Writes hmac d d'
  | purged {d : Database} {now : ℤ} :
      Writes hmac d { d with rateLimits := keptAt now d.rateLimits }

section
variable {cfg : Config} {requests : ℕ → Request} {s t : DeliveryRaces.State} {i : ℕ}
variable {hmac : String → String} {d d' : Database}

/-- A delivery which is to be recorded as a duplicate has found its MessageSid stored. -/
def Seen (s : DeliveryRaces.State) : Prop :=
  ∀ i payload, s.deliveries i = .duplicate payload → payload.messageSid.1 ∈ sids s.database

theorem seen_initial (d : Database) : Seen (DeliveryRaces.initial d) := by
  intro i payload hi
  cases hi

theorem after_writes {α : Type} {next : DeliveryRaces.Phase}
    {r : Except AppExn (α × Database)} (h : ∀ a d, r = .ok (a, d) → Writes hmac s.database d) :
    Writes hmac s.database (s.after i next r).database := by
  cases hr : r with
  | error e => exact .kept
  | ok done => exact h done.1 done.2 hr

theorem advance_writes (hseen : Seen s) (h : DeliveryRaces.advance cfg requests s i = some t) :
    Writes cfg.hmac s.database t.database := by
  unfold DeliveryRaces.advance at h
  split at h
  case h_1 => split at h <;> cases h <;> exact .kept
  case h_2 => split_ifs at h <;> cases h <;> exact .kept
  case h_3 payload hphase =>
    cases h
    refine after_writes fun _ d hd => ?_
    rw [insertAudit_eq_audited hd]
    exact .rejected (.inr ⟨rfl, hseen i payload hphase⟩)
  case h_4 payload _ =>
    split_ifs at h
    · cases h
      exact .kept
    · cases h
      exact .kept
    · cases h
      exact .upserted rfl
  case h_5 =>
    split at h
    · cases h
      exact .kept
    · split at h
      · cases h
        exact .kept
      · split_ifs at h <;> cases h <;> exact .kept
  case h_6 =>
    cases h
    refine after_writes fun _ d hd => ?_
    rw [insertAudit_eq_audited hd]
    exact .rejected (.inl rfl)
  case h_7 =>
    cases h
    exact after_writes fun _ d hd => .counted hd
  case h_8 =>
    split_ifs at h
    split at h <;> cases h <;> exact .kept
  case h_9 =>
    split at h
    · cases h
      exact .kept
    · rename_i hstore
      cases h
      exact .stored hstore
  case h_10 =>
    cases h
    exact .kept
  case h_11 => cases h

theorem deliver_writes {a : DeliveryRaces.Action} (hseen : Seen s)
    (h : DeliveryRaces.step cfg requests s a = some t) :
    Writes cfg.hmac s.database t.database := by
  cases a with
  | advance i => exact advance_writes hseen h
  | abort i stop =>
      simp only [DeliveryRaces.step] at h
      split at h <;> cases h
      exact .kept
  | loseStart i stop | refuseStart i stop =>
      simp only [DeliveryRaces.step] at h
      split at h <;> cases h
      exact .kept

theorem duplicate_of_after {α : Type} {next : DeliveryRaces.Phase}
    {r : Except AppExn (α × Database)} {payload : TwilioWebhookPayload}
    (h : (s.after i next r).deliveries i = .duplicate payload) : next = .duplicate payload := by
  cases r with
  | error e =>
      rw [DeliveryRaces.State.after, DeliveryRaces.deliveries_move, if_pos rfl] at h
      cases h
  | ok done =>
      simp only [DeliveryRaces.State.after, DeliveryRaces.deliveries_move, if_true] at h
      exact h

/-- Only the duplicate check leads to the record of a duplicate. -/
theorem duplicate_of_advance {payload : TwilioWebhookPayload}
    (h : DeliveryRaces.advance cfg requests s i = some t)
    (ht : t.deliveries i = .duplicate payload) : payload.messageSid.1 ∈ sids s.database := by
  unfold DeliveryRaces.advance at h
  split at h
  case h_2 seen _ =>
    split_ifs at h with _ hany
    · cases h
      rw [DeliveryRaces.deliveries_move, if_pos rfl] at ht
      cases ht
    · cases h
      rw [DeliveryRaces.deliveries_move, if_pos rfl] at ht
      cases ht
      obtain ⟨m, hm, hsid⟩ := List.any_eq_true.mp hany
      exact List.mem_map.mpr ⟨m, hm, of_decide_eq_true hsid⟩
    · cases h
      rw [DeliveryRaces.deliveries_move, if_pos rfl] at ht
      cases ht
  case h_1 => split at h <;> cases h <;> simp [DeliveryRaces.deliveries_move] at ht
  case h_3 =>
    cases h
    cases duplicate_of_after ht
  case h_4 => split_ifs at h <;> cases h <;> simp [DeliveryRaces.deliveries_move] at ht
  case h_5 =>
    split at h
    · cases h
      simp [DeliveryRaces.deliveries_move] at ht
    · split at h
      · cases h
        simp [DeliveryRaces.deliveries_move] at ht
      · split_ifs at h <;> cases h <;> simp [DeliveryRaces.deliveries_move] at ht
  case h_6 =>
    cases h
    cases duplicate_of_after ht
  case h_7 =>
    cases h
    cases duplicate_of_after ht
  case h_8 =>
    split_ifs at h
    split at h <;> cases h <;> simp [DeliveryRaces.deliveries_move] at ht
  case h_9 => split at h <;> cases h <;> simp [DeliveryRaces.deliveries_move] at ht
  case h_10 =>
    cases h
    simp [DeliveryRaces.deliveries_move] at ht
  case h_11 => cases h

theorem duplicate_of_step {a : DeliveryRaces.Action} {payload : TwilioWebhookPayload}
    (hseen : Seen s) (h : DeliveryRaces.step cfg requests s a = some t)
    (ht : t.deliveries i = .duplicate payload) : payload.messageSid.1 ∈ sids s.database := by
  cases a with
  | advance j =>
      rcases eq_or_ne i j with rfl | hne
      · exact duplicate_of_advance h ht
      · rw [(DeliveryRaces.advance_cases h).others hne] at ht
        exact hseen i payload ht
  | abort j stop =>
      simp only [DeliveryRaces.step] at h
      split at h <;> cases h
      rw [DeliveryRaces.deliveries_move] at ht
      split_ifs at ht
      exact hseen i payload ht
  | loseStart j stop | refuseStart j stop =>
      simp only [DeliveryRaces.step] at h
      split at h <;> cases h
      rw [DeliveryRaces.deliveries_move] at ht
      split_ifs at ht
      exact hseen i payload ht

/-- No step takes a MessageSid away. -/
theorem Writes.sids_kept (h : Writes hmac d d') : sids d <+: sids d' := by
  cases h with
  | kept => exact List.prefix_rfl
  | rejected => exact List.prefix_rfl
  | counted h =>
      obtain ⟨_, rfl⟩ := insertRateLimit_ok h
      exact List.prefix_rfl
  | upserted h =>
      obtain ⟨_, _, _, rfl⟩ := upsertUser_ok h
      exact List.prefix_rfl
  | stored h =>
      obtain ⟨_, _, _, _, rfl⟩ := storeMessage_ok h
      exact ⟨_, (List.map_append ..).symm⟩
  | committed h =>
      obtain ⟨m, t, raw, _, hmessages⟩ := h.messages
      rw [sids, sids, hmessages, map_messageSid_classifyRow]
  | queued h =>
      obtain ⟨_, rfl⟩ := insertEntry_ok h
      exact List.prefix_rfl
  | marked h =>
      obtain ⟨_, rfl, _⟩ := h
      exact List.prefix_rfl
  | purged => exact List.prefix_rfl

end

structure State where
  base : EmbeddingDocuments.State
  /-- What the outside world has observed, in its order. -/
  effects : List Effect
  /-- The actions of attempts whose commit took place and which did not hear of it: nothing
  awaits them. -/
  unheard : List PostCommitAction

namespace State

abbrev database (s : State) : Database := s.base.database

end State

/-- A step of a delivery, an attempt, an action or a sweep; or a purge of the limiter's rows. -/
inductive Action where
  | base (a : EmbeddingDocuments.Action)
  | purge (now : ℤ) (faults : List (Option AppFault))

def initial (d : Database) : State := ⟨EmbeddingDocuments.initial d, [], []⟩

section
variable (cfg : Config) (fromisoformat : String → Option Datetime) (requests : ℕ → Request)

/-- What a step shows to the outside world: a delivery starts its workflow, and a program
leaves its log. -/
def observed (s : EmbeddingDocuments.State) : EmbeddingDocuments.Action → List Effect
  | .deliver a => (startedWorkflow s.races a).toList.map fun input =>
      .workflowStarted input.messageSid input.fromNumber input.body
  | .process searcher workflow attempt =>
      match s.workflows[workflow]? with
      | none => []
      | some input => outward ((commitMessage cfg.hmac (production fromisoformat searcher)
          attempt.gpt input).run (.opened s.database attempt.faults)).2.store.log
  | .await action faults =>
      match s.registered[action]? with
      | none => []
      | some a => outward ((runAction a).run (.opened s.database faults)).2.store.log
  | .sweep locked str faults => outward ((syncPineconeQueueActivity locked str).run
      (.opened s.database faults)).2.store.log

/-- What a step leaves of actions which nothing awaits: an attempt has registered them, and the
answer of its commit is lost. -/
def left (s : EmbeddingDocuments.State) : EmbeddingDocuments.Action → List PostCommitAction
  | .process searcher workflow attempt =>
      match s.workflows[workflow]? with
      | none => []
      | some input =>
          let o := production fromisoformat searcher
          match (commitMessage cfg.hmac o attempt.gpt input).run
              (.opened s.database attempt.faults), (stageMessage cfg.hmac o attempt.gpt input).run
                (.opened s.database attempt.faults) with
          | (.error _, w), (.ok actions, _) =>
              if (committedIn w.store.log).isEmpty then [] else actions
          | _, _ => []
  | _ => []

def step (s : State) : Action → Option State
  | .base a => (EmbeddingDocuments.step cfg fromisoformat requests s.base a).map fun t =>
      ⟨t, s.effects ++ observed cfg fromisoformat s.base a,
        s.unheard ++ left cfg fromisoformat s.base a⟩
  | .purge now faults =>
      some { s with base := s.base.withDatabase (purged s.database now faults) }

end

section
variable {cfg : Config} {fromisoformat : String → Option Datetime} {requests : ℕ → Request}
variable {s t : State} {a : Action}

/-- What a step makes durable is one of the listed changes. -/
theorem step_writes (hseen : Seen s.base.races)
    (hids : (s.database.syncQueue.map PineconeSyncQueue.id).Nodup)
    (h : step cfg fromisoformat requests s a = some t) :
    Writes cfg.hmac s.database t.database := by
  cases a with
  | purge now faults =>
      cases h
      rcases purged_eq s.database now faults with heq | heq
      · change Writes cfg.hmac s.database (purged s.database now faults)
        rw [heq]
        exact .kept
      · change Writes cfg.hmac s.database (purged s.database now faults)
        rw [heq]
        exact .purged
  | base a =>
      obtain ⟨x, hx, rfl⟩ := Option.map_eq_some_iff.mp h
      cases a with
      | deliver a =>
          obtain ⟨r, hr, rfl⟩ := Option.map_eq_some_iff.mp hx
          exact deliver_writes hseen hr
      | process searcher workflow attempt =>
          obtain ⟨input, hinput, rfl⟩ := Option.map_eq_some_iff.mp hx
          change Writes cfg.hmac s.database ((commitMessage cfg.hmac (production fromisoformat
            searcher) attempt.gpt input).run (.opened s.database attempt.faults)).2.store.committed
          rcases hrun : (commitMessage cfg.hmac (production fromisoformat searcher) attempt.gpt
            input).run (.opened s.database attempt.faults) with ⟨r, w⟩
          obtain ⟨_, ⟨_, hback, _⟩ | ⟨actions, _, _, hcommits, _⟩⟩ := commitMessage_cases hrun
          · rw [hback]
            exact .kept
          · exact .committed hcommits
      | await action faults =>
          obtain ⟨a, ha, rfl⟩ := Option.map_eq_some_iff.mp hx
          have hawaited := (runAction_awaited a).store (w := .opened s.database faults) rfl
          change Writes cfg.hmac s.database
            ((runAction a).run (.opened s.database faults)).2.store.committed
          rcases hawaited.1 with heq | ⟨_, _, _, _, _, hinsert⟩
          · rw [heq]
            exact .kept
          · exact .queued hinsert
      | sweep locked str faults =>
          cases hx
          exact .marked ((sync_swept str hids).store (w := .opened s.database faults) rfl).1.1

/-- The tables which units of work write are as they were. -/
structure SameDomain (d d' : Database) : Prop where
  jobs : d'.jobs = d.jobs
  workGoals : d'.workGoals = d.workGoals
  matchRows : d'.matchRows = d.matchRows

/-- An effect of a step which awaits no action: a workflow is started, or a sweep has written
a vector. -/
def Unasked (s : State) (e : Effect) : Prop :=
  (∃ a input, startedWorkflow s.base.races a = some input ∧
    e = .workflowStarted input.messageSid input.fromNumber input.body) ∨
  ∃ locked, FromClaim s.database locked e

/-- The kinds of steps: a unit of work is committed, an action is awaited, or neither. -/
inductive Moves (cfg : Config) (s : State) : Action → State → Prop
  | committed {searcher : JobEmbeddingSearcher} {workflow : ℕ} {attempt : Attempt}
      {input : ProcessMessageInput} {actions : List PostCommitAction} {t : State}
      (hinput : s.base.workflows[workflow]? = some input)
      (hcommits : Commits cfg.hmac searcher input attempt.faults s.database t.database actions)
      (hactions : t.base.registered = s.base.registered ++ actions ∧ t.unheard = s.unheard ∨
        t.base.registered = s.base.registered ∧ t.unheard = s.unheard ++ actions)
      (hawaited : t.base.awaited = s.base.awaited) (heffects : t.effects = s.effects) :
      Moves cfg s (.base (.process searcher workflow attempt)) t
  | awaited {action : ℕ} {faults : List (Option AppFault)} {b : PostCommitAction} {t : State}
      (hb : s.base.registered[action]? = some b) (hqueued : Queued b s.database t.database)
      (hregistered : t.base.registered = s.base.registered.eraseIdx action)
      (hawaited : t.base.awaited = s.base.awaited ++ [b]) (hunheard : t.unheard = s.unheard)
      (heffects : t.effects = s.effects ∨ t.effects = s.effects ++ [effectOf b]) :
      Moves cfg s (.base (.await action faults)) t
  | aside {a : Action} {t : State} {new : List Effect} (hsame : SameDomain s.database t.database)
      (hregistered : t.base.registered = s.base.registered)
      (hawaited : t.base.awaited = s.base.awaited) (hunheard : t.unheard = s.unheard)
      (heffects : t.effects = s.effects ++ new)
      (hnew : ∀ e ∈ new, Unasked s e) : Moves cfg s a t

theorem sameDomain_change {r : DeliveryRaces.State}
    (h : DeliveryRaces.Change cfg requests s.base.races i r) :
    SameDomain s.database r.database := by
  cases h with
  | aside _ hd =>
      obtain ⟨_, _, _, rfl⟩ := hd
      exact ⟨rfl, rfl, rfl⟩
  | upserted _ hupsert =>
      obtain ⟨_, _, _, rfl⟩ := upsertUser_ok hupsert
      exact ⟨rfl, rfl, rfl⟩
  | inserted => exact ⟨rfl, rfl, rfl⟩
  | stored _ hstore =>
      obtain ⟨_, _, _, _, rfl⟩ := storeMessage_ok hstore
      exact ⟨rfl, rfl, rfl⟩
  | dropped => exact ⟨rfl, rfl, rfl⟩
  | started => exact ⟨rfl, rfl, rfl⟩

theorem step_moves (hids : (s.database.syncQueue.map PineconeSyncQueue.id).Nodup)
    (h : step cfg fromisoformat requests s a = some t) : Moves cfg s a t := by
  cases a with
  | purge now faults =>
      cases h
      refine @Moves.aside _ _ _ _ [] ?_ rfl rfl rfl (List.append_nil _).symm fun _ he => by cases he
      change SameDomain s.database (purged s.database now faults)
      rcases purged_eq s.database now faults with heq | heq <;> rw [heq] <;>
        exact ⟨rfl, rfl, rfl⟩
  | base a =>
      obtain ⟨x, hx, rfl⟩ := Option.map_eq_some_iff.mp h
      cases a with
      | deliver a =>
          obtain ⟨r, hr, rfl⟩ := Option.map_eq_some_iff.mp hx
          obtain ⟨i, hchange⟩ := DeliveryRaces.step_cases hr
          refine .aside (sameDomain_change hchange) rfl rfl (List.append_nil _) rfl
            fun e he => .inl ?_
          obtain ⟨input, hinput, rfl⟩ := List.mem_map.mp he
          exact ⟨a, input, Option.mem_toList.mp hinput, rfl⟩
      | process searcher workflow attempt =>
          obtain ⟨input, hinput, rfl⟩ := Option.map_eq_some_iff.mp hx
          rcases hrun : (commitMessage cfg.hmac (production fromisoformat searcher) attempt.gpt
            input).run (.opened s.database attempt.faults) with ⟨r, w⟩
          obtain ⟨hsilent, ⟨⟨stop, rfl⟩, hback, hnothing⟩ |
            ⟨actions, w₁, hstage, hcommits, hlog, hr⟩⟩ := commitMessage_cases hrun
          · refine @Moves.aside _ _ _ _ [] ?_ ?_ rfl ?_ ?_ fun _ he => by cases he
            · simp only [hback]
              exact ⟨rfl, rfl, rfl⟩
            · simp [Except.toOption]
            · simp only [left, hinput, hrun]
              split <;> simp_all
            · simp [observed, hinput, hrun, hsilent]
          · refine @Moves.committed _ _ _ _ _ _ actions _ hinput hcommits ?_ rfl ?_
            · rcases hr with rfl | ⟨stop, rfl⟩
              · exact .inl ⟨by simp [Except.toOption], by simp [left, hinput, hrun]⟩
              · exact .inr ⟨by simp [Except.toOption], by simp [left, hinput, hrun, hstage, hlog]⟩
            · simp [observed, hinput, hrun, hsilent]
      | await action faults =>
          obtain ⟨b, hb, rfl⟩ := Option.map_eq_some_iff.mp hx
          obtain ⟨hqueued, hran, houtward⟩ :=
            (runAction_awaited b).store (w := .opened s.database faults) rfl
          refine .awaited hb hqueued rfl ?_ (List.append_nil _) ?_
          · change s.base.awaited ++ ranActions _ = _
            rw [hran]
          · change s.effects ++ observed _ _ _ _ = _ ∨ s.effects ++ observed _ _ _ _ = _
            simp only [observed, hb]
            rcases houtward with hnone | hone
            · exact .inl (by rw [hnone, List.append_nil])
            · exact .inr (by rw [hone])
      | sweep locked str faults =>
          cases hx
          obtain ⟨⟨hcommitted, _⟩, hclaims⟩ :=
            (sync_swept str hids).store (w := .opened s.database faults) rfl
          refine .aside ?_ rfl rfl (List.append_nil _) rfl fun e he => .inr ⟨locked, hclaims e he⟩
          obtain ⟨rows, heq, _⟩ := hcommitted
          change SameDomain s.database ((syncPineconeQueueActivity locked str).run
            (.opened s.database faults)).2.store.committed
          rw [heq]
          exact ⟨rfl, rfl, rfl⟩

theorem seen_step (hseen : Seen s.base.races)
    (hids : (s.database.syncQueue.map PineconeSyncQueue.id).Nodup)
    (h : step cfg fromisoformat requests s a = some t) : Seen t.base.races := by
  have hpre := (step_writes hseen hids h).sids_kept
  intro i payload hi
  refine hpre.subset ?_
  cases a with
  | purge now faults =>
      cases h
      exact hseen i payload hi
  | base a =>
      obtain ⟨x, hx, rfl⟩ := Option.map_eq_some_iff.mp h
      cases a with
      | deliver a =>
          obtain ⟨r, hr, rfl⟩ := Option.map_eq_some_iff.mp hx
          exact duplicate_of_step hseen hr hi
      | process searcher workflow attempt =>
          obtain ⟨input, _, rfl⟩ := Option.map_eq_some_iff.mp hx
          exact hseen i payload hi
      | await action faults =>
          obtain ⟨a, _, rfl⟩ := Option.map_eq_some_iff.mp hx
          exact hseen i payload hi
      | sweep locked str faults =>
          cases hx
          exact hseen i payload hi

end

end Vici.ServiceRuns
