import Vici.PosterPhones
import Vici.SweepActivity

/-!
# One document for a job

The embedding of a job is written in two places. The action which is awaited
after the job's commit carries the description of the extraction and a hash
which was computed from the arguments of the workflow; a sweep finds both
through the message of the job and the user of the message. They agree as long
as a workflow is started with the number under which the sender of its message
is registered, and no step gives a row another key, user, hash or description.
-/
namespace Vici.EmbeddingDocuments
open Models Datetimes AppPrograms SessionPrograms SmsRepositories RowCreation Webhook
open SyncQueueRepository Handlers Orchestrator Attempts ActionRuns KeyedRows
open MatchService DeliveryFootprints PosterPhones SweepActivity
open Program (Triple Keeps Holds Staged)

/-- What the embedding of a job is made from: its description, and the hash of its sender. -/
def Document (d : Database) (jobId : ℕ) (description phoneHash : String) : Prop :=
  ∃ job ∈ d.jobs, job.id = jobId ∧ job.description = some description ∧
    ∃ m ∈ d.messages, m.id = job.messageId ∧ Registered d.users m.userId phoneHash

/-- The sender of the message of the MessageSid is registered under the number. -/
def SentFrom (hmac : String → String) (d : Database) (messageSid number : String) : Prop :=
  ∃ m ∈ d.messages, m.messageSid = messageSid ∧ Registered d.users m.userId (hmac number)

/-- The keys of the tables which a job's document is collected from. -/
structure Keyed (d : Database) : Prop extends UniqueKeys d where
  messageSids : (sids d).Nodup

/-- No row is lost, and none changes in what the joins go by. -/
structure Extends (d d' : Database) : Prop extends Later d d' where
  messages : ∀ m ∈ d.messages, ∃ n ∈ d'.messages,
    n.id = m.id ∧ n.messageSid = m.messageSid ∧ n.userId = m.userId

section
variable {hmac : String → String} {d d' d'' : Database} {jobId : ℕ}
variable {description description' phoneHash phoneHash' messageSid number : String}

theorem Extends.refl (d : Database) : Extends d d :=
  ⟨.refl d, fun m hm => ⟨m, hm, rfl, rfl, rfl⟩⟩

theorem Extends.trans (h : Extends d d') (h' : Extends d' d'') : Extends d d'' := by
  refine ⟨h.toLater.trans h'.toLater, fun m hm => ?_⟩
  obtain ⟨n, hn, hid, hsid, huser⟩ := h.messages m hm
  obtain ⟨k, hk, hid', hsid', huser'⟩ := h'.messages n hn
  exact ⟨k, hk, hid'.trans hid, hsid'.trans hsid, huser'.trans huser⟩

theorem Extends.of_shows (h : Shows d d') : Extends d d' := by
  refine ⟨.of_shows h, fun m hm => ⟨m, ?_, rfl, rfl, rfl⟩⟩
  rw [h.messages]
  exact hm

theorem Keyed.of_shows (h : Keyed d) (hshows : Shows d d') : Keyed d' := by
  obtain ⟨husers, hmessages, hjobs⟩ := hshows
  constructor
  · constructor
    · rw [hjobs]
      exact h.jobs
    · rw [hmessages]
      exact h.messages
    · rw [husers]
      exact h.users
  · rw [sids, hmessages]
    exact h.messageSids

theorem Document.extend (h : Document d jobId description phoneHash) (hext : Extends d d') :
    Document d' jobId description phoneHash := by
  obtain ⟨job, hjob, hid, hdescription, m, hm, hmessage, hregistered⟩ := h
  obtain ⟨n, hn, hnid, _, huser⟩ := hext.messages m hm
  refine ⟨job, hext.jobs job hjob, hid, hdescription, n, hn, hnid.trans hmessage, ?_⟩
  rw [huser]
  exact hregistered.kept hext.users

theorem SentFrom.extend (h : SentFrom hmac d messageSid number) (hext : Extends d d') :
    SentFrom hmac d' messageSid number := by
  obtain ⟨m, hm, hsid, hregistered⟩ := h
  obtain ⟨n, hn, _, hnsid, huser⟩ := hext.messages m hm
  refine ⟨n, hn, hnsid.trans hsid, ?_⟩
  rw [huser]
  exact hregistered.kept hext.users

/-- The joins of a claim find the document of the entry's job. -/
theorem Document.mem_embeddingsOf {entry : PineconeSyncQueue}
    (h : Document d entry.jobId description phoneHash) :
    ⟨entry, some description, phoneHash⟩ ∈ embeddingsOf d entry := by
  obtain ⟨job, hjob, hid, hdescription, m, hm, hmessage, u, hu, huser, rfl⟩ := h
  simp only [embeddingsOf, List.mem_flatMap, List.mem_map, List.mem_filter, decide_eq_true_eq]
  refine ⟨job, ⟨hjob, hid⟩, m, ⟨hm, hmessage⟩, u, ⟨hu, huser⟩, ?_⟩
  rw [hdescription]

/-- Under unique keys they find nothing else. -/
theorem Document.eq_of_mem {entry : PineconeSyncQueue} {p : PendingJobEmbedding}
    (hkeyed : Keyed d) (h : Document d entry.jobId description phoneHash)
    (hp : p ∈ embeddingsOf d entry) : p = ⟨entry, some description, phoneHash⟩ := by
  have hone := length_embeddingsOf_le_one hkeyed.toUniqueKeys entry
  have hdocument := h.mem_embeddingsOf
  match hrows : embeddingsOf d entry with
  | [] =>
      rw [hrows] at hp
      cases hp
  | [q] =>
      rw [hrows] at hp hdocument
      rw [List.mem_singleton.mp hp, List.mem_singleton.mp hdocument]
  | _ :: _ :: _ => simp [hrows] at hone

/-- A job has one document. -/
theorem Document.unique (hkeyed : Keyed d) (h : Document d jobId description phoneHash)
    (h' : Document d jobId description' phoneHash') :
    description' = description ∧ phoneHash' = phoneHash := by
  have hmem : ⟨pendingEntry d jobId, some description', phoneHash'⟩ ∈
      embeddingsOf d (pendingEntry d jobId) := h'.mem_embeddingsOf
  obtain ⟨_, hdescription, hhash⟩ := PendingJobEmbedding.mk.inj (h.eq_of_mem hkeyed hmem)
  exact ⟨Option.some.inj hdescription, hhash⟩

end

/-- What the database has become since it was `d`, with the queue as it was. -/
structure Grows (d x : Database) : Prop where
  extends_found : Extends d x
  keyed : Keyed x
  queue : x.syncQueue = d.syncQueue

/-- The action belongs to a job of the message, and carries its description and `phoneHash`. -/
def Captures (d : Database) (messageId : ℕ) (phoneHash : String) (action : PostCommitAction) :
    Prop :=
  ∀ jobId description hash, action = .upsertEmbedding jobId description hash →
    hash = phoneHash ∧ ∃ job ∈ d.jobs, job.id = jobId ∧ job.description = some description ∧
      job.messageId = messageId

section
variable {hmac : String → String} {fromisoformat : String → Option Datetime}
variable {searcher : JobEmbeddingSearcher} {gpt : ExtractionService} {ctx : PipelineContext}
variable {d x y : Database}

theorem Grows.of_shows (h : Grows d x) (hshows : Shows x y) (hqueue : y.syncQueue = x.syncQueue) :
    Grows d y :=
  ⟨h.extends_found.trans (.of_shows hshows), h.keyed.of_shows hshows, hqueue.trans h.queue⟩

theorem Grows.insertJob {create : JobCreate} {job : Job} (h : Grows d x)
    (hok : RowCreation.insertJob create x = .ok (job, y)) : Grows d y := by
  have hid := insertJob_id hok
  obtain ⟨_, _, rfl⟩ := insertJob_ok hok
  constructor
  · refine h.extends_found.trans ⟨⟨.refl _, fun j hj => List.mem_append_left _ hj⟩, ?_⟩
    exact fun m hm => ⟨m, hm, rfl, rfl, rfl⟩
  · exact ⟨⟨nodup_map_concat h.keyed.jobs hid, h.keyed.messages, h.keyed.users⟩,
      h.keyed.messageSids⟩
  · exact h.queue

/-- A classification changes no column which the joins use. -/
theorem Grows.classified (h : Grows d x) (messageId : ℕ) (t : MessageType) (raw : String) :
    Grows d { x with messages := x.messages.map (classifyRow messageId t raw) } := by
  constructor
  · refine h.extends_found.trans ⟨⟨.refl _, fun _ hj => hj⟩, fun m hm => ?_⟩
    exact ⟨_, List.mem_map_of_mem hm, by simp⟩
  · refine ⟨⟨h.keyed.jobs, ?_, h.keyed.users⟩, ?_⟩
    · rw [map_id_classifyRow]
      exact h.keyed.messages
    · rw [sids, map_messageSid_classifyRow]
      exact h.keyed.messageSids
  · exact h.queue

theorem keeps_writeAudit_grows (messageSid : String) (event : AuditEvent)
    (messageId : Option ℕ) : Keeps (fun s => Grows d s.session) (fun _ => True)
      (writeAudit messageSid event messageId) :=
  keeps_writeAudit (fun _ _ hs => hs.of_shows ⟨rfl, rfl, rfl⟩ rfl) _ _ _

/-- The closure captures the description of the row and the hash of the context. -/
theorem jobPostingHandle_captures : Triple (fun s => Grows d s.session)
    (jobPostingHandle fromisoformat ctx)
    (fun actions s => Grows d s.session ∧
      ∀ a ∈ actions, Captures s.session ctx.messageId ctx.phoneHash a) (fun _ _ => True) := by
  rcases jobPostingHandle_cases fromisoformat ctx with
    ⟨e, _, heq⟩ | ⟨extracted, create, _, hcreate, heq⟩
  · rw [heq]
    exact .raise fun _ _ => trivial
  · rw [heq]
    refine .bind (Q := fun job s => Grows d s.session ∧ job ∈ s.session.jobs ∧
      job.description = some extracted.description.1 ∧ job.messageId = ctx.messageId)
      (.statement_of_ok ?_) fun job => .bind
        (keeps_writeAudit (fun s _ hs => ⟨hs.1.of_shows ⟨rfl, rfl, rfl⟩ rfl, hs.2⟩)
          _ _ _).triple fun _ => .pure ?_
    · intro s job y hs hok
      refine ⟨hs.insertJob hok, ?_⟩
      have hdescription := insertJob_description hok
      obtain ⟨_, hmessage, rfl⟩ := insertJob_ok hok
      rw [ofExtraction_description hcreate] at hdescription
      rw [ofExtraction_messageId hcreate] at hmessage
      exact ⟨List.mem_append_right _ (List.mem_singleton_self job), hdescription, hmessage⟩
    · rintro s ⟨hs, hjob, hdescription, hmessage⟩
      refine ⟨hs, fun a ha => ?_⟩
      obtain rfl := List.mem_singleton.mp ha
      intro jobId description hash heq
      cases heq
      exact ⟨rfl, job, hjob, rfl, hdescription, hmessage⟩

theorem captures_of_other {messageId : ℕ} {phoneHash : String} {action : PostCommitAction}
    (h : ∀ jobId description hash, action ≠ .upsertEmbedding jobId description hash) :
    Captures d messageId phoneHash action :=
  fun jobId description hash heq => (h jobId description hash heq).elim

theorem workGoalHandle_captures : Triple (fun s => Grows d s.session)
    (workGoalHandle fromisoformat searcher ctx)
    (fun actions s => Grows d s.session ∧
      ∀ a ∈ actions, Captures s.session ctx.messageId ctx.phoneHash a) (fun _ _ => True) := by
  rcases workGoalHandle_cases fromisoformat searcher ctx with ⟨e, _, heq⟩ | ⟨_, _, _, _, heq⟩
  · rw [heq]
    exact .raise fun _ _ => trivial
  · rw [heq]
    refine .bind (Q := fun _ s => Grows d s.session)
      (.statement_of_ok ?_) fun goal =>
        .bind (keeps_writeAudit_grows _ _ _).triple fun _ =>
          .bind (keeps_matchJobs ?_ (fun _ _ hs _ => hs) trivial trivial searcher goal
            _).triple fun _ => .pure ?_
    · intro s goal y hs hok
      obtain ⟨_, _, rfl⟩ := insertWorkGoal_ok hok
      exact hs.of_shows ⟨rfl, rfl, rfl⟩ rfl
    · exact fun s rows hs => hs.of_shows ⟨rfl, rfl, rfl⟩ rfl
    · refine fun s hs => ⟨hs, fun a ha => captures_of_other ?_⟩
      simp [List.mem_singleton.mp ha]

theorem dispatch_captures (result : ExtractionResult) : Triple (fun s => Grows d s.session)
    (((production fromisoformat searcher).dispatch result).handle ctx)
    (fun actions s => Grows d s.session ∧
      ∀ a ∈ actions, Captures s.session ctx.messageId ctx.phoneHash a) (fun _ _ => True) := by
  rcases dispatch_production fromisoformat searcher result with h | h | h
  · rw [h]
    exact jobPostingHandle_captures
  · rw [h]
    exact workGoalHandle_captures
  · rw [h]
    refine .pure fun s hs => ⟨hs, fun a ha => captures_of_other ?_⟩
    simp [List.mem_singleton.mp ha]

theorem stage_captures {m : MessageInput} : Triple (fun s => Grows d s.session)
    (stage (production fromisoformat searcher) gpt m)
    (fun staged s => Grows d s.session ∧
      ∀ a ∈ staged.2, Captures s.session m.messageId m.phoneHash a) (fun _ _ => True) := by
  refine .bind (keeps_process trivial m.smsText).triple fun result =>
    .bind (keeps_writeAudit_grows _ _ _).triple fun _ => .bind (dispatch_captures result)
      fun actions => .bind (.statement_of_ok ?_)
        fun _ => .pure fun _ hs => hs
  intro s _ y hs hok
  cases hok
  exact ⟨hs.1.classified _ _ _, hs.2⟩

/-- Where the hash is that of the message's sender, it captures the job's document. -/
theorem Captures.document {message : Message} {phoneHash description hash : String} {jobId : ℕ}
    (hgrows : Grows d x) (hm : message ∈ d.messages)
    (hsender : Registered d.users message.userId phoneHash)
    (h : Captures x message.id phoneHash (.upsertEmbedding jobId description hash)) :
    Document x jobId description hash := by
  obtain ⟨rfl, job, hjob, hid, hdescription, hmessage⟩ := h jobId description hash rfl
  obtain ⟨n, hn, hnid, _, huser⟩ := hgrows.extends_found.messages message hm
  refine ⟨job, hjob, hid, hdescription, n, hn, hnid.trans hmessage.symm, ?_⟩
  rw [huser]
  exact hsender.kept hgrows.extends_found.users

/-- The commit of a workflow's attempt: every upsert which it registers has captured the
document of its job. Where its answer is lost the rows are left, and nothing is registered. -/
theorem commitMessage_triple {input : ProcessMessageInput} (hkeyed : Keyed d)
    (hsent : SentFrom hmac d input.messageSid input.fromNumber) :
    Triple (fun s => s.committed = d ∧ s.session = d)
      (commitMessage hmac (production fromisoformat searcher) gpt input)
      (fun actions s => Grows d s.committed ∧ ∀ jobId description hash,
        .upsertEmbedding jobId description hash ∈ actions →
          Document s.committed jobId description hash)
      (fun _ s => Grows d s.committed) := by
  have hfound : Grows d d := ⟨.refl d, hkeyed, rfl⟩
  have hback (s : AppStore) (hs : s.committed = d) : Grows d s.committed := hs ▸ hfound
  refine .bind (Q := fun phoneHash s => (s.committed = d ∧ s.session = d) ∧
    phoneHash = hmac input.fromNumber) ?_ fun phoneHash => ?_
  · exact (hashPhone_triple hmac _ _).consequence (fun _ hs => hs) (fun _ _ hs => hs)
      fun _ s hs => hback s hs.1
  · refine .closing (.bind ((bindParameters_triple fun _ s _ hs => hback s hs.1.1).consequence
      (fun _ hs => hs) (fun _ _ hs => hs.1) fun _ _ hs => hs) fun _ =>
        .bind (Q := fun row s => (s.committed = d ∧ s.session = d) ∧
          phoneHash = hmac input.fromNumber ∧
            row = d.messages.find? fun m => decide (m.messageSid = input.messageSid))
          (.query (fun _ s _ hs => hback s hs.1.1) fun s hs => ⟨hs.1, hs.2, by rw [hs.1.2]⟩)
            fun row => ?_)
    split
    · exact .raise fun s hs => hback s hs.1.1
    · rename_i message
      rintro w ⟨hw, rfl, hrow⟩
      obtain ⟨m, hm, hsid, hsender⟩ := hsent
      -- the MessageSid is the key under which both have found the message
      obtain rfl : message = m := Option.some.inj
        (hrow.trans ((find?_key_eq_some hkeyed.messageSids).mpr ⟨hm, hsid⟩))
      refine Triple.bind (((staged_stage (d := d) (l := w.store.log)).and
        (stage_captures (d := d))).consequence
          (fun s hs => hs) (fun _ _ hs => hs) fun _ s hs => hback s hs.1.1.1) (fun staged => ?_) w
            ⟨⟨hw.1, rfl⟩, hw.2 ▸ hfound⟩
      refine .bind (Q := fun _ s => Grows d s.committed ∧ ∀ a ∈ staged.2,
        Captures s.committed message.id (hmac input.fromNumber) a)
        (.commit (fun _ s _ hs => hback s hs.1.1) (fun _ _ _ hs => hs.2.1) fun s hs => hs.2)
          fun _ => .pure ?_
      intro s hs
      refine ⟨hs.1, fun jobId description hash hmem => ?_⟩
      exact (hs.2 _ hmem).document hs.1 hm hsender

end

/-- Only the queue has changed, and its entries are of jobs which `ok` allows. -/
def Queues (ok : ℕ → Prop) (d x : Database) : Prop :=
  ∃ rows, x = { d with syncQueue := rows } ∧ ∀ e ∈ rows, ok e.jobId

/-- The vectors which a log lists, with what they were made from. -/
def written (log : List (Event Database Effect)) : List (ℕ × String × String) :=
  log.filterMap fun
    | .effect (.vectorUpserted jobId description phoneHash) => some (jobId, description, phoneHash)
    | _ => none

section
variable {ok : ℕ → Prop} {made : ℕ → String → String → Prop} {d x : Database}

theorem ranActions_concat (log : List (Event Database Effect)) (e : Event Database Effect) :
    ranActions (log ++ [e]) = ranActions log ++ ranActions [e] := List.filterMap_append

theorem written_concat (log : List (Event Database Effect)) (e : Event Database Effect) :
    written (log ++ [e]) = written log ++ written [e] := List.filterMap_append

theorem Queues.update {rows : List PineconeSyncQueue} (h : Queues ok d x)
    (hrows : ∀ e ∈ rows, ok e.jobId) : Queues ok d { x with syncQueue := rows } := by
  obtain ⟨_, rfl, _⟩ := h
  exact ⟨rows, rfl, hrows⟩

theorem Queues.queue (h : Queues ok d x) : ∀ e ∈ x.syncQueue, ok e.jobId := by
  obtain ⟨rows, rfl, hrows⟩ := h
  exact hrows

theorem Queues.shows (h : Queues ok d x) : Shows d x := by
  obtain ⟨rows, rfl, _⟩ := h
  exact ⟨rfl, rfl, rfl⟩

/-- An action is awaited once, and queues no job but its own. -/
theorem runAction_queues {action : PostCommitAction}
    (hok : ∀ jobId description phoneHash,
      action = .upsertEmbedding jobId description phoneHash → ok jobId) :
    Triple (fun s => Holds (Queues ok d) s ∧ s.log = []) (runAction action)
      (fun _ s => Holds (Queues ok d) s ∧ ranActions s.log = [action])
      (fun _ s => Holds (Queues ok d) s ∧ ranActions s.log = [action]) := by
  have hperform : Keeps (fun s => Holds (Queues ok d) s ∧ ranActions s.log = [action])
      (fun _ => True) (perform action) := by
    refine keeps_perform (fun s entry hentry hs => ?_) (fun s hs => ?_) (fun s hs => ?_)
      fun s e he hs => ?_
    · obtain ⟨description, phoneHash, heq⟩ := hentry
      refine ⟨⟨hs.1.1, hs.1.2.update fun e he => ?_⟩, hs.2⟩
      rcases List.mem_append.mp he with he | he
      · exact hs.1.2.queue e he
      · rw [List.mem_singleton.mp he]
        exact hok _ _ _ heq
    · refine ⟨⟨hs.1.2, hs.1.2⟩, ?_⟩
      rw [ranActions_concat, hs.2]
      rfl
    · exact ⟨⟨hs.1.1, hs.1.1⟩, hs.2⟩
    · refine ⟨hs.1, ?_⟩
      rw [Program.logged, ranActions_concat, hs.2]
      cases e with
      | ran a => exact (he a rfl).elim
      | _ => rfl
  refine .bind (Q := fun _ s => Holds (Queues ok d) s ∧ ranActions s.log = [action])
    (.update fun s hs => ⟨hs.1, ?_⟩) fun _ => ?_
  · rw [Program.logged, hs.2]
    rfl
  · have hcaught : Keeps (fun s => Holds (Queues ok d) s ∧ ranActions s.log = [action])
        (fun _ => True) (.attempt (perform action) fun _ => some (pure ())) := by
      refine .attempt hperform (fun e handler hh _ => ?_) fun _ _ _ => trivial
      cases hh
      exact .pure _
    exact hcaught.consequence (fun _ hs => hs) (fun _ _ hs => hs) fun _ _ hs => hs.1

/-- The store of a sweep: the queue has other marks, and the vectors are `made`. -/
def Sweeping (ok : ℕ → Prop) (made : ℕ → String → String → Prop) (d : Database) (s : AppStore) :
    Prop :=
  Holds (Queues ok d) s ∧ ∀ v ∈ written s.log, made v.1 v.2.1 v.2.2

theorem keeps_flushEntry {entry : PineconeSyncQueue} (hentry : ok entry.jobId) :
    Keeps (Sweeping ok made d) (fun _ => True) (flushEntry entry) := by
  refine .statement (fun s _ y hs hf => ?_) fun _ _ _ _ => trivial
  cases hf
  refine ⟨⟨hs.1.1, hs.1.2.update fun e he => ?_⟩, hs.2⟩
  rcases mem_overwrite he with he | ⟨he, _⟩
  · rw [List.mem_singleton.mp he]
    exact hentry
  · exact hs.1.2.queue e he

theorem keeps_syncRow {row : PendingJobEmbedding} (str : InfraError → String)
    (hentry : ok row.entry.jobId)
    (hmade : ∀ description ∈ row.description, made row.entry.jobId description row.phoneHash) :
    Keeps (Sweeping ok made d) (fun _ => True) (syncRow str row) := by
  have hwrite : Keeps (Sweeping ok made d) (fun _ => True) (writeRow row) := by
    unfold writeRow
    split
    · exact .raise trivial
    · rename_i description hsome
      refine .bind .step fun _ => .external fun s hs => ⟨hs.1, fun v hv => ?_⟩
      rw [Program.logged, written_concat] at hv
      rcases List.mem_append.mp hv with hv | hv
      · exact hs.2 v hv
      · obtain rfl := List.mem_singleton.mp hv
        exact hmade description hsome
  refine .attempt (.bind hwrite fun _ => keeps_flushEntry hentry) (fun e handler hh _ => ?_)
    fun _ _ _ => trivial
  cases hh
  exact keeps_flushEntry hentry

/-- A sweep writes what it has claimed, and keeps the jobs of the queue. -/
theorem sync_sweeping {locked : ℕ → Bool} (str : InfraError → String)
    (hqueue : ∀ e ∈ d.syncQueue, ok e.jobId)
    (hmade : ∀ p ∈ claimPending d locked pineconeSyncBatchSize, ∀ description ∈ p.description,
      made p.entry.jobId description p.phoneHash) :
    Triple (· = ⟨d, d, []⟩) (syncPineconeQueueActivity locked str)
      (fun _ => Sweeping ok made d) (fun _ => Sweeping ok made d) := by
  have hfound : Sweeping ok made d ⟨d, d, []⟩ :=
    ⟨⟨⟨_, rfl, hqueue⟩, ⟨_, rfl, hqueue⟩⟩, fun v hv => by cases hv⟩
  refine .closing (.bind (Q := fun pending s => Sweeping ok made d s ∧
    ∀ p ∈ pending, p ∈ claimPending d locked pineconeSyncBatchSize) (.query ?_ ?_)
      fun pending => ?_)
  · rintro e s _ rfl
    exact hfound
  · rintro s rfl
    exact ⟨hfound, fun _ hp => hp⟩
  · have hback (s : AppStore) (hs : Sweeping ok made d s) :
        Sweeping ok made d { s with session := s.committed } := ⟨⟨hs.1.1, hs.1.1⟩, hs.2⟩
    have hcommitted (s : AppStore) (hs : Sweeping ok made d s) :
        Sweeping ok made d ⟨s.session, s.session, s.log ++ [.committed s.session]⟩ := by
      refine ⟨⟨hs.1.2, hs.1.2⟩, ?_⟩
      rw [written_concat]
      simpa [written] using hs.2
    refine .bind (Q := fun _ => Sweeping ok made d) ((Triple.forEach (fun _ todo s =>
      Sweeping ok made d s ∧ ∀ p ∈ todo, p ∈ claimPending d locked pineconeSyncBatchSize)
        (fun _ p todo => ?_) [] pending).consequence (fun _ hs => hs) (fun _ _ hs => hs.1)
          fun _ _ hs => hs) fun _ => .commit (fun _ s _ hs => hback s hs)
            (fun _ s _ hs => hcommitted s hs) fun s hs => hback _ (hcommitted s hs)
    rintro w ⟨hw, hclaimed⟩
    have hp := hclaimed p List.mem_cons_self
    have hentry : ok p.entry.jobId := hqueue _ (mem_claimPending hp).1.1
    refine ((keeps_syncRow str hentry (hmade p hp)).consequence (fun _ hs => hs)
      (fun _ s hs => ⟨hs, fun q hq => hclaimed q (List.mem_cons_of_mem _ hq)⟩)
        fun _ s hs => hback s hs.1) w hw

end

structure State where
  races : DeliveryRaces.State
  /-- The arguments of the workflows which deliveries have started. -/
  workflows : List ProcessMessageInput
  /-- Actions whose commit has taken place and which are still to be awaited. -/
  registered : List PostCommitAction
  /-- The actions which were awaited. -/
  awaited : List PostCommitAction
  /-- The vectors which sweeps have written, with what they were made from. -/
  swept : List (ℕ × String × String)

namespace State

abbrev database (s : State) : Database := s.races.database

def withDatabase (s : State) (d : Database) : State :=
  { s with races := { s.races with database := d } }

/-- The writer was called with these arguments by an action which was awaited. -/
def Direct (s : State) (jobId : ℕ) (description phoneHash : String) : Prop :=
  ∃ action ∈ s.awaited, ∃ fallback,
    perform action = .attempt (writeJobEmbedding jobId description phoneHash) fallback

end State

/-- What an awaited action leaves in an empty database, undisturbed. -/
def undisturbedLog (program : App Unit) : List (Event Database Effect) :=
  (program.run (.opened .empty [])).2.store.log

/-- The direct calls are the awaited upserts. -/
theorem State.direct_iff {s : State} {jobId : ℕ} {description phoneHash : String} :
    s.Direct jobId description phoneHash ↔
      .upsertEmbedding jobId description phoneHash ∈ s.awaited := by
  constructor
  · rintro ⟨action, hmem, fallback, hperform⟩
    -- the vector which the writer leaves tells its arguments
    have hlog : undisturbedLog (perform action) =
        [.effect (.vectorUpserted jobId description phoneHash)] := by
      rw [hperform]
      rfl
    cases action with
    | upsertEmbedding jobId' description' phoneHash' =>
        cases hlog
        exact hmem
    | sendMatchReply toNumber body => cases hlog
    | sendUnknownReply toNumber => cases hlog
  · intro hmem
    refine ⟨_, hmem, ?_⟩
    rw [perform]
    exact ⟨_, rfl⟩

inductive Action where
  | deliver (a : DeliveryRaces.Action)
  | process (searcher : JobEmbeddingSearcher) (workflow : ℕ) (attempt : Attempt)
  | await (action : ℕ) (faults : List (Option AppFault))
  | sweep (locked : ℕ → Bool) (str : InfraError → String) (faults : List (Option AppFault))

def initial (d : Database) : State := ⟨DeliveryRaces.initial d, [], [], [], []⟩

/-- The workflow which a step of a delivery starts. -/
def startedWorkflow (s : DeliveryRaces.State) : DeliveryRaces.Action → Option ProcessMessageInput
  | .advance i | .loseStart i _ =>
      match s.deliveries i with
      | .stored inbound =>
          some ⟨inbound.messageSid, inbound.payload.fromNumber.1, inbound.payload.body.1⟩
      | _ => none
  | .abort _ _ | .refuseStart _ _ => none

/-- One attempt at a workflow is a step of its own, and so is each of its actions: other
steps come in between, and a lost process never awaits what it has registered. -/
def step (cfg : Config) (fromisoformat : String → Option Datetime) (requests : ℕ → Request)
    (s : State) : Action → Option State
  | .deliver a => (DeliveryRaces.step cfg requests s.races a).map fun t =>
      { s with races := t, workflows := s.workflows ++ (startedWorkflow s.races a).toList }
  | .process searcher workflow attempt => s.workflows[workflow]?.map fun input =>
      let (r, w) := (commitMessage cfg.hmac (production fromisoformat searcher) attempt.gpt
        input).run (.opened s.database attempt.faults)
      { s.withDatabase w.store.committed with
        registered := s.registered ++ r.toOption.getD [] }
  | .await action faults => s.registered[action]?.map fun a =>
      let (_, w) := (runAction a).run (.opened s.database faults)
      { s.withDatabase w.store.committed with
        registered := s.registered.eraseIdx action
        awaited := s.awaited ++ ranActions w.store.log }
  | .sweep locked str faults =>
      let (_, w) := (syncPineconeQueueActivity locked str).run (.opened s.database faults)
      some { s.withDatabase w.store.committed with swept := s.swept ++ written w.store.log }

/-- Workflows carry the numbers of their senders, and whatever an embedding was or is to be
made from is the document of its job. -/
structure Aligned (cfg : Config) (s : State) : Prop where
  keyed : Keyed s.database
  senders : ∀ i inbound, (s.races.deliveries i).inbound = some inbound →
    Registered s.database.users inbound.sender.id (cfg.hmac inbound.payload.fromNumber.1)
  stored : ∀ i inbound, s.races.deliveries i = .stored inbound →
    SentFrom cfg.hmac s.database inbound.messageSid inbound.payload.fromNumber.1
  workflows : ∀ input ∈ s.workflows,
    SentFrom cfg.hmac s.database input.messageSid input.fromNumber
  registered : ∀ jobId description phoneHash,
    .upsertEmbedding jobId description phoneHash ∈ s.registered →
      Document s.database jobId description phoneHash
  direct : ∀ jobId description phoneHash, s.Direct jobId description phoneHash →
    Document s.database jobId description phoneHash
  queued : ∀ e ∈ s.database.syncQueue, ∃ description phoneHash,
    s.Direct e.jobId description phoneHash
  swept : ∀ v ∈ s.swept, s.Direct v.1 v.2.1 v.2.2

section
variable {cfg : Config} {fromisoformat : String → Option Datetime} {requests : ℕ → Request}
variable {s t : State} {d d' : Database} {run : List Action} {i : ℕ}

theorem aligned_initial (hkeyed : Keyed d) (hqueue : d.syncQueue = []) :
    Aligned cfg (initial d) where
  keyed := hkeyed
  senders := by simp [initial, DeliveryRaces.initial, DeliveryRaces.Phase.inbound]
  stored := by simp [initial, DeliveryRaces.initial]
  workflows := by simp [initial]
  registered := by simp [initial]
  direct := by simp [initial, State.direct_iff]
  queued e he := by
    have hmem : e ∈ d.syncQueue := he
    rw [hqueue] at hmem
    cases hmem
  swept := by simp [initial]

/-- The database goes on to one which keeps what the joins go by. -/
theorem Aligned.extend (h : Aligned cfg s) (hext : Extends s.database d) (hkeyed : Keyed d)
    (hqueue : ∀ e ∈ d.syncQueue, ∃ description phoneHash,
      s.Direct e.jobId description phoneHash) : Aligned cfg (s.withDatabase d) where
  keyed := hkeyed
  senders i inbound hi := (h.senders i inbound hi).kept hext.users
  stored i inbound hi := (h.stored i inbound hi).extend hext
  workflows input hinput := (h.workflows input hinput).extend hext
  registered jobId description phoneHash hmem :=
    (h.registered jobId description phoneHash hmem).extend hext
  direct jobId description phoneHash hmem :=
    (h.direct jobId description phoneHash hmem).extend hext
  queued := hqueue
  swept := h.swept

/-- One delivery moves on, with whatever it has written. -/
theorem Aligned.move {r : DeliveryRaces.State} {p : DeliveryRaces.Phase} (h : Aligned cfg s)
    (hext : Extends s.database r.database) (hkeyed : Keyed r.database)
    (hqueue : r.database.syncQueue = s.database.syncQueue)
    (hdeliveries : r.deliveries = (s.races.move i p).deliveries)
    (hinbound : ∀ inbound, p.inbound = some inbound →
      Registered r.database.users inbound.sender.id (cfg.hmac inbound.payload.fromNumber.1))
    (hstored : ∀ inbound, p = .stored inbound →
      SentFrom cfg.hmac r.database inbound.messageSid inbound.payload.fromNumber.1) :
    Aligned cfg { s with races := r } := by
  have hall := h.extend hext hkeyed fun e he => h.queued e (hqueue ▸ he)
  refine ⟨hall.keyed, fun j inbound hj => ?_, fun j inbound hj => ?_, hall.workflows,
    hall.registered, hall.direct, hall.queued, hall.swept⟩
  · simp only [hdeliveries, DeliveryRaces.deliveries_move] at hj
    split_ifs at hj
    · exact hinbound inbound hj
    · exact hall.senders j inbound hj
  · simp only [hdeliveries, DeliveryRaces.deliveries_move] at hj
    split_ifs at hj
    · exact hstored inbound hj
    · exact hall.stored j inbound hj

/-- The message which a delivery stores is that of its sender. -/
theorem stored_extends {inbound : InboundSms} {message : Message} (hkeyed : Keyed d)
    (hstore : storeMessage inbound d = .ok (message, d'))
    (hsender : Registered d.users inbound.sender.id (cfg.hmac inbound.payload.fromNumber.1)) :
    Extends d d' ∧ Keyed d' ∧ d'.syncQueue = d.syncQueue ∧
      SentFrom cfg.hmac d' inbound.messageSid inbound.payload.fromNumber.1 := by
  obtain ⟨hfresh, hsid, huser, hid, rfl⟩ := storeMessage_ok hstore
  have hmem : message ∈ d.messages ++ [message] :=
    List.mem_append_right _ (List.mem_singleton_self _)
  refine ⟨⟨⟨.refl _, fun _ hj => hj⟩, fun m hm => ?_⟩, ⟨⟨hkeyed.jobs, ?_, hkeyed.users⟩, ?_⟩, rfl,
    message, hmem, hsid, huser ▸ hsender⟩
  · exact ⟨m, List.mem_append_left _ hm, rfl, rfl, rfl⟩
  · exact nodup_map_concat hkeyed.messages (hid ▸ nextId_notMem _)
  · exact nodup_map_concat hkeyed.messageSids (hsid ▸ hfresh)

/-- The row which an upsert returns is registered under the number's hash. -/
theorem upserted_extends {phoneHash : String} {phoneE164 : Option String} {user : User}
    (hkeyed : Keyed d) (hupsert : upsertUser phoneHash phoneE164 d = (user, d')) :
    Extends d d' ∧ Keyed d' ∧ d'.syncQueue = d.syncQueue ∧
      Registered d'.users user.id phoneHash := by
  have hkept := kept_upsertUser d phoneHash phoneE164
  have hhash := upsertUser_phoneHash d phoneHash phoneE164
  have hnodup := nodup_upsertUser hkeyed.users phoneHash phoneE164
  rw [hupsert] at hkept hhash hnodup
  obtain ⟨hmem, _, users, rfl⟩ := upsertUser_ok hupsert
  refine ⟨⟨⟨hkept, fun _ hj => hj⟩, fun m hm => ⟨m, hm, rfl, rfl, rfl⟩⟩, ?_, rfl, ?_⟩
  · exact ⟨⟨hkeyed.jobs, hkeyed.messages, hnodup⟩, hkeyed.messageSids⟩
  · exact ⟨user, hmem, rfl, hhash⟩

theorem aligned_change {r : DeliveryRaces.State} (h : Aligned cfg s)
    (hchange : DeliveryRaces.Change cfg requests s.races i r) :
    Aligned cfg { s with races := r } ∧ Extends s.database r.database := by
  cases hchange with
  | @aside p d hp hd =>
      have hshows : Shows s.database d := by
        obtain ⟨limits, logs, _, rfl⟩ := hd
        exact ⟨rfl, rfl, rfl⟩
      have hqueue : d.syncQueue = s.database.syncQueue := by
        obtain ⟨limits, logs, _, rfl⟩ := hd
        rfl
      have hext := Extends.of_shows hshows
      refine ⟨h.move hext (h.keyed.of_shows hshows) hqueue rfl (fun inbound hi => ?_)
        (fun inbound hi => ?_), hext⟩
      · exact (h.senders i inbound (hp.inbound inbound hi)).kept hext.users
      · -- a delivery which only passes on has stored nothing
        have hstarting := hp.starting
        rw [hi] at hstarting
        cases hstarting
  | @upserted payload user d hphase hupsert =>
      obtain ⟨hext, hkeyed, hqueue, hregistered⟩ := upserted_extends h.keyed hupsert
      refine ⟨h.move hext hkeyed hqueue rfl (fun inbound hi => ?_) (fun _ hi => by cases hi), hext⟩
      cases hi
      exact hregistered
  | @inserted inbound hphase =>
      refine ⟨h.move (.refl _) h.keyed rfl rfl (fun inbound hi => ?_) (fun _ hi => by cases hi),
        .refl _⟩
      apply h.senders i inbound
      rw [hphase]
      exact hi
  | @stored inbound message d hphase hstore =>
      have hsender := h.senders i inbound (by rw [hphase]; rfl)
      obtain ⟨hext, hkeyed, hqueue, hsent⟩ := stored_extends h.keyed hstore hsender
      refine ⟨h.move hext hkeyed hqueue rfl (fun inbound' hi => ?_) (fun inbound' hi => ?_), hext⟩
      · cases hi
        exact hsender.kept hext.users
      · cases hi
        exact hsent
  | dropped => exact ⟨h.move (.refl _) h.keyed rfl rfl (fun _ hi => by cases hi)
      fun _ hi => (by cases hi), .refl _⟩
  | started => exact ⟨h.move (.refl _) h.keyed rfl rfl (fun _ hi => by cases hi)
      fun _ hi => (by cases hi), .refl _⟩

/-- A workflow is started with the number of its message's sender. -/
theorem sentFrom_of_startedWorkflow {a : DeliveryRaces.Action} {input : ProcessMessageInput}
    (h : Aligned cfg s) (hstarted : startedWorkflow s.races a = some input) :
    SentFrom cfg.hmac s.database input.messageSid input.fromNumber := by
  unfold startedWorkflow at hstarted
  split at hstarted
  case h_3 => cases hstarted
  case h_4 => cases hstarted
  all_goals
    split at hstarted
    · rename_i inbound hphase
      cases hstarted
      exact h.stored _ inbound hphase
    · cases hstarted

theorem aligned_deliver {a : DeliveryRaces.Action} {r : DeliveryRaces.State} (h : Aligned cfg s)
    (hstep : DeliveryRaces.step cfg requests s.races a = some r) :
    Aligned cfg { s with
      races := r
      workflows := s.workflows ++ (startedWorkflow s.races a).toList } ∧
      Extends s.database r.database := by
  obtain ⟨i, hchange⟩ := DeliveryRaces.step_cases hstep
  obtain ⟨hr, hext⟩ := aligned_change h hchange
  refine ⟨{ hr with workflows := fun input hinput => ?_ }, hext⟩
  rcases List.mem_append.mp hinput with hinput | hinput
  · exact hr.workflows input hinput
  · exact (sentFrom_of_startedWorkflow h (Option.mem_toList.mp hinput)).extend hext

theorem aligned_process {searcher : JobEmbeddingSearcher} {input : ProcessMessageInput}
    {r : Except AppStop (List PostCommitAction)} {w : AppWorld} (attempt : Attempt)
    (h : Aligned cfg s) (hinput : input ∈ s.workflows)
    (hrun : (commitMessage cfg.hmac (production fromisoformat searcher) attempt.gpt input).run
      (.opened s.database attempt.faults) = (r, w)) :
    Aligned cfg { s.withDatabase w.store.committed with
      registered := s.registered ++ r.toOption.getD [] } ∧
      Extends s.database w.store.committed := by
  have hsent := h.workflows input hinput
  cases r with
  | error e =>
      have hgrows : Grows s.database w.store.committed :=
        (commitMessage_triple h.keyed hsent).error ⟨rfl, rfl⟩ hrun
      have hall := h.extend hgrows.extends_found hgrows.keyed fun e he =>
        h.queued e (hgrows.queue ▸ he)
      refine ⟨?_, hgrows.extends_found⟩
      simpa [Except.toOption, State.withDatabase] using hall
  | ok actions =>
      obtain ⟨hgrows, hcaptured⟩ := (commitMessage_triple h.keyed hsent).ok ⟨rfl, rfl⟩ hrun
      have hall := h.extend hgrows.extends_found hgrows.keyed fun e he =>
        h.queued e (hgrows.queue ▸ he)
      refine ⟨{ hall with registered := fun jobId description phoneHash hmem => ?_ },
        hgrows.extends_found⟩
      rcases List.mem_append.mp hmem with hmem | hmem
      · exact hall.registered jobId description phoneHash hmem
      · exact hcaptured jobId description phoneHash hmem

theorem aligned_await {action : ℕ} {a : PostCommitAction} (faults : List (Option AppFault))
    (h : Aligned cfg s) (ha : a ∈ s.registered) :
    Aligned cfg { s.withDatabase ((runAction a).run (.opened s.database faults)).2.store.committed
      with
        registered := s.registered.eraseIdx action
        awaited := s.awaited ++
          ranActions ((runAction a).run (.opened s.database faults)).2.store.log } ∧
      Extends s.database ((runAction a).run (.opened s.database faults)).2.store.committed := by
  let ok (jobId : ℕ) : Prop := ∃ description phoneHash,
    .upsertEmbedding jobId description phoneHash ∈ s.awaited ++ [a]
  have hqueue : ∀ e ∈ s.database.syncQueue, ok e.jobId := by
    intro e he
    obtain ⟨description, phoneHash, hdirect⟩ := h.queued e he
    exact ⟨description, phoneHash, List.mem_append_left _ (State.direct_iff.mp hdirect)⟩
  have hfound : Queues ok s.database s.database := ⟨_, rfl, hqueue⟩
  have htriple : Triple (fun s' => Holds (Queues ok s.database) s' ∧ s'.log = []) (runAction a)
      (fun _ s' => Holds (Queues ok s.database) s' ∧ ranActions s'.log = [a])
      (fun _ s' => Holds (Queues ok s.database) s' ∧ ranActions s'.log = [a]) := by
    apply runAction_queues
    rintro jobId description phoneHash rfl
    exact ⟨description, phoneHash, List.mem_append_right _ (List.mem_singleton_self _)⟩
  obtain ⟨⟨hcommitted, _⟩, hran⟩ := htriple.store (w := .opened s.database faults)
    ⟨⟨hfound, hfound⟩, rfl⟩
  have hext := Extends.of_shows hcommitted.shows
  rw [hran]
  refine ⟨⟨h.keyed.of_shows hcommitted.shows, fun i inbound hi => ?_, fun i inbound hi => ?_,
    fun input hinput => ?_, fun jobId description phoneHash hmem => ?_,
    fun jobId description phoneHash hdirect => ?_, fun e he => ?_, fun v hv => ?_⟩, hext⟩
  · exact (h.senders i inbound hi).kept hext.users
  · exact (h.stored i inbound hi).extend hext
  · exact (h.workflows input hinput).extend hext
  · exact (h.registered _ _ _ (List.mem_of_mem_eraseIdx hmem)).extend hext
  · rcases List.mem_append.mp (State.direct_iff.mp hdirect) with hmem | hmem
    · exact (h.direct _ _ _ (State.direct_iff.mpr hmem)).extend hext
    · rw [← List.mem_singleton.mp hmem] at ha
      exact (h.registered _ _ _ ha).extend hext
  · obtain ⟨description, phoneHash, hmem⟩ := hcommitted.queue e he
    exact ⟨description, phoneHash, State.direct_iff.mpr hmem⟩
  · exact State.direct_iff.mpr (List.mem_append_left _ (State.direct_iff.mp (h.swept v hv)))

/-- The row which a sweep claims holds the document of the direct call. -/
theorem Aligned.claimed (h : Aligned cfg s) {locked : ℕ → Bool} {limit : ℕ}
    {p : PendingJobEmbedding} (hp : p ∈ claimPending s.database locked limit) :
    ∃ description, p.description = some description ∧
      s.Direct p.entry.jobId description p.phoneHash := by
  obtain ⟨⟨hmem, _⟩, hjoin⟩ := mem_claimPending hp
  obtain ⟨description, phoneHash, hdirect⟩ := h.queued p.entry hmem
  have heq := (h.direct _ _ _ hdirect).eq_of_mem h.keyed hjoin
  refine ⟨description, by rw [heq], ?_⟩
  rwa [show p.phoneHash = phoneHash by rw [heq]]

theorem aligned_sweep {locked : ℕ → Bool} (str : InfraError → String)
    (faults : List (Option AppFault)) (h : Aligned cfg s) :
    Aligned cfg { s.withDatabase ((syncPineconeQueueActivity locked str).run
        (.opened s.database faults)).2.store.committed with
      swept := s.swept ++ written ((syncPineconeQueueActivity locked str).run
        (.opened s.database faults)).2.store.log } ∧
      Extends s.database ((syncPineconeQueueActivity locked str).run
        (.opened s.database faults)).2.store.committed := by
  let ok (jobId : ℕ) : Prop := ∃ description phoneHash, s.Direct jobId description phoneHash
  have htriple : Triple (· = ⟨s.database, s.database, []⟩) (syncPineconeQueueActivity locked str)
      (fun _ => Sweeping ok s.Direct s.database) (fun _ => Sweeping ok s.Direct s.database) := by
    refine sync_sweeping str h.queued fun p hp description hdescription => ?_
    obtain ⟨description', hsome, hdirect⟩ := h.claimed hp
    obtain rfl : description' = description := Option.some.inj (hsome.symm.trans hdescription)
    exact hdirect
  obtain ⟨⟨hcommitted, _⟩, hmade⟩ := htriple.store (w := .opened s.database faults) rfl
  have hext := Extends.of_shows hcommitted.shows
  have hall := h.extend hext (h.keyed.of_shows hcommitted.shows) hcommitted.queue
  refine ⟨{ hall with swept := fun v hv => ?_ }, hext⟩
  rcases List.mem_append.mp hv with hv | hv
  · exact h.swept v hv
  · exact hmade v hv

theorem aligned_step {a : Action} (h : Aligned cfg s)
    (hstep : step cfg fromisoformat requests s a = some t) :
    Aligned cfg t ∧ Extends s.database t.database := by
  cases a with
  | deliver a =>
      obtain ⟨r, hr, rfl⟩ := Option.map_eq_some_iff.mp hstep
      exact aligned_deliver h hr
  | process searcher workflow attempt =>
      obtain ⟨input, hinput, rfl⟩ := Option.map_eq_some_iff.mp hstep
      exact aligned_process attempt h (List.mem_of_getElem? hinput) rfl
  | await action faults =>
      obtain ⟨a, ha, rfl⟩ := Option.map_eq_some_iff.mp hstep
      exact aligned_await faults h (List.mem_of_getElem? ha)
  | sweep locked str faults =>
      cases hstep
      exact aligned_sweep str faults h

theorem aligned_run (h : Aligned cfg s)
    (hrun : exec (step cfg fromisoformat requests) s run = some t) :
    Aligned cfg t ∧ Extends s.database t.database := by
  induction run generalizing s with
  | nil =>
      cases hrun
      exact ⟨h, .refl _⟩
  | cons a run ih =>
      obtain ⟨m, hm, hrun⟩ := Option.bind_eq_some_iff.mp hrun
      obtain ⟨hmid, hext⟩ := aligned_step h hm
      obtain ⟨ht, hext'⟩ := ih hmid hrun
      exact ⟨ht, hext.trans hext'⟩

/-- A sweep makes an embedding from what the direct call of its job has made it from: the
job of a claimed row has had a direct call, and every direct call of that job, then or
later, carries the description and the hash of the row. -/
theorem same_document {before after : List Action} (hkeyed : Keyed d) (hqueue : d.syncQueue = [])
    (hbefore : exec (step cfg fromisoformat requests) (initial d) before = some s)
    (hafter : exec (step cfg fromisoformat requests) s after = some t) :
    (∀ locked limit, ∀ p ∈ claimPending s.database locked limit, ∃ description,
      writeRow p = writeJobEmbedding p.entry.jobId description p.phoneHash ∧
        s.Direct p.entry.jobId description p.phoneHash ∧
          ∀ description' phoneHash', t.Direct p.entry.jobId description' phoneHash' →
            description' = description ∧ phoneHash' = p.phoneHash) ∧
    ∀ jobId description phoneHash, (jobId, description, phoneHash) ∈ s.swept →
      s.Direct jobId description phoneHash ∧
        ∀ description' phoneHash', t.Direct jobId description' phoneHash' →
          description' = description ∧ phoneHash' = phoneHash := by
  have hs := (aligned_run (aligned_initial hkeyed hqueue) hbefore).1
  obtain ⟨ht, hext⟩ := aligned_run hs hafter
  have hunique {jobId : ℕ} {description phoneHash description' phoneHash' : String}
      (h : s.Direct jobId description phoneHash) (h' : t.Direct jobId description' phoneHash') :
      description' = description ∧ phoneHash' = phoneHash :=
    ((hs.direct _ _ _ h).extend hext).unique ht.keyed (ht.direct _ _ _ h')
  constructor
  · intro locked limit p hp
    obtain ⟨description, hsome, hdirect⟩ := hs.claimed hp
    refine ⟨description, ?_, hdirect, fun description' phoneHash' h => hunique hdirect h⟩
    simp only [writeRow, hsome]
  · intro jobId description phoneHash hv
    have hdirect : s.Direct jobId description phoneHash := hs.swept _ hv
    exact ⟨hdirect, fun description' phoneHash' h => hunique hdirect h⟩

end

/-- A job is texted and processed, its upsert is refused, and a sweep makes up for it. -/
def refusedThenSwept : List Action :=
  (List.replicate 8 (.advance 0)).map .deliver ++
    [.process none 0 ⟨answersJob, []⟩, .await 0 [some (.refuses (.unavailable "pinecone"))],
      .sweep (fun _ => false) (fun _ => "") []]

theorem same_document_swept :
    ∃ s, exec (step (unsignedConfig 5 60) (fun _ => none) DeliveryRaces.deliveredTwice)
        (initial .empty) refusedThenSwept = some s ∧
      s.swept = [(1, "Mow", "+1")] ∧ s.Direct 1 "Mow" "+1" := by
  have hswept : (exec (step (unsignedConfig 5 60) (fun _ => none) DeliveryRaces.deliveredTwice)
      (initial .empty) refusedThenSwept).map State.swept = some [(1, "Mow", "+1")] := by
    decide +kernel
  obtain ⟨s, hrun, hswept⟩ := Option.map_eq_some_iff.mp hswept
  have hkeyed : Keyed .empty :=
    ⟨⟨List.nodup_nil, List.nodup_nil, List.nodup_nil⟩, List.nodup_nil⟩
  refine ⟨s, hrun, hswept, ?_⟩
  have hmem : (1, "Mow", "+1") ∈ s.swept := by rw [hswept]; exact List.mem_singleton_self _
  have hnone : exec (step (unsignedConfig 5 60) (fun _ => none) DeliveryRaces.deliveredTwice) s [] =
      some s := rfl
  exact ((same_document hkeyed rfl hrun hnone).2 _ _ _ hmem).1

end Vici.EmbeddingDocuments
