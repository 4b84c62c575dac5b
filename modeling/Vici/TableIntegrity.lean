import Vici.ServiceRuns

/-!
# Keys and histories of the tables

The constraints of the schema hold in every state of the service: a unique key
has one row, and a foreign key leads to a row, however the steps interleave and
wherever they are stopped. And but for the limiter's rows no row is ever taken
back: a step adds rows, gives a user a missing number, a message a classification
in the place of an earlier one, and a pending entry of the queue its outcome.
-/
namespace Vici.TableIntegrity
open Models AppPrograms SessionPrograms SmsRepositories RowCreation Webhook SyncQueueRepository
open ActionRuns KeyedRows DeliveryFootprints RateLimitPurge PersistedMatches MatchService
open ServiceRuns
open PosterPhones (nodup_upsertUser nodup_phoneHash_upsertUser kept_upsertUser backfillPhone_id
  backfillPhone_phoneHash backfillPhone_keeps)

structure Intact (d : Database) : Prop where
  userIds : (d.users.map User.id).Nodup
  phoneHashes : (d.users.map User.phoneHash).Nodup
  messageIds : (d.messages.map Message.id).Nodup
  messageSids : (sids d).Nodup
  senders : Refers Message.userId (d.users.map User.id) d.messages
  limitIds : (d.rateLimits.map RateLimit.id).Nodup
  limitUsers : Refers RateLimit.userId (d.users.map User.id) d.rateLimits
  auditIds : (d.auditLogs.map AuditLog.id).Nodup
  auditMessages : ∀ row ∈ d.auditLogs, ∀ i ∈ row.messageId, i ∈ d.messages.map Message.id
  jobIds : (d.jobs.map Job.id).Nodup
  jobMessageIds : (d.jobs.map Job.messageId).Nodup
  jobMessages : Refers Job.messageId (d.messages.map Message.id) d.jobs
  goalIds : (d.workGoals.map WorkGoal.id).Nodup
  goalMessageIds : (d.workGoals.map WorkGoal.messageId).Nodup
  goalMessages : Refers WorkGoal.messageId (d.messages.map Message.id) d.workGoals
  matchIds : (d.matchRows.map Match.id).Nodup
  matchPairs : (d.matchRows.map pair).Nodup
  matchJobs : Refers Match.jobId (d.jobs.map Job.id) d.matchRows
  matchGoals : Refers Match.workGoalId (d.workGoals.map WorkGoal.id) d.matchRows
  queueIds : (d.syncQueue.map PineconeSyncQueue.id).Nodup
  queueJobs : Refers PineconeSyncQueue.jobId (d.jobs.map Job.id) d.syncQueue

theorem intact_empty : Intact .empty := by
  constructor <;> simp [Database.empty, Refers, sids]

section
variable {hmac : String → String} {d d' : Database}

theorem Intact.audited {messageSid : String} {event : AuditEvent} {messageId : Option ℕ}
    (h : Intact d) (hknown : ∀ i ∈ messageId, i ∈ d.messages.map Message.id) :
    Intact (audited messageSid event messageId d) :=
  { h with
    auditIds := nodup_map_concat h.auditIds (nextId_notMem _)
    auditMessages := by
      intro row hrow
      rcases List.mem_append.mp hrow with hrow | hrow
      · exact h.auditMessages row hrow
      · rw [List.mem_singleton.mp hrow]
        exact hknown }

theorem Intact.classified (h : Intact d) (messageId : ℕ) (t : MessageType) (raw : String) :
    Intact (classified messageId t raw d) := by
  have hids : (ServiceRuns.classified messageId t raw d).messages.map Message.id =
      d.messages.map Message.id :=
    map_id_classifyRow _ _ _ _
  refine { h with messageIds := ?_, messageSids := ?_, senders := ?_, auditMessages := ?_,
                  jobMessages := ?_, goalMessages := ?_ }
  · rw [hids]
    exact h.messageIds
  · rw [sids, ServiceRuns.classified, map_messageSid_classifyRow]
    exact h.messageSids
  · intro m hm
    obtain ⟨n, hn, rfl⟩ := List.mem_map.mp hm
    rw [classifyRow_userId]
    exact h.senders n hn
  · rw [hids]
    exact h.auditMessages
  · rw [hids]
    exact h.jobMessages
  · rw [hids]
    exact h.goalMessages

theorem Intact.counted {userId : ℕ} {now : ℤ} (h : Intact d)
    (hok : insertRateLimit userId now d = .ok ((), d')) : Intact d' := by
  unfold insertRateLimit at hok
  split_ifs at hok with hknown
  cases hok
  refine { h with
    limitIds := nodup_map_concat h.limitIds (nextId_notMem _)
    limitUsers := h.limitUsers.concat ?_ }
  simpa using hknown

theorem Intact.upserted {phoneHash : String} {phoneE164 : Option String} {user : User}
    (h : Intact d) (hok : upsertUser phoneHash phoneE164 d = (user, d')) : Intact d' := by
  have hids := nodup_upsertUser h.userIds phoneHash phoneE164
  have hhashes := nodup_phoneHash_upsertUser h.phoneHashes phoneHash phoneE164
  have hkept := kept_upsertUser d phoneHash phoneE164
  rw [hok] at hids hhashes hkept
  obtain ⟨_, _, users, rfl⟩ := upsertUser_ok hok
  have hsub : d.users.map User.id ⊆ users.map User.id := by
    intro i hi
    obtain ⟨u, hu, rfl⟩ := List.mem_map.mp hi
    obtain ⟨v, hv, hid, _⟩ := hkept u hu
    exact hid ▸ List.mem_map_of_mem hv
  exact { h with
    userIds := hids
    phoneHashes := hhashes
    senders := h.senders.mono hsub
    limitUsers := h.limitUsers.mono hsub }

theorem Intact.stored {inbound : InboundSms} {message : Message} (h : Intact d)
    (hok : storeMessage inbound d = .ok (message, d')) : Intact d' := by
  obtain ⟨d₁, hinsert, haudit⟩ := storeMessage_parts hok
  have huser := insertMessage_user hinsert
  obtain ⟨hfresh, hsid, hsender, _, hid, rfl⟩ := insertMessage_ok hinsert
  have hsub : d.messages.map Message.id ⊆ (d.messages ++ [message]).map Message.id :=
    List.map_subset _ (List.subset_append_left _ _)
  have hadded : Intact { d with messages := d.messages ++ [message] } :=
    { h with
      messageIds := nodup_map_concat h.messageIds (hid ▸ nextId_notMem _)
      messageSids := nodup_map_concat h.messageSids (by simpa [hsid] using hfresh)
      senders := h.senders.concat (hsender ▸ huser)
      auditMessages := fun row hrow i hi => hsub (h.auditMessages row hrow i hi)
      jobMessages := h.jobMessages.mono hsub
      goalMessages := h.goalMessages.mono hsub }
  rw [insertAudit_eq_audited haudit]
  refine hadded.audited fun i hi => ?_
  cases hi
  exact List.mem_map_of_mem (List.mem_append_right _ (List.mem_singleton_self _))

theorem Intact.insertedJob {create : JobCreate} {job : Job} (h : Intact d)
    (hok : insertJob create d = .ok (job, d')) : Intact d' := by
  have hid := insertJob_id hok
  have hmessage := insertJob_message hok
  obtain ⟨hnew, hof, rfl⟩ := insertJob_ok hok
  have hsub : d.jobs.map Job.id ⊆ (d.jobs ++ [job]).map Job.id :=
    List.map_subset _ (List.subset_append_left _ _)
  exact { h with
    jobIds := nodup_map_concat h.jobIds hid
    jobMessageIds := nodup_map_concat h.jobMessageIds (by simpa [hof] using hnew)
    jobMessages := h.jobMessages.concat (hof ▸ hmessage)
    matchJobs := h.matchJobs.mono hsub
    queueJobs := h.queueJobs.mono hsub }

theorem Intact.insertedWorkGoal {create : WorkGoalCreate} {goal : WorkGoal} (h : Intact d)
    (hok : insertWorkGoal create d = .ok (goal, d')) : Intact d' := by
  have hid := insertWorkGoal_id hok
  have hmessage := insertWorkGoal_message hok
  obtain ⟨hnew, hof, rfl⟩ := insertWorkGoal_ok hok
  have hsub : d.workGoals.map WorkGoal.id ⊆ (d.workGoals ++ [goal]).map WorkGoal.id :=
    List.map_subset _ (List.subset_append_left _ _)
  exact { h with
    goalIds := nodup_map_concat h.goalIds hid
    goalMessageIds := nodup_map_concat h.goalMessageIds (by simpa [hof] using hnew)
    goalMessages := h.goalMessages.concat (hof ▸ hmessage)
    matchGoals := h.matchGoals.mono hsub }

theorem Intact.matched {jobIds : List ℕ} {workGoalId : ℕ} (h : Intact d)
    (hjobs : ∀ j ∈ jobIds, j ∈ d.jobs.map Job.id)
    (hgoal : workGoalId ∈ d.workGoals.map WorkGoal.id) :
    Intact { d with matchRows := united jobIds workGoalId d.matchRows } := by
  refine { h with
    matchIds := ?_
    matchPairs := nodup_map_addAllAbsent pair_newMatch h.matchPairs
    matchJobs := ?_
    matchGoals := ?_ }
  · exact addAllAbsent_invariant (P := fun rows => (rows.map Match.id).Nodup)
      (fun rows p _ hrows => nodup_map_concat hrows (nextId_notMem _)) h.matchIds
  · refine addAllAbsent_invariant (P := Refers Match.jobId (d.jobs.map Job.id))
      (fun rows p hp hrows => hrows.concat ?_) h.matchJobs
    obtain ⟨j, hj, rfl⟩ := List.mem_map.mp hp
    exact hjobs j hj
  · refine addAllAbsent_invariant (P := Refers Match.workGoalId (d.workGoals.map WorkGoal.id))
      (fun rows p hp hrows => hrows.concat ?_) h.matchGoals
    obtain ⟨j, hj, rfl⟩ := List.mem_map.mp hp
    exact hgoal

theorem Intact.queued {jobId : ℕ} {entry : PineconeSyncQueue} (h : Intact d)
    (hok : insertEntry jobId d = .ok (entry, d')) : Intact d' := by
  have hjob := insertEntry_job hok
  obtain ⟨rfl, rfl⟩ := insertEntry_ok hok
  exact { h with
    queueIds := nodup_map_concat h.queueIds (nextId_notMem _)
    queueJobs := h.queueJobs.concat hjob }

theorem Intact.marked (h : Intact d) (hmarks : Marks d d') : Intact d' := by
  obtain ⟨rows, rfl, hrows⟩ := hmarks
  have hids := map_eq_of_forall₂ (f := PineconeSyncQueue.id) Marked.id_eq hrows
  have hjobs := map_eq_of_forall₂ (f := PineconeSyncQueue.jobId) Marked.jobId_eq hrows
  refine { h with queueIds := ?_, queueJobs := ?_ }
  · rw [hids]
    exact h.queueIds
  · rw [refers_iff, hjobs]
    exact refers_iff.mp h.queueJobs

theorem Intact.purged (h : Intact d) (now : ℤ) :
    Intact { d with rateLimits := keptAt now d.rateLimits } :=
  { h with
    limitIds := (List.filter_sublist.map _).nodup h.limitIds
    limitUsers := fun row hrow => h.limitUsers row (List.mem_of_mem_filter hrow) }

theorem Intact.committed {searcher : JobEmbeddingSearcher} {input : Attempts.ProcessMessageInput}
    {faults : List (Option AppFault)} {actions : List PostCommitAction} (h : Intact d)
    (hcommits : Commits hmac searcher input faults d d' actions) : Intact d' := by
  have hnoted {m : Message} (hfound : Found input d m) :
      Intact (DeliveryFootprints.audited input.messageSid .gptClassified (some m.id) d) := by
    refine h.audited fun i hi => ?_
    cases hi
    exact List.mem_map_of_mem (List.mem_of_find?_eq_some hfound)
  have hknown {m : Message} (hfound : Found input d m) :
      ∀ i ∈ some m.id, i ∈ d.messages.map Message.id := by
    rintro i ⟨⟩
    exact List.mem_map_of_mem (List.mem_of_find?_eq_some hfound)
  cases hcommits with
  | unknown hfound => exact (hnoted hfound).classified _ _ _
  | jobPosting hfound _ hinsert =>
      have hjob := (hnoted hfound).insertedJob hinsert
      obtain ⟨_, _, rfl⟩ := insertJob_ok hinsert
      exact (hjob.audited (hknown hfound)).classified _ _ _
  | workGoal hfound _ hinsert hsession hmatch hkept =>
      have hgoal := (hnoted hfound).insertedWorkGoal hinsert
      obtain ⟨_, _, rfl⟩ := insertWorkGoal_ok hinsert
      have hnoted' := @Intact.audited _ input.messageSid .workGoalCreated _ hgoal (hknown hfound)
      refine (hnoted'.matched (fun j hj => ?_) ?_).classified _ _ _
      · obtain ⟨c, hc, rfl⟩ := List.mem_map.mp (hkept.subset hj)
        have hmem := RecordedOffers.job_mem_of_match hmatch hc
        rw [hsession] at hmem
        exact List.mem_map_of_mem hmem
      · exact List.mem_map_of_mem (List.mem_append_right _ (List.mem_singleton_self _))

theorem Intact.writes (h : Intact d) (hwrites : Writes hmac d d') : Intact d' := by
  cases hwrites with
  | kept => exact h
  | rejected => exact h.audited fun _ hi => by cases hi
  | counted hok => exact h.counted hok
  | upserted hok => exact h.upserted hok
  | stored hok => exact h.stored hok
  | committed hcommits => exact h.committed hcommits
  | queued hok => exact h.queued hok
  | marked hmarks => exact h.marked hmarks
  | purged => exact h.purged _

end

/-- A user keeps the key, the hash and a number which is stored. -/
def Enriched (u v : User) : Prop :=
  v.id = u.id ∧ v.phoneHash = u.phoneHash ∧ ∀ phone ∈ u.phoneE164, v.phoneE164 = some phone

/-- A message changes in its classification only: the type and the raw answer of GPT. A later
one may overwrite these, but nothing empties them. -/
def Retyped (m n : Message) : Prop :=
  n = { m with messageType := n.messageType, rawGptResponse := n.rawGptResponse } ∧
    (m.messageType.isSome → n.messageType.isSome) ∧
      (m.rawGptResponse.isSome → n.rawGptResponse.isSome)

/-- The one database has become the other. -/
structure Follows (d d' : Database) : Prop where
  users : Evolves Enriched d.users d'.users
  messages : Evolves Retyped d.messages d'.messages
  auditLogs : d.auditLogs <+: d'.auditLogs
  jobs : d.jobs <+: d'.jobs
  workGoals : d.workGoals <+: d'.workGoals
  matchRows : d.matchRows <+: d'.matchRows
  syncQueue : Evolves Marked d.syncQueue d'.syncQueue

section
variable {hmac : String → String} {d d' d'' : Database}

theorem Enriched.refl (u : User) : Enriched u u := ⟨rfl, rfl, fun _ hphone => hphone⟩

theorem Enriched.trans {u v w : User} (h : Enriched u v) (h' : Enriched v w) : Enriched u w := by
  refine ⟨h'.1.trans h.1, h'.2.1.trans h.2.1, ?_⟩
  intro phone hphone
  exact h'.2.2 phone (h.2.2 phone hphone)

theorem Retyped.refl (m : Message) : Retyped m m := ⟨rfl, fun h => h, fun h => h⟩

theorem Retyped.trans {m n k : Message} (h : Retyped m n) (h' : Retyped n k) : Retyped m k := by
  obtain ⟨hn, htype, hraw⟩ := h
  obtain ⟨hk, htype', hraw'⟩ := h'
  refine ⟨?_, fun hm => htype' (htype hm), fun hm => hraw' (hraw hm)⟩
  rw [hk, hn]

theorem Marked.refl (e : PineconeSyncQueue) : Marked e e := .inl rfl

/-- An entry which is marked is not pending any longer. -/
theorem Marked.trans {e f g : PineconeSyncQueue} (h : Marked e f) (h' : Marked f g) :
    Marked e g := by
  rcases h with rfl | ⟨hpending, hmark⟩
  · exact h'
  · rcases h' with rfl | ⟨hpending', _⟩
    · exact .inr ⟨hpending, hmark⟩
    · rcases hmark with rfl | ⟨_, rfl⟩ <;> cases hpending'

theorem Follows.refl (d : Database) : Follows d d :=
  ⟨.refl Enriched.refl _, .refl Retyped.refl _, List.prefix_rfl, List.prefix_rfl, List.prefix_rfl,
    List.prefix_rfl, .refl Marked.refl _⟩

theorem Follows.trans (h : Follows d d') (h' : Follows d' d'') : Follows d d'' where
  users := h.users.trans Enriched.trans h'.users
  messages := h.messages.trans Retyped.trans h'.messages
  auditLogs := h.auditLogs.trans h'.auditLogs
  jobs := h.jobs.trans h'.jobs
  workGoals := h.workGoals.trans h'.workGoals
  matchRows := h.matchRows.trans h'.matchRows
  syncQueue := h.syncQueue.trans Marked.trans h'.syncQueue

theorem follows_audited (messageSid : String) (event : AuditEvent) (messageId : Option ℕ)
    (d : Database) : Follows d (audited messageSid event messageId d) :=
  { Follows.refl d with auditLogs := List.prefix_append _ _ }

theorem retyped_classifyRow (messageId : ℕ) (t : MessageType) (raw : String) (m : Message) :
    Retyped m (classifyRow messageId t raw m) := by
  unfold classifyRow
  split_ifs
  · exact ⟨rfl, fun _ => rfl, fun _ => rfl⟩
  · exact .refl m

theorem evolves_classified (messageId : ℕ) (t : MessageType) (raw : String)
    (messages : List Message) :
    Evolves Retyped messages (messages.map (classifyRow messageId t raw)) :=
  .map fun m _ => retyped_classifyRow messageId t raw m

theorem evolves_upserted (phoneHash : String) (phoneE164 : Option String) (d : Database) :
    Evolves Enriched d.users (upsertUser phoneHash phoneE164 d).2.users := by
  unfold upsertUser
  split
  · exact .map fun u _ => ⟨backfillPhone_id _ _ u, backfillPhone_phoneHash _ _ u,
      fun _ hphone => backfillPhone_keeps _ _ hphone⟩
  · exact .append Enriched.refl _ _

theorem follows_of_commits {searcher : JobEmbeddingSearcher}
    {input : Attempts.ProcessMessageInput}
    {faults : List (Option AppFault)} {actions : List PostCommitAction}
    (h : Commits hmac searcher input faults d d' actions) : Follows d d' := by
  cases h with
  | unknown =>
      exact { follows_audited _ _ _ d with messages := evolves_classified _ _ _ _ }
  | jobPosting _ _ hinsert =>
      obtain ⟨_, _, rfl⟩ := insertJob_ok hinsert
      exact { Follows.refl d with
        messages := evolves_classified _ _ _ _
        auditLogs := (List.prefix_append _ _).trans (List.prefix_append _ _)
        jobs := List.prefix_append _ _ }
  | workGoal _ _ hinsert =>
      obtain ⟨_, _, rfl⟩ := insertWorkGoal_ok hinsert
      exact { Follows.refl d with
        messages := evolves_classified _ _ _ _
        auditLogs := (List.prefix_append _ _).trans (List.prefix_append _ _)
        workGoals := List.prefix_append _ _
        matchRows := prefix_addAllAbsent _ _ }

theorem follows_of_writes (h : Writes hmac d d') : Follows d d' := by
  cases h with
  | kept => exact .refl d
  | rejected => exact follows_audited _ _ _ d
  | counted hok =>
      obtain ⟨_, rfl⟩ := insertRateLimit_ok hok
      exact { Follows.refl d with }
  | @upserted _ phoneHash phoneE164 _ hok =>
      have husers := evolves_upserted phoneHash phoneE164 d
      rw [hok] at husers
      obtain ⟨_, _, users, rfl⟩ := upsertUser_ok hok
      exact { Follows.refl d with users := husers }
  | stored hok =>
      obtain ⟨_, _, _, _, rfl⟩ := storeMessage_ok hok
      exact { Follows.refl d with
        messages := .append Retyped.refl _ _
        auditLogs := List.prefix_append _ _ }
  | committed hcommits => exact follows_of_commits hcommits
  | queued hok =>
      obtain ⟨_, rfl⟩ := insertEntry_ok hok
      exact { Follows.refl d with syncQueue := .append Marked.refl _ _ }
  | marked hmarks =>
      obtain ⟨rows, rfl, hrows⟩ := hmarks
      exact { Follows.refl d with syncQueue := .of_forall₂ hrows }
  | purged => exact { Follows.refl d with }

end

/-- What the invariants of a run rest on. -/
structure Sane (s : State) : Prop where
  intact : Intact s.database
  seen : Seen s.base.races

section
variable {cfg : Config} {fromisoformat : String → Option Datetimes.Datetime}
variable {requests : ℕ → Request} {s t : State} {a : Action} {d : Database} {run : List Action}

theorem sane_initial (hd : Intact d) : Sane (initial d) := ⟨hd, seen_initial d⟩

theorem Sane.writes (hs : Sane s) (h : step cfg fromisoformat requests s a = some t) :
    Writes cfg.hmac s.database t.database := step_writes hs.seen hs.intact.queueIds h

theorem sane_step (hs : Sane s) (h : step cfg fromisoformat requests s a = some t) : Sane t :=
  ⟨hs.intact.writes (hs.writes h), seen_step hs.seen hs.intact.queueIds h⟩

/-- Along a run the tables stay sane and only go on. -/
theorem sane_run (hs : Sane s) (h : exec (step cfg fromisoformat requests) s run = some t) :
    Sane t ∧ Follows s.database t.database :=
  exec_related Sane (fun s t => Follows s.database t.database) (fun _ => .refl _) .trans
    (fun hs h => ⟨sane_step hs h, follows_of_writes (hs.writes h)⟩) hs h

/-- However the steps of the service interleave and wherever they are stopped, the tables
stay within the constraints of the schema, and nothing which was durable is taken back. -/
theorem intact_and_kept {before after : List Action} (hd : Intact d)
    (hbefore : exec (step cfg fromisoformat requests) (initial d) before = some s)
    (hafter : exec (step cfg fromisoformat requests) s after = some t) :
    Intact t.database ∧ Follows s.database t.database := by
  have hs := (sane_run (sane_initial hd) hbefore).1
  obtain ⟨ht, hfollows⟩ := sane_run hs hafter
  exact ⟨ht.intact, hfollows⟩

end

/-- A job is texted and processed, its upsert is refused, a sweep makes up for it, and the
limiter's row is purged. -/
def sweptAndPurged : List Action :=
  EmbeddingDocuments.refusedThenSwept.map .base ++ [.purge 7300000000 []]

theorem intact_and_kept_swept :
    ∃ s, exec (step (unsignedConfig 5 60) (fun _ => none) DeliveryRaces.deliveredTwice)
        (initial .empty) sweptAndPurged = some s ∧
      s.database.rateLimits = [] ∧ s.database.syncQueue.map PineconeSyncQueue.status = [.synced] ∧
      Intact s.database ∧ Follows .empty s.database := by
  have hrun : (exec (step (unsignedConfig 5 60) (fun _ => none) DeliveryRaces.deliveredTwice)
      (initial .empty) sweptAndPurged).map (fun s => (s.database.rateLimits,
        s.database.syncQueue.map PineconeSyncQueue.status)) = some ([], [.synced]) := by
    decide +kernel
  obtain ⟨s, hrun, hrows⟩ := Option.map_eq_some_iff.mp hrun
  obtain ⟨hlimits, hqueue⟩ := Prod.mk.inj hrows
  have hnone : exec (step (unsignedConfig 5 60) (fun _ => none) DeliveryRaces.deliveredTwice)
      (initial .empty) [] = some (initial .empty) := rfl
  exact ⟨s, hrun, hlimits, hqueue, intact_and_kept intact_empty hnone hrun⟩

end Vici.TableIntegrity
