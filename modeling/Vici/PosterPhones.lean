import Vici.DeliveryRaces
import Vici.Attempts
import Vici.OfferedJobs

/-!
# The phone number next to a job

Deliveries and pipeline runs share one database. A number enters it with the
upsert of a sender, under the hash of that number; a message points to its
sender, a job to its message, and a match joins the three tables to find the
number of a poster. No step tells these rows apart by anything but their keys,
so the chain from a job back to a delivery has to be kept as a whole. A run of
the pipeline is one step, taken where it commits.
-/
namespace Vici.PosterPhones
open Models Datetimes AppPrograms SessionPrograms SmsRepositories RowCreation Webhook
open JobRepository MatchSelection MatchService Handlers Orchestrator Attempts ActionRuns KeyedRows
open DeliveryFootprints DeliveryRaces CandidateRetrieval OfferedJobs MatchFormatter
open Program (Triple Keeps Holds)

/-- A user's number, where one is stored, is the number of the user's hash. -/
structure Owned (hmac : String → String) (users : List User) : Prop where
  keys : (users.map User.id).Nodup
  own : ∀ u ∈ users, ∃ number, u.phoneHash = hmac number ∧ ∀ phone ∈ u.phoneE164, phone = number

/-- No user is lost or given another hash, and a stored number stays as it is. -/
def Kept (users users' : List User) : Prop :=
  ∀ u ∈ users, ∃ v ∈ users', v.id = u.id ∧ v.phoneHash = u.phoneHash ∧
    ∀ phone ∈ u.phoneE164, v.phoneE164 = some phone

/-- The id belongs to the user of the hash. -/
def Registered (users : List User) (id : ℕ) (phoneHash : String) : Prop :=
  ∃ u ∈ users, u.id = id ∧ u.phoneHash = phoneHash

section
variable {hmac : String → String} {users users' users'' : List User} {d d' : Database}
variable {number phoneHash : String} {u : User} {id : ℕ}

theorem Kept.refl (users : List User) : Kept users users :=
  fun u hu => ⟨u, hu, rfl, rfl, fun _ hphone => hphone⟩

theorem Kept.trans (h : Kept users users') (h' : Kept users' users'') : Kept users users'' := by
  intro u hu
  obtain ⟨v, hv, hid, hhash, hphone⟩ := h u hu
  obtain ⟨w, hw, hid', hhash', hphone'⟩ := h' v hv
  refine ⟨w, hw, hid'.trans hid, hhash'.trans hhash, ?_⟩
  intro phone hmem
  exact hphone' phone (hphone phone hmem)

theorem Registered.kept (h : Registered users id phoneHash) (hkept : Kept users users') :
    Registered users' id phoneHash := by
  obtain ⟨u, hu, rfl, rfl⟩ := h
  obtain ⟨v, hv, hid, hhash, _⟩ := hkept u hu
  exact ⟨v, hv, hid, hhash⟩

theorem backfillPhone_id (phoneHash : String) (phoneE164 : Option String) (u : User) :
    (backfillPhone phoneHash phoneE164 u).id = u.id := by
  unfold backfillPhone
  split_ifs <;> rfl

theorem backfillPhone_phoneHash (phoneHash : String) (phoneE164 : Option String) (u : User) :
    (backfillPhone phoneHash phoneE164 u).phoneHash = u.phoneHash := by
  unfold backfillPhone
  split_ifs <;> rfl

/-- `COALESCE` with the stored number first. -/
theorem backfillPhone_keeps (phoneHash : String) (phoneE164 : Option String) {phone : String}
    (h : phone ∈ u.phoneE164) : (backfillPhone phoneHash phoneE164 u).phoneE164 = some phone := by
  obtain ⟨i, stored, e164⟩ := u
  obtain rfl : e164 = some phone := h
  unfold backfillPhone
  split_ifs <;> rfl

/-- The number which is filled in has the hash of the row. -/
theorem backfillPhone_own (hhmac : Function.Injective hmac)
    (h : ∃ n, u.phoneHash = hmac n ∧ ∀ phone ∈ u.phoneE164, phone = n) :
    ∃ n, (backfillPhone (hmac number) (some number) u).phoneHash = hmac n ∧
      ∀ phone ∈ (backfillPhone (hmac number) (some number) u).phoneE164, phone = n := by
  obtain ⟨n, hhash, hown⟩ := h
  refine ⟨n, (backfillPhone_phoneHash _ _ _).trans hhash, ?_⟩
  unfold backfillPhone
  split_ifs with hsame
  · obtain rfl : n = number := hhmac (hhash.symm.trans hsame)
    intro phone hphone
    rcases Option.or_eq_some_iff.mp hphone with hstored | ⟨_, hnew⟩
    · exact hown phone hstored
    · exact (Option.some.inj hnew).symm
  · exact hown

theorem kept_upsertUser (d : Database) (phoneHash : String) (phoneE164 : Option String) :
    Kept d.users (upsertUser phoneHash phoneE164 d).2.users := by
  intro u hu
  unfold upsertUser
  split
  · refine ⟨_, List.mem_map_of_mem hu, backfillPhone_id _ _ _, backfillPhone_phoneHash _ _ _, ?_⟩
    intro phone hphone
    exact backfillPhone_keeps _ _ hphone
  · exact ⟨u, List.mem_append_left _ hu, rfl, rfl, fun _ hphone => hphone⟩

/-- The upsert returns the row of the hash. -/
theorem upsertUser_phoneHash (d : Database) (phoneHash : String) (phoneE164 : Option String) :
    (upsertUser phoneHash phoneE164 d).1.phoneHash = phoneHash := by
  unfold upsertUser
  split
  case h_1 u hfind =>
    rw [backfillPhone_phoneHash]
    simpa using List.find?_some hfind
  case h_2 => rfl

/-- The upsert gives no key twice. -/
theorem nodup_upsertUser (h : (d.users.map User.id).Nodup) (phoneHash : String)
    (phoneE164 : Option String) :
    ((upsertUser phoneHash phoneE164 d).2.users.map User.id).Nodup := by
  unfold upsertUser
  split
  · have hids : (d.users.map (backfillPhone phoneHash phoneE164)).map User.id =
        d.users.map User.id := by
      rw [List.map_map]
      exact List.map_congr_left fun u _ => backfillPhone_id _ _ u
    rw [hids]
    exact h
  · exact nodup_map_concat h (nextId_notMem _)

/-- Nor any hash. -/
theorem nodup_phoneHash_upsertUser (h : (d.users.map User.phoneHash).Nodup) (phoneHash : String)
    (phoneE164 : Option String) :
    ((upsertUser phoneHash phoneE164 d).2.users.map User.phoneHash).Nodup := by
  unfold upsertUser
  split
  case h_1 =>
    have hhashes : (d.users.map (backfillPhone phoneHash phoneE164)).map User.phoneHash =
        d.users.map User.phoneHash := by
      rw [List.map_map]
      exact List.map_congr_left fun u _ => backfillPhone_phoneHash _ _ u
    rw [hhashes]
    exact h
  case h_2 hnone =>
    refine nodup_map_concat h fun hmem => ?_
    obtain ⟨u, hu, hhash⟩ := List.mem_map.mp hmem
    simpa [hhash] using List.find?_eq_none.mp hnone u hu

theorem Owned.upsertUser (hhmac : Function.Injective hmac) (h : Owned hmac d.users)
    (number : String) :
    Owned hmac (SmsRepositories.upsertUser (hmac number) (some number) d).2.users := by
  refine ⟨nodup_upsertUser h.keys _ _, ?_⟩
  unfold SmsRepositories.upsertUser
  split
  case h_1 =>
    intro v hv
    obtain ⟨u, hu, rfl⟩ := List.mem_map.mp hv
    exact backfillPhone_own hhmac (h.own u hu)
  case h_2 =>
    intro v hv
    rcases List.mem_append.mp hv with hv | hv
    · exact h.own v hv
    · obtain rfl := List.mem_singleton.mp hv
      exact ⟨number, rfl, fun phone hphone => (Option.some.inj hphone).symm⟩

end

/-- A job points to a stored message, a message to the one delivery which has created it,
and its user is registered under the number of that delivery. -/
structure Linked (hmac : String → String) (requests : ℕ → Request) (creators : List (ℕ × ℕ))
    (d : Database) : Prop where
  owned : Owned hmac d.users
  created : creators.map Prod.fst = d.messages.map Message.id
  unique : (d.messages.map Message.id).Nodup
  sender : ∀ m ∈ d.messages, ∀ i, (m.id, i) ∈ creators → ∃ payload,
    TwilioWebhookPayload.parse (formData (requests i).form) = .ok payload ∧
      Registered d.users m.userId (hmac payload.fromNumber.1)
  known : ∀ job ∈ d.jobs, job.messageId ∈ d.messages.map Message.id
  keys : (d.jobs.map Job.id).Nodup

/-- What no step takes back. -/
structure Later (d d' : Database) : Prop where
  users : Kept d.users d'.users
  jobs : ∀ job ∈ d.jobs, job ∈ d'.jobs

/-- The two databases agree on the tables which lead from a job to its poster. -/
structure Shows (d view : Database) : Prop where
  users : view.users = d.users
  messages : view.messages = d.messages
  jobs : view.jobs = d.jobs

section
variable {hmac : String → String} {requests : ℕ → Request} {creators : List (ℕ × ℕ)}
variable {d d' d'' : Database}

theorem Later.refl (d : Database) : Later d d := ⟨.refl _, fun _ hjob => hjob⟩

theorem Later.trans (h : Later d d') (h' : Later d' d'') : Later d d'' :=
  ⟨h.users.trans h'.users, fun job hjob => h'.jobs job (h.jobs job hjob)⟩

theorem Later.of_shows (h : Shows d d') : Later d d' := by
  constructor
  · rw [h.users]
    exact .refl _
  · intro job hjob
    rwa [h.jobs]

theorem Linked.of_shows (h : Linked hmac requests creators d) (hshows : Shows d d') :
    Linked hmac requests creators d' := by
  obtain ⟨husers, hmessages, hjobs⟩ := hshows
  constructor
  · rw [husers]
    exact h.owned
  · rw [hmessages]
    exact h.created
  · rw [hmessages]
    exact h.unique
  · rw [hmessages, husers]
    exact h.sender
  · rw [hmessages, hjobs]
    exact h.known
  · rw [hjobs]
    exact h.keys

/-- A classification leaves the keys and the users of the messages alone. -/
theorem Linked.classified (h : Linked hmac requests creators d) (messageId : ℕ)
    (t : MessageType) (raw : String) : Linked hmac requests creators
      { d with messages := d.messages.map (classifyRow messageId t raw) } := by
  constructor
  · exact h.owned
  · rw [map_id_classifyRow]
    exact h.created
  · rw [map_id_classifyRow]
    exact h.unique
  · intro m' hm' i hi
    obtain ⟨m, hm, rfl⟩ := List.mem_map.mp hm'
    rw [classifyRow_id] at hi
    rw [classifyRow_userId]
    exact h.sender m hm i hi
  · rw [map_id_classifyRow]
    exact h.known
  · exact h.keys

theorem Linked.insertJob {create : JobCreate} {job : Job} (h : Linked hmac requests creators d)
    (hok : RowCreation.insertJob create d = .ok (job, d')) :
    Linked hmac requests creators d' ∧ Later d d' := by
  have hmessage := insertJob_message hok
  have hid := insertJob_id hok
  obtain ⟨_, hof, rfl⟩ := insertJob_ok hok
  refine ⟨⟨h.owned, h.created, h.unique, h.sender, ?_, ?_⟩, .refl _, ?_⟩
  · intro j hj
    rcases List.mem_append.mp hj with hj | hj
    · exact h.known j hj
    · rw [List.mem_singleton.mp hj, hof]
      exact hmessage
  · exact nodup_map_concat h.keys hid
  · intro j hj
    exact List.mem_append_left _ hj

/-- One delivery has created the message of the job, and the number next to the job, if
there is one, is the number from which that delivery was sent. -/
def Rightful (requests : ℕ → Request) (creators : List (ℕ × ℕ)) (c : JobCandidate) : Prop :=
  ∃ i payload, (c.job.messageId, i) ∈ creators ∧
    (∀ j, (c.job.messageId, j) ∈ creators → j = i) ∧
      TwilioWebhookPayload.parse (formData (requests i).form) = .ok payload ∧
        (c.posterPhone = none ∨ c.posterPhone = some payload.fromNumber.1)

/-- The join finds the user of the job's message. -/
theorem poster_of_mem {jobs : List Job} {job : Job} {u : User}
    (hkeys : (d.jobs.map Job.id).Nodup) (hjobs : ∀ j ∈ jobs, j ∈ d.jobs) (hjob : job ∈ jobs)
    (h : (dictGet (posterTable jobs d) job.id).join = some u) :
    ∃ m ∈ d.messages, m.id = job.messageId ∧ u ∈ d.users ∧ u.id = m.userId := by
  obtain ⟨entry, hentry, hjoin⟩ := Option.bind_eq_some_iff.mp h
  obtain rfl : entry = some u := hjoin
  obtain ⟨job', hjob', heq⟩ := List.mem_map.mp (mem_of_dictGet hentry)
  obtain ⟨hid, hget⟩ := Prod.mk.inj heq
  -- the dictionary goes by the id of the job
  obtain rfl : job' = job := List.inj_on_of_nodup_map hkeys (hjobs job' hjob') (hjobs job hjob) hid
  obtain ⟨m, hm, hrow⟩ := List.mem_flatMap.mp (mem_of_dictGet hget)
  obtain ⟨v, hv, heq⟩ := List.mem_map.mp hrow
  obtain ⟨hmid, rfl⟩ := Prod.mk.inj heq
  obtain ⟨hv, huser⟩ := List.mem_filter.mp hv
  exact ⟨m, (List.mem_filter.mp hm).1, hmid, hv, of_decide_eq_true huser⟩

/-- The user of a message has no number but that of the delivery which has created it. -/
theorem Linked.phone_of_sender {m : Message} {u : User} {i : ℕ} {payload : TwilioWebhookPayload}
    (hhmac : Function.Injective hmac) (h : Linked hmac requests creators d)
    (hm : m ∈ d.messages) (hi : (m.id, i) ∈ creators) (hu : u ∈ d.users) (huid : u.id = m.userId)
    (hparse : TwilioWebhookPayload.parse (formData (requests i).form) = .ok payload) :
    ∀ phone ∈ u.phoneE164, phone = payload.fromNumber.1 := by
  obtain ⟨payload', hparse', v, hv, hvid, hvhash⟩ := h.sender m hm i hi
  obtain rfl : payload' = payload := Except.ok.inj (hparse'.symm.trans hparse)
  obtain rfl : u = v := List.inj_on_of_nodup_map h.owned.keys hu hv (huid.trans hvid.symm)
  obtain ⟨number, hhash, hown⟩ := h.owned.own u hu
  obtain rfl : number = payload'.fromNumber.1 := hhmac (hhash.symm.trans hvhash)
  exact hown

theorem rightful_of_linked {jobs : List Job} {c : JobCandidate}
    (hhmac : Function.Injective hmac) (h : Linked hmac requests creators d)
    (hjobs : ∀ j ∈ jobs, j ∈ d.jobs) (hc : c ∈ candidatesOf jobs d) :
    Rightful requests creators c := by
  obtain ⟨job, hjob, hof⟩ := List.mem_filterMap.mp hc
  have hphone := candidateOf_posterPhone hof
  obtain ⟨rfl, _⟩ := candidateOf_eq_some hof
  have hknown := h.known c.job (hjobs _ hjob)
  obtain ⟨m, hm, hmid⟩ := List.mem_map.mp hknown
  obtain ⟨⟨messageId, i⟩, hcreated, hfst⟩ := List.mem_map.mp (h.created ▸ hknown)
  obtain rfl : messageId = c.job.messageId := hfst
  obtain ⟨payload, hparse, _⟩ := h.sender m hm i (hmid ▸ hcreated)
  refine ⟨i, payload, hcreated, fun j hj => ?_, hparse, ?_⟩
  · have hnodup : (creators.map Prod.fst).Nodup := h.created ▸ h.unique
    exact (Prod.mk.inj (List.inj_on_of_nodup_map hnodup hj hcreated rfl)).2
  · cases hposter : (dictGet (posterTable jobs d) c.job.id).join with
    | none =>
        rw [hposter] at hphone
        exact .inl hphone
    | some u =>
        rw [hposter, Option.bind_some] at hphone
        rw [hphone]
        obtain ⟨n, hn, hnid, hu, huid⟩ := poster_of_mem h.keys hjobs hjob hposter
        have hown := h.phone_of_sender hhmac hn (hnid ▸ hcreated) hu huid hparse
        cases he164 : u.phoneE164 with
        | none => exact .inl rfl
        | some phone => exact .inr (congrArg some (hown phone he164))

theorem candidatesOf_of_shows {view : Database} (h : Shows d view) (jobs : List Job) :
    candidatesOf jobs view = candidatesOf jobs d := by
  rw [candidatesOf, candidatesOf, posterTable, posterTable, h.messages, h.users]

theorem rightful_of_match {searcher : JobEmbeddingSearcher} {goal : WorkGoal}
    {queryText : Option String} {w w' : AppWorld} {r : MatchResult}
    (hhmac : Function.Injective hmac) (h : Linked hmac requests creators d)
    (hshows : Shows d w.store.session)
    (hrun : (matchJobs searcher goal queryText).run w = (.ok r, w')) :
    ∀ c ∈ r.jobs, Rightful requests creators c := by
  intro c hc
  obtain ⟨candidates, w₁, hbuilt, rfl⟩ := eq_resultFor_of_run hrun
  obtain ⟨jobs, w₂, hretrieved, rfl⟩ := builtCandidates_ok hbuilt
  rw [candidatesOf_of_shows hshows] at hc
  refine rightful_of_linked hhmac h (fun job hjob => ?_) (mem_of_mem_resultFor hc).1
  exact hshows.jobs ▸ (eligible_of_retrieved hretrieved hjob).1

end

/-- What a run has made of the database `d`. -/
structure Grown (hmac : String → String) (requests : ℕ → Request) (creators : List (ℕ × ℕ))
    (d x : Database) : Prop where
  linked : Linked hmac requests creators x
  later : Later d x

section
variable {hmac : String → String} {requests : ℕ → Request} {creators : List (ℕ × ℕ)}
variable {d x y : Database} {fromisoformat : String → Option Datetime}
variable {searcher : JobEmbeddingSearcher} {gpt : ExtractionService}

theorem Grown.of_shows (h : Grown hmac requests creators d x) (hshows : Shows x y) :
    Grown hmac requests creators d y :=
  ⟨h.linked.of_shows hshows, h.later.trans (.of_shows hshows)⟩

theorem Grown.insertJob {create : JobCreate} {job : Job} (h : Grown hmac requests creators d x)
    (hok : RowCreation.insertJob create x = .ok (job, y)) : Grown hmac requests creators d y := by
  obtain ⟨hlinked, hlater⟩ := h.linked.insertJob hok
  exact ⟨hlinked, h.later.trans hlater⟩

/-- A run adds a job of a stored message at most. -/
theorem grown_invariant (hmac : String → String) (requests : ℕ → Request)
    (creators : List (ℕ × ℕ)) (d : Database) :
    PipelineInvariant (Grown hmac requests creators d) where
  audited _ _ hx := hx.of_shows ⟨rfl, rfl, rfl⟩
  job _ _ _ _ hx hok := hx.insertJob hok
  workGoal _ x _ _ hx hok := by
    obtain ⟨_, _, rfl⟩ := insertWorkGoal_ok hok
    exact hx.of_shows ⟨rfl, rfl, rfl⟩
  matched _ _ hx := hx.of_shows ⟨rfl, rfl, rfl⟩
  classified _ _ _ _ hx := ⟨hx.linked.classified _ _ _, hx.later.users, hx.later.jobs⟩
  queued _ _ hx := hx.of_shows ⟨rfl, rfl, rfl⟩

/-- However an attempt ends, what it has committed keeps the chain. -/
theorem grown_attempt {input : ProcessMessageInput} (a : Attempt)
    (h : Linked hmac requests creators d) :
    Grown hmac requests creators d ((⟨d, []⟩ : Progress).attempt hmac
      (production fromisoformat searcher) input a).database := by
  have hfound : Grown hmac requests creators d d := ⟨h, .refl d⟩
  have hrun (m : MessageInput) : Triple (fun s => s.committed = d ∧ s.session = d ∧ s.log = [])
      (run (production fromisoformat searcher) a.gpt m)
      (fun _ => Holds (Grown hmac requests creators d))
      (fun _ => Holds (Grown hmac requests creators d)) := by
    refine ((grown_invariant hmac requests creators d).keeps_run m).consequence (fun s hs => ?_)
      (fun _ _ hs => hs) fun _ _ hs => hs.1
    rw [Holds, hs.1, hs.2.1]
    exact ⟨hfound, hfound⟩
  have hactivity : Triple (fun s => s.committed = d ∧ s.session = d ∧ s.log = [])
      (processMessageActivity hmac (production fromisoformat searcher) a.gpt input)
      (fun _ => Holds (Grown hmac requests creators d))
      (fun _ => Holds (Grown hmac requests creators d)) := by
    refine processMessageActivity_triple hmac (fun s hs => ⟨hs.1, hs.1⟩) ?_ fun _ _ _ => hrun _
    intro s hcommitted hsession _
    rw [Holds, hcommitted, hsession]
    exact ⟨hfound, hfound⟩
  have hstore := hactivity.store (w := .opened d a.faults) ⟨rfl, rfl, rfl⟩
  exact hstore.1

theorem Shows.trans {d d' d'' : Database} (h : Shows d d') (h' : Shows d' d'') : Shows d d'' :=
  ⟨h'.users.trans h.users, h'.messages.trans h.messages, h'.jobs.trans h.jobs⟩

theorem keeps_writeAudit_shows (messageSid : String) (event : AuditEvent)
    (messageId : Option ℕ) : Keeps (fun s => Shows d s.session) (fun _ => True)
      (writeAudit messageSid event messageId) :=
  keeps_writeAudit (fun _ _ hs => ⟨hs.users, hs.messages, hs.jobs⟩) _ _ _

theorem jobPostingHandle_actions {ctx : PipelineContext} {w w' : AppWorld}
    {actions : List PostCommitAction}
    (h : (jobPostingHandle fromisoformat ctx).run w = (.ok actions, w')) :
    ∃ jobId description phoneHash, actions = [.upsertEmbedding jobId description phoneHash] := by
  rcases jobPostingHandle_cases fromisoformat ctx with ⟨_, _, heq⟩ | ⟨_, _, _, _, heq⟩
  · rw [heq] at h
    cases h
  · rw [heq] at h
    obtain ⟨_, _, _, h⟩ := Program.run_bind_ok h
    obtain ⟨_, _, _, h⟩ := Program.run_bind_ok h
    cases h
    exact ⟨_, _, _, rfl⟩

/-- The match of a work goal is made in a session which shows the tables as they were found. -/
theorem workGoalHandle_matches {ctx : PipelineContext} {w w' : AppWorld}
    {actions : List PostCommitAction}
    (h : (workGoalHandle fromisoformat searcher ctx).run w = (.ok actions, w')) :
    ∃ goal r w₁ w₂, Shows w.store.session w₁.store.session ∧
      (matchJobs searcher goal (some ctx.smsText)).run w₁ = (.ok r, w₂) ∧
        actions = [.sendMatchReply ctx.fromNumber (formatMatchSms r)] := by
  rcases workGoalHandle_cases fromisoformat searcher ctx with
    ⟨_, _, heq⟩ | ⟨_, create, _, _, heq⟩
  · rw [heq] at h
    cases h
  · rw [heq] at h
    obtain ⟨goal, w₁, hgoal, h⟩ := Program.run_bind_ok h
    obtain ⟨_, w₂, haudit, h⟩ := Program.run_bind_ok h
    obtain ⟨r, w₃, hmatch, h⟩ := Program.run_bind_ok h
    cases h
    refine ⟨goal, r, w₂, _, ?_, hmatch, rfl⟩
    have hinsert : Triple (fun s => Shows w.store.session s.session)
        (.statement (insertWorkGoal create) : App WorkGoal)
        (fun _ s => Shows w.store.session s.session) (fun _ _ => True) := by
      refine .statement_of_ok ?_
      intro s goal y hs hok
      obtain ⟨_, _, rfl⟩ := insertWorkGoal_ok hok
      exact ⟨hs.users, hs.messages, hs.jobs⟩
    have hw₁ := hinsert.ok ⟨rfl, rfl, rfl⟩ hgoal
    exact (keeps_writeAudit_shows _ _ _).triple.ok hw₁ haudit

/-- Every match reply which a run registers lists such a match. -/
theorem stage_matches {m : MessageInput} {w w' : AppWorld} {number body : String}
    {staged : ExtractionResult × List PostCommitAction}
    (h : (stage (production fromisoformat searcher) gpt m).run w = (.ok staged, w'))
    (hreply : .sendMatchReply number body ∈ staged.2) :
    ∃ goal r w₁ w₂, Shows w.store.session w₁.store.session ∧
      (matchJobs searcher goal (some m.smsText)).run w₁ = (.ok r, w₂) ∧
        body = formatMatchSms r := by
  obtain ⟨result, w₁, hprocess, h⟩ := Program.run_bind_ok h
  obtain ⟨_, w₂, haudit, h⟩ := Program.run_bind_ok h
  obtain ⟨actions, w₃, hhandle, h⟩ := Program.run_bind_ok h
  obtain ⟨_, w₄, _, h⟩ := Program.run_bind_ok h
  cases h
  have hw₁ : Shows w.store.session w₁.store.session :=
    (keeps_process (P := fun s => Shows w.store.session s.session) trivial m.smsText).triple.ok
      ⟨rfl, rfl, rfl⟩ hprocess
  have hw₂ := (keeps_writeAudit_shows m.messageSid .gptClassified (some m.messageId)).triple.ok
    hw₁ haudit
  rcases dispatch_production fromisoformat searcher result with hjob | hgoal | hunknown
  · rw [hjob] at hhandle
    obtain ⟨_, _, _, rfl⟩ := jobPostingHandle_actions hhandle
    cases List.mem_singleton.mp hreply
  · rw [hgoal] at hhandle
    obtain ⟨goal, r, w₅, w₆, hshows, hmatch, rfl⟩ := workGoalHandle_matches hhandle
    cases List.mem_singleton.mp hreply
    exact ⟨goal, r, w₅, w₆, hw₂.trans hshows, hmatch, rfl⟩
  · rw [hunknown] at hhandle
    cases hhandle
    cases List.mem_singleton.mp hreply

end

inductive Action where
  | deliver (a : DeliveryRaces.Action)
  | process (searcher : JobEmbeddingSearcher) (input : ProcessMessageInput) (attempt : Attempt)

/-- A step of a delivery, or a run of the pipeline with whatever it has committed. -/
def step (cfg : Config) (requests : ℕ → Request) (fromisoformat : String → Option Datetime)
    (s : State) : Action → Option State
  | .deliver a => DeliveryRaces.step cfg requests s a
  | .process searcher input attempt => some { s with
      database := ((⟨s.database, []⟩ : Progress).attempt cfg.hmac
        (production fromisoformat searcher) input attempt).database }

/-- The chain is kept, and every delivery under way holds the payload of its own request
and a user who is registered under the number in it. -/
structure Traced (cfg : Config) (requests : ℕ → Request) (s : State) : Prop where
  linked : Linked cfg.hmac requests s.creators s.database
  payloads : ∀ i payload, (s.deliveries i).payload = some payload →
    TwilioWebhookPayload.parse (formData (requests i).form) = .ok payload
  senders : ∀ i inbound, (s.deliveries i).inbound = some inbound →
    Registered s.database.users inbound.sender.id (cfg.hmac inbound.payload.fromNumber.1)

section
variable {cfg : Config} {requests : ℕ → Request} {fromisoformat : String → Option Datetime}
variable {s t : State} {i : ℕ} {d d' : Database} {creators : List (ℕ × ℕ)} {run : List Action}

theorem traced_initial (howned : Owned cfg.hmac d.users) (hmessages : d.messages = [])
    (hjobs : d.jobs = []) : Traced cfg requests (initial d) where
  linked := by
    constructor
    · exact howned
    · simp [initial, hmessages]
    · simp [initial, hmessages]
    · simp [initial, hmessages]
    · simp [initial, hjobs]
    · simp [initial, hjobs]
  payloads := by simp [initial, Phase.payload]
  senders := by simp [initial, Phase.inbound]

theorem Linked.upserted {users : List User} (h : Linked cfg.hmac requests creators d)
    (howned : Owned cfg.hmac users) (hkept : Kept d.users users) :
    Linked cfg.hmac requests creators { d with users := users } := by
  refine ⟨howned, h.created, h.unique, fun m hm i hi => ?_, h.known, h.keys⟩
  obtain ⟨payload, hparse, hregistered⟩ := h.sender m hm i hi
  exact ⟨payload, hparse, hregistered.kept hkept⟩

/-- The new message is the first one of its key, and its delivery holds its sender. -/
theorem Linked.stored {inbound : InboundSms} {message : Message}
    (h : Linked cfg.hmac requests creators d)
    (hstore : storeMessage inbound d = .ok (message, d'))
    (hparse : TwilioWebhookPayload.parse (formData (requests i).form) = .ok inbound.payload)
    (hsender : Registered d.users inbound.sender.id (cfg.hmac inbound.payload.fromNumber.1)) :
    Linked cfg.hmac requests (creators ++ [(message.id, i)]) d' := by
  obtain ⟨_, _, huser, hid, rfl⟩ := storeMessage_ok hstore
  have hfresh : message.id ∉ d.messages.map Message.id := hid ▸ nextId_notMem _
  have hnew : ∀ j, (message.id, j) ∉ creators := by
    intro j hj
    apply hfresh
    rw [← h.created]
    exact List.mem_map_of_mem hj
  constructor
  · exact h.owned
  · rw [List.map_append, h.created, audited, List.map_append]
    rfl
  · exact nodup_map_concat h.unique hfresh
  · intro m hm j hj
    rcases List.mem_append.mp hm with hm | hm
    · rcases List.mem_append.mp hj with hj | hj
      · exact h.sender m hm j hj
      · obtain ⟨hmid, _⟩ := Prod.mk.inj (List.mem_singleton.mp hj)
        exact absurd (hmid ▸ List.mem_map_of_mem hm) hfresh
    · obtain rfl := List.mem_singleton.mp hm
      rcases List.mem_append.mp hj with hj | hj
      · exact absurd hj (hnew j)
      · obtain ⟨_, rfl⟩ := Prod.mk.inj (List.mem_singleton.mp hj)
        exact ⟨inbound.payload, hparse, huser ▸ hsender⟩
  · intro job hjob
    rw [audited, List.map_append]
    exact List.mem_append_left _ (h.known job hjob)
  · exact h.keys

/-- One delivery moves to a phase whose payload and sender are its own. -/
theorem Traced.move {p : Phase} (h : Traced cfg requests s)
    (hlinked : Linked cfg.hmac requests t.creators t.database)
    (hkept : Kept s.database.users t.database.users)
    (hdeliveries : t.deliveries = (s.move i p).deliveries)
    (hpayload : ∀ x, p.payload = some x →
      TwilioWebhookPayload.parse (formData (requests i).form) = .ok x)
    (hinbound : ∀ x, p.inbound = some x →
      Registered t.database.users x.sender.id (cfg.hmac x.payload.fromNumber.1)) :
    Traced cfg requests t := by
  refine ⟨hlinked, fun j payload hj => ?_, fun j inbound hj => ?_⟩
  · rw [hdeliveries, deliveries_move] at hj
    split_ifs at hj with hji
    · exact hji ▸ hpayload payload hj
    · exact h.payloads j payload hj
  · rw [hdeliveries, deliveries_move] at hj
    split_ifs at hj
    · exact hinbound inbound hj
    · exact (h.senders j inbound hj).kept hkept

theorem Traced.aside {p : Phase} (hs : Traced cfg requests s)
    (hp : Passes (requests i) (s.deliveries i) p) (hd : Aside s.database d) :
    Traced cfg requests { s.move i p with database := d } ∧ Later s.database d := by
  have hshows : Shows s.database d := by
    obtain ⟨limits, logs, _, rfl⟩ := hd
    exact ⟨rfl, rfl, rfl⟩
  have hlater := Later.of_shows hshows
  refine ⟨hs.move (hs.linked.of_shows hshows) hlater.users rfl ?_ ?_, hlater⟩
  · intro payload hpayload
    rcases hp.payload payload hpayload with hold | hparse
    · exact hs.payloads i payload hold
    · exact hparse
  · intro inbound hinbound
    exact (hs.senders i inbound (hp.inbound inbound hinbound)).kept hlater.users

theorem Traced.upserted {payload : TwilioWebhookPayload} {user : User}
    (hhmac : Function.Injective cfg.hmac) (hs : Traced cfg requests s)
    (hphase : s.deliveries i = .checked payload)
    (hupsert : upsertUser (cfg.hmac payload.fromNumber.1) (some payload.fromNumber.1) s.database =
      (user, d)) :
    Traced cfg requests { s.move i (.identified ⟨payload, user⟩) with database := d } ∧
      Later s.database d := by
  have hown := hs.linked.owned.upsertUser hhmac payload.fromNumber.1
  have hkept := kept_upsertUser s.database (cfg.hmac payload.fromNumber.1)
    (some payload.fromNumber.1)
  have hhash := upsertUser_phoneHash s.database (cfg.hmac payload.fromNumber.1)
    (some payload.fromNumber.1)
  rw [hupsert] at hown hkept hhash
  obtain ⟨hmem, _, users, rfl⟩ := upsertUser_ok hupsert
  refine ⟨hs.move (hs.linked.upserted hown hkept) hkept rfl ?_ ?_, hkept, fun _ hjob => hjob⟩
  · intro x hx
    apply hs.payloads i x
    rw [hphase]
    exact hx
  · intro inbound hinbound
    cases hinbound
    exact ⟨user, hmem, rfl, hhash⟩

theorem Traced.stored {inbound : InboundSms} {message : Message} {holder : Locks String ℕ}
    (hs : Traced cfg requests s) (hphase : s.deliveries i = .inserted inbound)
    (hstore : storeMessage inbound s.database = .ok (message, d)) :
    Traced cfg requests { s.move i (.stored inbound) with
      database := d
      holder := holder
      creators := s.creators ++ [(message.id, i)] } ∧ Later s.database d := by
  have hparse := hs.payloads i inbound.payload (by rw [hphase]; rfl)
  have hsender := hs.senders i inbound (by rw [hphase]; rfl)
  have hlinked := hs.linked.stored hstore hparse hsender
  obtain ⟨_, _, _, _, rfl⟩ := storeMessage_ok hstore
  refine ⟨hs.move hlinked (.refl _) rfl ?_ ?_, .refl _, fun _ hjob => hjob⟩
  · intro payload hpayload
    cases hpayload
    exact hparse
  · intro inbound hinbound
    cases hinbound
    exact hsender

theorem traced_change (hhmac : Function.Injective cfg.hmac) (hs : Traced cfg requests s)
    (h : Change cfg requests s i t) :
    Traced cfg requests t ∧ Later s.database t.database := by
  cases h with
  | aside hp hd => exact hs.aside hp hd
  | upserted hphase hupsert => exact hs.upserted hhmac hphase hupsert
  | inserted hphase =>
      refine ⟨hs.move hs.linked (.refl _) rfl ?_ ?_, .refl _⟩
      · intro payload hpayload
        apply hs.payloads i payload
        rw [hphase]
        exact hpayload
      · intro inbound hinbound
        apply hs.senders i inbound
        rw [hphase]
        exact hinbound
  | stored hphase hstore => exact hs.stored hphase hstore
  | dropped => exact ⟨hs.move hs.linked (.refl _) rfl (fun _ hx => by cases hx)
      fun _ hx => (by cases hx), .refl _⟩
  | started => exact ⟨hs.move hs.linked (.refl _) rfl (fun _ hx => by cases hx)
      fun _ hx => (by cases hx), .refl _⟩

theorem traced_step {a : Action} (hhmac : Function.Injective cfg.hmac)
    (hs : Traced cfg requests s) (h : step cfg requests fromisoformat s a = some t) :
    Traced cfg requests t ∧ Later s.database t.database := by
  cases a with
  | deliver a =>
      obtain ⟨i, hchange⟩ := step_cases h
      exact traced_change hhmac hs hchange
  | process searcher input attempt =>
      cases h
      have hgrown : Grown cfg.hmac requests s.creators s.database
          ((⟨s.database, []⟩ : Progress).attempt cfg.hmac (production fromisoformat searcher) input
            attempt).database := grown_attempt attempt hs.linked
      refine ⟨⟨hgrown.linked, hs.payloads, fun i inbound hi => ?_⟩, hgrown.later⟩
      exact (hs.senders i inbound hi).kept hgrown.later.users

/-- Along a run the chain is kept and nothing is taken back. -/
theorem traced_run (hhmac : Function.Injective cfg.hmac) (hs : Traced cfg requests s)
    (h : exec (step cfg requests fromisoformat) s run = some t) :
    Traced cfg requests t ∧ Later s.database t.database := by
  induction run generalizing s with
  | nil =>
      cases h
      exact ⟨hs, .refl _⟩
  | cons a run ih =>
      obtain ⟨m, hm, h⟩ := Option.bind_eq_some_iff.mp h
      obtain ⟨hmid, hlater⟩ := traced_step hhmac hs hm
      obtain ⟨ht, hlater'⟩ := ih hmid h
      exact ⟨ht, hlater.trans hlater'⟩

/-- The reply to a work goal names no number but those of the posters. -/
theorem replies_rightful {before : List Action} {searcher : JobEmbeddingSearcher}
    {gpt : ExtractionService} {m : MessageInput} {faults : List (Option AppFault)}
    {staged : ExtractionResult × List PostCommitAction} {w' : AppWorld} {number body : String}
    (hhmac : Function.Injective cfg.hmac) (howned : Owned cfg.hmac d.users)
    (hmessages : d.messages = []) (hjobs : d.jobs = [])
    (hbefore : exec (step cfg requests fromisoformat) (initial d) before = some s)
    (hstage : (stage (production fromisoformat searcher) gpt m).run (.opened s.database faults) =
      (.ok staged, w')) (hreply : .sendMatchReply number body ∈ staged.2) :
    ∃ r, body = formatMatchSms r ∧ ∀ c ∈ r.jobs, Rightful requests s.creators c := by
  have hs := (traced_run hhmac (traced_initial howned hmessages hjobs) hbefore).1
  obtain ⟨goal, r, w₁, w₂, hshows, hmatch, hbody⟩ := stage_matches hstage hreply
  exact ⟨r, hbody, rightful_of_match hhmac hs.linked hshows hmatch⟩

/-- The number next to an offered job is the one from which its message was sent. Other
steps may come between the retrieval of the jobs and the join with their posters. -/
theorem poster_phone_of_sender {before after : List Action}
    (hhmac : Function.Injective cfg.hmac) (howned : Owned cfg.hmac d.users)
    (hmessages : d.messages = []) (hjobs : d.jobs = [])
    (hbefore : exec (step cfg requests fromisoformat) (initial d) before = some s)
    (hafter : exec (step cfg requests fromisoformat) s after = some t) :
    (∀ searcher goal queryText (w w' : AppWorld) r, Shows t.database w.store.session →
      (matchJobs searcher goal queryText).run w = (.ok r, w') →
        ∀ c ∈ r.jobs, Rightful requests t.creators c) ∧
    (∀ searcher (goal : WorkGoal) queryText (w w' v v' : AppWorld) jobs candidates,
      Shows s.database w.store.session →
      (retrieveCandidates searcher goal queryText).run w = (.ok jobs, w') →
      Shows t.database v.store.session → (buildCandidates jobs).run v = (.ok candidates, v') →
        ∀ c ∈ (resultFor candidates goal).jobs, Rightful requests t.creators c) ∧
    ∀ u ∈ s.database.users, ∀ phone ∈ u.phoneE164,
      ∃ v ∈ t.database.users, v.id = u.id ∧ v.phoneE164 = some phone := by
  have hs := (traced_run hhmac (traced_initial howned hmessages hjobs) hbefore).1
  obtain ⟨ht, hlater⟩ := traced_run hhmac hs hafter
  refine ⟨?_, ?_, ?_⟩
  · intro searcher goal queryText w w' r hshows hrun
    exact rightful_of_match hhmac ht.linked hshows hrun
  · intro searcher goal queryText w w' v v' jobs candidates hshows hretrieved hview hbuilt c hc
    obtain ⟨_, rfl, _⟩ := buildCandidates_ok hbuilt
    have hmem : c ∈ candidatesOf jobs v.store.session := (mem_of_mem_resultFor hc).1
    rw [candidatesOf_of_shows hview] at hmem
    refine rightful_of_linked hhmac ht.linked (fun job hjob => ?_) hmem
    exact hlater.jobs job (hshows.jobs ▸ (eligible_of_retrieved hretrieved hjob).1)
  · intro u hu phone hphone
    obtain ⟨v, hv, hid, _, hkept⟩ := hlater.users u hu
    exact ⟨v, hv, hid, hkept phone hphone⟩

end

/-- GPT reads the message as a job which pays three cents. -/
def answersPaidJob : ExtractionService := fun text => (answersJob text).map fun result =>
  { result with job := result.job.map fun job =>
    { job with payRate := some ⟨3 / 100, by norm_num⟩, payType := .flat } }

/-- A user from before the numbers were stored texts a job, which is then processed. -/
def earlierUser : Database := { Database.empty with users := [⟨1, "+1", none⟩] }

def texted : List Action := (List.replicate 8 (.advance 0)).map .deliver

def processed : List Action := [.process none ⟨"SM1", "+1", "hi"⟩ ⟨answersPaidJob, []⟩]

/-- The number under which the job is offered at the end of a run. -/
def phonesAfter (run : List Action) : Option (List (Option String)) :=
  (exec (step (unsignedConfig 5 60) deliveredTwice fun _ => none) (initial earlierUser) run).bind
    fun s => match (matchJobs none fiveCentGoal none).run (.opened s.database []) with
      | (.ok r, _) => some (r.jobs.map JobCandidate.posterPhone)
      | (.error _, _) => none

theorem poster_phone_of_sender_texted :
    ∃ s t r w', exec (step (unsignedConfig 5 60) deliveredTwice fun _ => none)
        (initial earlierUser) texted = some s ∧
      exec (step (unsignedConfig 5 60) deliveredTwice fun _ => none) s processed = some t ∧
      (matchJobs none fiveCentGoal none).run (.opened t.database []) = (.ok r, w') ∧
      r.jobs.map JobCandidate.posterPhone = [some "+1"] ∧
      ∀ c ∈ r.jobs, Rightful deliveredTwice t.creators c := by
  have howned : Owned (unsignedConfig 5 60).hmac earlierUser.users := by
    refine ⟨List.nodup_singleton _, fun u hu => ?_⟩
    obtain rfl := List.mem_singleton.mp hu
    exact ⟨"+1", rfl, fun phone hphone => by cases hphone⟩
  have hphones : phonesAfter (texted ++ processed) = some [some "+1"] := by decide +kernel
  obtain ⟨t, hrun, hphones⟩ := Option.bind_eq_some_iff.mp hphones
  obtain ⟨s, hs, ht⟩ := Option.bind_eq_some_iff.mp ((exec_append _ _ _).symm.trans hrun)
  split at hphones
  · rename_i r w' hmatch
    refine ⟨s, t, r, w', hs, ht, hmatch, Option.some.inj hphones, ?_⟩
    exact (poster_phone_of_sender (fun _ _ h => h) howned rfl rfl hs ht).1 _ _ _ _ _ _
      ⟨rfl, rfl, rfl⟩ hmatch
  · cases hphones

end Vici.PosterPhones
