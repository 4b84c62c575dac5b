import Vici.AnswersOnRecord
import Vici.IntegerLiterals

/-!
# The index which the service asks

The service alone writes the vector index, under the texts of job ids, and reads
these back when it asks for the jobs nearest to a text. The answer may come from
an earlier state of the index, but its ids are distinct and were all written.
Hence each is read as the id of a stored job, no two as the same one, and no
match offers a job twice.
-/
namespace Vici.ClosedIndex
open Models AppPrograms SessionPrograms ActionRuns KeyedRows MatchSelection MatchService
open CandidateRetrieval OfferedJobs MatchFormatter DeliveryFootprints RowCreation
open IntegerLiterals ServiceRuns TableIntegrity AnswersOnRecord
open EmbeddingDocuments (Document)

/-- A vector, with the text and the hash which it was written for. -/
structure IndexVector where
  id : String
  description : String
  phoneHash : String
  deriving DecidableEq

/-- What an effect makes of the index: `write_job_embedding` replaces the vector of its id. -/
def indexed (index : List IndexVector) : Effect → List IndexVector
  | .vectorUpserted jobId description phoneHash =>
      upsert IndexVector.id ⟨toString jobId, description, phoneHash⟩ index
  | _ => index

def indexOf (effects : List Effect) : List IndexVector := effects.foldl indexed []

/-- The ids of the vectors nearest to a text, best first, with their scores. -/
abbrev VectorQuery := List IndexVector → String → ℕ → List (String × ℚ)

/-- Ids which are no integers are skipped. -/
def searchJobEmbeddings (decimal : Char → Option ℕ) (query : VectorQuery)
    (index : List IndexVector) (queryText : String) (topK : ℕ) : List (ℤ × ℚ) :=
  (query index queryText topK).filterMap fun (id, score) =>
    (parseInt decimal id).map fun jobId => (jobId, score)

/-- An answer names vectors of the index, and none twice. -/
structure Ranks (query : VectorQuery) : Prop where
  distinct : ∀ {index : List IndexVector}, (index.map IndexVector.id).Nodup →
    ∀ text k, ((query index text k).map Prod.fst).Nodup
  known : ∀ (index : List IndexVector) (text : String) (k : ℕ), ∀ m ∈ query index text k,
    m.1 ∈ index.map IndexVector.id

section
variable {effects : List Effect} {v : IndexVector}

theorem indexOf_concat (effects : List Effect) (e : Effect) :
    indexOf (effects ++ [e]) = indexed (indexOf effects) e := by
  rw [indexOf, List.foldl_append]
  rfl

theorem nodup_indexOf (effects : List Effect) :
    ((indexOf effects).map IndexVector.id).Nodup := by
  induction effects using List.reverseRecOn with
  | nil => exact List.nodup_nil
  | append_singleton effects e ih =>
      rw [indexOf_concat]
      unfold indexed
      split
      · exact nodup_map_upsert ih
      · exact ih

/-- A vector of the index was written, and is as it was written. -/
theorem written_of_mem (h : v ∈ indexOf effects) : ∃ jobId description phoneHash,
    .vectorUpserted jobId description phoneHash ∈ effects ∧
      v = ⟨toString jobId, description, phoneHash⟩ := by
  induction effects using List.reverseRecOn with
  | nil => cases h
  | append_singleton effects e ih =>
      have hold (hv : v ∈ indexOf effects) : ∃ jobId description phoneHash,
          .vectorUpserted jobId description phoneHash ∈ effects ++ [e] ∧
            v = ⟨toString jobId, description, phoneHash⟩ := by
        obtain ⟨jobId, description, phoneHash, hmem, hv⟩ := ih hv
        exact ⟨jobId, description, phoneHash, List.mem_append_left _ hmem, hv⟩
      rw [indexOf_concat] at h
      unfold indexed at h
      split at h
      · rcases mem_upsert h with hv | hv
        · exact ⟨_, _, _, List.mem_append_right _ (List.mem_singleton_self _), hv⟩
        · exact hold hv
      · exact hold h

/-- Where a job is always written from the same document, its vector stays. -/
theorem mem_indexOf_of_written {jobId : ℕ} {description phoneHash : String}
    (hsame : ∀ description' phoneHash', .vectorUpserted jobId description' phoneHash' ∈ effects →
      description' = description ∧ phoneHash' = phoneHash)
    (h : .vectorUpserted jobId description phoneHash ∈ effects) :
    ⟨toString jobId, description, phoneHash⟩ ∈ indexOf effects := by
  induction effects using List.reverseRecOn with
  | nil => cases h
  | append_singleton effects e ih =>
      rw [indexOf_concat]
      by_cases he : ∃ description' phoneHash', e = .vectorUpserted jobId description' phoneHash'
      · obtain ⟨description', phoneHash', rfl⟩ := he
        obtain ⟨rfl, rfl⟩ := hsame _ _ (List.mem_append_right _ (List.mem_singleton_self _))
        exact mem_upsert_self
      · have hmem : ⟨toString jobId, description, phoneHash⟩ ∈ indexOf effects := by
          refine ih (fun _ _ hmem => hsame _ _ (List.mem_append_left _ hmem)) ?_
          refine (List.mem_append.mp h).resolve_right fun hlast => he ?_
          exact ⟨_, _, (List.mem_singleton.mp hlast).symm⟩
        unfold indexed
        split
        · refine mem_upsert_of_ne hmem fun heq => he ?_
          obtain rfl := Nat.repr_injective heq
          exact ⟨_, _, rfl⟩
        · exact hmem

end

section
variable {decimal : Char → Option ℕ} {query : VectorQuery} {index : List IndexVector}
variable {searcher : JobEmbeddingSearcher} {goal : WorkGoal} {queryText : Option String}
variable {w w' : AppWorld} {r : MatchResult} {jobs : List Job} {jobIds : List ℤ}

/-- Distinct texts of numbers are read as distinct integers. -/
theorem nodup_search (hranks : Ranks query) (hindex : (index.map IndexVector.id).Nodup)
    (hnumbers : ∀ v ∈ index, ∃ n < 10 ^ maxStrDigits, v.id = toString n) (text : String) (k : ℕ) :
    ((searchJobEmbeddings decimal query index text k).map Prod.fst).Nodup := by
  have hnumber : ∀ m ∈ query index text k, ∃ n : ℕ, m.1 = toString n ∧
      parseInt decimal m.1 = some (n : ℤ) := by
    intro m hm
    obtain ⟨v, hv, hid⟩ := List.mem_map.mp (hranks.known index text k m hm)
    obtain ⟨n, hn, htext⟩ := hnumbers v hv
    rw [← hid, htext]
    exact ⟨n, rfl, parseInt_toString hn⟩
  refine List.pairwise_map.mpr (List.pairwise_filterMap.mpr ?_)
  refine (List.pairwise_map.mp (hranks.distinct hindex text k)).imp_of_mem ?_
  intro m m' hm hm' hne b hb b' hb' heq
  obtain ⟨n, htext, hparse⟩ := hnumber m hm
  obtain ⟨n', htext', hparse'⟩ := hnumber m' hm'
  simp only [hparse, hparse', Option.map_some, Option.some.injEq] at hb hb'
  subst hb hb'
  rw [htext, htext', Int.ofNat.inj heq] at hne
  exact hne rfl

theorem nodup_hits {eligible : Job → Bool} (hids : jobIds.Nodup) :
    ((hits eligible jobIds jobs).map Job.id).Nodup := by
  refine List.pairwise_map.mpr (List.pairwise_filterMap.mpr (hids.imp ?_))
  intro i i' hne job hjob job' hjob' heq
  obtain ⟨q, _, hq⟩ := List.mem_map.mp (mem_of_dictGet hjob)
  obtain ⟨q', _, hq'⟩ := List.mem_map.mp (mem_of_dictGet hjob')
  cases hq
  cases hq'
  exact hne (congrArg Int.ofNat heq)

/-- The searcher never names a job twice. -/
def NamesOnce (searcher : JobEmbeddingSearcher) : Prop :=
  ∀ search ∈ searcher, ∀ text k, ((search text k).map Prod.fst).Nodup

theorem totalEarnings_of_match (h : (matchJobs searcher goal queryText).run w = (.ok r, w')) :
    r.totalEarnings = (r.jobs.map JobCandidate.earnings).sum := by
  obtain ⟨candidates, w₁, hbuilt, rfl⟩ := eq_resultFor_of_run h
  rfl

/-- Then no match over the table offers a job twice. -/
theorem distinctOffers_of_namesOnce {deadline : Option Datetimes.Datetime} {table : List Job}
    (hkeys : (table.map Job.id).Nodup) (hnames : NamesOnce searcher) :
    DistinctOffers searcher queryText deadline table := by
  refine distinctOffers_of_hits hkeys fun _ _ =>
    List.Nodup.sublist (List.filter_sublist.map Job.id) ?_
  unfold usedHits
  split
  · dsimp only
    split_ifs
    · exact nodup_hits (hnames _ rfl _ _)
    · exact List.nodup_nil
  · exact List.nodup_nil

end

/-- The searcher asks the index of this service, as it is or as it once was. -/
def AsksIndex (decimal : Char → Option ℕ) (query : VectorQuery) (effects : List Effect)
    (searcher : JobEmbeddingSearcher) : Prop :=
  ∀ search ∈ searcher, ∀ text k, ∃ seen, seen <+: effects ∧
    search text k = searchJobEmbeddings decimal query (indexOf seen) text k

def Asks (decimal : Char → Option ℕ) (query : VectorQuery) (s : State) : Action → Prop
  | .base (.process searcher _ _) => AsksIndex decimal query s.effects searcher
  | _ => True

/-- The keys of the jobs are numbers which the interpreter reads. -/
def Readable (d : Database) : Prop := ∀ job ∈ d.jobs, job.id < 10 ^ maxStrDigits

/-- A match which asked the index was run for a stored goal, over jobs which are stored, and
has returned distinct ones of them with the sum of what they earn. -/
structure Told (decimal : Char → Option ℕ) (query : VectorQuery) (s : State) (r : MatchResult) :
    Prop where
  ran : ∃ searcher queryText w w', AsksIndex decimal query s.effects searcher ∧
    w.store.session.jobs <+: s.database.jobs ∧
      (matchJobs searcher r.workGoal queryText).run w = (.ok r, w')
  goal : r.workGoal ∈ s.database.workGoals
  offered : ∀ c ∈ r.jobs, c.job ∈ s.database.jobs
  distinct : (r.jobs.map fun c => c.job.id).Nodup
  total : r.totalEarnings = (r.jobs.map JobCandidate.earnings).sum

/-- The reply is made from the result of such a match. -/
def TellsDistinct (decimal : Char → Option ℕ) (query : VectorQuery) (s : State)
    (a : PostCommitAction) : Prop :=
  ∀ number body, a = .sendMatchReply number body →
    ∃ r, Told decimal query s r ∧ body = formatMatchSms r

section
variable {cfg : Webhook.Config} {fromisoformat : String → Option Datetimes.Datetime}
variable {requests : ℕ → Webhook.Request} {s t : State} {a : Action} {d : Database}
variable {run : List Action} {calm : Prop} {decimal : Char → Option ℕ} {query : VectorQuery}

/-- What was written of a job is its document. -/
theorem document_of_written (h : Accounted cfg calm d s) {jobId : ℕ}
    {description phoneHash : String}
    (hmem : .vectorUpserted jobId description phoneHash ∈ s.effects) :
    Document s.database jobId description phoneHash :=
  h.aligned.direct _ _ _ (EmbeddingDocuments.State.direct_iff.mpr (h.vectors _ _ _ hmem))

theorem namesOnce_of_asks (h : Accounted cfg calm d s) (hranks : Ranks query)
    (hreadable : Readable s.database) {searcher : JobEmbeddingSearcher}
    (hasks : AsksIndex decimal query s.effects searcher) : NamesOnce searcher := by
  intro search hsearch text k
  obtain ⟨seen, hpre, heq⟩ := hasks search hsearch text k
  rw [heq]
  refine nodup_search hranks (nodup_indexOf _) (fun v hv => ?_) text k
  obtain ⟨jobId, description, phoneHash, hmem, rfl⟩ := written_of_mem hv
  obtain ⟨job, hjob, rfl, _⟩ := document_of_written h (hpre.subset hmem)
  exact ⟨job.id, hreadable job hjob, rfl⟩

/-- What was told stays so while the tables and the index go on. -/
theorem TellsDistinct.extend {b : PostCommitAction} (h : TellsDistinct decimal query s b)
    (heffects : s.effects <+: t.effects) (hfollows : Follows s.database t.database) :
    TellsDistinct decimal query t b := by
  intro number body hb
  obtain ⟨r, ⟨⟨searcher, queryText, w, w', hasks, hjobs, hmatch⟩, hgoal, hoffered, hdistinct,
    htotal⟩, hbody⟩ := h number body hb
  refine ⟨r, ⟨⟨searcher, queryText, w, w', ?_, hjobs.trans hfollows.jobs, hmatch⟩,
    hfollows.workGoals.subset hgoal, fun c hc => hfollows.jobs.subset (hoffered c hc), hdistinct,
      htotal⟩, hbody⟩
  intro search hsearch text k
  obtain ⟨seen, hpre, heq⟩ := hasks search hsearch text k
  exact ⟨seen, hpre.trans heffects, heq⟩

/-- A unit of work registers the reply of the match which it has run. -/
theorem tellsDistinct_of_commits {hmac : String → String} {searcher : JobEmbeddingSearcher}
    {input : Attempts.ProcessMessageInput} {faults : List (Option AppFault)}
    {actions : List PostCommitAction} (hkeys : (s.database.jobs.map Job.id).Nodup)
    (hnames : NamesOnce searcher) (hasks : AsksIndex decimal query t.effects searcher)
    (hcommits : Commits hmac searcher input faults s.database t.database actions) :
    ∀ b ∈ actions, TellsDistinct decimal query t b := by
  rintro b hb number body rfl
  have hfollows := follows_of_commits hcommits
  generalize hdatabase : t.database = d' at hcommits hfollows
  cases hcommits with
  | unknown => cases List.mem_singleton.mp hb
  | jobPosting => cases List.mem_singleton.mp hb
  | workGoal _ _ hinsert hsession hmatch =>
      cases List.mem_singleton.mp hb
      have hasked := RecordedOffers.workGoal_of_match hmatch
      obtain ⟨_, _, rfl⟩ := insertWorkGoal_ok hinsert
      refine ⟨_, ⟨⟨searcher, _, _, _, hasks, ?_, hasked ▸ hmatch⟩, ?_, fun c hc => ?_, ?_,
        totalEarnings_of_match hmatch⟩, rfl⟩
      · rw [hsession, hdatabase]
        exact hfollows.jobs
      · rw [hasked, hdatabase]
        exact List.mem_append_right _ (List.mem_singleton_self _)
      · have hjob := RecordedOffers.job_mem_of_match hmatch hc
        rw [hsession] at hjob
        rw [hdatabase]
        exact hfollows.jobs.subset hjob
      · exact distinctOffers_of_namesOnce hkeys hnames _ _ _ _ rfl (by rw [hsession]; rfl) hmatch

theorem effects_of_moves (h : Moves cfg s a t) : s.effects <+: t.effects := by
  cases h with
  | committed _ _ _ _ heffects => exact heffects ▸ List.prefix_rfl
  | awaited _ _ _ _ _ heffects =>
      rcases heffects with heq | heq
      · exact heq ▸ List.prefix_rfl
      · exact heq ▸ List.prefix_append _ _
  | aside _ _ _ _ heffects => exact heffects ▸ List.prefix_append _ _

theorem tellsDistinct_step (h : Accounted cfg calm d s) (hranks : Ranks query)
    (hreadable : Readable s.database) (hasks : Asks decimal query s a)
    (hold : ∀ b ∈ actionsOf s, TellsDistinct decimal query s b)
    (hstep : step cfg fromisoformat requests s a = some t) :
    ∀ b ∈ actionsOf t, TellsDistinct decimal query t b := by
  have hmoves := step_moves h.sane.intact.queueIds hstep
  have hkept {b : PostCommitAction} (hb : b ∈ actionsOf s) : TellsDistinct decimal query t b :=
    (hold b hb).extend (effects_of_moves hmoves) (follows_of_writes (h.sane.writes hstep))
  intro b hb
  cases hmoves with
  | @committed searcher _ _ _ actions _ _ hcommits hactions hawaited heffects =>
      have hnew : ∀ b ∈ actions, TellsDistinct decimal query t b :=
        tellsDistinct_of_commits h.sane.intact.jobIds (namesOnce_of_asks h hranks hreadable hasks)
          (heffects ▸ hasks) hcommits
      have hsplit : b ∈ actionsOf s ∨ b ∈ actions := by
        rcases hactions with ⟨hregistered, hunheard⟩ | ⟨hregistered, hunheard⟩ <;>
          simp only [actionsOf, hregistered, hawaited, hunheard, List.mem_append] at hb ⊢ <;> tauto
      exact hsplit.elim hkept (hnew b)
  | awaited hawait _ hregistered hawaited hunheard _ =>
      rw [actionsOf, hregistered, hawaited, hunheard] at hb
      exact hkept ((actions_perm hawait).mem_iff.mpr hb)
  | aside _ hregistered hawaited hunheard _ _ =>
      rw [actionsOf, hregistered, hawaited, hunheard] at hb
      exact hkept hb

/-- The index holds one vector for every job which was written, made from the document of a
stored job; no match which asks the index offers a job twice, and every reply of the service is
that of such a match. -/
theorem closed_index (hd : Intact d) (hqueue : d.syncQueue = []) (hranks : Ranks query)
    (hasks : Along (step cfg fromisoformat requests) (Asks decimal query) (initial d) run)
    (h : exec (step cfg fromisoformat requests) (initial d) run = some t)
    (hreadable : Readable t.database) :
    ((indexOf t.effects).map IndexVector.id).Nodup ∧
      (∀ v, v ∈ indexOf t.effects ↔ ∃ jobId description phoneHash,
        v = ⟨toString jobId, description, phoneHash⟩ ∧
          .vectorUpserted jobId description phoneHash ∈ t.effects) ∧
      (∀ jobId description phoneHash, .vectorUpserted jobId description phoneHash ∈ t.effects →
        Document t.database jobId description phoneHash) ∧
      (∀ searcher, AsksIndex decimal query t.effects searcher → ∀ queryText deadline,
        DistinctOffers searcher queryText deadline t.database.jobs) ∧
      ∀ a ∈ actionsOf t, TellsDistinct decimal query t a := by
  have hall : Accounted cfg False d t ∧
      (Readable t.database → ∀ a ∈ actionsOf t, TellsDistinct decimal query t a) := by
    refine exec_invariant (fun s => Accounted cfg False d s ∧
      (Readable s.database → ∀ a ∈ actionsOf s, TellsDistinct decimal query s a)) ?_ hasks
        ⟨accounted_initial hd hqueue, fun _ _ ha => by cases ha⟩ h
    rintro s a t hask ⟨haccounted, hold⟩ hstep
    refine ⟨accounted_step haccounted False.elim hstep, fun hreadable => ?_⟩
    have hpre := (follows_of_writes (haccounted.sane.writes hstep)).jobs
    have hbefore : Readable s.database := fun job hjob => hreadable job (hpre.subset hjob)
    exact tellsDistinct_step haccounted hranks hbefore hask (hold hbefore) hstep
  obtain ⟨haccounted, htells⟩ := hall
  refine ⟨nodup_indexOf _, fun v => ⟨fun hv => ?_, ?_⟩, fun _ _ _ => document_of_written haccounted,
    fun searcher hsearcher queryText deadline => ?_, htells hreadable⟩
  · obtain ⟨jobId, description, phoneHash, hmem, hv⟩ := written_of_mem hv
    exact ⟨jobId, description, phoneHash, hv, hmem⟩
  · rintro ⟨jobId, description, phoneHash, rfl, hmem⟩
    refine mem_indexOf_of_written (fun _ _ hmem' => ?_) hmem
    exact (document_of_written haccounted hmem).unique haccounted.aligned.keyed
      (document_of_written haccounted hmem')
  · exact distinctOffers_of_namesOnce haccounted.sane.intact.jobIds
      (namesOnce_of_asks haccounted hranks hreadable hsearcher)

end

/-- An answer in the order of the index. -/
def inOrder : VectorQuery := fun index _ k => ((index.map IndexVector.id).take k).map (·, 0)

theorem ranks_inOrder : Ranks inOrder where
  distinct hindex text k := by
    simpa [inOrder, Function.comp_def] using hindex.sublist (List.take_sublist k _)
  known index text k m hm := by
    obtain ⟨id, hid, rfl⟩ := List.mem_map.mp hm
    exact List.mem_of_mem_take hid

/-- Two jobs and then a work goal are texted. -/
def postedTwice : ℕ → Webhook.Request
  | 0 => Webhook.hello
  | 1 => { Webhook.hello with form := [("MessageSid", .text "SM3"), ("From", .text "+3"),
      ("Body", .text "dig too"), ("AccountSid", .text "AC1")] }
  | _ => askedAndAnswered 1

theorem three_dollars_pos : (0 : ℚ) < 3 := by decide

/-- Neither job meets the goal on its own. -/
def wantsThree : Orchestrator.ExtractionService := fun _ => some
  ⟨.workGoal, none, some ⟨⟨3, three_dollars_pos⟩, ⟨"soon", by decide⟩, none⟩, "\x7b\x7d"⟩

/-- The jobs are posted and written, and the goal comes in. -/
def postWriteAsk : List Action :=
  ((List.replicate 8 (.advance 0)).map .deliver ++ [.process none 0 ⟨paysFlat, []⟩, .await 0 []] ++
    (List.replicate 8 (.advance 1)).map .deliver ++ [.process none 1 ⟨paysFlat, []⟩,
      .await 0 []] ++
    (List.replicate 8 (.advance 2)).map .deliver : List EmbeddingDocuments.Action).map .base

def twoVectors : List Effect :=
  [.workflowStarted "SM1" "+1" "hi", .vectorUpserted 1 "Dig" "+1",
    .workflowStarted "SM3" "+3" "dig too", .vectorUpserted 2 "Dig" "+3"]

def askTwoVectors : List Action :=
  [.base (.process (some (searchJobEmbeddings (fun _ => none) inOrder (indexOf twoVectors))) 2
    ⟨wantsThree, []⟩)]

theorem closed_index_post :
    ∃ t, exec (step (Webhook.unsignedConfig 5 60) (fun _ => none) postedTwice)
        (initial .empty) (postWriteAsk ++ askTwoVectors) = some t ∧
      indexOf t.effects = [⟨"1", "Dig", "+1"⟩, ⟨"2", "Dig", "+3"⟩] ∧
      actionsOf t = [.sendMatchReply "+2"
          "1. Dig @ Park | $2/flat | +3\n2. Dig @ Park | $2/flat | +1",
        .upsertEmbedding 1 "Dig" "+1", .upsertEmbedding 2 "Dig" "+3"] ∧
      ∀ a ∈ actionsOf t, TellsDistinct (fun _ => none) inOrder t a := by
  have hposted : (exec (step (Webhook.unsignedConfig 5 60) (fun _ => none) postedTwice)
      (initial .empty) postWriteAsk).map State.effects =
        some (twoVectors ++ [.workflowStarted "SM2" "+2" "need a dollar"]) := by
    decide +kernel
  have hasked : (exec (step (Webhook.unsignedConfig 5 60) (fun _ => none) postedTwice)
      (initial .empty) (postWriteAsk ++ askTwoVectors)).map (fun t =>
        (indexOf t.effects, actionsOf t, t.database.jobs.map Job.id)) =
        some ([⟨"1", "Dig", "+1"⟩, ⟨"2", "Dig", "+3"⟩], [.sendMatchReply "+2"
            "1. Dig @ Park | $2/flat | +3\n2. Dig @ Park | $2/flat | +1",
          .upsertEmbedding 1 "Dig" "+1", .upsertEmbedding 2 "Dig" "+3"], [1, 2]) := by
    decide +kernel
  obtain ⟨t, hrun, hrows⟩ := Option.map_eq_some_iff.mp hasked
  obtain ⟨hindex, hrows⟩ := Prod.mk.inj hrows
  obtain ⟨hactions, hjobs⟩ := Prod.mk.inj hrows
  have hasks : Along (step (Webhook.unsignedConfig 5 60) (fun _ => none) postedTwice)
      (Asks (fun _ => none) inOrder) (initial .empty) (postWriteAsk ++ askTwoVectors) := by
    refine along_append ?_ fun s hs => ⟨?_, fun _ _ => trivial⟩
    · refine along_of_forall (fun a ha s => ?_) _
      simp only [postWriteAsk, List.map_append, List.map_replicate, List.append_assoc,
        List.mem_append, List.mem_replicate, List.map_cons, List.map_nil, List.mem_cons,
        List.not_mem_nil, or_false] at ha
      rcases ha with ⟨_, rfl⟩ | (rfl | rfl) | ⟨_, rfl⟩ | (rfl | rfl) | ⟨_, rfl⟩ <;>
        simp [Asks, AsksIndex]
    · rintro search ⟨⟩ text k
      obtain ⟨s', hs', heffects⟩ := Option.map_eq_some_iff.mp hposted
      obtain rfl : s' = s := Option.some.inj (hs'.symm.trans hs)
      exact ⟨twoVectors, heffects ▸ List.prefix_append _ _, rfl⟩
  have hreadable : Readable t.database := by
    intro job hjob
    have hid : job.id ∈ [1, 2] := hjobs ▸ List.mem_map_of_mem hjob
    have hle : job.id ≤ 2 := by
      rcases List.mem_cons.mp hid with hone | htwo
      · exact hone ▸ by decide
      · exact (List.mem_singleton.mp htwo).le
    have hpow : 2 ^ maxStrDigits ≤ 10 ^ maxStrDigits := Nat.pow_le_pow_left (by decide) _
    exact hle.trans_lt ((Nat.pow_lt_pow_right (a := 2) (by decide) (by decide :
      1 < maxStrDigits)).trans_le hpow)
  exact ⟨t, hrun, hindex, hactions,
    (closed_index intact_empty rfl ranks_inOrder hasks hrun hreadable).2.2.2.2⟩

end Vici.ClosedIndex
