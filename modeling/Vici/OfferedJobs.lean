import Vici.CandidateRetrieval

/-!
# The jobs which a match offers

Whatever the vector index answers, the candidates come from one of two lists
of rows: the full scan, or the hits of the index when enough of them survive.
So every offered job is an eligible row with its own earnings. The hits narrow
the pool, and they repeat a job as often as the index names it; the knapsack
tells candidates apart by their position alone. A match returns when its ids fit
the column, its products the floats, and its knapsack a list.
-/
namespace Vici.OfferedJobs
open Models Datetimes AppPrograms SessionPrograms MatchSelection LeastCostSubset
open JobRepository MatchService CandidateRetrieval
open Program (Triple)

variable {searcher : JobEmbeddingSearcher} {goal : WorkGoal} {queryText : Option String}
variable {deadline : Option Datetime} {eligible : Job → Bool} {job : Job} {jobs : List Job}
variable {candidates : List JobCandidate} {c : JobCandidate} {w w' : AppWorld}

/-- The hits which stand in for the full scan; none when they are too few. -/
def usedHits (searcher : JobEmbeddingSearcher) (queryText : Option String)
    (deadline : Option Datetime) (jobs : List Job) : List Job :=
  match searcher, queryText, eligibilityStmt deadline with
  | some search, some text, .ok eligible =>
      let found := hits eligible ((search text semanticTopK).map Prod.fst) jobs
      if text.isEmpty = false ∧ semanticMinCandidates ≤ found.length then found else []
  | _, _, _ => []

theorem mem_usedHits (heligible : eligibilityStmt deadline = .ok eligible)
    (h : job ∈ usedHits searcher queryText deadline jobs) :
    job ∈ jobs ∧ eligible job = true ∧ job.payTerms.incomputableReason = none := by
  unfold usedHits at h
  rw [heligible] at h
  split at h
  case h_1 search text eligible' heligible' =>
    cases heligible'
    dsimp only at h
    split_ifs at h
    · exact mem_hits h
    · cases h
  case h_2 => cases h

/-- The jobs which an undisturbed retrieval returns. -/
def pool (searcher : JobEmbeddingSearcher) (queryText : Option String)
    (deadline : Option Datetime) (jobs : List Job) : List Job :=
  match eligibilityStmt deadline with
  | .error _ => []
  | .ok eligible =>
      if (usedHits searcher queryText deadline jobs).isEmpty then scanned eligible jobs
      else usedHits searcher queryText deadline jobs

/-- Every id in the answer of the index fits the column with which it is compared. -/
def indexFits (searcher : JobEmbeddingSearcher) (queryText : Option String) : Bool :=
  match searcher, queryText with
  | some search, some text =>
      text.isEmpty || ((search text semanticTopK).map Prod.fst).all isInteger
  | _, _ => true

/-- The index answers with a ranking, or its failure counts as an empty one. -/
theorem semanticIds_ok {search : String → ℕ → List (ℤ × ℚ)} {text : String}
    {ranked : List (ℤ × ℚ)} (h : (semanticIds search text).run w = (.ok ranked, w')) :
    w'.store = w.store ∧ (ranked = search text semanticTopK ∨ ranked = []) := by
  have hanswer : Triple (· = w.store) (do
      Program.step
      pure (search text semanticTopK) : App (List (ℤ × ℚ)))
      (fun ranked s => s = w.store ∧ (ranked = search text semanticTopK ∨ ranked = []))
      (fun _ s => s = w.store) :=
    .bind (.step fun _ _ _ hs => hs) fun _ => .pure fun s hs => ⟨hs, .inl rfl⟩
  have htriple : Triple (· = w.store) (semanticIds search text)
      (fun ranked s => s = w.store ∧ (ranked = search text semanticTopK ∨ ranked = []))
      (fun _ _ => True) := by
    refine .attempt hanswer (fun _ _ => trivial) (fun e handler hh => ?_) fun _ _ _ _ => trivial
    cases hh
    exact .pure fun s hs => ⟨hs, .inr rfl⟩
  exact htriple.ok rfl h

theorem retrieveCandidates_ok
    (h : (retrieveCandidates searcher goal queryText).run w = (.ok jobs, w')) :
    w'.store = w.store ∧ ∃ eligible, eligibilityStmt goal.targetDeadline = .ok eligible ∧
      (jobs = scanned eligible w.store.session.jobs ∨ jobs ≠ [] ∧
        indexFits searcher queryText = true ∧
          jobs = usedHits searcher queryText goal.targetDeadline w.store.session.jobs) := by
  have hscan {w₁ : AppWorld} (hw₁ : w₁.store = w.store)
      (h : (findCandidatesForGoal goal.targetDeadline).run w₁ = (.ok jobs, w')) :
      w'.store = w.store ∧ ∃ eligible, eligibilityStmt goal.targetDeadline = .ok eligible ∧
        (jobs = scanned eligible w.store.session.jobs ∨ jobs ≠ [] ∧
          indexFits searcher queryText = true ∧
            jobs = usedHits searcher queryText goal.targetDeadline w.store.session.jobs) := by
    obtain ⟨eligible, heligible, hjobs, hstore⟩ := findCandidatesForGoal_ok h
    rw [hw₁] at hjobs hstore
    exact ⟨hstore, eligible, heligible, .inl hjobs⟩
  unfold retrieveCandidates at h
  split at h
  case h_2 => exact hscan rfl h
  case h_1 search text =>
    split_ifs at h with htext
    · exact hscan rfl h
    · obtain ⟨ranked, w₁, hranked, h⟩ := Program.run_bind_ok h
      obtain ⟨hw₁, hanswer⟩ := semanticIds_ok hranked
      split_ifs at h with hempty
      · exact hscan hw₁ h
      · obtain ⟨found, w₂, hfound, h⟩ := Program.run_bind_ok h
        obtain ⟨hids, hw₂⟩ := findCandidatesByIds_ok hfound
        split_ifs at h with hfew
        · cases h
          have hne : ranked ≠ [] := by simpa using hempty
          obtain rfl := hanswer.resolve_right hne
          rcases hids with ⟨hnil, _⟩ | ⟨eligible, heligible, hfits, hhits⟩
          · exact absurd (List.map_eq_nil_iff.mp hnil) hne
          · have hsome : jobs ≠ [] := by
              rintro rfl
              cases hfew
            refine ⟨hw₂.trans hw₁, eligible, heligible, .inr ⟨hsome, ?_, ?_⟩⟩
            · simp only [indexFits, hfits, Bool.or_true]
            rw [hw₁] at hhits
            simp only [usedHits, heligible]
            rw [← hhits, if_pos ⟨by simpa using htext, hfew⟩]
        · exact hscan (hw₂.trans hw₁) h

/-- What is retrieved are eligible rows. -/
theorem eligible_of_retrieved
    (h : (retrieveCandidates searcher goal queryText).run w = (.ok jobs, w')) (hjob : job ∈ jobs) :
    job ∈ w.store.session.jobs ∧ Eligible goal.targetDeadline job := by
  obtain ⟨_, eligible, heligible, hjobs⟩ := retrieveCandidates_ok h
  have hrow : job ∈ w.store.session.jobs ∧ eligible job = true ∧
      job.payTerms.incomputableReason = none := by
    rcases hjobs with rfl | ⟨_, _, rfl⟩
    · exact mem_scanned hjob
    · exact mem_usedHits heligible hjob
  obtain ⟨havailable, hknown, htime⟩ := (eligibilityStmt_iff heligible job).mp hrow.2.1
  exact ⟨hrow.1, havailable, hknown, htime, hrow.2.2⟩

theorem candidateOf_eq_some {posters : List (ℕ × Option User)}
    (h : candidateOf posters job = some c) :
    c.job = job ∧ job.payTerms.earnings = some (c.earnings : ℤ) := by
  obtain ⟨e, he, rfl⟩ := Option.map_eq_some_iff.mp h
  refine ⟨rfl, ?_⟩
  rw [he, Int.toNat_of_nonneg (Job.earnings_nonneg he)]

theorem candidateOf_posterPhone {posters : List (ℕ × Option User)}
    (h : candidateOf posters job = some c) :
    c.posterPhone = (dictGet posters c.job.id).join.bind User.phoneE164 := by
  obtain ⟨e, _, rfl⟩ := Option.map_eq_some_iff.mp h
  rfl

/-- The table which the query of the posters fills. -/
def posterTable (jobs : List Job) (db : Database) : List (ℕ × Option User) :=
  let messageIds := jobs.map Job.messageId
  let rows := (db.messages.filter fun m => decide (m.id ∈ messageIds)).flatMap fun m =>
    (db.users.filter fun u => decide (u.id = m.userId)).map fun u => (m.id, u)
  jobs.map fun job => (job.id, dictGet rows job.messageId)

theorem findPosters_eq (jobs : List Job) : findPosters jobs = .query (posterTable jobs) := rfl

/-- The candidates of the given jobs. -/
def candidatesOf (jobs : List Job) (db : Database) : List JobCandidate :=
  jobs.filterMap (candidateOf (posterTable jobs db))

theorem buildCandidates_ok (h : (buildCandidates jobs).run w = (.ok candidates, w')) :
    jobs.all (fun job => !job.payTerms.overflows) = true ∧
      candidates = candidatesOf jobs w.store.session ∧ w'.store = w.store := by
  obtain ⟨posters, w₁, hposters, h⟩ := Program.run_bind_ok h
  split_ifs at h with hoverflow
  · cases h
  · cases h
    rw [findPosters_eq] at hposters
    obtain ⟨rfl, hstore⟩ := Program.run_query_ok hposters
    exact ⟨by simpa using hoverflow, rfl, hstore⟩

/-- The candidates are built from what one retrieval has returned. -/
theorem builtCandidates_ok
    (h : (builtCandidates searcher goal queryText).run w = (.ok candidates, w')) :
    ∃ jobs w₁, (retrieveCandidates searcher goal queryText).run w = (.ok jobs, w₁) ∧
      candidates = candidatesOf jobs w.store.session := by
  obtain ⟨jobs, w₁, hjobs, h⟩ := Program.run_bind_ok h
  split_ifs at h with hempty
  · cases h
    rw [List.isEmpty_iff.mp hempty] at hjobs
    exact ⟨[], _, hjobs, rfl⟩
  · obtain ⟨_, rfl, _⟩ := buildCandidates_ok h
    rw [(retrieveCandidates_ok hjobs).1]
    exact ⟨jobs, w₁, hjobs, rfl⟩

/-- Only eligible jobs are offered, each at the earnings of its own row. -/
theorem offered_eligible {r : MatchResult}
    (h : (matchJobs searcher goal queryText).run w = (.ok r, w')) :
    (∀ c ∈ r.jobs, c.job ∈ w.store.session.jobs ∧ c.job.status = .available ∧
      c.job.payType ≠ .unknown ∧ c.job.payTerms.earnings = some (c.earnings : ℤ) ∧
        ∀ d, goal.targetDeadline = some d → c.job.idealDatetime = none ∨
          c.job.datetimeFlexible = some true ∨
            ∃ ideal, c.job.idealDatetime = some ideal ∧ ideal.instant ≤ d.instant) ∧
      r.totalEarnings = (r.jobs.map JobCandidate.earnings).sum ∧
      (r.isPartial = true ↔ r.totalEarnings < goal.targetEarnings) := by
  obtain ⟨candidates, w₁, hbuilt, rfl⟩ := eq_resultFor_of_run h
  obtain ⟨jobs, w₂, hjobs, rfl⟩ := builtCandidates_ok hbuilt
  refine ⟨fun c hc => ?_, rfl, ?_⟩
  · obtain ⟨job, hjob, hof⟩ := List.mem_filterMap.mp (mem_of_mem_resultFor hc).1
    obtain ⟨rfl, hearnings⟩ := candidateOf_eq_some hof
    obtain ⟨hrow, heligible⟩ := eligible_of_retrieved hjobs hjob
    exact ⟨hrow, heligible.available, heligible.known, hearnings, heligible.inTime⟩
  · exact decide_eq_true_iff

/-- Neither the job after noon nor the one which is taken is offered. -/
theorem offered_eligible_varied :
    ∃ r w', variedMatch 9 (by decide) = (.ok r, w') ∧
      (r.jobs.map fun c => c.job.id) = [2, 4, 1, 3] ∧
      (∀ c ∈ r.jobs, c.job ∈ variedJobs.jobs ∧ c.job.status = .available ∧
        c.job.payType ≠ .unknown ∧ c.job.payTerms.earnings = some (c.earnings : ℤ) ∧
          ∀ d, some (atHour 12) = some d → c.job.idealDatetime = none ∨
            c.job.datetimeFlexible = some true ∨
              ∃ ideal, c.job.idealDatetime = some ideal ∧ ideal.instant ≤ d.instant) ∧
      r.totalEarnings = (r.jobs.map JobCandidate.earnings).sum ∧
      (r.isPartial = true ↔ r.totalEarnings < 9) := by
  have hanswer : (variedMatch 9 (by decide)).1.toOption.any (fun r =>
      decide ((r.jobs.map fun c => c.job.id) = [2, 4, 1, 3])) = true := by decide +kernel
  obtain ⟨r, w', hrun, hids⟩ := exists_of_answer hanswer
  exact ⟨r, w', hrun, of_decide_eq_true hids, offered_eligible hrun⟩

/-- The index is asked when there is one and a text to ask it for. -/
def Consulted (searcher : JobEmbeddingSearcher) (queryText : Option String) : Prop :=
  ∃ search text, searcher = some search ∧ queryText = some text ∧ text.isEmpty = false

/-- What a job earns; nothing when that cannot be computed. -/
def jobEarnings (job : Job) : ℕ := (job.payTerms.earnings.getD 0).toNat

def poolEarnings (jobs : List Job) : ℕ := (jobs.map jobEarnings).sum

def bestEarnings (jobs : List Job) : ℕ := (jobs.map jobEarnings).foldr max 0

/-- No product of the pool overflows, and the knapsack is not longer than a list may be. -/
def selectable (target : ℕ) (jobs : List Job) : Bool :=
  jobs.all (fun job => !job.payTerms.overflows) &&
    decide (min (poolEarnings jobs) (target + bestEarnings jobs) < maxListLength)

theorem run_semanticIds_of_calm {search : String → ℕ → List (ℤ × ℚ)} {text : String}
    (hcalm : w.faults = []) :
    (semanticIds search text).run w = (.ok (search text semanticTopK), w) := by
  simp only [semanticIds, Program.attempt, Program.run_bind, Program.run_step_of_calm hcalm]
  rfl

/-- A failure of the index counts as an empty answer. -/
theorem run_semanticIds_of_fault (search : String → ℕ → List (ℤ × ℚ)) (text : String)
    {f : AppFault} (hfault : w.faults = [some f]) (hf : f ≠ .crashes) :
    (semanticIds search text).run w = (.ok [], ⟨w.store, []⟩) := by
  have hnext : w.next = (some f, ⟨w.store, []⟩) := by
    simp only [World.next, hfault]
  simp only [semanticIds, Program.attempt, Program.run_bind, Program.step, hnext]
  rcases f with e | e | _
  · rfl
  · rfl
  · exact absurd rfl hf

theorem run_findCandidatesForGoal (hcalm : w.faults = [])
    (heligible : eligibilityStmt deadline = .ok eligible) :
    (findCandidatesForGoal deadline).run w = (.ok (scanned eligible w.store.session.jobs), w) := by
  simp only [findCandidatesForGoal, heligible]
  exact Program.run_query_of_calm hcalm

theorem run_findCandidatesByIds {jobIds : List ℤ} (hcalm : w.faults = [])
    (heligible : eligibilityStmt deadline = .ok eligible) (hfits : jobIds.all isInteger = true) :
    (findCandidatesByIds jobIds deadline).run w =
      (.ok (hits eligible jobIds w.store.session.jobs), w) := by
  unfold findCandidatesByIds
  split_ifs with hempty
  · rw [List.isEmpty_iff.mp hempty]
    rfl
  · simp only [heligible, bindParameters_of_fits hfits, pure_bind]
    exact Program.run_query_of_calm hcalm

/-- What follows an answer of the index. -/
theorem run_ranked {ranked : List (ℤ × ℚ)} (hcalm : w.faults = [])
    (heligible : eligibilityStmt deadline = .ok eligible)
    (hfits : (ranked.map Prod.fst).all isInteger = true) :
    (if ranked.isEmpty then findCandidatesForGoal deadline
      else do
        let jobs ← findCandidatesByIds (ranked.map Prod.fst) deadline
        if semanticMinCandidates ≤ jobs.length then pure jobs
        else findCandidatesForGoal deadline : App (List Job)).run w =
      (.ok (if semanticMinCandidates ≤
          (hits eligible (ranked.map Prod.fst) w.store.session.jobs).length then
        hits eligible (ranked.map Prod.fst) w.store.session.jobs
        else scanned eligible w.store.session.jobs), w) := by
  split_ifs with hempty henough henough
  · rw [List.isEmpty_iff.mp hempty] at henough
    cases henough
  · exact run_findCandidatesForGoal hcalm heligible
  · rw [Program.run_bind_of_ok (run_findCandidatesByIds hcalm heligible hfits), if_pos henough]
    rfl
  · rw [Program.run_bind_of_ok (run_findCandidatesByIds hcalm heligible hfits), if_neg henough]
    exact run_findCandidatesForGoal hcalm heligible

/-- Undisturbed, the pool is the hits where they are used and the scan elsewhere. -/
theorem run_retrieveCandidates_of_calm (hcalm : w.faults = [])
    (heligible : eligibilityStmt goal.targetDeadline = .ok eligible)
    (hfits : indexFits searcher queryText = true) :
    (retrieveCandidates searcher goal queryText).run w =
      (.ok (pool searcher queryText goal.targetDeadline w.store.session.jobs), w) := by
  have hscan := run_findCandidatesForGoal hcalm heligible
  unfold retrieveCandidates pool usedHits
  rw [heligible]
  rcases searcher with _ | search
  · simpa using hscan
  · rcases queryText with _ | text
    · simpa using hscan
    · by_cases htext : text.isEmpty = true
      · simpa [htext] using hscan
      · have hids : ((search text semanticTopK).map Prod.fst).all isInteger = true :=
          (Bool.or_eq_true_iff.mp hfits).resolve_left htext
        have hranked := run_ranked hcalm heligible hids
        dsimp only
        rw [if_neg htext, Program.run_bind_of_ok (run_semanticIds_of_calm hcalm)]
        refine hranked.trans ?_
        by_cases henough : semanticMinCandidates ≤ (hits eligible
            ((search text semanticTopK).map Prod.fst) w.store.session.jobs).length
        · have hne : (hits eligible ((search text semanticTopK).map Prod.fst)
              w.store.session.jobs).isEmpty = false := by
            rw [List.isEmpty_eq_false_iff, ← List.length_pos_iff]
            exact lt_of_lt_of_le (by decide) henough
          simp [htext, henough, hne]
        · simp [henough]

/-- Where the ids do not fit, the query of the hits raises. -/
theorem indexFits_of_retrieved (hcalm : w.faults = [])
    (h : (retrieveCandidates searcher goal queryText).run w = (.ok jobs, w')) :
    indexFits searcher queryText = true := by
  match searcher, queryText, h with
  | none, _, _ => rfl
  | some _, none, _ => rfl
  | some search, some text, h =>
      simp only [retrieveCandidates] at h
      simp only [indexFits]
      split_ifs at h with htext
      · simp [htext]
      · rw [Program.run_bind_of_ok (run_semanticIds_of_calm hcalm)] at h
        split_ifs at h with hempty
        · simp [List.isEmpty_iff.mp hempty]
        · obtain ⟨found, w₂, hfound, _⟩ := Program.run_bind_ok h
          rcases (findCandidatesByIds_ok hfound).1 with ⟨hnil, _⟩ | ⟨_, _, hfits, _⟩
          · simp [hnil]
          · exact Bool.or_eq_true_iff.mpr (.inr hfits)

/-- A failure of the index leaves the full scan. -/
theorem run_retrieveCandidates_of_failure {f : AppFault} (hindex : Consulted searcher queryText)
    (hfault : w.faults = [some f]) (hf : f ≠ .crashes)
    (heligible : eligibilityStmt goal.targetDeadline = .ok eligible) :
    (retrieveCandidates searcher goal queryText).run w =
      (.ok (scanned eligible w.store.session.jobs), ⟨w.store, []⟩) := by
  obtain ⟨search, text, rfl, rfl, htext⟩ := hindex
  simp only [retrieveCandidates, htext, Bool.false_eq_true, if_false]
  rw [Program.run_bind_of_ok (run_semanticIds_of_fault search text hfault hf)]
  exact run_findCandidatesForGoal rfl heligible

/-- Each pair is inserted or skipped. -/
theorem run_persistMatches (hcalm : w.faults = []) (jobIds : List ℕ) (workGoalId : ℕ) :
    ∃ w', (persistMatches jobIds workGoalId).run w = (.ok (), w') := by
  induction jobIds generalizing w with
  | nil => exact ⟨w, rfl⟩
  | cons jobId jobIds ih =>
      have hone : ∃ w₁, (Program.attempt (.savepoint (.statement (insertMatch jobId workGoalId)))
          fun e => if e = .infra .integrity then some (pure ()) else none : App Unit).run w =
            (.ok (), w₁) := by
        cases hinsert : insertMatch jobId workGoalId w.store.session with
        | ok r =>
            have hstatement := Program.run_statement_ok hcalm hinsert
            exact ⟨_, Program.run_attempt_of_ok (Program.run_savepoint_of_ok hcalm hstatement)⟩
        | error e =>
            obtain rfl := insertMatch_error hinsert
            have hsavepoint := Program.run_savepoint_of_error hcalm
              (Program.run_statement_error hcalm hinsert)
            rw [Program.run_attempt_of_caught hsavepoint (if_pos rfl)]
            exact ⟨_, rfl⟩
      obtain ⟨w₁, hw₁⟩ := hone
      obtain ⟨w₂, hw₂⟩ := ih (Program.calm_run hcalm hw₁)
      exact ⟨w₂, (Program.run_bind_of_ok hw₁).trans hw₂⟩

theorem earnings_candidateOf {posters : List (ℕ × Option User)}
    (h : candidateOf posters job = some c) : c.earnings = jobEarnings job := by
  rw [jobEarnings, (candidateOf_eq_some h).2]
  rfl

theorem jobEarnings_of_none {posters : List (ℕ × Option User)}
    (h : candidateOf posters job = none) : jobEarnings job = 0 := by
  rw [jobEarnings, Option.map_eq_none_iff.mp h]
  rfl

/-- The posters have no part in what the candidates earn. -/
theorem totalEarnings_candidates (posters : List (ℕ × Option User)) (jobs : List Job) :
    totalEarnings (jobs.filterMap (candidateOf posters)) = poolEarnings jobs := by
  induction jobs with
  | nil => rfl
  | cons job jobs ih =>
      rw [poolEarnings, List.map_cons, List.sum_cons, ← poolEarnings, ← ih]
      cases hof : candidateOf posters job with
      | none => rw [List.filterMap_cons_none hof, jobEarnings_of_none hof, Nat.zero_add]
      | some c => rw [List.filterMap_cons_some hof, totalEarnings, totalWeight_cons,
          earnings_candidateOf hof]

theorem maxEarning_candidates (posters : List (ℕ × Option User)) (jobs : List Job) :
    maxEarning (jobs.filterMap (candidateOf posters)) = bestEarnings jobs := by
  induction jobs with
  | nil => rfl
  | cons job jobs ih =>
      rw [bestEarnings, List.map_cons, List.foldr_cons, ← bestEarnings, ← ih]
      cases hof : candidateOf posters job with
      | none => rw [List.filterMap_cons_none hof, jobEarnings_of_none hof, Nat.zero_max]
      | some c => rw [List.filterMap_cons_some hof, maxEarning, List.map_cons, List.foldr_cons,
          earnings_candidateOf hof, maxEarning]

theorem isPartial_candidatesOf_iff (jobs : List Job) (db : Database) (goal : WorkGoal) :
    (resultFor (candidatesOf jobs db) goal).isPartial = true ↔
      poolEarnings jobs < goal.targetEarnings := by
  rw [isPartial_iff_totalEarnings_lt, candidatesOf, totalEarnings_candidates]

theorem capacity_candidatesOf (jobs : List Job) (db : Database) (target : ℕ) :
    capacity (candidatesOf jobs db) target =
      min (poolEarnings jobs) (target + bestEarnings jobs) := by
  rw [capacity, candidatesOf, totalEarnings_candidates, maxEarning_candidates]

theorem run_buildCandidates (hcalm : w.faults = [])
    (hfloats : jobs.all (fun job => !job.payTerms.overflows) = true) :
    (buildCandidates jobs).run w = (.ok (candidatesOf jobs w.store.session), w) := by
  have hany : ¬jobs.any (fun job => job.payTerms.overflows) = true := by
    simpa using hfloats
  rw [buildCandidates, findPosters_eq,
    Program.run_bind_of_ok (Program.run_query_of_calm hcalm), if_neg hany]
  rfl

theorem run_allocateTables {target : ℕ} (hcalm : w.faults = [])
    (h : capacity candidates target < maxListLength) :
    (allocateTables candidates target).run w = (.ok (), w) := by
  unfold allocateTables
  split_ifs
  · rfl
  · exact Program.run_step_of_calm hcalm

/-- What a match returns for a pool which it can select from. -/
theorem run_matchJobs_of_pool {w₁ : AppWorld} (hcalm : w₁.faults = [])
    (hjobs : (retrieveCandidates searcher goal queryText).run w = (.ok jobs, w₁))
    (hselectable : selectable goal.targetEarnings jobs = true) :
    ∃ w', (matchJobs searcher goal queryText).run w =
      (.ok (resultFor (candidatesOf jobs w.store.session) goal), w') := by
  obtain ⟨hfloats, hlength⟩ := Bool.and_eq_true_iff.mp hselectable
  have hstore := (retrieveCandidates_ok hjobs).1
  rw [matchJobs, Program.run_bind_of_ok hjobs]
  split_ifs with hempty
  · rw [List.isEmpty_iff.mp hempty, candidatesOf, List.filterMap_nil, resultFor_nil]
    exact ⟨w₁, rfl⟩
  · have hcapacity : capacity (candidatesOf jobs w₁.store.session) goal.targetEarnings <
        maxListLength := by
      rw [capacity_candidatesOf]
      exact of_decide_eq_true hlength
    rw [Program.run_bind_of_ok (run_buildCandidates hcalm hfloats),
      Program.run_bind_of_ok (run_allocateTables hcalm hcapacity), hstore]
    dsimp only
    split_ifs
    · exact ⟨w₁, rfl⟩
    · obtain ⟨w₂, hw₂⟩ := run_persistMatches hcalm _ goal.id
      rw [Program.run_bind_of_ok hw₂]
      exact ⟨w₂, rfl⟩

/-- Whatever is disturbed, a match returns for such pools only. -/
theorem selectable_of_run {r : MatchResult} {w₁ : AppWorld}
    (h : (matchJobs searcher goal queryText).run w = (.ok r, w'))
    (hjobs : (retrieveCandidates searcher goal queryText).run w = (.ok jobs, w₁)) :
    selectable goal.targetEarnings jobs = true := by
  rw [matchJobs, Program.run_bind_of_ok hjobs] at h
  split_ifs at h with hempty
  · rw [List.isEmpty_iff.mp hempty]
    simp [selectable, poolEarnings, maxListLength]
  · obtain ⟨candidates, w₂, hbuilt, h⟩ := Program.run_bind_ok h
    obtain ⟨_, w₃, htables, _⟩ := Program.run_bind_ok h
    obtain ⟨hfloats, rfl, _⟩ := buildCandidates_ok hbuilt
    refine Bool.and_eq_true_iff.mpr ⟨hfloats, decide_eq_true ?_⟩
    rw [← capacity_candidatesOf jobs w₁.store.session]
    unfold allocateTables at htables
    split_ifs at htables with hzero hlength
    · rw [hzero]
      decide
    · exact hlength
    · cases htables

/-- Nothing about the goal, the index and the jobs keeps a match from returning. -/
structure Answerable (searcher : JobEmbeddingSearcher) (goal : WorkGoal)
    (queryText : Option String) (jobs : List Job) : Prop where
  deadline : ∃ eligible, eligibilityStmt goal.targetDeadline = .ok eligible
  index : indexFits searcher queryText = true
  pool : selectable goal.targetEarnings (pool searcher queryText goal.targetDeadline jobs) = true

/-- Undisturbed, a match returns exactly when it is answerable. -/
theorem matchJobs_returns_iff (hcalm : w.faults = []) :
    (∃ r w', (matchJobs searcher goal queryText).run w = (.ok r, w')) ↔
      Answerable searcher goal queryText w.store.session.jobs := by
  constructor
  · intro h
    obtain ⟨r, w', hrun⟩ := h
    have hbind := hrun
    rw [matchJobs] at hbind
    obtain ⟨jobs, w₁, hjobs, _⟩ := Program.run_bind_ok hbind
    obtain ⟨_, eligible, heligible, _⟩ := retrieveCandidates_ok hjobs
    have hfits := indexFits_of_retrieved hcalm hjobs
    exact ⟨⟨eligible, heligible⟩, hfits,
      selectable_of_run hrun (run_retrieveCandidates_of_calm hcalm heligible hfits)⟩
  · intro h
    obtain ⟨eligible, heligible⟩ := h.deadline
    have hjobs := run_retrieveCandidates_of_calm hcalm heligible h.index
    obtain ⟨w', hrun⟩ := run_matchJobs_of_pool hcalm hjobs h.pool
    exact ⟨_, w', hrun⟩

/-- What an undisturbed match returns. -/
theorem eq_resultFor_of_calm {r : MatchResult} (hcalm : w.faults = [])
    (h : (matchJobs searcher goal queryText).run w = (.ok r, w')) :
    r = resultFor (candidatesOf (pool searcher queryText goal.targetDeadline
      w.store.session.jobs) w.store.session) goal := by
  have hanswerable := (matchJobs_returns_iff hcalm).mp ⟨r, w', h⟩
  obtain ⟨eligible, heligible⟩ := hanswerable.deadline
  have hjobs := run_retrieveCandidates_of_calm hcalm heligible hanswerable.index
  obtain ⟨w₁, hrun⟩ := run_matchJobs_of_pool hcalm hjobs hanswerable.pool
  cases h.symm.trans hrun
  rfl

theorem run_matchJobs_of_calm (hcalm : w.faults = [])
    (h : Answerable searcher goal queryText w.store.session.jobs) :
    ∃ w', (matchJobs searcher goal queryText).run w =
      (.ok (resultFor (candidatesOf (pool searcher queryText goal.targetDeadline
        w.store.session.jobs) w.store.session) goal), w') := by
  obtain ⟨r, w', hrun⟩ := (matchJobs_returns_iff hcalm).mpr h
  exact ⟨w', eq_resultFor_of_calm hcalm hrun ▸ hrun⟩

/-- A match is partial exactly when its whole pool earns less than the target. -/
theorem isPartial_of_run {r : MatchResult}
    (h : (matchJobs searcher goal queryText).run w = (.ok r, w')) :
    ∃ jobs w₁, (retrieveCandidates searcher goal queryText).run w = (.ok jobs, w₁) ∧
      selectable goal.targetEarnings jobs = true ∧
      (r.isPartial = true ↔ poolEarnings jobs < goal.targetEarnings) := by
  obtain ⟨candidates, w₁, hbuilt, rfl⟩ := eq_resultFor_of_run h
  obtain ⟨jobs, w₂, hjobs, rfl⟩ := builtCandidates_ok hbuilt
  exact ⟨jobs, w₂, hjobs, selectable_of_run h hjobs, isPartial_candidatesOf_iff jobs _ goal⟩

/-- An answer of the index costs the worker the goal only where its hits are used and earn
less than the target all together; its failure never does. The ids have to fit, and the
hits to be selectable, for the match to return at all. -/
theorem narrowing_keeps_goal {r : MatchResult} {w₁ w₂ : AppWorld}
    (hsame : w₂.store.session.jobs = w.store.session.jobs)
    (hfull : (matchJobs none goal queryText).run w = (.ok r, w₁)) (hmet : r.isPartial = false) :
    (w₂.faults = [] → indexFits searcher queryText = true →
      selectable goal.targetEarnings
        (usedHits searcher queryText goal.targetDeadline w.store.session.jobs) = true →
      ∃ r' w₃, (matchJobs searcher goal queryText).run w₂ = (.ok r', w₃) ∧
        (r'.isPartial = true ↔
          usedHits searcher queryText goal.targetDeadline w.store.session.jobs ≠ [] ∧
            poolEarnings (usedHits searcher queryText goal.targetDeadline
              w.store.session.jobs) < goal.targetEarnings)) ∧
    (Consulted searcher queryText → ∀ f, w₂.faults = [some f] → f ≠ .crashes →
      ∃ r' w₃, (matchJobs searcher goal queryText).run w₂ = (.ok r', w₃) ∧
        r'.isPartial = false) := by
  obtain ⟨scan, w₄, hscan, hselectable, hpartial⟩ := isPartial_of_run hfull
  obtain ⟨_, eligible, heligible, hscan⟩ := retrieveCandidates_ok hscan
  obtain rfl : scan = scanned eligible w.store.session.jobs :=
    hscan.resolve_right fun hnone => hnone.1 hnone.2.2
  have hmet' : ¬poolEarnings (scanned eligible w.store.session.jobs) < goal.targetEarnings := by
    rw [← hpartial, hmet]
    exact Bool.false_ne_true
  constructor
  · intro hcalm hfits hhits
    have hjobs := run_retrieveCandidates_of_calm hcalm heligible hfits
    rw [hsame, pool, heligible] at hjobs
    dsimp only at hjobs
    split_ifs at hjobs with hempty
    · obtain ⟨w₃, hrun⟩ := run_matchJobs_of_pool hcalm hjobs hselectable
      refine ⟨_, w₃, hrun, ?_⟩
      rw [isPartial_candidatesOf_iff]
      exact ⟨fun hlt => absurd hlt hmet', fun hnone => absurd (List.isEmpty_iff.mp hempty) hnone.1⟩
    · obtain ⟨w₃, hrun⟩ := run_matchJobs_of_pool hcalm hjobs hhits
      refine ⟨_, w₃, hrun, ?_⟩
      rw [isPartial_candidatesOf_iff]
      exact ⟨fun hlt => ⟨fun hnil => hempty (List.isEmpty_iff.mpr hnil), hlt⟩, And.right⟩
  · intro hindex f hfault hf
    have hjobs := run_retrieveCandidates_of_failure hindex hfault hf heligible
    rw [hsame] at hjobs
    obtain ⟨w₃, hrun⟩ := run_matchJobs_of_pool rfl hjobs hselectable
    refine ⟨_, w₃, hrun, Bool.eq_false_iff.mpr ?_⟩
    rw [ne_eq, isPartial_candidatesOf_iff]
    exact hmet'

/-- A flat job which pays the given cents. -/
def flatJob (id cents : ℕ) (h : 0 < cents) : Job :=
  { flatCentJob id with payRate := some cents, payRate_pos := by simpa using h }

/-- Five jobs of one cent and one of ten. -/
def sixJobs : Database :=
  { Database.empty with jobs := [flatJob 1 1 (by decide), flatJob 2 1 (by decide),
      flatJob 3 1 (by decide), flatJob 4 1 (by decide), flatJob 5 1 (by decide),
      flatJob 6 10 (by decide)] }

def tenCentGoal : WorkGoal := ⟨1, 2, 10, none, none, by decide⟩

theorem narrowing_keeps_goal_varied :
    (∃ r' w₃, (matchJobs (rankedIds variedIds) (noonGoal 9 (by decide)) (some "yard work")).run
        (.opened variedJobs []) = (.ok r', w₃) ∧
      (r'.isPartial = true ↔
        usedHits (rankedIds variedIds) (some "yard work") (some (atHour 12))
            variedJobs.jobs ≠ [] ∧
          poolEarnings (usedHits (rankedIds variedIds) (some "yard work")
            (some (atHour 12)) variedJobs.jobs) < 9)) ∧
    ∃ r' w₃, (matchJobs (rankedIds variedIds) (noonGoal 9 (by decide)) (some "yard work")).run
        (.opened variedJobs [some (.loses (.unavailable "index"))]) = (.ok r', w₃) ∧
      r'.isPartial = false := by
  have hanswer : ((matchJobs none (noonGoal 9 (by decide)) (some "yard work")).run
      (.opened variedJobs [])).1.toOption.any (fun r => !r.isPartial) = true := by decide +kernel
  obtain ⟨r, w, hfull, hr⟩ := exists_of_answer hanswer
  have hmet : r.isPartial = false := by simpa using hr
  constructor
  · exact (narrowing_keeps_goal (by rfl) hfull hmet).1 rfl (by decide +kernel) (by decide +kernel)
  · exact (narrowing_keeps_goal (by rfl) hfull hmet).2 ⟨_, _, rfl, rfl, by decide⟩ _ rfl
      (by decide)

/-- The index names the five small jobs, which are enough to replace the full scan. -/
theorem narrowed_pool_misses_goal :
    ∃ r w r' w', (matchJobs none tenCentGoal (some "work")).run (.opened sixJobs []) =
        (.ok r, w) ∧ r.isPartial = false ∧
      (matchJobs (rankedIds [1, 2, 3, 4, 5]) tenCentGoal (some "work")).run
        (.opened sixJobs []) = (.ok r', w') ∧ r'.isPartial = true := by
  have hscan : Answerable none tenCentGoal (some "work") sixJobs.jobs :=
    ⟨⟨_, rfl⟩, by decide, by decide⟩
  have hhits : Answerable (rankedIds [1, 2, 3, 4, 5]) tenCentGoal (some "work") sixJobs.jobs :=
    ⟨⟨_, rfl⟩, by decide, by decide⟩
  obtain ⟨w, hfull⟩ := run_matchJobs_of_calm (w := .opened sixJobs []) rfl hscan
  obtain ⟨w', hnarrow⟩ := run_matchJobs_of_calm (w := .opened sixJobs []) rfl hhits
  exact ⟨_, w, _, w', hfull, by decide +kernel, hnarrow, by decide +kernel⟩

def pays (job : Job) : Bool := decide (0 < jobEarnings job)

/-- The paying candidates of a pool are its paying jobs, in their order. -/
theorem map_id_payingCandidates (posters : List (ℕ × Option User)) (jobs : List Job) :
    (((jobs.filterMap (candidateOf posters)).filter fun c => decide (0 < c.earnings)).map
      fun c => c.job.id) = (jobs.filter pays).map Job.id := by
  induction jobs with
  | nil => rfl
  | cons job jobs ih =>
      cases hof : candidateOf posters job with
      | none =>
          have hpays : pays job = false := by simp [pays, jobEarnings_of_none hof]
          rw [List.filterMap_cons_none hof, ih, List.filter_cons_of_neg (by simp [hpays])]
      | some c =>
          have hpays : pays job = decide (0 < c.earnings) := by
            rw [pays, earnings_candidateOf hof]
          rw [List.filterMap_cons_some hof]
          by_cases hpos : 0 < c.earnings
          · rw [List.filter_cons_of_pos (by simpa using hpos),
              List.filter_cons_of_pos (by simpa [hpays] using hpos), List.map_cons, List.map_cons,
              ih, (candidateOf_eq_some hof).1]
          · rw [List.filter_cons_of_neg (by simpa using hpos),
              List.filter_cons_of_neg (by simpa [hpays] using hpos), ih]

/-- The selection takes paying candidates, each at most once. -/
theorem nodup_resultFor
    (h : ((candidates.filter fun c => decide (0 < c.earnings)).map fun c => c.job.id).Nodup) :
    ((resultFor candidates goal).jobs.map fun c => c.job.id).Nodup := by
  have hsub : (dpSelect candidates goal.targetEarnings).reverse.Sublist
      (candidates.filter fun c => decide (0 < c.earnings)) := by
    have hfilter := (dpSelect_spec candidates goal.targetEarnings).1.filter
      fun c => decide (0 < c.earnings)
    rwa [List.filter_eq_self.mpr] at hfilter
    intro c hc
    exact decide_eq_true (earnings_pos_of_mem_dpSelect (List.mem_reverse.mp hc))
  have hperm : (resultFor candidates goal).jobs.Perm
      (dpSelect candidates goal.targetEarnings).reverse :=
    (sortResults_perm _).trans (List.reverse_perm _).symm
  exact (hperm.map _).nodup_iff.mpr (h.sublist (hsub.map _))

theorem nodup_paying_scanned (hkeys : (jobs.map Job.id).Nodup) :
    (((scanned eligible jobs).filter pays).map Job.id).Nodup := by
  have hsub : (scanned eligible jobs).Sublist jobs :=
    (List.filter_sublist.trans (List.take_sublist _ _)).trans List.filter_sublist
  exact hkeys.sublist ((List.filter_sublist.trans hsub).map Job.id)

/-- No match over the table with this deadline offers a job twice. -/
def DistinctOffers (searcher : JobEmbeddingSearcher) (queryText : Option String)
    (deadline : Option Datetime) (table : List Job) : Prop :=
  ∀ (goal : WorkGoal) (w w' : AppWorld) (r : MatchResult), goal.targetDeadline = deadline →
    w.store.session.jobs = table → (matchJobs searcher goal queryText).run w = (.ok r, w') →
      (r.jobs.map fun c => c.job.id).Nodup

/-- A target out of reach has every paying job of the hits offered. -/
theorem exists_all_offered {table : List Job}
    (heligible : eligibilityStmt deadline = .ok eligible)
    (hused : usedHits searcher queryText deadline table ≠ [])
    (hfits : indexFits searcher queryText = true)
    (hselectable : ∀ target,
      selectable target (usedHits searcher queryText deadline table) = true) :
    ∃ (goal : WorkGoal) (w w' : AppWorld) (r : MatchResult), goal.targetDeadline = deadline ∧
      w.store.session.jobs = table ∧ (matchJobs searcher goal queryText).run w = (.ok r, w') ∧
        (r.jobs.map fun c => c.job.id).Perm
          (((usedHits searcher queryText deadline table).filter pays).map Job.id) := by
  have hpool : pool searcher queryText deadline table =
      usedHits searcher queryText deadline table := by
    rw [pool, heligible]
    exact if_neg fun hempty => hused (List.isEmpty_iff.mp hempty)
  let goal : WorkGoal := ⟨0, 0, poolEarnings (usedHits searcher queryText deadline table) + 1,
    none, deadline, Nat.succ_pos _⟩
  let w : AppWorld := .opened { Database.empty with jobs := table } []
  have hanswerable : Answerable searcher goal queryText table :=
    ⟨⟨eligible, heligible⟩, hfits, hpool ▸ hselectable _⟩
  obtain ⟨w', hrun⟩ := run_matchJobs_of_calm (w := w) rfl hanswerable
  refine ⟨goal, w, w', _, rfl, rfl, hrun, ?_⟩
  rw [show pool searcher queryText goal.targetDeadline w.store.session.jobs =
    usedHits searcher queryText deadline table from hpool]
  have hpartial : (resultFor (candidatesOf (usedHits searcher queryText deadline table)
      w.store.session) goal).isPartial = true := by
    rw [isPartial_candidatesOf_iff]
    exact Nat.lt_succ_self _
  rw [← map_id_payingCandidates]
  exact (resultFor_of_isPartial hpartial).1.map _

theorem usedHits_of_error {e : AppError} (h : eligibilityStmt deadline = .error e) :
    usedHits searcher queryText deadline jobs = [] := by
  unfold usedHits
  rw [h]
  split
  case h_1 heq => cases heq
  case h_2 => rfl

/-- Where the query for the hits and their pay raise nothing, the hits which are used do not name
a paying job twice. -/
def HitsDistinct (searcher : JobEmbeddingSearcher) (queryText : Option String)
    (deadline : Option Datetime) (table : List Job) : Prop :=
  indexFits searcher queryText = true →
    ((usedHits searcher queryText deadline table).all fun job => !job.payTerms.overflows) = true →
      (((usedHits searcher queryText deadline table).filter pays).map Job.id).Nodup

theorem distinctOffers_of_hits {table : List Job} (hkeys : (table.map Job.id).Nodup)
    (hhits : HitsDistinct searcher queryText deadline table) :
    DistinctOffers searcher queryText deadline table := by
  rintro goal w w' r rfl rfl hrun
  obtain ⟨candidates, w₁, hbuilt, rfl⟩ := eq_resultFor_of_run hrun
  obtain ⟨jobs, w₂, hjobs, rfl⟩ := builtCandidates_ok hbuilt
  apply nodup_resultFor
  rw [candidatesOf, map_id_payingCandidates]
  have hselectable := selectable_of_run hrun hjobs
  obtain ⟨_, eligible, _, hjobs⟩ := retrieveCandidates_ok hjobs
  rcases hjobs with rfl | ⟨_, hfits, rfl⟩
  · exact nodup_paying_scanned hkeys
  · exact hhits hfits (Bool.and_eq_true_iff.mp hselectable).1

theorem selectable_of_lt {target : ℕ}
    (hfloats : jobs.all (fun job => !job.payTerms.overflows) = true)
    (h : poolEarnings jobs < maxListLength) : selectable target jobs = true :=
  Bool.and_eq_true_iff.mpr ⟨hfloats, decide_eq_true ((Nat.min_le_left _ _).trans_lt h)⟩

/-- No match with this deadline offers a job twice if the hits which are used are distinct; and
only if, unless they earn more in total than a table can be long. -/
theorem distinct_offers_iff {table : List Job} (hkeys : (table.map Job.id).Nodup) :
    (HitsDistinct searcher queryText deadline table →
      DistinctOffers searcher queryText deadline table) ∧
    (poolEarnings (usedHits searcher queryText deadline table) < maxListLength →
      (DistinctOffers searcher queryText deadline table ↔
        HitsDistinct searcher queryText deadline table)) := by
  refine ⟨distinctOffers_of_hits hkeys, fun hlength =>
    ⟨fun hall hfits hfloats => ?_, distinctOffers_of_hits hkeys⟩⟩
  cases hstmt : eligibilityStmt deadline with
  | error e =>
      rw [usedHits_of_error hstmt]
      exact List.nodup_nil
  | ok eligible =>
      by_cases hused : usedHits searcher queryText deadline table = []
      · rw [hused]
        exact List.nodup_nil
      · obtain ⟨goal, w, w', r, hdeadline, htable, hrun, hperm⟩ :=
          exists_all_offered hstmt hused hfits fun _ => selectable_of_lt hfloats hlength
        exact hperm.nodup_iff.mp (hall goal w w' r hdeadline htable hrun)

theorem distinct_offers_six_jobs :
    DistinctOffers (rankedIds [5, 4, 3, 2, 1, 9, 9]) (some "work") none sixJobs.jobs := by
  have hkeys : (sixJobs.jobs.map Job.id).Nodup := by decide
  exact ((distinct_offers_iff hkeys).2 (by decide)).mpr fun _ _ => by decide

/-- An index which names one job five times has it offered twice, for a goal which the
job meets on its own. -/
theorem job_offered_twice :
    ∃ r w', (matchJobs (rankedIds [6, 6, 6, 6, 6]) tenCentGoal (some "work")).run
        (.opened sixJobs []) = (.ok r, w') ∧
      (r.jobs.map fun c => c.job.id) = [6, 6] ∧ r.totalEarnings = 20 := by
  have hanswerable : Answerable (rankedIds [6, 6, 6, 6, 6]) tenCentGoal (some "work")
      sixJobs.jobs := ⟨⟨_, rfl⟩, by decide, by decide⟩
  obtain ⟨w', hrun⟩ := run_matchJobs_of_calm (w := .opened sixJobs []) rfl hanswerable
  exact ⟨_, w', hrun, by decide +kernel, by decide +kernel⟩

end Vici.OfferedJobs
