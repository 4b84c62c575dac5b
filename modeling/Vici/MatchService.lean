import Vici.JobRepository
import Vici.MatchSelection

/-!
# The match service

A run retrieves candidate jobs, semantically when that yields enough of them
and by the full scan otherwise, computes their earnings, selects by the
knapsack, sorts, and records the selection in the match table. The answer of
the vector index is arbitrary; its failure or timeout degrades to the scan. A
product of pay and hours beyond the floats ends the run, and so does a table of
the knapsack which is longer than a list may be, or for which there is no memory.
-/
namespace Vici.MatchService
open Models Datetimes AppPrograms SessionPrograms MatchSelection LeastCostSubset JobRepository

def semanticTopK : ℕ := 50
def semanticMinCandidates : ℕ := 5

/-- The port to the vector index; `none` when no searcher is bound. -/
abbrev JobEmbeddingSearcher := Option (String → ℕ → List (ℤ × ℚ))

structure MatchResult where
  jobs : List JobCandidate
  workGoal : WorkGoal
  totalEarnings : ℕ
  isPartial : Bool
  deriving DecidableEq

def MatchResult.isEmpty (r : MatchResult) : Bool := r.jobs.isEmpty

/-- The index query; any exception or timeout counts as no hits. -/
def semanticIds (searcher : String → ℕ → List (ℤ × ℚ)) (queryText : String) :
    App (List (ℤ × ℚ)) :=
  .attempt (do
      .step
      pure (searcher queryText semanticTopK))
    fun _ => some (pure [])

def retrieveCandidates (searcher : JobEmbeddingSearcher) (workGoal : WorkGoal)
    (queryText : Option String) : App (List Job) :=
  let fullScan := findCandidatesForGoal workGoal.targetDeadline
  match searcher, queryText with
  | some search, some text =>
      if text.isEmpty then fullScan
      else do
        let ranked ← semanticIds search text
        if ranked.isEmpty then fullScan
        else do
          let jobs ← findCandidatesByIds (ranked.map Prod.fst) workGoal.targetDeadline
          if semanticMinCandidates ≤ jobs.length then pure jobs else fullScan
  | _, _ => fullScan

theorem candidateDuration_nonneg (job : Job) :
    0 ≤ job.payTerms.durationHours.getD 0 := by
  cases h : job.payTerms.durationHours with
  | none => exact le_rfl
  | some hours => exact (job.duration_pos hours h).le

def candidateOf (posters : List (ℕ × Option User)) (job : Job) : Option JobCandidate :=
  job.payTerms.earnings.map fun earnings =>
    { job
      earnings := earnings.toNat
      duration := job.payTerms.durationHours.getD 0
      posterPhone := (dictGet posters job.id).join.bind User.phoneE164
      duration_nonneg := candidateDuration_nonneg job }

def buildCandidates (jobs : List Job) : App (List JobCandidate) := do
  let posters ← findPosters jobs
  if jobs.any fun job => job.payTerms.overflows then .raise .overflow
  else pure (jobs.filterMap (candidateOf posters))

/-- `PY_SSIZE_T_MAX // 8`, the number of pointers beyond which no list is allocated. -/
def maxListLength : ℕ := 2 ^ 60 - 1

/-- The tables of `_dp_select`, with a cell for every sum up to the capacity; whether there
is memory for them is up to the environment. -/
def allocateTables (candidates : List JobCandidate) (target : ℕ) : App Unit :=
  if capacity candidates target = 0 then pure ()
  else if capacity candidates target < maxListLength then .step
  else .raise .memory

/-- Soonest first, then shortest; an undated job sorts last. -/
def sortKey (c : JobCandidate) : ℤ ×ₗ ℚ :=
  toLex ((c.job.idealDatetime.getD Datetime.max).instant, c.duration)

def sortResults (candidates : List JobCandidate) : List JobCandidate :=
  candidates.insertionSort fun a b => sortKey a ≤ sortKey b

/-- The result for the candidates which were built. -/
def resultFor (candidates : List JobCandidate) (workGoal : WorkGoal) : MatchResult :=
  let sortedSelected := sortResults (dpSelect candidates workGoal.targetEarnings)
  let total := (sortedSelected.map JobCandidate.earnings).sum
  ⟨sortedSelected, workGoal, total, decide (total < workGoal.targetEarnings)⟩

/-- The insert of one pair, with the constraints of the match table. -/
def insertMatch (jobId workGoalId : ℕ) (db : Database) : Except AppExn (Unit × Database) :=
  if db.matchRows.any fun m => decide (m.jobId = jobId ∧ m.workGoalId = workGoalId) then
    .error (.infra .integrity)
  else if db.jobs.all fun j => decide (j.id ≠ jobId) then .error (.infra .integrity)
  else if db.workGoals.all fun g => decide (g.id ≠ workGoalId) then .error (.infra .integrity)
  else .ok ((), { db with matchRows :=
    db.matchRows ++ [⟨nextId (db.matchRows.map Match.id), jobId, workGoalId⟩] })

theorem insertMatch_error {jobId workGoalId : ℕ} {db : Database} {e : AppExn}
    (h : insertMatch jobId workGoalId db = .error e) : e = .infra .integrity := by
  unfold insertMatch at h
  split_ifs at h <;> cases h <;> rfl

/-- Each pair has a savepoint of its own; an integrity error skips the pair. -/
def persistMatches (jobIds : List ℕ) (workGoalId : ℕ) : App Unit :=
  .forEach (fun jobId =>
    .attempt (.savepoint (.statement (insertMatch jobId workGoalId)))
      fun e => if e = .infra .integrity then some (pure ()) else none) jobIds

/-- Whatever happens on the way, only pairs which the table admits are added. -/
theorem keeps_persistMatches {P : Program.Assertion Database Effect} {R : AppError → Prop}
    {workGoalId : ℕ} (hinsert : ∀ s jobId d, P s →
      insertMatch jobId workGoalId s.session = .ok ((), d) → P { s with session := d })
    (hback : ∀ s t, P s → P t → P { t with session := s.session }) (jobIds : List ℕ) :
    Program.Keeps P R (persistMatches jobIds workGoalId) := by
  refine .forEach (fun jobId => .attempt (S := fun _ => False) (.savepoint hback (.statement
    (fun s _ d hs hok => hinsert s jobId d hs hok) fun s e _ herror => ?_)) (fun e h hh _ => ?_)
      fun _ _ ha => ha.elim) jobIds
  · cases insertMatch_error herror
  · split_ifs at hh
    cases hh
    exact .pure _

/-- `MatchService.match` -/
def matchJobs (searcher : JobEmbeddingSearcher) (workGoal : WorkGoal)
    (queryText : Option String) : App MatchResult := do
  let rawJobs ← retrieveCandidates searcher workGoal queryText
  if rawJobs.isEmpty then pure ⟨[], workGoal, 0, true⟩
  else do
    let candidates ← buildCandidates rawJobs
    allocateTables candidates workGoal.targetEarnings
    let result := resultFor candidates workGoal
    if result.jobs.isEmpty then pure result
    else do
      persistMatches (result.jobs.map fun c => c.job.id) workGoal.id
      pure result

theorem sortResults_perm (candidates : List JobCandidate) :
    (sortResults candidates).Perm candidates := List.perm_insertionSort _ _

theorem totalEarnings_resultFor (candidates : List JobCandidate) (goal : WorkGoal) :
    (resultFor candidates goal).totalEarnings =
      totalEarnings (dpSelect candidates goal.targetEarnings) :=
  totalWeight_perm JobCandidate.earnings (sortResults_perm _)

theorem mem_of_mem_resultFor {candidates : List JobCandidate} {goal : WorkGoal} {c : JobCandidate}
    (hc : c ∈ (resultFor candidates goal).jobs) : c ∈ candidates ∧ 0 < c.earnings := by
  have hselected : c ∈ dpSelect candidates goal.targetEarnings :=
    (sortResults_perm _).mem_iff.mp hc
  constructor
  · apply (dpSelect_spec candidates goal.targetEarnings).1.subset
    exact List.mem_reverse.mpr hselected
  · exact earnings_pos_of_mem_dpSelect hselected

theorem isPartial_iff_lt (candidates : List JobCandidate) (goal : WorkGoal) :
    (resultFor candidates goal).isPartial = true ↔
      totalEarnings (dpSelect candidates goal.targetEarnings) < goal.targetEarnings := by
  rw [← totalEarnings_resultFor, resultFor, decide_eq_true_eq]

/-- A partial result means that the goal is out of reach. -/
theorem isPartial_iff_unreachable (candidates : List JobCandidate) (goal : WorkGoal) :
    (resultFor candidates goal).isPartial = true ↔
      ¬∃ S, S.Sublist candidates ∧ goal.targetEarnings ≤ totalEarnings S := by
  rw [isPartial_iff_lt]
  constructor
  · rintro hlt ⟨S, hS, hgoal⟩
    exact absurd (target_le_dpSelect hS hgoal) (not_le.mpr hlt)
  · intro hnone
    by_contra hge
    refine hnone ⟨_, (dpSelect_spec candidates goal.targetEarnings).1, ?_⟩
    rw [totalEarnings, totalWeight_reverse]
    exact not_lt.mp hge

/-- No combination earns more than all candidates together. -/
theorem isPartial_iff_totalEarnings_lt (candidates : List JobCandidate) (goal : WorkGoal) :
    (resultFor candidates goal).isPartial = true ↔
      totalEarnings candidates < goal.targetEarnings := by
  rw [isPartial_iff_unreachable]
  constructor
  · intro hnone
    by_contra hge
    exact hnone ⟨_, .refl _, not_lt.mp hge⟩
  · rintro hlt ⟨S, hS, hgoal⟩
    exact absurd (hgoal.trans (totalWeight_sublist _ hS)) (not_le.mpr hlt)

/-- Out of reach, the capacity is everything there is to earn. -/
theorem resultFor_of_isPartial {candidates : List JobCandidate} {goal : WorkGoal}
    (h : (resultFor candidates goal).isPartial = true) :
    (resultFor candidates goal).jobs.Perm (candidates.filter fun c => 0 < c.earnings) ∧
      (resultFor candidates goal).totalEarnings = totalEarnings candidates := by
  have hlt := (isPartial_iff_totalEarnings_lt candidates goal).mp h
  have hcap : capacity candidates goal.targetEarnings = totalEarnings candidates :=
    min_eq_left (hlt.le.trans (Nat.le_add_right _ _))
  constructor
  · refine (sortResults_perm _).trans ?_
    rw [dpSelect_of_capacity_eq hcap]
    exact List.reverse_perm _
  · rw [totalEarnings_resultFor]
    have hgreatest := (dpSelect_spec candidates goal.targetEarnings).2.1
    refine le_antisymm (hgreatest.1.1.trans hcap.le) (hgreatest.2 ?_)
    exact ⟨hcap.ge, candidates, .refl _, rfl⟩

/-- The candidates which a run of the service builds on its way. -/
def builtCandidates (searcher : JobEmbeddingSearcher) (workGoal : WorkGoal)
    (queryText : Option String) : App (List JobCandidate) := do
  let rawJobs ← retrieveCandidates searcher workGoal queryText
  if rawJobs.isEmpty then pure [] else buildCandidates rawJobs

theorem resultFor_nil (goal : WorkGoal) : resultFor [] goal = ⟨[], goal, 0, true⟩ := by
  simp [resultFor, dpSelect, sortResults, goal.targetEarnings_pos]

/-- The early return without jobs is the general result for no candidates. -/
theorem eq_resultFor_of_run {searcher : JobEmbeddingSearcher} {goal : WorkGoal}
    {queryText : Option String} {w w' : AppWorld} {r : MatchResult}
    (h : (matchJobs searcher goal queryText).run w = (.ok r, w')) :
    ∃ candidates w₁, (builtCandidates searcher goal queryText).run w = (.ok candidates, w₁) ∧
      r = resultFor candidates goal := by
  obtain ⟨rawJobs, w₁, hraw, h⟩ := Program.run_bind_ok h
  unfold builtCandidates
  rw [Program.run_bind, hraw]
  dsimp only
  split_ifs at h ⊢ with hempty
  · cases h
    exact ⟨[], _, rfl, (resultFor_nil goal).symm⟩
  · obtain ⟨candidates, w₂, hbuilt, h⟩ := Program.run_bind_ok h
    refine ⟨candidates, w₂, hbuilt, ?_⟩
    obtain ⟨_, _, _, h⟩ := Program.run_bind_ok h
    dsimp only at h
    split_ifs at h
    · cases h
      rfl
    · obtain ⟨_, _, _, h⟩ := Program.run_bind_ok h
      cases h
      rfl

/-- A flat job of three cents, as a row and as a candidate. -/
def threeCentJob : Job :=
  ⟨1, 1, none, none, some 3, .flat, none, none, none, .available, by simp, by simp⟩

def threeCents : JobCandidate := ⟨threeCentJob, 3, 0, none, le_rfl⟩

def fiveCentGoal : WorkGoal := ⟨1, 2, 5, none, none, by decide⟩

def oneJobDatabase : Database :=
  { Database.empty with jobs := [threeCentJob], workGoals := [fiveCentGoal] }

/-- The wall clock on the hour of a day in March, in UTC. -/
def atHour (hour : Fin 24) : Datetime where
  wall := 739682 * day + hour * 3600 * second
  utcoffset := some 0
  wall_mem := by
    have := hour.2
    simp only [calendarEnd, day, second]
    omega
  utcoffset_mem := by simp [day, second]

theorem half_day_pos : ∀ h ∈ some (5 / 2 : ℚ), 0 < h := by simp

theorem one_hour_pos : ∀ h ∈ some (1 : ℚ), 0 < h := by simp

/-- An index which answers every text with the given ids. -/
def rankedIds (ids : List ℤ) : JobEmbeddingSearcher := some fun _ _ => ids.map fun i => (i, 1)

/-- Jobs with and without a date, of which the sixth comes after noon and the seventh is taken. -/
def variedJobs : Database :=
  { Database.empty with
    users := [⟨1, "hash", some "+15550001"⟩]
    messages := [⟨1, "SM1", 1, "work", some .jobPosting, none⟩]
    jobs := [
      { threeCentJob with description := some "Lawn", location := some "Elm" },
      { threeCentJob with id := 2, messageId := 2, idealDatetime := some (atHour 9) },
      { threeCentJob with
        id := 3, messageId := 3, payType := .hourly, estimatedDurationHours := some (5 / 2)
        duration_pos := half_day_pos },
      { threeCentJob with
        id := 4, messageId := 4, idealDatetime := some (atHour 18)
        datetimeFlexible := some true },
      { threeCentJob with
        id := 5, messageId := 5, payType := .hourly, estimatedDurationHours := some 1
        idealDatetime := some (atHour 11), duration_pos := one_hour_pos },
      { threeCentJob with id := 6, messageId := 6, idealDatetime := some (atHour 13) },
      { threeCentJob with id := 7, messageId := 7, status := .accepted },
      { threeCentJob with id := 8, messageId := 8 }] }

/-- A goal of the given cents until noon. -/
def noonGoal (cents : ℕ) (h : 0 < cents) : WorkGoal :=
  ⟨1, 9, cents, none, some (atHour 12), h⟩

/-- All jobs but the last, and an unknown one. -/
def variedIds : List ℤ := [5, 4, 6, 99, 3, 2, 7, 1]

/-- The match for a text, when the index has ranked these jobs. -/
def variedMatch (cents : ℕ) (h : 0 < cents) : Except AppStop MatchResult × AppWorld :=
  (matchJobs (rankedIds variedIds) (noonGoal cents h) (some "yard work")).run
    (.opened variedJobs [])

theorem exists_of_answer {x : Except AppStop MatchResult × AppWorld} {p : MatchResult → Bool}
    (h : x.1.toOption.any p = true) : ∃ r w', x = (.ok r, w') ∧ p r = true := by
  obtain ⟨_ | r, w'⟩ := x
  · cases h
  · exact ⟨r, w', rfl, h⟩

/-- The partial flag is truthful, and a partial answer is everything that pays. -/
theorem isPartial_truthful {searcher : JobEmbeddingSearcher} {goal : WorkGoal}
    {queryText : Option String} {w w' : AppWorld} {r : MatchResult}
    (h : (matchJobs searcher goal queryText).run w = (.ok r, w')) :
    ∃ candidates w₁, (builtCandidates searcher goal queryText).run w = (.ok candidates, w₁) ∧
      (r.isPartial = true ↔
        ¬∃ S, S.Sublist candidates ∧ goal.targetEarnings ≤ totalEarnings S) ∧
      (r.isPartial = true →
        r.jobs.Perm (candidates.filter fun c => 0 < c.earnings) ∧
          r.totalEarnings = totalEarnings candidates) := by
  obtain ⟨candidates, w₁, hbuilt, rfl⟩ := eq_resultFor_of_run h
  exact ⟨candidates, w₁, hbuilt, isPartial_iff_unreachable candidates goal,
    resultFor_of_isPartial⟩

theorem isPartial_truthful_varied :
    ∃ r w' candidates w₁, variedMatch 30 (by decide) = (.ok r, w') ∧
      (builtCandidates (rankedIds variedIds) (noonGoal 30 (by decide)) (some "yard work")).run
        (.opened variedJobs []) = (.ok candidates, w₁) ∧
      (r.isPartial = true ↔ ¬∃ S, S.Sublist candidates ∧ 30 ≤ totalEarnings S) ∧
      r.jobs.Perm (candidates.filter fun c => 0 < c.earnings) ∧
      r.totalEarnings = totalEarnings candidates ∧ r.totalEarnings = 20 := by
  have hanswer : (variedMatch 30 (by decide)).1.toOption.any (fun r =>
      r.isPartial && decide (r.totalEarnings = 20)) = true := by decide +kernel
  obtain ⟨r, w', hrun, hr⟩ := exists_of_answer hanswer
  obtain ⟨hshort, htotal⟩ := Bool.and_eq_true_iff.mp hr
  obtain ⟨candidates, w₁, hbuilt, hiff, hall⟩ := isPartial_truthful hrun
  exact ⟨r, w', candidates, w₁, hrun, hbuilt, hiff, (hall hshort).1, (hall hshort).2,
    of_decide_eq_true htotal⟩

end Vici.MatchService
