import Vici.Handlers
import Vici.OfferedJobs
import Vici.PersistedMatches

/-!
# What matching records, whatever the environment does

A pair is left out of the match table only when the environment answers its
insert with an integrity error which no row is to blame for; every other error
ends the unit of work. So a match which returns has added the pairs of its own
result and of no other job, and without such an answer it has added all of them.
-/
namespace Vici.RecordedOffers
open Models AppPrograms SessionPrograms KeyedRows MatchSelection MatchService PersistedMatches
open OfferedJobs
open Program (Triple Keeps Refused)

section
variable {searcher : JobEmbeddingSearcher} {goal : WorkGoal} {queryText : Option String}
variable {w w' : AppWorld} {r : MatchResult} {jobId workGoalId : ℕ} {jobIds : List ℕ}

/-- The insert of a pair, as the loop of `persist_matches` runs it. -/
def recordPair (workGoalId jobId : ℕ) : App Unit :=
  .attempt (.savepoint (.statement (insertMatch jobId workGoalId)))
    fun e => if e = .infra .integrity then some (pure ()) else none

/-- A savepoint which is left by an error has changed nothing. -/
theorem store_of_raised {e : AppStop}
    (h : (Program.savepoint (.statement (insertMatch jobId workGoalId)) : App Unit).run w =
      (.error e, w')) : w'.store = w.store := by
  have htriple : Triple (· = w.store)
      (Program.savepoint (.statement (insertMatch jobId workGoalId)) : App Unit)
      (fun _ _ => True) (fun _ s => s = w.store) := by
    refine .savepoint (fun _ _ _ hs => hs) ?_
    rintro s rfl
    refine .statement (fun _ _ _ hs => hs ▸ rfl) (fun _ _ hs _ => hs ▸ rfl) ?_
    rintro s _ d rfl _
    exact ⟨trivial, fun _ _ => rfl⟩
  exact htriple.error rfl h

/-- The pair is in the table afterwards, unless the environment has said that it is. -/
theorem run_recordPair_ok (hjob : jobId ∈ w.store.session.jobs.map Job.id)
    (hgoal : workGoalId ∈ w.store.session.workGoals.map WorkGoal.id)
    (h : (recordPair workGoalId jobId).run w = (.ok (), w')) :
    w'.store = (withMatches w
        (addAbsent pair newMatch w.store.session.matchRows (jobId, workGoalId))).store ∨
      w'.store = w.store ∧ Refused .integrity w.faults := by
  rcases hpoint : (Program.savepoint (.statement (insertMatch jobId workGoalId)) : App Unit).run w
    with ⟨(e | _) | _, w₁⟩
  · have hsame := store_of_raised hpoint
    by_cases he : e = .infra .integrity
    · subst he
      rw [recordPair, Program.run_attempt_of_caught hpoint (if_pos rfl)] at h
      cases h
      by_cases hmem : (jobId, workGoalId) ∈ w.store.session.matchRows.map pair
      · left
        rw [addAbsent_of_mem hmem]
        exact hsame
      · refine .inr ⟨hsame, ?_⟩
        rcases Program.run_savepoint_raised hpoint with
          hrefused | ⟨w₂, w₃, hstore, hsuffix, hbody⟩
        · exact hrefused
        · rcases Program.run_statement_raised hbody with hrefused | herror
          · exact hrefused.of_suffix hsuffix
          · rw [hstore, insertMatch_of_notMem hmem hjob hgoal] at herror
            cases herror
    · rw [recordPair, Program.run_attempt_of_missed hpoint (if_neg he)] at h
      cases h
  · simp [recordPair, Program.attempt, hpoint] at h
  · rw [recordPair, Program.run_attempt_of_ok hpoint] at h
    cases h
    obtain ⟨w₂, w₃, hstore, hbody, hstore'⟩ := Program.run_savepoint_inv hpoint
    obtain ⟨d, hinsert, hd⟩ := Program.run_statement_store hbody
    rw [hstore] at hinsert hd
    obtain ⟨hnew, rfl⟩ := insertMatch_ok hinsert
    left
    rw [hstore', hd, addAbsent_of_notMem hnew]
    rfl

/-- The pairs which a loop has recorded are those of some of its jobs, and of all unless the
environment has claimed a conflict. -/
theorem run_persistMatches_ok (hjobs : ∀ j ∈ jobIds, j ∈ w.store.session.jobs.map Job.id)
    (hgoal : workGoalId ∈ w.store.session.workGoals.map WorkGoal.id)
    (h : (persistMatches jobIds workGoalId).run w = (.ok (), w')) :
    ∃ kept : List ℕ, kept.Sublist jobIds ∧
      (¬Refused .integrity w.faults → kept = jobIds) ∧
      w'.store = (withMatches w (united kept workGoalId w.store.session.matchRows)).store := by
  induction jobIds generalizing w with
  | nil =>
      cases h
      exact ⟨[], .slnil, fun _ => rfl, rfl⟩
  | cons jobId jobIds ih =>
      obtain ⟨_, w₁, hone, hrest⟩ := Program.run_bind_ok h
      have hsuffix := Program.faults_of_run hone
      rcases run_recordPair_ok (hjobs jobId List.mem_cons_self) hgoal hone with
        hadded | ⟨hsame, hrefused⟩
      · obtain ⟨kept, hkept, hall, hstore⟩ := ih (w := w₁)
          (by rw [hadded]; exact fun j hj => hjobs j (List.mem_cons_of_mem _ hj))
          (by rw [hadded]; exact hgoal) hrest
        refine ⟨jobId :: kept, hkept.cons_cons _, fun hnone => ?_, ?_⟩
        · rw [hall fun hrefused => hnone (hrefused.of_suffix hsuffix)]
        · rw [hstore]
          simp only [withMatches, hadded]
          rfl
      · obtain ⟨kept, hkept, _, hstore⟩ := ih (w := w₁)
          (by rw [hsame]; exact fun j hj => hjobs j (List.mem_cons_of_mem _ hj))
          (by rw [hsame]; exact hgoal) hrest
        refine ⟨kept, hkept.cons _, fun hnone => absurd hrefused hnone, ?_⟩
        rw [hstore]
        simp only [withMatches, hsame]

theorem run_retrieveCandidates_store {jobs : List Job}
    (h : (retrieveCandidates searcher goal queryText).run w = (.ok jobs, w')) :
    w'.store = w.store :=
  (Handlers.keeps_retrieveCandidates (P := (· = w.store)) (R := fun _ => True) trivial searcher
    goal queryText).ok rfl h

theorem run_buildCandidates_store {jobs : List Job} {candidates : List JobCandidate}
    (h : (buildCandidates jobs).run w = (.ok candidates, w')) : w'.store = w.store :=
  (buildCandidates_ok h).2.2

theorem run_allocateTables_store {candidates : List JobCandidate} {target : ℕ}
    (h : (allocateTables candidates target).run w = (.ok (), w')) : w'.store = w.store :=
  (Handlers.keeps_allocateTables (P := (· = w.store)) (R := fun _ => True) trivial candidates
    target).ok rfl h

theorem workGoal_of_match (h : (matchJobs searcher goal queryText).run w = (.ok r, w')) :
    r.workGoal = goal := by
  obtain ⟨candidates, _, _, rfl⟩ := eq_resultFor_of_run h
  rfl

/-- What is offered is a row of the job table. -/
theorem job_mem_of_match (h : (matchJobs searcher goal queryText).run w = (.ok r, w'))
    {c : JobCandidate} (hc : c ∈ r.jobs) : c.job ∈ w.store.session.jobs := by
  obtain ⟨candidates, w₁, hbuilt, rfl⟩ := eq_resultFor_of_run h
  obtain ⟨jobs, w₂, hjobs, rfl⟩ := builtCandidates_ok hbuilt
  obtain ⟨job, hjob, hof⟩ := List.mem_filterMap.mp (mem_of_mem_resultFor hc).1
  obtain ⟨rfl, _⟩ := candidateOf_eq_some hof
  exact (eligible_of_retrieved hjobs hjob).1

/-- A match adds the pairs of its result to the match table and changes nothing else. -/
theorem matchJobs_records (hgoal : goal.id ∈ w.store.session.workGoals.map WorkGoal.id)
    (h : (matchJobs searcher goal queryText).run w = (.ok r, w')) :
    ∃ kept : List ℕ, kept.Sublist (r.jobs.map fun c => c.job.id) ∧
      (¬Refused .integrity w.faults → kept = r.jobs.map fun c => c.job.id) ∧
      w'.store = (withMatches w (united kept goal.id w.store.session.matchRows)).store := by
  have hoffered : ∀ c ∈ r.jobs, c.job ∈ w.store.session.jobs :=
    fun _ hc => job_mem_of_match h hc
  obtain ⟨rawJobs, w₁, hraw, h⟩ := Program.run_bind_ok h
  have hw₁ := run_retrieveCandidates_store hraw
  split_ifs at h with hempty
  · cases h
    exact ⟨[], .slnil, fun _ => rfl, hw₁⟩
  · obtain ⟨candidates, w₄, hbuilt, h⟩ := Program.run_bind_ok h
    obtain ⟨_, w₂, htables, h⟩ := Program.run_bind_ok h
    have hw₂ : w₂.store = w.store :=
      (run_allocateTables_store htables).trans ((run_buildCandidates_store hbuilt).trans hw₁)
    have hsuffix := (Program.faults_of_run htables).trans
      ((Program.faults_of_run hbuilt).trans (Program.faults_of_run hraw))
    dsimp only at h
    split_ifs at h with hnone
    · cases h
      refine ⟨[], List.nil_sublist _, fun _ => ?_, hw₂⟩
      rw [List.isEmpty_iff.mp hnone, List.map_nil]
    · obtain ⟨_, w₃, hpersist, h⟩ := Program.run_bind_ok h
      cases h
      rw [← hw₂] at hgoal hoffered
      have hknown : ∀ j ∈ (resultFor candidates goal).jobs.map fun c => c.job.id,
          j ∈ w₂.store.session.jobs.map Job.id := by
        intro j hj
        obtain ⟨c, hc, rfl⟩ := List.mem_map.mp hj
        exact List.mem_map_of_mem (hoffered c hc)
      obtain ⟨kept, hkept, hall, hstore⟩ := run_persistMatches_ok hknown hgoal hpersist
      refine ⟨kept, hkept, fun hquiet => hall fun hrefused => ?_, ?_⟩
      · exact hquiet (hrefused.of_suffix hsuffix)
      · rw [hstore]
        simp only [withMatches, hw₂]

end

end Vici.RecordedOffers
