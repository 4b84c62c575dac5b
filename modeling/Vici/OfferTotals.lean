import Vici.OfferedJobs

/-!
# What the totals of an offer depend on

The knapsack reads of a candidate what it earns and how long it takes. So the
totals of an offer do not depend on the order in which the database and the vector
index return their rows, which decides between equal offers only; and neither
further jobs nor a later deadline nor a higher target ever makes them smaller.
-/
namespace Vici.OfferTotals
open Models Datetimes AppPrograms SessionPrograms MatchSelection MatchService LeastCostSubset
open JobRepository CandidateRetrieval OfferedJobs KeyedRows

/-- What the knapsack reads of a candidate. -/
def worth (c : JobCandidate) : ℕ × ℚ := (c.earnings, c.duration)

section
variable {cs cs' S T : List JobCandidate} {target target' : ℕ}

theorem totals_of_perm (h : (T.map worth).Perm (S.map worth)) :
    totalEarnings T = totalEarnings S ∧ totalDuration T = totalDuration S := by
  constructor
  · simpa [worth, totalEarnings, totalWeight, Function.comp_def] using (h.map Prod.fst).sum_eq
  · simpa [worth, totalDuration, totalCost, Function.comp_def] using (h.map Prod.snd).sum_eq

theorem maxEarning_mono (h : (cs.map worth).Subperm (cs'.map worth)) :
    maxEarning cs ≤ maxEarning cs' := by
  refine List.max_le_of_forall_le _ _ fun e he => ?_
  obtain ⟨c, hc, rfl⟩ := List.mem_map.mp he
  obtain ⟨c', hc', heq⟩ := List.mem_map.mp (h.subset (List.mem_map_of_mem hc))
  have hearnings : c'.earnings = c.earnings := congrArg Prod.fst heq
  exact hearnings ▸ le_maxEarning hc'

theorem capacity_mono (h : (cs.map worth).Subperm (cs'.map worth)) (htarget : target ≤ target') :
    capacity cs target ≤ capacity cs' target' := by
  obtain ⟨T, hT, hperm⟩ := exists_sublist_of_subperm h (.refl cs)
  have htotal : totalEarnings cs ≤ totalEarnings cs' := by
    rw [← (totals_of_perm hperm).1]
    exact totalWeight_sublist JobCandidate.earnings hT
  exact min_le_min htotal (Nat.add_le_add htarget (maxEarning_mono h))

theorem sumsWithin_mono (h : (cs.map worth).Subperm (cs'.map worth))
    (htarget : target ≤ target') : sumsWithin cs target ⊆ sumsWithin cs' target' := by
  rintro s ⟨hs, S, hS, rfl⟩
  obtain ⟨T, hT, hperm⟩ := exists_sublist_of_subperm h hS
  exact ⟨hs.trans (capacity_mono h htarget), T, hT, (totals_of_perm hperm).1⟩

/-- More candidates and a higher target never lower the sum. -/
theorem totalEarnings_dpSelect_mono (h : (cs.map worth).Subperm (cs'.map worth))
    (htarget : target ≤ target') :
    totalEarnings (dpSelect cs target) ≤ totalEarnings (dpSelect cs' target') :=
  (dpSelect_spec cs' target').2.1.2 (sumsWithin_mono h htarget (dpSelect_spec cs target).2.1.1)

/-- More candidates never make the same sum take longer. -/
theorem totalDuration_dpSelect_le (h : (cs.map worth).Subperm (cs'.map worth))
    (hsum : totalEarnings (dpSelect cs target) = totalEarnings (dpSelect cs' target')) :
    totalDuration (dpSelect cs' target') ≤ totalDuration (dpSelect cs target) := by
  obtain ⟨S, hS, hsame⟩ : ∃ S : List JobCandidate, S.Sublist cs ∧
      S.Perm (dpSelect cs target) :=
    ⟨_, (dpSelect_spec cs target).1, List.reverse_perm _⟩
  obtain ⟨T, hT, hperm⟩ := exists_sublist_of_subperm h hS
  obtain ⟨hearnings, hduration⟩ := totals_of_perm (hperm.trans (hsame.map worth))
  rw [← hduration]
  exact (dpSelect_spec cs' target').2.2 T hT (hearnings.trans hsum)

end

def worthOf (job : Job) : Option (ℕ × ℚ) :=
  job.payTerms.earnings.map fun earnings =>
    (earnings.toNat, job.payTerms.durationHours.getD 0)

/-- The posters have no part in what the candidates are worth. -/
theorem map_worth_candidatesOf (jobs : List Job) (d : Database) :
    (candidatesOf jobs d).map worth = jobs.filterMap worthOf := by
  rw [candidatesOf, List.map_filterMap]
  apply List.filterMap_congr
  intro job _
  rw [candidateOf, worthOf, Option.map_map]
  rfl

theorem worth_subperm {jobs jobs' : List Job} (h : jobs.Subperm jobs') (d d' : Database) :
    ((candidatesOf jobs d).map worth).Subperm ((candidatesOf jobs' d').map worth) := by
  obtain ⟨rows, hperm, hsub⟩ := h
  rw [map_worth_candidatesOf, map_worth_candidatesOf]
  exact ⟨_, hperm.filterMap worthOf, hsub.filterMap worthOf⟩

/-- The result sorts what was selected. -/
theorem totalDuration_resultFor (candidates : List JobCandidate) (goal : WorkGoal) :
    totalDuration (resultFor candidates goal).jobs =
      totalDuration (dpSelect candidates goal.targetEarnings) :=
  totalCost_perm JobCandidate.duration (sortResults_perm _)

/-- The ids which the index answers a text with. -/
def answered (searcher : JobEmbeddingSearcher) (text : String) : List ℤ :=
  match searcher with
  | none => []
  | some search => (search text semanticTopK).map Prod.fst

/-- The two indexes answer every text with the same ids, in whatever order. -/
def SameHits (searcher searcher' : JobEmbeddingSearcher) : Prop :=
  ∀ text, (answered searcher text).Perm (answered searcher' text)

/-- The scan is not cut at its row limit. -/
def Scannable (deadline : Option Datetime) (jobs : List Job) : Prop :=
  ∀ eligible, eligibilityStmt deadline = .ok eligible → jobs.countP eligible ≤ maxCandidates

section
variable {searcher searcher' : JobEmbeddingSearcher} {queryText : Option String}
variable {deadline deadline' : Option Datetime} {eligible eligible' : Job → Bool}
variable {jobs jobs' : List Job} {jobIds jobIds' : List ℤ}

theorem hits_perm (hkeys : (jobs.map Job.id).Nodup) (hjobs : jobs.Perm jobs')
    (hids : jobIds.Perm jobIds') :
    (hits eligible jobIds jobs).Perm (hits eligible jobIds' jobs') := by
  have hkeys' : (jobs'.map Job.id).Nodup := (hjobs.map Job.id).nodup hkeys
  have hrows : (computableOnly (jobs.filter eligible)).Perm
      (computableOnly (jobs'.filter eligible)) := (hjobs.filter _).filter _
  rw [hits_eq_rowsOf hkeys, hits_eq_rowsOf hkeys', rowsOf, rowsOf]
  have hfind (i : ℤ) : ((computableOnly (jobs.filter eligible)).find? fun job =>
      decide ((job.id : ℤ) = i)) = (computableOnly (jobs'.filter eligible)).find? fun job =>
        decide ((job.id : ℤ) = i) := by
    ext job
    rw [find?_key_eq_some (nodup_castId (nodup_computableOnly_filter hkeys eligible)),
      find?_key_eq_some (nodup_castId (nodup_computableOnly_filter hkeys' eligible)),
      hrows.mem_iff]
  simp only [hfind]
  exact hids.filterMap _

theorem scanned_of_scannable (heligible : eligibilityStmt deadline = .ok eligible)
    (h : Scannable deadline jobs) :
    scanned eligible jobs = computableOnly (jobs.filter eligible) := by
  rw [scanned, List.take_of_length_le]
  simpa [List.countP_eq_length_filter] using h eligible heligible

theorem usedHits_eq (heligible : eligibilityStmt deadline = .ok eligible) :
    usedHits searcher queryText deadline jobs =
      match queryText with
      | some text =>
          if text.isEmpty = false ∧
              semanticMinCandidates ≤ (hits eligible (answered searcher text) jobs).length then
            hits eligible (answered searcher text) jobs
          else []
      | none => [] := by
  unfold usedHits
  rw [heligible]
  rcases searcher with _ | search <;> rcases queryText with _ | text
  · rfl
  · simp [answered, hits]
  · rfl
  · rfl

theorem pool_perm (hkeys : (jobs.map Job.id).Nodup) (hjobs : jobs.Perm jobs')
    (hsame : SameHits searcher searcher') (hscan : Scannable deadline jobs) :
    (pool searcher queryText deadline jobs).Perm (pool searcher' queryText deadline jobs') := by
  unfold pool
  cases heligible : eligibilityStmt deadline with
  | error e => exact .refl _
  | ok eligible =>
      have hscan' : Scannable deadline jobs' := fun eligible h => by
        rw [← hjobs.countP_eq]
        exact hscan eligible h
      have hused : (usedHits searcher queryText deadline jobs).Perm
          (usedHits searcher' queryText deadline jobs') := by
        rw [usedHits_eq heligible, usedHits_eq heligible]
        cases queryText with
        | none => exact .refl _
        | some text =>
            have hhits : (hits eligible (answered searcher text) jobs).Perm
                (hits eligible (answered searcher' text) jobs') :=
              hits_perm hkeys hjobs (hsame text)
            dsimp only
            rw [hhits.length_eq]
            split_ifs
            · exact hhits
            · exact .refl _
      have hscanned : (scanned eligible jobs).Perm (scanned eligible jobs') := by
        rw [scanned_of_scannable heligible hscan, scanned_of_scannable heligible hscan']
        exact (hjobs.filter _).filter _
      dsimp only
      rw [hused.isEmpty_eq]
      split_ifs
      · exact hscanned
      · exact hused

end

section
variable {searcher searcher' : JobEmbeddingSearcher} {queryText queryText' : Option String}
variable {goal goal' : WorkGoal} {w w₁ w' w₁' : AppWorld} {r r' : MatchResult}

/-- The order in which rows and hits come does not change the totals of an offer. -/
theorem totals_order_free (hcalm : w.faults = []) (hcalm' : w'.faults = [])
    (hkeys : (w.store.session.jobs.map Job.id).Nodup)
    (hjobs : w.store.session.jobs.Perm w'.store.session.jobs)
    (hscan : Scannable goal.targetDeadline w.store.session.jobs)
    (hsame : SameHits searcher searcher')
    (h : (matchJobs searcher goal queryText).run w = (.ok r, w₁))
    (h' : (matchJobs searcher' goal queryText).run w' = (.ok r', w₁')) :
    r'.totalEarnings = r.totalEarnings ∧ r'.isPartial = r.isPartial ∧
      totalDuration r'.jobs = totalDuration r.jobs := by
  rw [eq_resultFor_of_calm hcalm h, eq_resultFor_of_calm hcalm' h']
  have hpool : (pool searcher queryText goal.targetDeadline w.store.session.jobs).Perm
      (pool searcher' queryText goal.targetDeadline w'.store.session.jobs) :=
    pool_perm hkeys hjobs hsame hscan
  have hworth := worth_subperm hpool.subperm w.store.session w'.store.session
  have hworth' := worth_subperm hpool.symm.subperm w'.store.session w.store.session
  have htotal := le_antisymm (totalEarnings_dpSelect_mono hworth' le_rfl)
    (totalEarnings_dpSelect_mono hworth (le_refl goal.targetEarnings))
  refine ⟨?_, ?_, ?_⟩
  · rw [totalEarnings_resultFor, totalEarnings_resultFor, htotal]
  · rw [Bool.eq_iff_iff, isPartial_iff_lt, isPartial_iff_lt, htotal]
  · rw [totalDuration_resultFor, totalDuration_resultFor]
    exact le_antisymm (totalDuration_dpSelect_le hworth htotal.symm)
      (totalDuration_dpSelect_le hworth' htotal)

end

def sixJobsReversed : Database := { sixJobs with jobs := sixJobs.jobs.reverse }

theorem scannable_of_length {deadline : Option Datetime} {jobs : List Job}
    (h : jobs.length ≤ maxCandidates) : Scannable deadline jobs :=
  fun _ _ => List.countP_le_length.trans h

theorem totals_order_free_reversed :
    ∃ r r' w w', (matchJobs (rankedIds [1, 2, 3, 4, 5]) tenCentGoal (some "work")).run
        (.opened sixJobs []) = (.ok r, w) ∧
      (matchJobs (rankedIds [5, 4, 3, 2, 1]) tenCentGoal (some "work")).run
        (.opened sixJobsReversed []) = (.ok r', w') ∧
      r'.totalEarnings = r.totalEarnings ∧ r'.isPartial = r.isPartial ∧
        totalDuration r'.jobs = totalDuration r.jobs := by
  have hanswerable : Answerable (rankedIds [1, 2, 3, 4, 5]) tenCentGoal (some "work")
      sixJobs.jobs := ⟨⟨_, rfl⟩, by decide, by decide⟩
  have hanswerable' : Answerable (rankedIds [5, 4, 3, 2, 1]) tenCentGoal (some "work")
      sixJobsReversed.jobs := ⟨⟨_, rfl⟩, by decide, by decide⟩
  obtain ⟨w, hrun⟩ := run_matchJobs_of_calm (w := .opened sixJobs []) rfl hanswerable
  obtain ⟨w', hrun'⟩ := run_matchJobs_of_calm (w := .opened sixJobsReversed []) rfl hanswerable'
  have hkeys : (sixJobs.jobs.map Job.id).Nodup := by decide
  have hsame : SameHits (rankedIds [1, 2, 3, 4, 5]) (rankedIds [5, 4, 3, 2, 1]) :=
    fun _ => List.reverse_perm [5, 4, 3, 2, 1]
  exact ⟨_, _, w, w', hrun, hrun', totals_order_free rfl rfl hkeys
    (List.reverse_perm sixJobs.jobs).symm (scannable_of_length (by decide)) hsame hrun hrun'⟩

end Vici.OfferTotals
