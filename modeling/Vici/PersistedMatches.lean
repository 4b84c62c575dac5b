import Vici.MatchService
import Vici.KeyedRows

/-!
# What recording a selection makes of the match table

Each pair is inserted in a savepoint of its own, so an insert which meets its
pair in the table is undone alone. The table of the repository is thus a table
to which a row is added under every key which is not taken yet, where the key
is the pair; the set of its pairs grows by a union.
-/
namespace Vici.PersistedMatches
open Models AppPrograms SessionPrograms KeyedRows MatchService

/-- The columns of `uq_match_job_work_goal`. -/
def pair (m : Match) : ℕ × ℕ := (m.jobId, m.workGoalId)

def pairs (rows : List Match) : Finset (ℕ × ℕ) := (rows.map pair).toFinset

/-- The row which is inserted for a pair, under the next primary key. -/
def newMatch (rows : List Match) (p : ℕ × ℕ) : Match :=
  ⟨nextId (rows.map Match.id), p.1, p.2⟩

/-- The table after all pairs of the goal were added which it lacked. -/
def united (jobIds : List ℕ) (workGoalId : ℕ) (rows : List Match) : List Match :=
  addAllAbsent pair newMatch (jobIds.map fun jobId => (jobId, workGoalId)) rows

/-- The session shows another match table, and everything else is as it was. -/
def withMatches (w : AppWorld) (rows : List Match) : AppWorld :=
  { w with store := { w.store with session := { w.store.session with matchRows := rows } } }

section
variable {w : AppWorld} {d : Database} {rows : List Match} {jobId workGoalId : ℕ}
variable {jobIds : List ℕ}

@[simp] theorem pair_newMatch (rows : List Match) (p : ℕ × ℕ) : pair (newMatch rows p) = p := rfl

@[simp] theorem matchRows_withMatches (w : AppWorld) (rows : List Match) :
    (withMatches w rows).store.session.matchRows = rows := rfl

@[simp] theorem withMatches_withMatches (w : AppWorld) (rows rows' : List Match) :
    withMatches (withMatches w rows) rows' = withMatches w rows' := rfl

@[simp] theorem withMatches_self (w : AppWorld) :
    withMatches w w.store.session.matchRows = w := rfl

theorem any_pair_iff : (rows.any fun m => decide (m.jobId = jobId ∧ m.workGoalId = workGoalId)) =
    true ↔ (jobId, workGoalId) ∈ rows.map pair := by
  simp [pair]

theorem insertMatch_of_mem (h : (jobId, workGoalId) ∈ d.matchRows.map pair) :
    insertMatch jobId workGoalId d = .error (.infra .integrity) := by
  rw [insertMatch, if_pos (any_pair_iff.mpr h)]

/-- A new pair of rows which exist meets every constraint of the table. -/
theorem insertMatch_of_notMem (h : (jobId, workGoalId) ∉ d.matchRows.map pair)
    (hjob : jobId ∈ d.jobs.map Job.id) (hgoal : workGoalId ∈ d.workGoals.map WorkGoal.id) :
    insertMatch jobId workGoalId d = .ok ((), { d with matchRows :=
      d.matchRows ++ [newMatch d.matchRows (jobId, workGoalId)] }) := by
  have hjobs : (d.jobs.all fun j => decide (j.id ≠ jobId)) = false :=
    all_key_ne_eq_false (List.mem_map.mp hjob)
  have hgoals : (d.workGoals.all fun g => decide (g.id ≠ workGoalId)) = false :=
    all_key_ne_eq_false (List.mem_map.mp hgoal)
  rw [insertMatch, if_neg (mt any_pair_iff.mp h), hjobs, hgoals]
  rfl

theorem insertMatch_ok {d' : Database} (h : insertMatch jobId workGoalId d = .ok ((), d')) :
    (jobId, workGoalId) ∉ d.matchRows.map pair ∧
      d' = { d with matchRows := d.matchRows ++ [newMatch d.matchRows (jobId, workGoalId)] } := by
  unfold insertMatch at h
  split_ifs at h with hany
  cases h
  exact ⟨mt any_pair_iff.mpr hany, rfl⟩

/-- The insert in its savepoint adds the pair when it is absent. -/
theorem run_insertMatch (hcalm : w.faults = []) (hjob : jobId ∈ w.store.session.jobs.map Job.id)
    (hgoal : workGoalId ∈ w.store.session.workGoals.map WorkGoal.id) :
    (Program.attempt (.savepoint (.statement (insertMatch jobId workGoalId)))
      fun e => if e = .infra .integrity then some (pure ()) else none : App Unit).run w =
        (.ok (), withMatches w
          (addAbsent pair newMatch w.store.session.matchRows (jobId, workGoalId))) := by
  by_cases h : (jobId, workGoalId) ∈ w.store.session.matchRows.map pair
  · have hinsert : (Program.statement (insertMatch jobId workGoalId) : App Unit).run w =
        (.error (.raised (.infra .integrity)), w) :=
      Program.run_statement_error hcalm (insertMatch_of_mem h)
    rw [Program.run_attempt_of_caught (Program.run_savepoint_of_error hcalm hinsert) (if_pos rfl),
      addAbsent_of_mem h]
    rfl
  · have hinsert := Program.run_statement_ok hcalm (insertMatch_of_notMem h hjob hgoal)
    rw [Program.run_attempt_of_ok (Program.run_savepoint_of_ok hcalm hinsert),
      addAbsent_of_notMem h]
    rfl

/-- A conflict loses neither what was inserted before it nor what comes after. -/
theorem run_persistMatches_of_known (hcalm : w.faults = [])
    (hjobs : ∀ jobId ∈ jobIds, jobId ∈ w.store.session.jobs.map Job.id)
    (hgoal : workGoalId ∈ w.store.session.workGoals.map WorkGoal.id) :
    (persistMatches jobIds workGoalId).run w =
      (.ok (), withMatches w (united jobIds workGoalId w.store.session.matchRows)) := by
  induction jobIds generalizing w with
  | nil => rfl
  | cons jobId jobIds ih =>
      have hone := run_insertMatch hcalm (hjobs jobId List.mem_cons_self) hgoal
      have hrest := ih (w := withMatches w
        (addAbsent pair newMatch w.store.session.matchRows (jobId, workGoalId))) hcalm
        (fun j hj => hjobs j (List.mem_cons_of_mem _ hj)) hgoal
      rw [persistMatches, Program.forEach, Program.run_bind_of_ok hone]
      exact hrest

theorem pairs_united (rows : List Match) : pairs (united jobIds workGoalId rows) =
    pairs rows ∪ (jobIds.map fun jobId => (jobId, workGoalId)).toFinset := by
  ext p
  rw [pairs, pairs, Finset.mem_union, List.mem_toFinset, List.mem_toFinset, List.mem_toFinset]
  exact mem_map_addAllAbsent pair_newMatch

theorem united_of_subset {again : List ℕ} (h : again ⊆ jobIds) :
    united again workGoalId (united jobIds workGoalId rows) = united jobIds workGoalId rows := by
  apply addAllAbsent_of_subset
  intro p hp
  obtain ⟨jobId, hjobId, rfl⟩ := List.mem_map.mp hp
  exact (mem_map_addAllAbsent pair_newMatch).mpr (.inr (List.mem_map_of_mem (h hjobId)))

/-- Whatever the environment does, no row is lost and no pair is recorded twice. -/
theorem keeps_rows (hpairs : (rows.map pair).Nodup) {w w' : AppWorld} {r : Except AppStop Unit}
    (hrows : w.store.session.matchRows = rows)
    (hrun : (persistMatches jobIds workGoalId).run w = (r, w')) :
    rows <+: w'.store.session.matchRows ∧ (w'.store.session.matchRows.map pair).Nodup := by
  have hkeeps : Program.Keeps (fun s => rows <+: s.session.matchRows ∧
      (s.session.matchRows.map pair).Nodup) (fun _ => True)
      (persistMatches jobIds workGoalId) := by
    refine keeps_persistMatches (fun s jobId d hs hok => ?_) (fun s _ hs _ => hs) jobIds
    obtain ⟨hnew, rfl⟩ := insertMatch_ok hok
    exact ⟨hs.1.trans (List.prefix_append _ _), nodup_map_concat hs.2 hnew⟩
  have hstore := hkeeps.store (w := w) ⟨hrows ▸ List.prefix_rfl, by rw [hrows]; exact hpairs⟩
  rwa [hrun] at hstore

/-- Undisturbed, recording jobs for a goal keeps every row of the table, makes its pairs
the union with the given ones, none of them twice, and has nothing left to do afterwards. -/
theorem persistMatches_unites (hcalm : w.faults = [])
    (hpairs : (w.store.session.matchRows.map pair).Nodup)
    (hjobs : ∀ jobId ∈ jobIds, jobId ∈ w.store.session.jobs.map Job.id)
    (hgoal : workGoalId ∈ w.store.session.workGoals.map WorkGoal.id) :
    ∃ rows, (persistMatches jobIds workGoalId).run w = (.ok (), withMatches w rows) ∧
      w.store.session.matchRows <+: rows ∧
      pairs rows = pairs w.store.session.matchRows ∪
        (jobIds.map fun jobId => (jobId, workGoalId)).toFinset ∧
      (rows.map pair).Nodup ∧
      ∀ again : List ℕ, again.Perm jobIds →
        (persistMatches again workGoalId).run (withMatches w rows) =
          (.ok (), withMatches w rows) := by
  refine ⟨united jobIds workGoalId w.store.session.matchRows,
    run_persistMatches_of_known hcalm hjobs hgoal, prefix_addAllAbsent _ _, pairs_united _,
    nodup_map_addAllAbsent pair_newMatch hpairs, ?_⟩
  intro again hperm
  have hknown : ∀ jobId ∈ again, jobId ∈ w.store.session.jobs.map Job.id :=
    fun jobId hjobId => hjobs jobId (hperm.subset hjobId)
  have hrun := run_persistMatches_of_known (w := withMatches w
    (united jobIds workGoalId w.store.session.matchRows)) hcalm hknown hgoal
  rw [hrun, matchRows_withMatches, united_of_subset hperm.subset, withMatches_withMatches]

end

/-- Two jobs, the first of which is recorded for the goal. -/
def halfRecorded : Database :=
  { oneJobDatabase with
    jobs := [threeCentJob, { threeCentJob with id := 2, messageId := 3 }]
    matchRows := [⟨4, 1, 1⟩] }

theorem persistMatches_unites_halfRecorded :
    ∃ rows, (persistMatches [2, 1, 2] 1).run (.opened halfRecorded []) =
        (.ok (), withMatches (.opened halfRecorded []) rows) ∧
      [⟨4, 1, 1⟩] <+: rows ∧ pairs rows = {(1, 1), (2, 1)} ∧
      (persistMatches [1, 2, 2] 1).run (withMatches (.opened halfRecorded []) rows) =
        (.ok (), withMatches (.opened halfRecorded []) rows) := by
  have hjobs : ∀ jobId ∈ [2, 1, 2], jobId ∈ halfRecorded.jobs.map Job.id := by decide
  have hgoal : 1 ∈ halfRecorded.workGoals.map WorkGoal.id := by decide
  obtain ⟨rows, hrun, hprefix, hunion, _, hagain⟩ :=
    persistMatches_unites (w := .opened halfRecorded []) rfl (by decide) hjobs hgoal
  refine ⟨rows, hrun, hprefix, ?_, hagain [1, 2, 2] (by decide)⟩
  rw [hunion]
  decide

end Vici.PersistedMatches
