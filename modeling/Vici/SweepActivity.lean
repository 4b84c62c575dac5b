import Vici.SyncSweeps

/-!
# The activity of a sweep

One run of the activity takes the steps of one sweep: whatever the environment
does to it, it leaves behind the rows and the vectors which some run of the
system of sweeps leaves behind.
-/
namespace Vici.SweepActivity
open Models AppPrograms SessionPrograms SyncQueueRepository Handlers ActionRuns KeyedRows
open SyncSweeps
open Program (Triple)

/-- The recorded error; the row's block itself raises only one, for a missing description. -/
def errorText (str : InfraError → String) : AppExn → String
  | .infra e => str e
  | .app _ => noDescription

def flushEntry (entry : PineconeSyncQueue) : App Unit :=
  .statement fun db =>
    .ok ((), { db with syncQueue := overwrite PineconeSyncQueue.id [entry] db.syncQueue })

def writeRow (row : PendingJobEmbedding) : App Unit :=
  match row.description with
  | none => .raise .valueError
  | some description => writeJobEmbedding row.entry.jobId description row.phoneHash

def syncRow (str : InfraError → String) (row : PendingJobEmbedding) : App Unit :=
  .attempt (do
    writeRow row
    flushEntry (markSynced row.entry)) fun e =>
      some (flushEntry (markFailed (errorText str e) row.entry))

def syncPineconeQueueActivity (locked : ℕ → Bool) (str : InfraError → String) : App Unit :=
  .closing (do
    let pending ← .query fun db => claimPending db locked pineconeSyncBatchSize
    .forEach (syncRow str) pending
    .commit)

/-- The jobs whose vectors a program has written. -/
def upsertedJobs (log : List (Event Database Effect)) : Finset ℕ :=
  (log.filterMap fun
    | .effect (.vectorUpserted jobId _ _) => some jobId
    | _ => none).toFinset

theorem upsertedJobs_logged (s : AppStore) (jobId : ℕ) (description phoneHash : String) :
    upsertedJobs (Program.logged (.vectorUpserted jobId description phoneHash) s).log =
      insert jobId (upsertedJobs s.log) := by
  ext k
  simp [upsertedJobs, Program.logged]

theorem upsertedJobs_committed (log : List (Event Database Effect)) (d : Database) :
    upsertedJobs (log ++ [.committed d]) = upsertedJobs log := by
  simp [upsertedJobs]

theorem claimable_claimPending {s : State} (hs : Valid s) (hkeys : UniqueKeys s.database) :
    Claimable s
      (claimPending s.database (fun k => (s.locks k).isSome) pineconeSyncBatchSize) := by
  refine ⟨fun p hp => ?_, claimPending_pairwise hkeys hs.nodup, List.length_take_le _ _⟩
  obtain ⟨⟨hmem, hpending, hfree⟩, hjoin⟩ := mem_claimPending hp
  exact ⟨⟨hmem, hpending, by simpa using hfree⟩, hjoin⟩

section
variable {s : State} {i : ℕ} {extra : Finset ℕ}

/-- The program is where a run of the system has brought the sweep; the vectors of `extra`
have been written already. -/
def Tracks (s : State) (i : ℕ) (extra : Finset ℕ) (todo : List PendingJobEmbedding)
    (st : AppStore) : Prop :=
  ∃ as t done, exec step s as = some t ∧ t.sweeps i = .running done todo ∧
    t.database = s.database ∧ st.committed = s.database ∧
    st.session = (s.withQueue (overwrite PineconeSyncQueue.id (marked done) s.queue)).database ∧
    s.index ∪ upsertedJobs st.log = t.index ∪ extra

/-- What the program leaves behind is what a run of the system leaves behind. -/
def LeavesBehind (s : State) (st : AppStore) : Prop :=
  ∃ as t, exec step s as = some t ∧ t.database = st.committed ∧
    t.index = s.index ∪ upsertedJobs st.log

theorem tracks_of_claim (hs : Valid s) (hkeys : UniqueKeys s.database)
    (hidle : s.sweeps i = .idle) {st : AppStore} (hcommitted : st.committed = s.database)
    (hsession : st.session = s.database) (hlog : upsertedJobs st.log = ∅) :
    Tracks s i ∅ (claimPending s.database (fun k => (s.locks k).isSome) pineconeSyncBatchSize)
      st := by
  have hclaim := claimable_claimPending hs hkeys
  set rows := claimPending s.database (fun k => (s.locks k).isSome) pineconeSyncBatchSize
  refine ⟨[.claim i rows], s.begun i rows, [], ?_, Function.update_self _ _ _, rfl, hcommitted,
    ?_, ?_⟩
  · simp [exec, step, hidle, hclaim]
  · simp [hsession, State.withQueue, marked]
  · simp [hlog, State.begun, State.move]

/-- The next row is done with, and its mark is flushed. -/
theorem Tracks.write (hs : Valid s) {row : PendingJobEmbedding} {todo : List PendingJobEmbedding}
    {st : AppStore} (h : Tracks s i extra (row :: todo) st) (outcome : Write)
    (hpossible : outcome.Possible row.description)
    (hextra : extra = if outcome.lands then {row.entry.jobId} else ∅) :
    Tracks s i ∅ todo { st with session := { st.session with
      syncQueue := overwrite PineconeSyncQueue.id [outcome.mark row.entry]
        st.session.syncQueue } } := by
  obtain ⟨as, t, done, hrun, hi, hdb, hcommitted, hsession, hindex⟩ := h
  have hwrite : step t (.write i outcome) = some (t.recorded i done row todo outcome) := by
    simp [step, hi, hpossible]
  have hfresh : (outcome.mark row.entry).id ∉ (marked done).map PineconeSyncQueue.id := by
    have ht : Valid t :=
      exec_invariant Valid (fun _ _ _ _ => valid_step) (along_true s as) hs hrun
    have hnodup := (ht.sweeps i).nodup
    rw [hi, Sweep.claimed, List.map_append, List.nodup_append] at hnodup
    rw [id_mark, map_id_marked]
    exact fun hmem => hnodup.2.2 _ hmem _ List.mem_cons_self rfl
  refine ⟨_, _, done ++ [(row.entry, outcome)], exec_snoc hrun hwrite,
    Function.update_self _ _ _, hdb, hcommitted, ?_, ?_⟩
  · rw [hsession, marked_concat, overwrite_concat hfresh]
    rfl
  · rw [hindex, hextra]
    simp only [State.recorded, State.move]
    split_ifs
    · rw [Finset.union_comm, ← Finset.insert_eq, Finset.union_empty]
    · rfl

/-- A crash, or an exception which leaves the activity, rolls the statuses back. -/
theorem leavesBehind_of_tracks {todo : List PendingJobEmbedding} {st : AppStore}
    (h : Tracks s i extra todo st) (hextra : extra = ∅ ∨ ∃ jobId, extra = {jobId})
    (d : Database) : LeavesBehind s { st with session := d } := by
  obtain ⟨as, t, done, hrun, hi, hdb, hcommitted, _, hindex⟩ := h
  have hcrash (u : State) (hu : u.sweeps i = .running done todo) :
      step u (.crash i) = some (u.release i) := by
    simp [step, hu]
  rcases hextra with rfl | ⟨jobId, rfl⟩
  · have hsame : t.index = s.index ∪ upsertedJobs st.log := by simpa using hindex.symm
    exact ⟨_, _, exec_snoc hrun (hcrash t hi), hdb.trans hcommitted.symm, hsame⟩
  · have hlanded := exec_snoc (a := .upsert jobId) hrun rfl
    refine ⟨_, _, exec_snoc hlanded (hcrash _ hi), hdb.trans hcommitted.symm, ?_⟩
    simp only [State.release, State.move, hindex]
    rw [Finset.union_comm, Finset.insert_eq]

/-- A commit leaves the marks of all rows, whether or not the activity hears of it. -/
theorem leavesBehind_of_commit {st : AppStore} (h : Tracks s i ∅ [] st) (d : Database) :
    LeavesBehind s ⟨st.session, d, st.log ++ [.committed st.session]⟩ := by
  obtain ⟨as, t, done, hrun, hi, hdb, hcommitted, hsession, hindex⟩ := h
  have hcommit : step t (.commit i) = some (t.committed i done) := by simp [step, hi]
  refine ⟨_, _, exec_snoc hrun hcommit, ?_, ?_⟩
  · simp [hsession, State.committed, State.release, State.withQueue, State.move, State.queue, hdb]
  · have hsame : t.index = s.index ∪ upsertedJobs st.log := by simpa using hindex.symm
    rw [upsertedJobs_committed]
    exact hsame

/-- The rows in progress at an exception: at most the vector of the present row has arrived,
and none where there is no description. -/
def Interrupted (s : State) (i : ℕ) (row : PendingJobEmbedding)
    (todo : List PendingJobEmbedding) (e : AppStop) (st : AppStore) : Prop :=
  ∃ landed : Bool, Tracks s i (if landed then {row.entry.jobId} else ∅) (row :: todo) st ∧
    (row.description = none → landed = false ∧ e = .raised (.app .valueError) ∨ e = .crashed)

theorem writeRow_triple {row : PendingJobEmbedding} {todo : List PendingJobEmbedding} :
    Triple (Tracks s i ∅ (row :: todo)) (writeRow row)
      (fun _ st => Tracks s i {row.entry.jobId} (row :: todo) st ∧ row.description ≠ none)
      (fun e st => Interrupted s i row todo e st) := by
  unfold writeRow
  split
  · rename_i hnone
    exact .raise fun st hst => ⟨false, hst, fun _ => .inl ⟨rfl, rfl⟩⟩
  · rename_i description hsome
    have hne : row.description ≠ none := by simp [hsome]
    have hlogged (st : AppStore) (hst : Tracks s i ∅ (row :: todo) st) :
        Tracks s i {row.entry.jobId} (row :: todo) (Program.logged
          (.vectorUpserted row.entry.jobId description row.phoneHash) st) := by
      obtain ⟨as, t, done, hrun, hi, hdb, hcommitted, hsession, hindex⟩ := hst
      refine ⟨as, t, done, hrun, hi, hdb, hcommitted, hsession, ?_⟩
      rw [upsertedJobs_logged, Finset.union_insert, hindex, Finset.union_empty,
        Finset.insert_eq, Finset.union_comm]
    refine .bind (.step fun e st _ hst => ⟨false, hst, fun h => (hne h).elim⟩) fun _ => ?_
    refine .external (fun e st _ hst => ⟨false, hst, fun h => (hne h).elim⟩)
      (fun e st _ hst => ⟨true, hlogged st hst, fun h => (hne h).elim⟩) fun st hst => ?_
    exact ⟨hlogged st hst, hne⟩

/-- A row which is not processed to its end leaves only its vector behind. -/
theorem Interrupted.leavesBehind {row : PendingJobEmbedding} {todo : List PendingJobEmbedding}
    {e : AppStop} {st : AppStore} (h : Interrupted s i row todo e st) :
    LeavesBehind s { st with session := st.committed } := by
  obtain ⟨landed, htracks, _⟩ := h
  refine leavesBehind_of_tracks htracks ?_ _
  cases landed with
  | false => exact .inl rfl
  | true => exact .inr ⟨_, rfl⟩

theorem syncRow_triple (hs : Valid s) (str : InfraError → String) (row : PendingJobEmbedding)
    (todo : List PendingJobEmbedding) :
    Triple (Tracks s i ∅ (row :: todo)) (syncRow str row) (fun _ => Tracks s i ∅ todo)
      (fun _ st => LeavesBehind s { st with session := st.committed }) := by
  have hbody : Triple (Tracks s i ∅ (row :: todo)) (do
      writeRow row
      flushEntry (markSynced row.entry)) (fun _ => Tracks s i ∅ todo)
      (fun e st => Interrupted s i row todo e st) := by
    refine .bind writeRow_triple fun _ => .statement
      (fun e st _ hst => ⟨true, hst.1, fun h => (hst.2 h).elim⟩)
      (fun _ _ _ hf => nomatch hf) fun st _ d hst hf => ?_
    cases hf
    exact hst.1.write hs .written (fun h => (hst.2 h).elim) rfl
  refine .attempt hbody (fun _ hst => hst.leavesBehind) (fun e h hh => ?_) ?_
  · cases hh
    refine .statement (fun _ st _ hst => hst.leavesBehind) (fun _ _ _ hf => nomatch hf)
      fun st _ d hst hf => ?_
    cases hf
    obtain ⟨landed, htracks, hnone⟩ := hst
    refine htracks.write hs (.failed (errorText str e) landed) (fun hdesc => ?_) rfl
    rcases hnone hdesc with ⟨rfl, he⟩ | he
    · cases he
      rfl
    · cases he
  · intro e he
    cases he

/-- The activity does what the steps of one sweep can do. -/
theorem activity_refines (hs : Valid s) (hkeys : UniqueKeys s.database)
    (hidle : s.sweeps i = .idle) (str : InfraError → String)
    (faults : List (Option AppFault)) :
    LeavesBehind s ((syncPineconeQueueActivity (fun k => (s.locks k).isSome) str).run
      (.opened s.database faults)).2.store := by
  let rows := claimPending s.database (fun k => (s.locks k).isSome) pineconeSyncBatchSize
  have hstart : LeavesBehind s ⟨s.database, s.database, []⟩ :=
    ⟨[], s, rfl, rfl, by simp [upsertedJobs]⟩
  have htriple : Triple (· = ⟨s.database, s.database, []⟩)
      (syncPineconeQueueActivity (fun k => (s.locks k).isSome) str)
      (fun _ => LeavesBehind s) (fun _ => LeavesBehind s) := by
    refine .closing (.bind (Q := fun pending st => pending = rows ∧ Tracks s i ∅ rows st)
      (.query (fun e st _ hst => hst ▸ hstart) ?_) fun pending => ?_)
    · rintro st rfl
      exact ⟨rfl, tracks_of_claim hs hkeys hidle rfl rfl rfl⟩
    · rintro w ⟨rfl, hw⟩
      have hloop := Program.Triple.forEach (fun _ todo => Tracks s i ∅ todo)
        (fun _ row todo => syncRow_triple hs str row todo) [] rows
      exact Program.Triple.bind hloop (fun _ => .commit
        (fun e st _ hst => leavesBehind_of_tracks hst (.inl rfl) _)
        (fun e st _ hst => leavesBehind_of_commit hst _)
        fun st hst => leavesBehind_of_commit hst _) w hw
  exact htriple.store rfl

end

/-- The vector of the first row arrives, but its answer is lost; the second row is written. -/
theorem activity_refines_lost_answer :
    ∃ s, exec step (initial twoJobs) [.enqueue 1 1, .enqueue 2 2] = some s ∧
      LeavesBehind s ((syncPineconeQueueActivity (fun k => (s.locks k).isSome)
        (fun _ => "lost")).run (.opened s.database
          [none, none, some (.loses (.unavailable "lost"))])).2.store := by
  obtain ⟨s, hrun, hidle, hdatabase⟩ : ∃ s, exec step (initial twoJobs)
      [.enqueue 1 1, .enqueue 2 2] = some s ∧ s.sweeps 0 = .idle ∧
        s.database.jobs = twoJobs.jobs ∧ s.database.messages = twoJobs.messages ∧
          s.database.users = twoJobs.users := ⟨_, rfl, rfl, rfl, rfl, rfl⟩
  obtain ⟨hjobs, hmessages, husers⟩ := hdatabase
  have hkeys : UniqueKeys s.database := by
    constructor
    · rw [hjobs]
      decide
    · rw [hmessages]
      decide
    · rw [husers]
      decide
  exact ⟨s, hrun, activity_refines (valid_reachable ⟨_, hrun⟩) hkeys hidle _ _⟩

end Vici.SweepActivity
