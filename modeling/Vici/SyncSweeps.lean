import Vici.ActionRuns
import Vici.Handlers
import Vici.KeyedRows

/-!
# Overlapping sweeps of the queue

Each sweep claims pending rows in one transaction, writes their vectors one by
one, and commits the new statuses all at once. The index is no part of the
transaction: what has been written stays written when a sweep crashes. The
locks on the claimed rows keep sweeps apart, and other sessions may enqueue and
change the other tables at any time.
-/
namespace Vici.SyncSweeps
open Models AppPrograms SessionPrograms SyncQueueRepository Handlers ActionRuns KeyedRows

def noDescription : String := "job has no description to embed"

/-- What came of one row; a write which fails may have reached the index all the same. -/
inductive Write where
  | written
  | failed (error : String) (landed : Bool)
  deriving DecidableEq

namespace Write

def lands : Write → Bool
  | .written => true
  | .failed _ landed => landed

/-- The row as it is flushed after its write. -/
def mark : Write → PineconeSyncQueue → PineconeSyncQueue
  | .written => markSynced
  | .failed error _ => markFailed error

/-- A job without a description is not sent to the index. -/
def Possible (description : Option String) (w : Write) : Prop :=
  description = none → w = .failed noDescription false

instance (description : Option String) (w : Write) : Decidable (w.Possible description) :=
  inferInstanceAs (Decidable (_ → _))

end Write

inductive Sweep where
  | idle
  | running (done : List (PineconeSyncQueue × Write)) (todo : List PendingJobEmbedding)
  | finished
  deriving DecidableEq

namespace Sweep

/-- The rows with their outcomes, in the order in which they were processed. -/
def outcomes : Sweep → List (PineconeSyncQueue × Write)
  | .running done _ => done
  | _ => []

/-- The rows which the sweep has locked. -/
def claimed : Sweep → List PineconeSyncQueue
  | .running done todo => done.map Prod.fst ++ todo.map PendingJobEmbedding.entry
  | _ => []

end Sweep

/-- The processed rows of a sweep with their marks. -/
def marked (done : List (PineconeSyncQueue × Write)) : List PineconeSyncQueue :=
  done.map fun d => d.2.mark d.1

theorem marked_concat (done : List (PineconeSyncQueue × Write)) (e : PineconeSyncQueue)
    (w : Write) : marked (done ++ [(e, w)]) = marked done ++ [w.mark e] := List.map_append

/-- `index` lists the jobs whose vectors can be found. -/
structure State where
  database : Database
  index : Finset ℕ
  locks : Locks ℕ ℕ
  sweeps : ℕ → Sweep

inductive Action where
  | elsewhere (db : Database)
  | upsert (jobId : ℕ)
  | enqueue (entryId jobId : ℕ)
  | claim (i : ℕ) (rows : List PendingJobEmbedding)
  | write (i : ℕ) (outcome : Write)
  | commit (i : ℕ)
  | crash (i : ℕ)

namespace State

abbrev queue (s : State) : List PineconeSyncQueue := s.database.syncQueue

def withQueue (s : State) (rows : List PineconeSyncQueue) : State :=
  { s with database := { s.database with syncQueue := rows } }

def move (s : State) (i : ℕ) (w : Sweep) : State :=
  { s with sweeps := Function.update s.sweeps i w }

def enqueued (s : State) (entryId jobId : ℕ) : State :=
  s.withQueue (s.queue ++ [⟨entryId, jobId, .pending, 0, none⟩])

/-- A sweep has locked the rows and starts with the first of them. -/
def begun (s : State) (i : ℕ) (rows : List PendingJobEmbedding) : State :=
  { s.move i (.running [] rows) with
    locks := s.locks.acquire i (rows.map fun p => p.entry.id) }

/-- The next row of a sweep is done with. -/
def recorded (s : State) (i : ℕ) (done : List (PineconeSyncQueue × Write))
    (row : PendingJobEmbedding) (todo : List PendingJobEmbedding) (outcome : Write) : State :=
  { s.move i (.running (done ++ [(row.entry, outcome)]) todo) with
    index := if outcome.lands then insert row.entry.jobId s.index else s.index }

/-- The transaction of a sweep ends. -/
def release (s : State) (i : ℕ) : State :=
  { s.move i .finished with locks := s.locks.release i }

/-- The marks of a sweep become durable. -/
def committed (s : State) (i : ℕ) (done : List (PineconeSyncQueue × Write)) : State :=
  (s.withQueue (overwrite PineconeSyncQueue.id (marked done) s.queue)).release i

end State

def initial (db : Database) : State :=
  ⟨{ db with syncQueue := [] }, ∅, fun _ => none, fun _ => .idle⟩

/-- What `FOR UPDATE SKIP LOCKED` may return: pending rows which nobody has locked,
with what they are joined to, at most a batch of them in the order of their keys. -/
def Claimable (s : State) (rows : List PendingJobEmbedding) : Prop :=
  (∀ p ∈ rows, (p.entry ∈ s.queue ∧ p.entry.status = .pending ∧ s.locks p.entry.id = none) ∧
    p ∈ embeddingsOf s.database p.entry) ∧
  (rows.map fun p => p.entry.id).Pairwise (· < ·) ∧ rows.length ≤ pineconeSyncBatchSize

instance (s : State) (rows : List PendingJobEmbedding) : Decidable (Claimable s rows) :=
  inferInstanceAs (Decidable (_ ∧ _ ∧ _))

def step (s : State) : Action → Option State
  | .elsewhere db => some { s with database := { db with syncQueue := s.queue } }
  | .upsert jobId => some { s with index := insert jobId s.index }
  | .enqueue entryId jobId =>
      if entryId ∉ s.queue.map PineconeSyncQueue.id ∧ ∃ j ∈ s.database.jobs, j.id = jobId then
        some (s.enqueued entryId jobId)
      else none
  | .claim i rows =>
      if s.sweeps i = .idle ∧ Claimable s rows then some (s.begun i rows) else none
  | .write i outcome =>
      match s.sweeps i with
      | .running done (row :: todo) =>
          if outcome.Possible row.description then some (s.recorded i done row todo outcome)
          else none
      | _ => none
  | .commit i =>
      match s.sweeps i with
      | .running done [] => some (s.committed i done)
      | _ => none
  | .crash i =>
      match s.sweeps i with
      | .running _ _ => some (s.release i)
      | _ => none

/-- The insert of the repository is an enqueue of the system. -/
theorem step_enqueue_of_insertEntry {s : State} {jobId : ℕ} {entry : PineconeSyncQueue}
    {d : Database} (h : insertEntry jobId s.database = .ok (entry, d)) :
    step s (.enqueue entry.id jobId) = some { s with database := d } := by
  unfold insertEntry at h
  split_ifs at h with hjob
  cases h
  have hexists : ∃ j ∈ s.database.jobs, j.id = jobId := by
    by_contra hnone
    refine hjob (List.all_eq_true.mpr fun j hj => decide_eq_true fun hid => ?_)
    exact hnone ⟨j, hj, hid⟩
  have hnew : (pendingEntry s.database jobId).id ∉ s.queue.map PineconeSyncQueue.id :=
    nextId_notMem _
  rw [step, if_pos ⟨hnew, hexists⟩]
  rfl

section
variable {s t : State} {a : Action} {i j : ℕ}

structure RowValid (index : Finset ℕ) (r : PineconeSyncQueue) : Prop where
  attempts : r.attempts = if r.status = .failed then 1 else 0
  indexed : r.status = .synced → r.jobId ∈ index

/-- The rows of a sweep are its own until it ends, and still as it has read them. -/
structure SweepValid (s : State) (i : ℕ) (w : Sweep) : Prop where
  held : ∀ e ∈ w.claimed, e ∈ s.queue ∧ e.status = .pending ∧ s.locks e.id = some i
  nodup : (w.claimed.map PineconeSyncQueue.id).Nodup
  written : ∀ d ∈ w.outcomes, d.2 = .written → d.1.jobId ∈ s.index

structure Valid (s : State) : Prop where
  nodup : (s.queue.map PineconeSyncQueue.id).Nodup
  rows : ∀ r ∈ s.queue, RowValid s.index r
  sweeps : ∀ i, SweepValid s i (s.sweeps i)

theorem RowValid.mono {index index' : Finset ℕ} {r : PineconeSyncQueue} (h : RowValid index r)
    (hindex : index ⊆ index') : RowValid index' r :=
  ⟨h.attempts, fun hr => hindex (h.indexed hr)⟩

theorem SweepValid.mono {w : Sweep} (h : SweepValid s i w)
    (hrows : ∀ e ∈ w.claimed, e ∈ s.queue → e ∈ t.queue)
    (hlocks : ∀ k, s.locks k = some i → t.locks k = some i) (hindex : s.index ⊆ t.index) :
    SweepValid t i w := by
  refine ⟨fun e he => ?_, h.nodup, fun d hd hw => hindex (h.written d hd hw)⟩
  obtain ⟨hmem, hpending, hlock⟩ := h.held e he
  exact ⟨hrows e he hmem, hpending, hlocks e.id hlock⟩

theorem sweepValid_of_claimed_eq_nil {w : Sweep} (hclaimed : w.claimed = [])
    (houtcomes : w.outcomes = []) : SweepValid s i w := by
  refine ⟨?_, ?_, ?_⟩
  · simp [hclaimed]
  · simp [hclaimed]
  · simp [houtcomes]

/-- Two sweeps hold different rows. -/
theorem Valid.eq_of_claimed (h : Valid s) {e e' : PineconeSyncQueue}
    (he : e ∈ (s.sweeps i).claimed) (he' : e' ∈ (s.sweeps j).claimed) (hid : e.id = e'.id) :
    i = j := by
  have hi : s.locks e.id = some i := ((h.sweeps i).held e he).2.2
  have hj : s.locks e'.id = some j := ((h.sweeps j).held e' he').2.2
  rw [hid, hj] at hi
  exact (Option.some.inj hi).symm

/-- Where nothing is taken away, only the sweep which has moved needs to be looked at. -/
theorem Valid.grow (hs : Valid s) (hnodup : (t.queue.map PineconeSyncQueue.id).Nodup)
    (hrows : ∀ r ∈ t.queue, r ∉ s.queue → RowValid t.index r) (hqueue : s.queue ⊆ t.queue)
    (hlocks : ∀ i k, s.locks k = some i → t.locks k = some i) (hindex : s.index ⊆ t.index)
    (hsweeps : ∀ i, t.sweeps i = s.sweeps i ∨ SweepValid t i (t.sweeps i)) : Valid t := by
  refine ⟨hnodup, fun r hr => ?_, fun i => ?_⟩
  · by_cases hold : r ∈ s.queue
    · exact (hs.rows r hold).mono hindex
    · exact hrows r hr hold
  · rcases hsweeps i with hsame | hnew
    · rw [hsame]
      exact (hs.sweeps i).mono (fun _ _ he => hqueue he) (hlocks i) hindex
    · exact hnew

theorem valid_initial (db : Database) : Valid (initial db) := by
  refine ⟨List.nodup_nil, ?_, fun i => sweepValid_of_claimed_eq_nil rfl rfl⟩
  intro r hr
  cases hr

theorem valid_elsewhere (hs : Valid s) (db : Database) :
    Valid { s with database := { db with syncQueue := s.queue } } :=
  hs.grow hs.nodup (fun _ hr hnew => (hnew hr).elim) (List.Subset.refl _) (fun _ _ h => h)
    (Finset.Subset.refl _) fun _ => .inl rfl

theorem valid_upsert (hs : Valid s) (jobId : ℕ) :
    Valid { s with index := insert jobId s.index } :=
  hs.grow hs.nodup (fun _ hr hnew => (hnew hr).elim) (List.Subset.refl _) (fun _ _ h => h)
    (Finset.subset_insert _ _) fun _ => .inl rfl

theorem valid_enqueue (hs : Valid s) {entryId : ℕ} (jobId : ℕ)
    (hnew : entryId ∉ s.queue.map PineconeSyncQueue.id) :
    Valid (s.enqueued entryId jobId) := by
  refine hs.grow ?_ (fun r hr hr' => ?_) (List.subset_append_left _ _) (fun _ _ h => h)
    (Finset.Subset.refl _) fun _ => .inl rfl
  · exact nodup_map_concat hs.nodup hnew
  · rcases List.mem_append.mp hr with hr | hr
    · exact (hr' hr).elim
    · obtain rfl := List.mem_singleton.mp hr
      exact ⟨rfl, fun h => by cases h⟩

theorem valid_claim (hs : Valid s) {rows : List PendingJobEmbedding} (h : Claimable s rows) :
    Valid (s.begun i rows) := by
  obtain ⟨hrows, hsorted, _⟩ := h
  have hfree : ∀ k ∈ rows.map (fun p => p.entry.id), s.locks k = none := by
    intro k hk
    obtain ⟨p, hp, rfl⟩ := List.mem_map.mp hk
    exact (hrows p hp).1.2.2
  refine hs.grow hs.nodup (fun _ hr hnew => (hnew hr).elim) (List.Subset.refl _)
    (fun _ _ hlock => Locks.acquire_of_held hfree hlock) (Finset.Subset.refl _) fun j => ?_
  rcases eq_or_ne j i with rfl | hne
  · refine .inr ?_
    simp only [State.begun, State.move, Function.update_self]
    refine ⟨fun e he => ?_, ?_, ?_⟩
    · obtain ⟨p, hp, rfl⟩ := List.mem_map.mp he
      obtain ⟨⟨hmem, hpending, _⟩, _⟩ := hrows p hp
      exact ⟨hmem, hpending, Locks.acquire_of_mem (List.mem_map.mpr ⟨p, hp, rfl⟩)⟩
    · have hids : (Sweep.running [] rows).claimed.map PineconeSyncQueue.id =
          rows.map fun p => p.entry.id := by
        simp [Sweep.claimed, Function.comp_def]
      rw [hids]
      exact hsorted.imp fun hlt => Nat.ne_of_lt hlt
    · intro d hd
      cases hd
  · exact .inl (Function.update_of_ne hne _ _)

theorem index_subset_recorded {done : List (PineconeSyncQueue × Write)}
    {row : PendingJobEmbedding} {todo : List PendingJobEmbedding} {outcome : Write} :
    s.index ⊆ (s.recorded i done row todo outcome).index := by
  rw [State.recorded]
  split_ifs
  · exact Finset.subset_insert _ _
  · exact Finset.Subset.refl _

theorem valid_write (hs : Valid s) {done : List (PineconeSyncQueue × Write)}
    {row : PendingJobEmbedding} {todo : List PendingJobEmbedding} (outcome : Write)
    (hi : s.sweeps i = .running done (row :: todo)) :
    Valid (s.recorded i done row todo outcome) := by
  have hindex : s.index ⊆ (s.recorded i done row todo outcome).index := index_subset_recorded
  have hclaimed : (Sweep.running (done ++ [(row.entry, outcome)]) todo).claimed =
      (s.sweeps i).claimed := by
    simp [hi, Sweep.claimed]
  refine hs.grow hs.nodup (fun _ hr hnew => (hnew hr).elim) (List.Subset.refl _)
    (fun _ _ h => h) hindex fun j => ?_
  rcases eq_or_ne j i with rfl | hne
  · refine .inr ?_
    simp only [State.recorded, State.move, Function.update_self]
    refine ⟨?_, ?_, fun d hd hw => ?_⟩
    · rw [hclaimed]
      exact (hs.sweeps j).held
    · rw [hclaimed]
      exact (hs.sweeps j).nodup
    · rcases List.mem_append.mp hd with hd | hd
      · exact hindex ((hs.sweeps j).written d (by simpa [hi, Sweep.outcomes] using hd) hw)
      · obtain rfl := List.mem_singleton.mp hd
        obtain rfl : outcome = .written := hw
        exact Finset.mem_insert_self _ _
  · exact .inl (Function.update_of_ne hne _ _)

/-- When a sweep ends, those which go on keep their rows, provided that no row of theirs
has changed. -/
theorem valid_release (hs : Valid s) (hnodup : (t.queue.map PineconeSyncQueue.id).Nodup)
    (hrows : ∀ r ∈ t.queue, RowValid s.index r)
    (hkept : ∀ j, j ≠ i → ∀ e ∈ (s.sweeps j).claimed, e ∈ s.queue → e ∈ t.queue)
    (hindex : t.index = s.index) (hlocks : t.locks = s.locks)
    (hsweeps : t.sweeps = s.sweeps) : Valid (t.release i) := by
  refine ⟨hnodup, fun r hr => ?_, fun j => ?_⟩
  · rw [State.release, State.move, hindex]
    exact hrows r hr
  · rcases eq_or_ne j i with rfl | hne
    · have hfinished : (t.release j).sweeps j = .finished := Function.update_self _ _ _
      rw [hfinished]
      exact sweepValid_of_claimed_eq_nil rfl rfl
    · have hsame : (t.release i).sweeps j = s.sweeps j := by
        rw [← hsweeps]
        exact Function.update_of_ne hne _ _
      rw [hsame]
      refine (hs.sweeps j).mono (hkept j hne) (fun k hk => ?_) hindex.symm.subset
      rw [← hlocks] at hk
      exact Locks.release_of_held hne hk

theorem valid_crash (hs : Valid s) (i : ℕ) : Valid (s.release i) :=
  valid_release hs hs.nodup hs.rows (fun _ _ _ _ he => he) rfl rfl rfl

theorem id_mark (w : Write) (e : PineconeSyncQueue) : (w.mark e).id = e.id := by
  cases w <;> rfl

theorem map_id_marked (done : List (PineconeSyncQueue × Write)) :
    (marked done).map PineconeSyncQueue.id = (done.map Prod.fst).map PineconeSyncQueue.id := by
  simp [marked, Function.comp_def, id_mark]

/-- The rows of a sweep which is about to commit. -/
theorem claimed_of_done {done : List (PineconeSyncQueue × Write)}
    (hi : s.sweeps i = .running done []) : (s.sweeps i).claimed = done.map Prod.fst := by
  simp [hi, Sweep.claimed]

theorem rowValid_mark (hs : Valid s) {d : PineconeSyncQueue × Write}
    (hd : d ∈ (s.sweeps i).outcomes) (hclaimed : d.1 ∈ (s.sweeps i).claimed) :
    RowValid s.index (d.2.mark d.1) := by
  obtain ⟨hmem, hpending, _⟩ := (hs.sweeps i).held d.1 hclaimed
  have hattempts : d.1.attempts = 0 := by
    rw [(hs.rows d.1 hmem).attempts, hpending]
    rfl
  cases hw : d.2 with
  | written => exact ⟨hattempts, fun _ => (hs.sweeps i).written d hd hw⟩
  | failed error landed =>
      refine ⟨?_, fun h => by cases h⟩
      simp [Write.mark, markFailed, hattempts]

/-- A row which another sweep holds is not among the marks. -/
theorem id_notMem_marked (hs : Valid s) {done : List (PineconeSyncQueue × Write)}
    (hi : s.sweeps i = .running done []) (hne : j ≠ i) {e : PineconeSyncQueue}
    (he : e ∈ (s.sweeps j).claimed) : e.id ∉ (marked done).map PineconeSyncQueue.id := by
  rw [map_id_marked, ← claimed_of_done hi]
  intro hmem
  obtain ⟨e', he', hid⟩ := List.mem_map.mp hmem
  exact hne (hs.eq_of_claimed he he' hid.symm)

theorem valid_commit (hs : Valid s) {done : List (PineconeSyncQueue × Write)}
    (hi : s.sweeps i = .running done []) :
    Valid (s.committed i done) := by
  refine valid_release hs ?_ (fun r hr => ?_) (fun j hne e he hmem => ?_) rfl rfl rfl
  · rw [State.queue, State.withQueue, map_key_overwrite]
    exact hs.nodup
  · rcases mem_overwrite hr with hr | hr
    · obtain ⟨d, hd, rfl⟩ := List.mem_map.mp hr
      refine rowValid_mark hs (i := i) (by simpa [hi, Sweep.outcomes] using hd) ?_
      rw [claimed_of_done hi]
      exact List.mem_map_of_mem hd
    · exact hs.rows r hr.1
  · exact mem_overwrite_of_notMem hmem (id_notMem_marked hs hi hne he)

/-- Everything that a step can do. -/
inductive Moves (s : State) : Action → State → Prop where
  | elsewhere (db : Database) :
      Moves s (.elsewhere db) { s with database := { db with syncQueue := s.queue } }
  | upsert (jobId : ℕ) : Moves s (.upsert jobId) { s with index := insert jobId s.index }
  | enqueue (entryId jobId : ℕ) (hnew : entryId ∉ s.queue.map PineconeSyncQueue.id) :
      Moves s (.enqueue entryId jobId) (s.enqueued entryId jobId)
  | claim (i : ℕ) (rows : List PendingJobEmbedding) (hclaim : Claimable s rows) :
      Moves s (.claim i rows) (s.begun i rows)
  | write (i : ℕ) (outcome : Write) (done : List (PineconeSyncQueue × Write))
      (row : PendingJobEmbedding) (todo : List PendingJobEmbedding)
      (hi : s.sweeps i = .running done (row :: todo)) :
      Moves s (.write i outcome) (s.recorded i done row todo outcome)
  | commit (i : ℕ) (done : List (PineconeSyncQueue × Write))
      (hi : s.sweeps i = .running done []) : Moves s (.commit i) (s.committed i done)
  | crash (i : ℕ) : Moves s (.crash i) (s.release i)

theorem moves_of_step (h : step s a = some t) : Moves s a t := by
  cases a with
  | elsewhere db =>
      cases h
      exact .elsewhere db
  | upsert jobId =>
      cases h
      exact .upsert jobId
  | enqueue entryId jobId =>
      simp only [step] at h
      split_ifs at h with hnew
      cases h
      exact .enqueue entryId jobId hnew.1
  | claim i rows =>
      simp only [step] at h
      split_ifs at h with hclaim
      cases h
      exact .claim i rows hclaim.2
  | write i outcome =>
      simp only [step] at h
      split at h
      · rename_i done row todo hi
        split_ifs at h
        cases h
        exact .write i outcome done row todo hi
      · cases h
  | commit i =>
      simp only [step] at h
      split at h
      · rename_i done hi
        cases h
        exact .commit i done hi
      · cases h
  | crash i =>
      simp only [step] at h
      split at h
      · cases h
        exact .crash i
      · cases h

theorem valid_step (hs : Valid s) (h : step s a = some t) : Valid t := by
  cases moves_of_step h with
  | elsewhere db => exact valid_elsewhere hs db
  | upsert jobId => exact valid_upsert hs jobId
  | enqueue entryId jobId hnew => exact valid_enqueue hs jobId hnew
  | claim i rows hclaim => exact valid_claim hs hclaim
  | write i outcome done row todo hi => exact valid_write hs outcome hi
  | commit i done hi => exact valid_commit hs hi
  | crash i => exact valid_crash hs i

theorem valid_reachable {db : Database} (h : Reachable step (initial db) s) : Valid s :=
  reachable_invariant Valid (fun _ _ _ => valid_step) (valid_initial db) h

/-- Which rows a commit changes, and into what. -/
theorem mem_committed (hs : Valid s) {done : List (PineconeSyncQueue × Write)}
    (hi : s.sweeps i = .running done []) {d : PineconeSyncQueue × Write} (hd : d ∈ done) :
    d.2.mark d.1 ∈ (s.committed i done).queue := by
  have hclaimed := claimed_of_done hi
  refine change_mem_overwrite ?_ (List.mem_map_of_mem hd) ?_
  · rw [map_id_marked, ← hclaimed]
    exact (hs.sweeps i).nodup
  · rw [id_mark]
    have hmem : d.1 ∈ (s.sweeps i).claimed := by
      rw [hclaimed]
      exact List.mem_map_of_mem hd
    exact List.mem_map_of_mem ((hs.sweeps i).held d.1 hmem).1

theorem eq_of_id_eq (hs : Valid s) {r r' : PineconeSyncQueue} (hr : r ∈ s.queue)
    (hr' : r' ∈ s.queue) (hid : r.id = r'.id) : r = r' :=
  List.inj_on_of_nodup_map hs.nodup hr hr' hid

/-- A row which the sweep has not claimed is left alone by its commit. -/
theorem mem_committed_of_notMem (hs : Valid s) {done : List (PineconeSyncQueue × Write)}
    (hi : s.sweeps i = .running done []) {r : PineconeSyncQueue} (hr : r ∈ s.queue)
    (hnot : r ∉ (s.sweeps i).claimed) : r ∈ (s.committed i done).queue := by
  refine mem_overwrite_of_notMem hr fun hmem => hnot ?_
  rw [map_id_marked, ← claimed_of_done hi] at hmem
  obtain ⟨e, he, hid⟩ := List.mem_map.mp hmem
  have hsame : e = r := eq_of_id_eq hs ((hs.sweeps i).held e he).1 hr hid
  exact hsame ▸ he

theorem index_subset_step (h : step s a = some t) : s.index ⊆ t.index := by
  cases moves_of_step h with
  | upsert jobId => exact Finset.subset_insert _ _
  | write i outcome done row todo hi => exact index_subset_recorded
  | _ => exact Finset.Subset.refl _

/-- Only a commit of a sweep changes rows. -/
theorem queue_subset_step (h : step s a = some t) (hcommit : ∀ i, a ≠ .commit i) :
    s.queue ⊆ t.queue := by
  cases moves_of_step h with
  | enqueue entryId jobId hnew => exact List.subset_append_left _ _
  | commit i done hi => exact (hcommit i rfl).elim
  | _ => exact List.Subset.refl _

/-- A row leaves a step as it was, or it was pending and is not any more. -/
theorem row_step (hs : Valid s) (h : step s a = some t) {r : PineconeSyncQueue}
    (hr : r ∈ s.queue) : r ∈ t.queue ∨
      r.status = .pending ∧ ∃ r' ∈ t.queue, r'.id = r.id ∧ r'.status ≠ .pending := by
  cases moves_of_step h with
  | enqueue entryId jobId hnew => exact .inl (List.mem_append_left _ hr)
  | commit i done hi =>
      by_cases hclaimed : r ∈ (s.sweeps i).claimed
      · obtain ⟨_, hpending, _⟩ := (hs.sweeps i).held r hclaimed
        rw [claimed_of_done hi] at hclaimed
        obtain ⟨d, hd, rfl⟩ := List.mem_map.mp hclaimed
        refine .inr ⟨hpending, d.2.mark d.1, mem_committed hs hi hd, id_mark d.2 d.1, ?_⟩
        cases d.2 <;> simp [Write.mark, markSynced, markFailed]
      · exact .inl (mem_committed_of_notMem hs hi hr hclaimed)
  | _ => exact .inl hr

def statusOf (s : State) (id : ℕ) : Option SyncStatus :=
  (s.queue.find? fun r => decide (r.id = id)).map PineconeSyncQueue.status

/-- How often the committed status of a row changes along a run. -/
def statusChanges (id : ℕ) : State → List Action → ℕ
  | _, [] => 0
  | s, a :: as =>
      match step s a with
      | none => 0
      | some t =>
          (if statusOf s id = none ∨ statusOf t id = statusOf s id then 0 else 1) +
            statusChanges id t as

theorem statusOf_eq (hs : Valid s) {r : PineconeSyncQueue} (hr : r ∈ s.queue) :
    statusOf s r.id = some r.status := by
  obtain ⟨r', hr', hid, hfind⟩ := find?_of_mem (List.mem_map_of_mem (f := PineconeSyncQueue.id) hr)
  rw [statusOf, hfind, eq_of_id_eq hs hr' hr hid]
  rfl

theorem statusOf_step (hs : Valid s) (h : step s a = some t) {id : ℕ} {st : SyncStatus}
    (hst : statusOf s id = some st) :
    ∃ st', statusOf t id = some st' ∧ (st' = st ∨ st = .pending ∧ st' ≠ .pending) := by
  obtain ⟨r, hfind, rfl⟩ := Option.map_eq_some_iff.mp hst
  obtain rfl : r.id = id := by simpa using List.find?_some hfind
  have ht : Valid t := valid_step hs h
  rcases row_step hs h (List.mem_of_find?_eq_some hfind) with hr | ⟨hpending, r', hr', hid, hne⟩
  · exact ⟨r.status, statusOf_eq ht hr, .inl rfl⟩
  · exact ⟨r'.status, hid ▸ statusOf_eq ht hr', .inr ⟨hpending, hne⟩⟩

/-- A row which is not pending never changes again. -/
theorem statusChanges_eq_zero {id : ℕ} {st : SyncStatus} {as : List Action} (hs : Valid s)
    (hst : statusOf s id = some st) (hne : st ≠ .pending) : statusChanges id s as = 0 := by
  induction as generalizing s with
  | nil => rfl
  | cons a as ih =>
      rw [statusChanges]
      cases h : step s a with
      | none => rfl
      | some t =>
          obtain ⟨st', hst', hsame | ⟨hpending, _⟩⟩ := statusOf_step hs h hst
          · have hrest := ih (valid_step hs h) (hsame ▸ hst')
            simp [hst, hst', hsame, hrest]
          · exact (hne hpending).elim

theorem statusChanges_le_one {id : ℕ} {as : List Action} (hs : Valid s) :
    statusChanges id s as ≤ 1 := by
  induction as generalizing s with
  | nil => exact Nat.zero_le 1
  | cons a as ih =>
      rw [statusChanges]
      cases h : step s a with
      | none => exact Nat.zero_le 1
      | some t =>
          have ht : Valid t := valid_step hs h
          have hrest : statusChanges id t as ≤ 1 := ih ht
          cases hst : statusOf s id with
          | none => simpa using hrest
          | some st =>
              obtain ⟨st', hst', rfl | ⟨_, hne⟩⟩ := statusOf_step hs h hst
              · simpa [hst'] using hrest
              · have hzero : statusChanges id t as = 0 := statusChanges_eq_zero ht hst' hne
                simp only [hzero]
                split_ifs <;> omega

/-- A commit settles every row of the sweep by the outcome of its write, and no other row. -/
structure Settles (s : State) (i : ℕ) (t : State) : Prop where
  all : (s.sweeps i).claimed = (s.sweeps i).outcomes.map Prod.fst
  written : ∀ e, (e, .written) ∈ (s.sweeps i).outcomes → ∃ r ∈ t.queue, r.id = e.id ∧
    r.jobId = e.jobId ∧ r.status = .synced ∧ r.attempts = e.attempts
  failed : ∀ e error landed, (e, .failed error landed) ∈ (s.sweeps i).outcomes →
    ∃ r ∈ t.queue, r.id = e.id ∧ r.jobId = e.jobId ∧ r.status = .failed ∧
      r.attempts = e.attempts + 1 ∧ r.lastError = some error
  others : ∀ r ∈ s.queue, r ∉ (s.sweeps i).claimed → r ∈ t.queue
  ids : t.queue.map PineconeSyncQueue.id = s.queue.map PineconeSyncQueue.id

theorem settles_of_commit (hs : Valid s) (h : step s (.commit i) = some t) : Settles s i t := by
  cases moves_of_step h with
  | commit _ done hi =>
      have houtcomes : (s.sweeps i).outcomes = done := by rw [hi]; rfl
      have hmarked {e w} (he : (e, w) ∈ (s.sweeps i).outcomes) :
          w.mark e ∈ (s.committed i done).queue := mem_committed hs hi (houtcomes ▸ he)
      refine ⟨?_, fun e he => ?_, fun e error landed he => ?_, fun r hr hnot => ?_, ?_⟩
      · rw [houtcomes, claimed_of_done hi]
      · exact ⟨_, hmarked he, rfl, rfl, rfl, rfl⟩
      · exact ⟨_, hmarked he, rfl, rfl, rfl, rfl, rfl⟩
      · exact mem_committed_of_notMem hs hi hr hnot
      · exact map_key_overwrite

/-- Any number of sweeps and enqueues, in any order of their steps. -/
theorem overlapping_sweeps_safe {db : Database} (h : Reachable step (initial db) s) :
    (∀ r ∈ s.queue, r.status = .synced → r.jobId ∈ s.index) ∧
    (∀ i j, ∀ e ∈ (s.sweeps i).claimed, ∀ e' ∈ (s.sweeps j).claimed, e.id = e'.id → i = j) ∧
    (∀ r ∈ s.queue, r.attempts = if r.status = .failed then 1 else 0) ∧
    (∀ a t, step s a = some t → ∀ r ∈ s.queue, r ∈ t.queue ∨
      r.status = .pending ∧ ∃ r' ∈ t.queue, r'.id = r.id ∧ r'.status ≠ .pending) ∧
    (∀ id as, statusChanges id s as ≤ 1) ∧
    ∀ i t, step s (.commit i) = some t → Settles s i t := by
  have hs : Valid s := valid_reachable h
  refine ⟨?_, ?_, ?_, ?_, ?_, ?_⟩
  · exact fun r hr => (hs.rows r hr).indexed
  · exact fun i j e he e' he' => hs.eq_of_claimed he he'
  · exact fun r hr => (hs.rows r hr).attempts
  · exact fun a t ht r hr => row_step hs ht hr
  · exact fun id as => statusChanges_le_one hs
  · exact fun i t ht => settles_of_commit hs ht

end

theorem noPayRate : ∀ r ∈ (none : Option ℕ), 0 < r := by simp

theorem noDuration : ∀ h ∈ (none : Option ℚ), 0 < h := by simp

/-- A job of which nothing but its description is known. -/
def describedJob (id messageId : ℕ) (description : String) : Job :=
  ⟨id, messageId, some description, none, none, .unknown, none, none, none, .available,
    noPayRate, noDuration⟩

/-- Two jobs of one user. -/
def twoJobs : Database :=
  { Database.empty with
    users := [⟨1, "+1", none⟩]
    messages := [⟨1, "SM1", 1, "paint", none, none⟩, ⟨2, "SM2", 1, "mow", none, none⟩]
    jobs := [describedJob 1 1 "paint", describedJob 2 2 "mow"] }

/-- Two sweeps hold one row each; one write fails although its vector has arrived. -/
def crossing : List Action :=
  [.enqueue 1 1, .enqueue 2 2,
    .claim 0 [⟨⟨1, 1, .pending, 0, none⟩, some "paint", "+1"⟩],
    .claim 1 [⟨⟨2, 2, .pending, 0, none⟩, some "mow", "+1"⟩],
    .write 1 (.failed "timeout" true), .write 0 .written, .commit 1]

theorem crossing_sweeps_safe : ∃ s t, exec step (initial twoJobs) crossing = some s ∧
    step s (.commit 0) = some t ∧ Settles s 0 t := by
  obtain ⟨s, hs⟩ : ∃ s, exec step (initial twoJobs) crossing = some s := ⟨_, rfl⟩
  obtain ⟨t, ht⟩ : ∃ t, step s (.commit 0) = some t := by
    cases hs
    exact ⟨_, rfl⟩
  exact ⟨s, t, hs, ht, (overlapping_sweeps_safe ⟨crossing, hs⟩).2.2.2.2.2 0 t ht⟩

end Vici.SyncSweeps
