import Vici.SweepActivity

/-!
# Deferred upserts

The commit of a job leaves the upsert of its vector to the attempt which has
committed it; when the upsert fails, the attempt enqueues the job for a sweep.
Neither is part of the commit of the job. The design gives a job up when its
attempt crashes in between, when the enqueue fails as well, and when a sweep
fails on the row: a failed row is never claimed again.
-/
namespace Vici.DeferredUpserts
open Models AppPrograms SessionPrograms RowCreation SyncQueueRepository Handlers ActionRuns
open SyncSweeps hiding State Action initial step Moves moves_of_step
open SweepActivity (upsertedJobs upsertedJobs_logged upsertedJobs_committed)
open Program (Triple)

/-- Where an attempt stands with the job which it has committed. -/
inductive Stage where
  | working
  | upserting (jobId : ℕ)
  | enqueueing (jobId : ℕ)
  | finished
  | dropped (jobId : ℕ)
  | crashed (jobId : ℕ)
  deriving DecidableEq

namespace Stage

/-- The job whose deferred upsert is still to be run, or running. -/
def deferred : Stage → Option ℕ
  | .upserting jobId | .enqueueing jobId => some jobId
  | _ => none

/-- The job which the attempt has given up. -/
def lost : Stage → Option ℕ
  | .dropped jobId | .crashed jobId => some jobId
  | _ => none

/-- A killed worker runs nothing any more. -/
def crash : Stage → Stage
  | .upserting jobId | .enqueueing jobId => .crashed jobId
  | .working => .finished
  | p => p

/-- A failed upsert goes on to the enqueue. -/
def afterUpsert (jobId : ℕ) : Write → Stage
  | .written => .finished
  | .failed _ _ => .enqueueing jobId

end Stage

structure State where
  sync : SyncSweeps.State
  attempts : ℕ → Stage

inductive Action where
  | elsewhere (db : Database)
  | sweep (a : SyncSweeps.Action)
  | createJob (n : ℕ) (job : Job)
  | upsert (n : ℕ) (outcome : Write)
  | enqueue (n : ℕ) (entryId : ℕ)
  | enqueueFails (n : ℕ)
  | crash (n : ℕ)

namespace State

abbrev jobs (s : State) : List Job := s.sync.database.jobs

def move (s : State) (n : ℕ) (p : Stage) : State :=
  { s with attempts := Function.update s.attempts n p }

def withJobs (s : State) (jobs : List Job) : State :=
  { s with sync := { s.sync with database := { s.sync.database with jobs := jobs } } }

def withIndex (s : State) (index : Finset ℕ) : State :=
  { s with sync := { s.sync with index := index } }

end State

/-- No job has been created yet. -/
def initial (db : Database) : State :=
  ⟨SyncSweeps.initial { db with jobs := [] }, fun _ => .working⟩

/-- The steps which a sweep takes. -/
def IsSweep : SyncSweeps.Action → Bool
  | .claim _ _ | .write _ _ | .commit _ | .crash _ => true
  | _ => false

def step (s : State) : Action → Option State
  | .elsewhere db =>
      some { s with sync := { s.sync with
        database := { db with jobs := s.jobs, syncQueue := s.sync.queue } } }
  | .sweep a =>
      if IsSweep a then (SyncSweeps.step s.sync a).map fun t => { s with sync := t } else none
  | .createJob n job =>
      match s.attempts n with
      | .working =>
          if ∀ j ∈ s.jobs, j.id ≠ job.id ∧ j.messageId ≠ job.messageId then
            some ((s.withJobs (s.jobs ++ [job])).move n (.upserting job.id))
          else none
      | _ => none
  | .upsert n outcome =>
      match s.attempts n with
      | .upserting jobId =>
          some ((s.withIndex
            (if outcome.lands then insert jobId s.sync.index else s.sync.index)).move
              n (.afterUpsert jobId outcome))
      | _ => none
  | .enqueue n entryId =>
      match s.attempts n with
      | .enqueueing jobId =>
          (SyncSweeps.step s.sync (.enqueue entryId jobId)).map fun t =>
            { s with sync := t }.move n .finished
      | _ => none
  | .enqueueFails n =>
      match s.attempts n with
      | .enqueueing jobId => some (s.move n (.dropped jobId))
      | _ => none
  | .crash n => some (s.move n (s.attempts n).crash)

/-- The insert which a handler stages is what the commit of its attempt creates. -/
theorem step_createJob_of_insertJob {s : State} {n : ℕ} {create : JobCreate} {job : Job}
    {d : Database} (hn : s.attempts n = .working)
    (h : insertJob create s.sync.database = .ok (job, d)) : step s (.createJob n job) =
      some ({ s with sync := { s.sync with database := d } }.move n (.upserting job.id)) := by
  obtain ⟨hmessage, hid, rfl⟩ := insertJob_ok h
  have hnew : ∀ j ∈ s.jobs, j.id ≠ job.id ∧ j.messageId ≠ job.messageId := by
    refine fun j hj => ⟨fun heq => insertJob_id h ?_, hid ▸ hmessage j hj⟩
    exact heq ▸ List.mem_map_of_mem hj
  simp only [step, hn, if_pos hnew]
  rfl

/-- The job can be found, or an attempt or a later sweep is to see to it. -/
def Kept (s : State) (jobId : ℕ) : Prop :=
  jobId ∈ s.sync.index ∨ (∃ n, (s.attempts n).deferred = some jobId) ∨
    ∃ r ∈ s.sync.queue, r.jobId = jobId ∧ r.status = .pending

/-- The job's attempt has crashed or has failed to enqueue it, or a sweep has failed on it. -/
def GivenUp (s : State) (jobId : ℕ) : Prop :=
  (∃ n, (s.attempts n).lost = some jobId) ∨
    ∃ r ∈ s.sync.queue, r.jobId = jobId ∧ r.status = .failed ∧ r.attempts = 1

/-- The steps by which a job is given up. -/
def GivesUp (s : State) (jobId : ℕ) : Action → Prop
  | .crash n => (s.attempts n).deferred = some jobId
  | .enqueueFails n => s.attempts n = .enqueueing jobId
  | .sweep (.commit i) => ∃ e error landed,
      (e, .failed error landed) ∈ (s.sync.sweeps i).outcomes ∧ e.jobId = jobId
  | _ => False

/-- A step gives no job up which cannot be found. -/
def Spares (s : State) (a : Action) : Prop := ∀ jobId, GivesUp s jobId a → jobId ∈ s.sync.index

section
variable {s t : State} {a : Action} {n jobId : ℕ}

inductive Moves (s : State) : Action → State → Prop where
  | elsewhere (db : Database) : Moves s (.elsewhere db) { s with sync := { s.sync with
      database := { db with jobs := s.jobs, syncQueue := s.sync.queue } } }
  | sweep (a : SyncSweeps.Action) (t : SyncSweeps.State) (hsweep : IsSweep a)
      (ht : SyncSweeps.step s.sync a = some t) : Moves s (.sweep a) { s with sync := t }
  | createJob (n : ℕ) (job : Job) (hn : s.attempts n = .working) : Moves s (.createJob n job)
      ((s.withJobs (s.jobs ++ [job])).move n (.upserting job.id))
  | upsert (n : ℕ) (outcome : Write) (jobId : ℕ) (hn : s.attempts n = .upserting jobId) :
      Moves s (.upsert n outcome) ((s.withIndex (if outcome.lands then insert jobId s.sync.index
        else s.sync.index)).move n (.afterUpsert jobId outcome))
  | enqueue (n entryId jobId : ℕ) (t : SyncSweeps.State) (hn : s.attempts n = .enqueueing jobId)
      (ht : SyncSweeps.step s.sync (.enqueue entryId jobId) = some t) :
      Moves s (.enqueue n entryId) ({ s with sync := t }.move n .finished)
  | enqueueFails (n jobId : ℕ) (hn : s.attempts n = .enqueueing jobId) :
      Moves s (.enqueueFails n) (s.move n (.dropped jobId))
  | crash (n : ℕ) : Moves s (.crash n) (s.move n (s.attempts n).crash)

theorem moves_of_step (h : step s a = some t) : Moves s a t := by
  cases a with
  | elsewhere db =>
      cases h
      exact .elsewhere db
  | sweep a =>
      simp only [step] at h
      split_ifs at h with hsweep
      obtain ⟨u, hu, rfl⟩ := Option.map_eq_some_iff.mp h
      exact .sweep a u hsweep hu
  | createJob n job =>
      simp only [step] at h
      split at h
      · split_ifs at h
        cases h
        exact .createJob n job ‹_›
      · cases h
  | upsert n outcome =>
      simp only [step] at h
      split at h
      · rename_i jobId hn
        cases h
        exact .upsert n outcome jobId hn
      · cases h
  | enqueue n entryId =>
      simp only [step] at h
      split at h
      · rename_i jobId hn
        obtain ⟨u, hu, rfl⟩ := Option.map_eq_some_iff.mp h
        exact .enqueue n entryId jobId u hn hu
      · cases h
  | enqueueFails n =>
      simp only [step] at h
      split at h
      · rename_i jobId hn
        cases h
        exact .enqueueFails n jobId hn
      · cases h
  | crash n =>
      cases h
      exact .crash n

theorem State.attempts_move (s : State) (n : ℕ) (p : Stage) : (s.move n p).attempts n = p :=
  Function.update_self _ _ _

theorem State.attempts_move_of_ne (s : State) {m n : ℕ} (p : Stage) (hne : m ≠ n) :
    (s.move n p).attempts m = s.attempts m := Function.update_of_ne hne _ _

/-- The database and the index take a step of the system of sweeps, or none; a sweep
commits in no other way. -/
theorem sync_step (h : step s a = some t) : t.sync = s.sync ∨
    ∃ b, SyncSweeps.step s.sync b = some t.sync ∧ ∀ i, b = .commit i → a = .sweep (.commit i) := by
  cases moves_of_step h with
  | elsewhere db => exact .inr ⟨.elsewhere { db with jobs := s.jobs }, rfl, nofun⟩
  | sweep a u hsweep hu =>
      refine .inr ⟨a, hu, ?_⟩
      rintro i rfl
      rfl
  | createJob n job hn =>
      exact .inr ⟨.elsewhere { s.sync.database with jobs := s.jobs ++ [job] }, rfl, nofun⟩
  | upsert n outcome jobId hn =>
      cases hlands : outcome.lands with
      | true => exact .inr ⟨.upsert jobId, rfl, nofun⟩
      | false => exact .inl rfl
  | enqueue n entryId jobId u hn hu => exact .inr ⟨.enqueue entryId jobId, hu, nofun⟩
  | enqueueFails n jobId hn => exact .inl rfl
  | crash n => exact .inl rfl

theorem valid_step (hs : Valid s.sync) (h : step s a = some t) : Valid t.sync := by
  rcases sync_step h with hsame | ⟨b, hb, _⟩
  · rwa [hsame]
  · exact SyncSweeps.valid_step hs hb

theorem index_subset_step (h : step s a = some t) : s.sync.index ⊆ t.sync.index := by
  rcases sync_step h with hsame | ⟨b, hb, _⟩
  · rw [hsame]
  · exact SyncSweeps.index_subset_step hb

theorem queue_subset_step (h : step s a = some t) (hcommit : ∀ i, a ≠ .sweep (.commit i)) :
    s.sync.queue ⊆ t.sync.queue := by
  rcases sync_step h with hsame | ⟨b, hb, hb'⟩
  · rw [hsame]
    exact List.Subset.refl _
  · exact SyncSweeps.queue_subset_step hb fun i hi => hcommit i (hb' i hi)

/-- Upserted, enqueued, or given up: a deferred upsert does not just vanish. -/
theorem kept_of_deferred (h : step s a = some t) (hn : (s.attempts n).deferred = some jobId) :
    Kept t jobId ∨ GivesUp s jobId a := by
  have hsame (ht : t.attempts n = s.attempts n) : Kept t jobId ∨ GivesUp s jobId a :=
    .inl (.inr (.inl ⟨n, ht ▸ hn⟩))
  cases moves_of_step h with
  | elsewhere db => exact hsame rfl
  | sweep a u hsweep hu => exact hsame rfl
  | createJob m job hm =>
      refine hsame (State.attempts_move_of_ne _ _ ?_)
      rintro rfl
      simp [hm, Stage.deferred] at hn
  | upsert m outcome jobId' hm =>
      rcases eq_or_ne n m with rfl | hne
      · obtain rfl : jobId' = jobId := by simpa [hm, Stage.deferred] using hn
        cases outcome with
        | written => exact .inl (.inl (Finset.mem_insert_self _ _))
        | failed error landed =>
            refine .inl (.inr (.inl ⟨n, ?_⟩))
            rw [State.attempts_move]
            rfl
      · exact hsame (State.attempts_move_of_ne _ _ hne)
  | enqueue m entryId jobId' u hm hu =>
      rcases eq_or_ne n m with rfl | hne
      · obtain rfl : jobId' = jobId := by simpa [hm, Stage.deferred] using hn
        cases SyncSweeps.moves_of_step hu with
        | enqueue _ _ _ =>
            refine .inl (.inr (.inr ⟨⟨entryId, jobId', .pending, 0, none⟩, ?_, rfl, rfl⟩))
            exact List.mem_append_right _ List.mem_cons_self
      · exact hsame (State.attempts_move_of_ne _ _ hne)
  | enqueueFails m jobId' hm =>
      rcases eq_or_ne n m with rfl | hne
      · obtain rfl : jobId' = jobId := by simpa [hm, Stage.deferred] using hn
        exact .inr hm
      · exact hsame (State.attempts_move_of_ne _ _ hne)
  | crash m =>
      rcases eq_or_ne n m with rfl | hne
      · exact .inr hn
      · exact hsame (State.attempts_move_of_ne _ _ hne)

/-- A pending row stays, or its sweep has found its outcome. -/
theorem kept_of_queued (hs : Valid s.sync) (h : step s a = some t) {r : PineconeSyncQueue}
    (hr : r ∈ s.sync.queue) (hpending : r.status = .pending) :
    Kept t r.jobId ∨ GivesUp s r.jobId a := by
  have hstays (hr' : r ∈ t.sync.queue) : Kept t r.jobId ∨ GivesUp s r.jobId a :=
    .inl (.inr (.inr ⟨r, hr', rfl, hpending⟩))
  by_cases hcommit : ∃ i, a = .sweep (.commit i)
  · obtain ⟨i, rfl⟩ := hcommit
    have ht : Valid t.sync := valid_step hs h
    cases moves_of_step h with
    | sweep _ u hsweep hu =>
        have hsettles : Settles s.sync i u := settles_of_commit hs hu
        by_cases hclaimed : r ∈ (s.sync.sweeps i).claimed
        · rw [hsettles.all] at hclaimed
          obtain ⟨⟨e, outcome⟩, hd, rfl⟩ := List.mem_map.mp hclaimed
          cases outcome with
          | written =>
              obtain ⟨row, hrow, _, hjob, hsynced, _⟩ := hsettles.written e hd
              exact .inl (.inl (hjob ▸ (ht.rows row hrow).indexed hsynced))
          | failed error landed => exact .inr ⟨e, error, landed, hd, rfl⟩
        · exact hstays (hsettles.others r hr hclaimed)
  · exact hstays (queue_subset_step h (fun i hi => hcommit ⟨i, hi⟩) hr)

theorem kept_step (hs : Valid s.sync) (h : step s a = some t) (hkept : Kept s jobId) :
    Kept t jobId ∨ GivesUp s jobId a := by
  rcases hkept with hindex | ⟨n, hn⟩ | ⟨r, hr, rfl, hpending⟩
  · exact .inl (.inl (index_subset_step h hindex))
  · exact kept_of_deferred h hn
  · exact kept_of_queued hs h hr hpending

/-- What gives a job up leaves its trace. -/
theorem givenUp_of_givesUp (hs : Valid s.sync) (h : step s a = some t)
    (hgives : GivesUp s jobId a) : GivenUp t jobId := by
  cases moves_of_step h with
  | crash n =>
      refine .inl ⟨n, ?_⟩
      rw [State.attempts_move]
      cases hn : s.attempts n <;> simp_all [GivesUp, Stage.deferred, Stage.crash, Stage.lost]
  | enqueueFails n jobId' hn =>
      obtain rfl : jobId' = jobId := by simpa [GivesUp, hn] using hgives
      refine .inl ⟨n, ?_⟩
      rw [State.attempts_move]
      rfl
  | sweep a u hsweep hu =>
      cases a with
      | commit i =>
          obtain ⟨e, error, landed, hd, rfl⟩ := hgives
          obtain ⟨row, hrow, _, hjob, hfailed, _⟩ :=
            (settles_of_commit hs hu).failed e error landed hd
          have hattempts := ((SyncSweeps.valid_step hs hu).rows row hrow).attempts
          rw [hfailed] at hattempts
          exact .inr ⟨row, hrow, hjob, hfailed, hattempts⟩
      | _ => exact hgives.elim
  | _ => exact hgives.elim

/-- An attempt which has given a job up does nothing more. -/
theorem lost_step (h : step s a = some t) (hn : (s.attempts n).lost = some jobId) :
    (t.attempts n).lost = some jobId := by
  have hother {m : ℕ} {p q : Stage} (hm : s.attempts m = p) (hp : p.lost = none) :
      ((s.move m q).attempts n).lost = some jobId := by
    rw [State.attempts_move_of_ne]
    · exact hn
    · rintro rfl
      simp [hm, hp] at hn
  cases moves_of_step h with
  | elsewhere db => exact hn
  | sweep a u hsweep hu => exact hn
  | createJob m job hm => exact hother hm rfl
  | upsert m outcome jobId' hm => exact hother hm rfl
  | enqueue m entryId jobId' u hm hu => exact hother hm rfl
  | enqueueFails m jobId' hm => exact hother hm rfl
  | crash m =>
      rcases eq_or_ne n m with rfl | hne
      · rw [State.attempts_move]
        cases hp : s.attempts n <;> simp_all [Stage.crash, Stage.lost]
      · rw [State.attempts_move_of_ne _ _ hne]
        exact hn

theorem givenUp_step (hs : Valid s.sync) (h : step s a = some t) (hgiven : GivenUp s jobId) :
    GivenUp t jobId := by
  rcases hgiven with ⟨n, hn⟩ | ⟨r, hr, rfl, hfailed, hattempts⟩
  · exact .inl ⟨n, lost_step h hn⟩
  · refine .inr ⟨r, ?_, rfl, hfailed, hattempts⟩
    rcases sync_step h with hsame | ⟨b, hb, _⟩
    · rwa [hsame]
    · rcases row_step hs hb hr with hr' | ⟨hpending, _⟩
      · exact hr'
      · rw [hfailed] at hpending
        cases hpending

/-- Only the commit of an attempt creates a job, and it leaves the upsert to that attempt. -/
theorem jobs_step (h : step s a = some t) : ∀ job ∈ t.jobs, job ∈ s.jobs ∨ Kept t job.id := by
  intro job hjob
  cases moves_of_step h with
  | sweep a u hsweep hu =>
      left
      cases SyncSweeps.moves_of_step hu with
      | elsewhere db => cases hsweep
      | _ => exact hjob
  | createJob n new hn =>
      rcases List.mem_append.mp hjob with hold | hnew
      · exact .inl hold
      · obtain rfl := List.mem_singleton.mp hnew
        refine .inr (.inr (.inl ⟨n, ?_⟩))
        rw [State.attempts_move]
        rfl
  | enqueue n entryId jobId u hn hu =>
      left
      cases SyncSweeps.moves_of_step hu with
      | enqueue _ _ _ => exact hjob
  | _ => exact .inl hjob

theorem valid_initial (db : Database) : Valid (initial db).sync := SyncSweeps.valid_initial _

/-- Where only jobs are given up which can be found, no committed job is lost. -/
theorem kept_along {db : Database} {run : List Action}
    (hok : Along step Spares (initial db) run) (hrun : exec step (initial db) run = some s) :
    ∀ job ∈ s.jobs, Kept s job.id := by
  have hall := exec_invariant (fun x => Valid x.sync ∧ ∀ job ∈ x.jobs, Kept x job.id)
    (fun x a y hxa hx hy => ⟨valid_step hx.1 hy, fun job hjob => ?_⟩) hok
    ⟨valid_initial db, List.forall_mem_nil _⟩ hrun
  · exact hall.2
  · rcases jobs_step hy job hjob with hold | hnew
    · rcases kept_step hx.1 hy (hx.2 job hold) with hkept | hgives
      · exact hkept
      · exact .inl (index_subset_step hy (hxa job.id hgives))
    · exact hnew

/-- Over any failures and crashes, a committed job is kept, or was given up by design. -/
theorem committed_job_accounted_for {db : Database} (h : Reachable step (initial db) s) :
    ∀ job ∈ s.jobs, Kept s job.id ∨ GivenUp s job.id := by
  have hall := reachable_invariant
    (fun x => Valid x.sync ∧ ∀ job ∈ x.jobs, Kept x job.id ∨ GivenUp x job.id)
    (fun x a y hx hy => ⟨valid_step hx.1 hy, fun job hjob => ?_⟩)
    ⟨valid_initial db, List.forall_mem_nil _⟩ h
  · exact hall.2
  · rcases jobs_step hy job hjob with hold | hnew
    · rcases hx.2 job hold with hkept | hgiven
      · rcases kept_step hx.1 hy hkept with hkept' | hgives
        · exact .inl hkept'
        · exact .inr (givenUp_of_givesUp hx.1 hy hgives)
      · exact .inr (givenUp_step hx.1 hy hgiven)
    · exact .inl hnew

end

/-- The poster and the message of one job. -/
def onePoster : Database :=
  { Database.empty with
    users := [⟨1, "+1", none⟩]
    messages := [⟨1, "SM1", 1, "paint", some .jobPosting, none⟩] }

def paintJob : Job := describedJob 1 1 "paint"

def refused : Write := .failed "Pinecone down" false

theorem accounted_for_after_crash : ∃ s,
    exec step (initial onePoster) [.createJob 0 paintJob, .crash 0] = some s ∧
      paintJob ∈ s.jobs ∧ (Kept s 1 ∨ GivenUp s 1) :=
  ⟨_, rfl, List.mem_singleton_self _, committed_job_accounted_for
    ⟨[.createJob 0 paintJob, .crash 0], rfl⟩ paintJob (List.mem_singleton_self _)⟩

def LosesJob (run : List Action) : Prop :=
  ∃ s, exec step (initial onePoster) run = some s ∧ ∃ job ∈ s.jobs, ¬Kept s job.id

theorem not_kept {s : State} {jobId : ℕ} (hindex : jobId ∉ s.sync.index)
    (hstage : ∀ n, (s.attempts n).deferred = none)
    (hqueue : ∀ r ∈ s.sync.queue, r.status ≠ .pending) : ¬Kept s jobId := by
  rintro (hkept | ⟨n, hn⟩ | ⟨r, hr, _, hpending⟩)
  · exact hindex hkept
  · simp [hstage n] at hn
  · exact hqueue r hr hpending

/-- A crash between the commit and the upsert, a database which is down as well, and a
sweep which fails. -/
theorem job_lost_by_crash_enqueue_sweep :
    LosesJob [.createJob 0 paintJob, .crash 0] ∧
    LosesJob [.createJob 0 paintJob, .upsert 0 refused, .enqueueFails 0] ∧
    LosesJob [.createJob 0 paintJob, .upsert 0 refused, .enqueue 0 1,
      .sweep (.claim 0 [⟨⟨1, 1, .pending, 0, none⟩, some "paint", "+1"⟩]),
      .sweep (.write 0 refused), .sweep (.commit 0)] := by
  refine ⟨?_, ?_, ?_⟩
  all_goals
    refine ⟨_, rfl, paintJob, List.mem_singleton_self _, not_kept (by decide) (fun n => ?_) ?_⟩
    · cases n <;> rfl
    · decide

section
variable {s : State} {n jobId : ℕ} {landed : Bool} {st : AppStore}

/-- The program is where a run of the system has brought the attempt; the vector of a
`landed` upsert has arrived already. -/
def Tracks (s : State) (n jobId : ℕ) (landed : Bool) (p : Stage) (st : AppStore) : Prop :=
  ∃ as t, exec step s as = some t ∧ t.attempts n = p ∧ t.sync.database = st.committed ∧
    s.sync.index ∪ upsertedJobs st.log =
      if landed then insert jobId t.sync.index else t.sync.index

theorem Tracks.upsert (outcome : Write) (h : Tracks s n jobId outcome.lands (.upserting jobId) st) :
    Tracks s n jobId false (.afterUpsert jobId outcome) st := by
  obtain ⟨as, t, hrun, hn, hdb, hindex⟩ := h
  have hstep : step t (.upsert n outcome) = some ((t.withIndex (if outcome.lands then
      insert jobId t.sync.index else t.sync.index)).move n (.afterUpsert jobId outcome)) := by
    simp [step, hn]
  exact ⟨_, _, exec_snoc hrun hstep, State.attempts_move _ _ _, hdb, hindex⟩

theorem Tracks.crash {p : Stage} (h : Tracks s n jobId false p st) :
    Tracks s n jobId false p.crash st := by
  obtain ⟨as, t, hrun, rfl, hdb, hindex⟩ := h
  exact ⟨_, _, exec_snoc hrun (a := .crash n) rfl, State.attempts_move _ _ _, hdb, hindex⟩

theorem Tracks.enqueueFails (h : Tracks s n jobId false (.enqueueing jobId) st) :
    Tracks s n jobId false (.dropped jobId) st := by
  obtain ⟨as, t, hrun, hn, hdb, hindex⟩ := h
  have hstep : step t (.enqueueFails n) = some (t.move n (.dropped jobId)) := by
    simp [step, hn]
  exact ⟨_, _, exec_snoc hrun hstep, State.attempts_move _ _ _, hdb, hindex⟩

theorem Tracks.enqueue {entry : PineconeSyncQueue} {d : Database}
    (h : Tracks s n jobId false (.enqueueing jobId) st)
    (hinsert : insertEntry jobId st.committed = .ok (entry, d)) :
    Tracks s n jobId false .finished ⟨d, d, st.log ++ [.committed d]⟩ := by
  obtain ⟨as, t, hrun, hn, hdb, hindex⟩ := h
  rw [← hdb] at hinsert
  have hstep : step t (.enqueue n entry.id) =
      some ({ t with sync := { t.sync with database := d } }.move n .finished) := by
    simp [step, hn, step_enqueue_of_insertEntry hinsert]
  refine ⟨_, _, exec_snoc hrun hstep, State.attempts_move _ _ _, rfl, ?_⟩
  rw [upsertedJobs_committed]
  exact hindex

/-- The attempt is through with the job. -/
def Ended (s : State) (n jobId : ℕ) (st : AppStore) : Prop :=
  ∃ p : Stage, p.deferred = none ∧ Tracks s n jobId false p st

theorem writeJobEmbedding_triple (description phoneHash : String) :
    Triple (fun st => Tracks s n jobId false (.upserting jobId) st ∧ st.session = st.committed)
      (writeJobEmbedding jobId description phoneHash)
      (fun _ st => Tracks s n jobId true (.upserting jobId) st)
      (fun _ st => (∃ landed, Tracks s n jobId landed (.upserting jobId) st) ∧
        st.session = st.committed) := by
  have hlogged (st : AppStore) (h : Tracks s n jobId false (.upserting jobId) st) :
      Tracks s n jobId true (.upserting jobId)
        (Program.logged (.vectorUpserted jobId description phoneHash) st) := by
    obtain ⟨as, t, hrun, hn, hdb, hindex⟩ := h
    refine ⟨as, t, hrun, hn, hdb, ?_⟩
    rw [upsertedJobs_logged, Finset.union_insert, hindex]
    rfl
  refine .bind (.step fun _ st _ h => ⟨⟨false, h.1⟩, h.2⟩) fun _ => ?_
  refine .external (fun _ st _ h => ⟨⟨false, h.1⟩, h.2⟩)
    (fun _ st _ h => ⟨⟨true, hlogged st h.1⟩, h.2⟩) fun st h => hlogged st h.1

/-- The `except` branch: enqueue and commit, or roll back. -/
theorem enqueueOrRollback_triple :
    Triple (fun st => Tracks s n jobId false (.enqueueing jobId) st ∧ st.session = st.committed)
      (.attempt (do
        let _ ← enqueue jobId
        .commit) fun _ => some .rollback)
      (fun _ => Ended s n jobId) (fun _ => Ended s n jobId) := by
  have hdropped (st : AppStore) (d : Database)
      (h : Tracks s n jobId false (.enqueueing jobId) st ∨ Ended s n jobId st) :
      Ended s n jobId { st with session := d } := by
    rcases h with h | h
    · exact ⟨_, rfl, h.enqueueFails⟩
    · exact h
  have hbody : Triple
      (fun st => Tracks s n jobId false (.enqueueing jobId) st ∧ st.session = st.committed)
      (do
        let _ ← enqueue jobId
        .commit : App Unit) (fun _ => Ended s n jobId)
      (fun _ st => Tracks s n jobId false (.enqueueing jobId) st ∨ Ended s n jobId st) := by
    refine .bind (Q := fun entry st => Tracks s n jobId false (.enqueueing jobId) st ∧
        insertEntry jobId st.committed = .ok (entry, st.session))
      (.statement (fun _ _ _ h => .inl h.1) (fun _ _ h _ => .inl h.1) ?_) fun entry => ?_
    · rintro st entry d ⟨h, hsession⟩ hinsert
      exact ⟨h, hsession ▸ hinsert⟩
    · exact .commit (fun _ _ _ h => .inl h.1) (fun _ st _ h => .inr ⟨_, rfl, h.1.enqueue h.2⟩)
        fun st h => ⟨_, rfl, h.1.enqueue h.2⟩
  refine .attempt hbody (fun st h => hdropped st _ h) (fun e h hh => ?_) fun e hh => ?_
  · cases hh
    exact .rollback (fun _ st _ h => hdropped st _ h) fun st h => hdropped st _ h
  · cases hh

theorem upsertEmbedding_triple (description phoneHash : String) :
    Triple (fun st => Tracks s n jobId false (.upserting jobId) st ∧ st.session = st.committed)
      (perform (.upsertEmbedding jobId description phoneHash))
      (fun _ => Ended s n jobId) (fun _ => Ended s n jobId) := by
  have hbody : Triple
      (fun st => Tracks s n jobId false (.upserting jobId) st ∧ st.session = st.committed)
      (writeJobEmbedding jobId description phoneHash) (fun _ => Ended s n jobId)
      (fun _ st => (∃ landed, Tracks s n jobId landed (.upserting jobId) st) ∧
        st.session = st.committed) :=
    (writeJobEmbedding_triple description phoneHash).consequence (fun _ h => h)
      (fun _ st h => ⟨.finished, rfl, Tracks.upsert .written h⟩) fun _ _ h => h
  rw [perform]
  refine .attempt hbody (fun st h => ?_) (fun e handler hh => ?_) fun e hh => ?_
  · obtain ⟨⟨landed, hst⟩, _⟩ := h
    have hcrashed := (Tracks.upsert (.failed "" landed) hst).crash
    exact ⟨.crashed jobId, rfl, hcrashed⟩
  · cases hh
    rintro w ⟨⟨landed, hw⟩, hsession⟩
    exact enqueueOrRollback_triple w ⟨Tracks.upsert (.failed "" landed) hw, hsession⟩
  · cases hh

/-- The closure which the handler registers does what its attempt can do. -/
theorem upsertEmbedding_refines (hn : s.attempts n = .upserting jobId)
    (description phoneHash : String) (faults : List (Option AppFault)) :
    Ended s n jobId ((perform (.upsertEmbedding jobId description phoneHash)).run
      (.opened s.sync.database faults)).2.store := by
  have hstart : Tracks s n jobId false (.upserting jobId) ⟨s.sync.database, s.sync.database, []⟩ :=
    ⟨[], s, rfl, hn, rfl, by simp [upsertedJobs]⟩
  exact (upsertEmbedding_triple description phoneHash).store ⟨hstart, rfl⟩

end

theorem upsertEmbedding_refines_refused :
    ∃ s, exec step (initial onePoster) [.createJob 0 paintJob] = some s ∧
      Ended s 0 1 ((perform (.upsertEmbedding 1 "paint" "+1")).run (.opened s.sync.database
        [none, some (.refuses (.unavailable "Pinecone down"))])).2.store := by
  obtain ⟨s, hrun, hn⟩ : ∃ s, exec step (initial onePoster) [.createJob 0 paintJob] = some s ∧
      s.attempts 0 = .upserting 1 := ⟨_, rfl, rfl⟩
  exact ⟨s, hrun, upsertEmbedding_refines hn _ _ _⟩

end Vici.DeferredUpserts
