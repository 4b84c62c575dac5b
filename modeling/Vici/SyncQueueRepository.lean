import Vici.AppPrograms
import Vici.KeyedRows

/-!
# The queue of jobs to be indexed

A job whose embedding could not be written is queued; a sweep claims queued
entries in the order of their keys, skipping those which another sweep has
locked, and marks each entry by the outcome of its write.
-/
namespace Vici.SyncQueueRepository
open Models AppPrograms SessionPrograms KeyedRows

def pineconeSyncBatchSize : ℕ := 50

/-- The row of a new entry, under the next key. -/
def pendingEntry (db : Database) (jobId : ℕ) : PineconeSyncQueue :=
  ⟨nextId (db.syncQueue.map PineconeSyncQueue.id), jobId, .pending, 0, none⟩

def insertEntry (jobId : ℕ) (db : Database) : Except AppExn (PineconeSyncQueue × Database) :=
  if db.jobs.all fun j => decide (j.id ≠ jobId) then .error (.infra .integrity)
  else .ok (pendingEntry db jobId, { db with syncQueue := db.syncQueue ++ [pendingEntry db jobId] })

def enqueue (jobId : ℕ) : App PineconeSyncQueue := .statement (insertEntry jobId)

/-- The entries which wait to be claimed. -/
def countPending (db : Database) : ℕ :=
  db.syncQueue.countP fun e => decide (e.status = .pending)

/-- What an embedding is written from: the job and the sender of its message. -/
structure PendingJobEmbedding where
  entry : PineconeSyncQueue
  description : Option String
  phoneHash : String
  deriving DecidableEq

/-- The joins of `claim_pending`: an entry whose job, message or user is missing drops out. -/
def embeddingsOf (db : Database) (entry : PineconeSyncQueue) : List PendingJobEmbedding :=
  (db.jobs.filter fun j => decide (j.id = entry.jobId)).flatMap fun j =>
    (db.messages.filter fun m => decide (m.id = j.messageId)).flatMap fun m =>
      (db.users.filter fun u => decide (u.id = m.userId)).map fun u =>
        ⟨entry, j.description, u.phoneHash⟩

/-- The entries which are pending and not locked, the lowest keys first. -/
def claimPending (db : Database) (locked : ℕ → Bool) (limit : ℕ) : List PendingJobEmbedding :=
  (((db.syncQueue.filter fun e => decide (e.status = .pending) && !locked e.id).flatMap
    (embeddingsOf db)).insertionSort fun a b => a.entry.id ≤ b.entry.id).take limit

def markSynced (e : PineconeSyncQueue) : PineconeSyncQueue := { e with status := .synced }

def markFailed (error : String) (e : PineconeSyncQueue) : PineconeSyncQueue :=
  { e with status := .failed, attempts := e.attempts + 1, lastError := some error }

theorem insertEntry_ok {jobId : ℕ} {db d : Database} {entry : PineconeSyncQueue}
    (h : insertEntry jobId db = .ok (entry, d)) :
    entry = pendingEntry db jobId ∧ d = { db with syncQueue := db.syncQueue ++ [entry] } := by
  unfold insertEntry at h
  split_ifs at h
  cases h
  exact ⟨rfl, rfl⟩

/-- The foreign key of an entry leads to a stored job. -/
theorem insertEntry_job {jobId : ℕ} {db d : Database} {entry : PineconeSyncQueue}
    (h : insertEntry jobId db = .ok (entry, d)) : jobId ∈ db.jobs.map Job.id := by
  unfold insertEntry at h
  split_ifs at h with hknown
  simpa using hknown

/-- The primary keys of the tables which a claim joins. -/
structure UniqueKeys (db : Database) : Prop where
  jobs : (db.jobs.map Job.id).Nodup
  messages : (db.messages.map Message.id).Nodup
  users : (db.users.map User.id).Nodup

section
variable {db : Database} {locked : ℕ → Bool} {limit : ℕ} {p : PendingJobEmbedding}

theorem entry_of_mem_embeddingsOf {e : PineconeSyncQueue} (h : p ∈ embeddingsOf db e) :
    p.entry = e := by
  simp only [embeddingsOf, List.mem_flatMap, List.mem_map] at h
  obtain ⟨_, _, _, _, _, _, rfl⟩ := h
  rfl

/-- An entry has one job, that one message, and that one user. -/
theorem length_embeddingsOf_le_one (hkeys : UniqueKeys db) (e : PineconeSyncQueue) :
    (embeddingsOf db e).length ≤ 1 := by
  refine length_flatMap_le_one (length_filter_key_le_one hkeys.jobs _) fun j => ?_
  refine length_flatMap_le_one (length_filter_key_le_one hkeys.messages _) fun m => ?_
  rw [List.length_map]
  exact length_filter_key_le_one hkeys.users _

theorem mem_claimPending (h : p ∈ claimPending db locked limit) :
    (p.entry ∈ db.syncQueue ∧ p.entry.status = .pending ∧ locked p.entry.id = false) ∧
      p ∈ embeddingsOf db p.entry := by
  have hjoined := (List.mem_insertionSort _).mp (List.mem_of_mem_take h)
  obtain ⟨e, he, hp⟩ := List.mem_flatMap.mp hjoined
  have hentry : p.entry = e := entry_of_mem_embeddingsOf hp
  obtain ⟨hmem, hfree⟩ := List.mem_filter.mp he
  rw [hentry]
  refine ⟨⟨hmem, ?_⟩, hp⟩
  simpa using hfree

/-- The claimed entries are distinct and come in the order of their keys. -/
theorem claimPending_pairwise (hkeys : UniqueKeys db)
    (hids : (db.syncQueue.map PineconeSyncQueue.id).Nodup) :
    ((claimPending db locked limit).map fun p => p.entry.id).Pairwise (· < ·) := by
  have : Std.Total fun a b : PendingJobEmbedding => a.entry.id ≤ b.entry.id :=
    ⟨fun _ _ => le_total _ _⟩
  have : IsTrans PendingJobEmbedding fun a b => a.entry.id ≤ b.entry.id :=
    ⟨fun _ _ _ => le_trans⟩
  let free := db.syncQueue.filter fun e => decide (e.status = .pending) && !locked e.id
  let joined := free.flatMap (embeddingsOf db)
  have hnodup : (joined.map fun p => p.entry.id).Nodup := by
    have hsub : (joined.map fun p => p.entry.id).Sublist (free.map PineconeSyncQueue.id) :=
      map_flatMap_sublist (fun e _ => length_embeddingsOf_le_one hkeys e)
        fun e _ p hp => by rw [entry_of_mem_embeddingsOf hp]
    exact hsub.nodup ((List.filter_sublist.map _).nodup hids)
  have hsorted : (joined.insertionSort fun a b => a.entry.id ≤ b.entry.id).Pairwise
      fun a b => a.entry.id ≤ b.entry.id := List.pairwise_insertionSort _ _
  have hdistinct : (joined.insertionSort fun a b => a.entry.id ≤ b.entry.id).Pairwise
      fun a b => a.entry.id ≠ b.entry.id := by
    have hperm := (List.perm_insertionSort (fun a b => a.entry.id ≤ b.entry.id) joined).map
      fun p => p.entry.id
    exact List.pairwise_map.mp (hperm.nodup_iff.mpr hnodup)
  rw [List.pairwise_map]
  refine List.Pairwise.sublist (List.take_sublist _ _) ?_
  exact (hsorted.and hdistinct).imp fun h => lt_of_le_of_ne h.1 h.2

end

end Vici.SyncQueueRepository
