import Vici.TableIntegrity

/-!
# No entry of the queue starves

A sweep claims the pending entries with the lowest keys, and settles all which it
has claimed when it returns: a write which fails is an outcome too. New entries
come in under higher keys. So the entries ahead of a pending entry become fewer by
a whole batch with every sweep which returns, until the entry is claimed itself,
whatever else goes on between the sweeps.
-/
namespace Vici.QueueDraining
open Models AppPrograms SessionPrograms SyncQueueRepository Handlers ActionRuns KeyedRows
open DeliveryFootprints SweepActivity RateLimitPurge ServiceRuns TableIntegrity SmsRepositories
open Program (Triple Keeps)

def Waits (i : ℕ) (d : Database) : Prop := ∃ e ∈ d.syncQueue, e.id = i ∧ e.status = .pending

instance (i : ℕ) (d : Database) : Decidable (Waits i d) :=
  inferInstanceAs (Decidable (∃ e ∈ d.syncQueue, e.id = i ∧ e.status = .pending))

/-- The keys of the entries which are claimed before `i`. -/
def ahead (i : ℕ) (d : Database) : Finset ℕ := (Finset.range i).filter fun k => Waits k d

theorem mem_ahead {i k : ℕ} {d : Database} : k ∈ ahead i d ↔ k < i ∧ Waits k d := by
  simp [ahead]

/-- The keys which a sweep claims. -/
def claimedIds (d : Database) (locked : ℕ → Bool) : List ℕ :=
  (claimPending d locked pineconeSyncBatchSize).map fun p => p.entry.id

/-- No entry of the claimed keys is pending in the view. -/
def Settles (ids : List ℕ) (d : Database) : Prop := ∀ i ∈ ids, ¬Waits i d

section
variable {d x : Database} {locked : ℕ → Bool} {i : ℕ} {e e' mark : PineconeSyncQueue}
variable {ids : List ℕ}

theorem Marked.waits (h : Marked e e') (hpending : e'.status = .pending) : e' = e := by
  rcases h with rfl | ⟨_, rfl | ⟨_, rfl⟩⟩
  · rfl
  · cases hpending
  · cases hpending

/-- Marks settle entries and leave none pending which was not. -/
theorem waits_of_marks (h : Marks d x) (hw : Waits i x) : Waits i d := by
  obtain ⟨rows, rfl, hrows⟩ := h
  obtain ⟨e', he', rfl, hpending⟩ := hw
  obtain ⟨e, he, hmarked⟩ := exists_of_forall₂ hrows he'
  obtain rfl := Marked.waits hmarked hpending
  exact ⟨_, he, rfl, hpending⟩

theorem settles_nil (d : Database) : Settles [] d := fun _ hi => by cases hi

/-- A flushed outcome settles its entry and leaves the others as they are. -/
theorem Settles.flush (hmark : mark.status ≠ .pending) (h : Settles ids x) :
    Settles (ids ++ [mark.id])
      { x with syncQueue := overwrite PineconeSyncQueue.id [mark] x.syncQueue } := by
  rintro i hi ⟨e, he, rfl, hpending⟩
  rcases mem_overwrite he with hmem | ⟨hmem, hne⟩
  · rw [List.mem_singleton.mp hmem] at hpending
    exact hmark hpending
  · rcases List.mem_append.mp hi with hi | hi
    · exact h _ hi ⟨e, hmem, rfl, hpending⟩
    · exact hne (by simpa using List.mem_singleton.mp hi)

/-- Whatever comes of its write, a row is settled when its block is left. -/
theorem syncRow_settles {p : PendingJobEmbedding} (str : InfraError → String) :
    Triple (fun s => Settles ids s.session) (syncRow str p)
      (fun _ s => Settles (ids ++ [p.entry.id]) s.session) (fun _ _ => True) := by
  have hflush (mark : PineconeSyncQueue) (hmark : mark.status ≠ .pending)
      (hid : mark.id = p.entry.id) : Triple (fun s => Settles ids s.session) (flushEntry mark)
        (fun _ s => Settles (ids ++ [p.entry.id]) s.session)
        (fun _ s => Settles ids s.session) := by
    refine .statement (fun _ _ _ hs => hs) (fun _ _ hs _ => hs) fun s _ y hs hok => ?_
    cases hok
    exact hid ▸ hs.flush hmark
  have hwrite : Keeps (fun s => Settles ids s.session) (fun _ => True) (writeRow p) := by
    unfold writeRow
    split
    · exact .raise trivial
    · exact .bind .step fun _ => .external fun _ hs => hs
  have hbody : Triple (fun s => Settles ids s.session) (do
      writeRow p
      flushEntry (markSynced p.entry)) (fun _ s => Settles (ids ++ [p.entry.id]) s.session)
      (fun _ s => Settles ids s.session) :=
    .bind (hwrite.consequence (fun _ hs => hs) (fun _ _ hs => hs) fun _ _ hs => hs.1)
      fun _ => hflush _ (by simp [markSynced]) rfl
  refine .attempt hbody (fun _ _ => trivial) (fun e handler hh => ?_) fun _ _ _ _ => trivial
  cases hh
  exact (hflush (markFailed (errorText str e) p.entry) (by simp [markFailed]) rfl).consequence
    (fun _ hs => hs) (fun _ _ hs => hs) fun _ _ _ => trivial

/-- A sweep which returns has settled what it claimed. -/
theorem sync_settles (d : Database) (locked : ℕ → Bool) (str : InfraError → String) :
    Triple (· = ⟨d, d, []⟩) (syncPineconeQueueActivity locked str)
      (fun _ s => Settles (claimedIds d locked) s.committed) (fun _ _ => True) := by
  refine .closing (.bind (Q := fun pending _ => pending =
    claimPending d locked pineconeSyncBatchSize) (.query (fun _ _ _ _ => trivial) ?_)
      fun pending => ?_)
  · rintro s rfl
    rfl
  · rintro w rfl
    let settledIds (done : List PendingJobEmbedding) := done.map fun p => p.entry.id
    have hrow (done : List PendingJobEmbedding) (p : PendingJobEmbedding) :
        Triple (fun s => Settles (settledIds done) s.session) (syncRow str p)
          (fun _ s => Settles (settledIds (done ++ [p])) s.session) (fun _ _ => True) := by
      simpa [settledIds] using syncRow_settles str
    have hloop := Triple.forEach (fun done _ s => Settles (settledIds done) s.session)
      (fun done p _ => hrow done p) [] (claimPending d locked pineconeSyncBatchSize)
    exact Triple.bind hloop (fun _ => .commit (fun _ _ _ _ => trivial) (fun _ _ _ _ => trivial)
      fun _ hs => hs) w (settles_nil _)

/-- The joins of a claim find the job, the message and the user of every entry. -/
theorem exists_embedding (hd : Intact d) (he : e ∈ d.syncQueue) : ∃ p, p ∈ embeddingsOf d e := by
  obtain ⟨job, hjob, hid⟩ := List.mem_map.mp (hd.queueJobs e he)
  obtain ⟨m, hm, hmessage⟩ := List.mem_map.mp (hd.jobMessages job hjob)
  obtain ⟨u, hu, huser⟩ := List.mem_map.mp (hd.senders m hm)
  refine ⟨⟨e, job.description, u.phoneHash⟩, ?_⟩
  simp only [embeddingsOf, List.mem_flatMap, List.mem_map, List.mem_filter, decide_eq_true_eq]
  exact ⟨job, ⟨hjob, hid⟩, m, ⟨hm, hmessage⟩, u, ⟨hu, huser⟩, rfl⟩

theorem nodup_claimedIds (hd : Intact d) : (claimedIds d locked).Nodup :=
  (claimPending_pairwise ⟨hd.jobIds, hd.messageIds, hd.userIds⟩ hd.queueIds).imp Nat.ne_of_lt

/-- An entry which is not claimed has a full batch ahead of it. -/
theorem claimed_or_batch_ahead (hd : Intact d) (hw : Waits i d) (hfree : locked i = false) :
    i ∈ claimedIds d locked ∨
      (claimedIds d locked).length = pineconeSyncBatchSize ∧
        ∀ k ∈ claimedIds d locked, k ∈ ahead i d := by
  by_cases hclaimed : i ∈ claimedIds d locked
  · exact .inl hclaimed
  right
  obtain ⟨e, he, rfl, hpending⟩ := hw
  obtain ⟨p, hp⟩ := exists_embedding hd he
  let sorted := ((d.syncQueue.filter fun e => decide (e.status = .pending) && !locked e.id).flatMap
    (embeddingsOf d)).insertionSort fun a b => a.entry.id ≤ b.entry.id
  have hsorted : sorted.Pairwise fun a b => a.entry.id ≤ b.entry.id := by
    have : Std.Total fun a b : PendingJobEmbedding => a.entry.id ≤ b.entry.id :=
      ⟨fun _ _ => le_total _ _⟩
    have : IsTrans PendingJobEmbedding fun a b => a.entry.id ≤ b.entry.id :=
      ⟨fun _ _ _ => le_trans⟩
    exact List.pairwise_insertionSort _ _
  have hmem : p ∈ sorted := by
    have hclaimable : decide (e.status = .pending) && !locked e.id := by simp [hpending, hfree]
    exact (List.mem_insertionSort _).mpr
      (List.mem_flatMap.mpr ⟨e, List.mem_filter.mpr ⟨he, hclaimable⟩, hp⟩)
  have hid : p.entry.id = e.id := by rw [entry_of_mem_embeddingsOf hp]
  -- The list is cut before the entry, so a whole batch comes first.
  have hlate : p ∈ sorted.drop pineconeSyncBatchSize := by
    rw [← List.take_append_drop pineconeSyncBatchSize sorted] at hmem
    refine (List.mem_append.mp hmem).resolve_left fun hearly => hclaimed ?_
    exact List.mem_map.mpr ⟨p, hearly, hid⟩
  have hlength : pineconeSyncBatchSize < sorted.length := by
    by_contra hshort
    rw [List.drop_eq_nil_of_le (Nat.not_lt.mp hshort)] at hlate
    cases hlate
  refine ⟨?_, fun k hk => ?_⟩
  · rw [claimedIds, List.length_map]
    exact List.length_take_of_le hlength.le
  · obtain ⟨q, hq, rfl⟩ := List.mem_map.mp hk
    obtain ⟨⟨hqueue, hqpending, _⟩, _⟩ := mem_claimPending hq
    rw [← List.take_append_drop pineconeSyncBatchSize sorted] at hsorted
    have hle : q.entry.id ≤ p.entry.id := (List.pairwise_append.mp hsorted).2.2 q hq p hlate
    have hne : q.entry.id ≠ e.id := fun heq => hclaimed (heq ▸ hk)
    exact mem_ahead.mpr ⟨lt_of_le_of_ne (hid ▸ hle) hne, q.entry, hqueue, rfl, hqpending⟩

/-- The queue grows at its end, is marked, or stays as it is. -/
theorem queue_of_writes {hmac : String → String} (h : Writes hmac d x) :
    x.syncQueue = d.syncQueue ∨ (∃ jobId, x.syncQueue = d.syncQueue ++ [pendingEntry d jobId]) ∨
      Marks d x := by
  cases h with
  | kept => exact .inl rfl
  | rejected => exact .inl rfl
  | counted h =>
      obtain ⟨_, rfl⟩ := insertRateLimit_ok h
      exact .inl rfl
  | upserted h =>
      obtain ⟨_, _, _, rfl⟩ := upsertUser_ok h
      exact .inl rfl
  | stored h =>
      obtain ⟨_, _, _, _, rfl⟩ := storeMessage_ok h
      exact .inl rfl
  | committed h =>
      cases h with
      | unknown => exact .inl rfl
      | jobPosting _ _ hinsert =>
          obtain ⟨_, _, rfl⟩ := RowCreation.insertJob_ok hinsert
          exact .inl rfl
      | workGoal _ _ hinsert =>
          obtain ⟨_, _, rfl⟩ := RowCreation.insertWorkGoal_ok hinsert
          exact .inl rfl
  | queued h =>
      obtain ⟨rfl, rfl⟩ := insertEntry_ok h
      exact .inr (.inl ⟨_, rfl⟩)
  | marked h => exact .inr (.inr h)
  | purged => exact .inl rfl

/-- What comes to wait is an entry with a new key. -/
theorem waits_of_writes {hmac : String → String} (h : Writes hmac d x) (hw : Waits i x) :
    Waits i d ∨ ∀ k ∈ d.syncQueue.map PineconeSyncQueue.id, k < i := by
  rcases queue_of_writes h with hsame | ⟨jobId, hgrown⟩ | hmarks
  · exact .inl (by simpa [Waits, hsame] using hw)
  · obtain ⟨e, he, rfl, hpending⟩ := hw
    rw [hgrown] at he
    rcases List.mem_append.mp he with he | he
    · exact .inl ⟨e, he, rfl, hpending⟩
    · rw [List.mem_singleton.mp he]
      exact .inr fun k hk => lt_nextId hk
  · exact .inl (waits_of_marks hmarks hw)

/-- A settled entry: its row is there, and waits no more. -/
def Settled (i : ℕ) (d : Database) : Prop :=
  i ∈ d.syncQueue.map PineconeSyncQueue.id ∧ ¬Waits i d

theorem ahead_subset {hmac : String → String} (h : Writes hmac d x)
    (hi : i ∈ d.syncQueue.map PineconeSyncQueue.id) : ahead i x ⊆ ahead i d := by
  intro k hk
  obtain ⟨hlt, hw⟩ := mem_ahead.mp hk
  refine mem_ahead.mpr ⟨hlt, (waits_of_writes h hw).resolve_right fun hnew => ?_⟩
  exact absurd (hnew i hi) (Nat.lt_asymm hlt)

theorem mem_ids_of_writes {hmac : String → String} (h : Writes hmac d x)
    (hi : i ∈ d.syncQueue.map PineconeSyncQueue.id) : i ∈ x.syncQueue.map PineconeSyncQueue.id := by
  obtain ⟨e, he, rfl⟩ := List.mem_map.mp hi
  obtain ⟨e', he', hmarked⟩ := (follows_of_writes h).syncQueue.mem he
  exact hmarked.id_eq ▸ List.mem_map_of_mem he'

theorem settled_of_writes {hmac : String → String} (h : Writes hmac d x) (hi : Settled i d) :
    Settled i x := by
  refine ⟨mem_ids_of_writes h hi.1, fun hw => ?_⟩
  rcases waits_of_writes h hw with hold | hnew
  · exact hi.2 hold
  · exact (hnew i hi.1).false

end

/-- The step is a sweep which returns, and no other session holds the lock of the entry. -/
def serves (i : ℕ) (s : State) : Action → Bool
  | .base (.sweep locked str faults) => !locked i &&
      ((syncPineconeQueueActivity locked str).run (.opened s.database faults)).1.toOption.isSome
  | _ => false

section
variable {cfg : Webhook.Config} {fromisoformat : String → Option Datetimes.Datetime}
variable {requests : ℕ → Webhook.Request} {s t : State} {a : Action} {d : Database} {i : ℕ}

/-- A sweep which serves an entry settles it, or settles a batch which was ahead of it. -/
theorem settled_or_batch (hs : Sane s) (hw : Waits i s.database) (hserves : serves i s a = true)
    (h : step cfg fromisoformat requests s a = some t) :
    Settled i t.database ∨
      (ahead i t.database).card + pineconeSyncBatchSize ≤ (ahead i s.database).card := by
  have hwrites := hs.writes h
  have hi : i ∈ s.database.syncQueue.map PineconeSyncQueue.id := by
    obtain ⟨e, he, rfl, _⟩ := hw
    exact List.mem_map_of_mem he
  match a, hserves with
  | .base (.sweep locked str faults), hserves =>
      obtain ⟨hfree, hreturns⟩ := Bool.and_eq_true_iff.mp hserves
      rcases hrun : (syncPineconeQueueActivity locked str).run (.opened s.database faults) with
        ⟨stop | _, w⟩
      · simp [hrun, Except.toOption] at hreturns
      have hsettles : Settles (claimedIds s.database locked) t.database := by
        have hcommitted := (sync_settles s.database locked str).ok rfl hrun
        cases h
        change Settles _ ((syncPineconeQueueActivity locked str).run
          (.opened s.database faults)).2.store.committed
        rw [hrun]
        exact hcommitted
      rcases claimed_or_batch_ahead hs.intact hw (by simpa using hfree) with
        hclaimed | ⟨hlength, hahead⟩
      · exact .inl ⟨mem_ids_of_writes hwrites hi, hsettles i hclaimed⟩
      · right
        have hbatch : (claimedIds s.database locked).toFinset ⊆ ahead i s.database := by
          intro k hk
          exact hahead k (List.mem_toFinset.mp hk)
        have hleft : ahead i t.database ⊆
            ahead i s.database \ (claimedIds s.database locked).toFinset := by
          intro k hk
          refine Finset.mem_sdiff.mpr ⟨ahead_subset hwrites hi hk, fun hclaimed => ?_⟩
          exact hsettles k (List.mem_toFinset.mp hclaimed) (mem_ahead.mp hk).2
        have hcard := Finset.card_le_card hleft
        rw [Finset.card_sdiff_of_subset hbatch, List.toFinset_card_of_nodup
          (nodup_claimedIds hs.intact), hlength] at hcard
        have hfull := Finset.card_le_card hbatch
        rw [List.toFinset_card_of_nodup (nodup_claimedIds hs.intact), hlength] at hfull
        omega

/-- A settled entry which was pending is synced, or failed with one more attempt and the text
of an error; one which was settled before is as it was. -/
def Outcome (e e' : PineconeSyncQueue) : Prop :=
  e'.id = e.id ∧ e'.jobId = e.jobId ∧ (e.status ≠ .pending ∧ e' = e ∨ e.status = .pending ∧
    (e'.status = .synced ∧ e'.attempts = e.attempts ∧ e'.lastError = e.lastError ∨
      e'.status = .failed ∧ e'.attempts = e.attempts + 1 ∧ ∃ error, e'.lastError = some error))

theorem Marked.outcome {e e' : PineconeSyncQueue} (h : Marked e e') (hdone : e'.status ≠ .pending) :
    Outcome e e' := by
  refine ⟨h.id_eq, h.jobId_eq, ?_⟩
  rcases h with rfl | ⟨hpending, rfl | ⟨error, rfl⟩⟩
  · exact .inl ⟨hdone, rfl⟩
  · exact .inr ⟨hpending, .inl ⟨rfl, rfl, rfl⟩⟩
  · exact .inr ⟨hpending, .inr ⟨rfl, rfl, error, rfl⟩⟩

/-- An entry is settled once more sweeps have returned than there are full batches pending
ahead of it, and its row then holds the outcome. -/
theorem settled_of_sweeps {before after : List Action} {e : PineconeSyncQueue} (hd : Intact d)
    (hbefore : exec (step cfg fromisoformat requests) (initial d) before = some s)
    (hafter : exec (step cfg fromisoformat requests) s after = some t)
    (he : e ∈ s.database.syncQueue)
    (hsweeps : (ahead e.id s.database).card / pineconeSyncBatchSize <
      countAlong (step cfg fromisoformat requests) (serves e.id) s after) :
    ∃ e' ∈ t.database.syncQueue, Outcome e e' := by
  have hs := (sane_run (sane_initial hd) hbefore).1
  have hfollows := (sane_run hs hafter).2
  have hids : e.id ∈ s.database.syncQueue.map PineconeSyncQueue.id := List.mem_map_of_mem he
  have hserved : Settled e.id t.database ∨
      countAlong (step cfg fromisoformat requests) (serves e.id) s after +
          (ahead e.id t.database).card / pineconeSyncBatchSize ≤
        (ahead e.id s.database).card / pineconeSyncBatchSize := reached_or_countAlong_le
    (fun x => Sane x ∧ e.id ∈ x.database.syncQueue.map PineconeSyncQueue.id)
    (fun x => Settled e.id x.database) (serves e.id)
    (fun x => (ahead e.id x.database).card / pineconeSyncBatchSize)
    (fun hx h => ⟨sane_step hx.1 h, mem_ids_of_writes (hx.1.writes h) hx.2⟩)
    (fun hx hsettled h => settled_of_writes (hx.1.writes h) hsettled)
    (fun {x a y} hx hopen h => by
      have hw : Waits e.id x.database := not_not.mp fun hno => hopen ⟨hx.2, hno⟩
      cases hserves : serves e.id x a with
      | true =>
          refine (settled_or_batch hx.1 hw hserves h).imp_right fun hle => ?_
          simp only [pineconeSyncBatchSize] at hle ⊢
          simp only [if_true]
          omega
      | false =>
          right
          simp only [Bool.false_eq_true, if_false, Nat.add_zero]
          exact Nat.div_le_div_right
            (Finset.card_le_card (ahead_subset (hx.1.writes h) hx.2)))
    ⟨hs, hids⟩ hafter
  have hsettled : Settled e.id t.database := hserved.resolve_right fun hle =>
    absurd hsweeps (Nat.not_lt.mpr (le_trans (Nat.le_add_right _ _) hle))
  obtain ⟨e', he', hmarked⟩ := hfollows.syncQueue.mem he
  exact ⟨e', he', Marked.outcome hmarked fun hstill =>
    hsettled.2 ⟨e', he', hmarked.id_eq, hstill⟩⟩

end

def refused : List Action :=
  ((List.replicate 8 (.advance 0)).map .deliver ++ [.process none 0 ⟨Attempts.answersJob, []⟩,
    .await 0 [some (.refuses (.unavailable "pinecone"))]] : List EmbeddingDocuments.Action).map
      .base

/-- The sweep is refused as well, and marks the entry as failed. -/
def refusedAgain : List Action :=
  [.base (.sweep (fun _ => false) (fun _ => "down")
    [none, none, some (.refuses (.unavailable "down"))])]

theorem settled_of_refusedAgain :
    ∃ s t, exec (step (Webhook.unsignedConfig 5 60) (fun _ => none) DeliveryRaces.deliveredTwice)
        (initial .empty) refused = some s ∧
      exec (step (Webhook.unsignedConfig 5 60) (fun _ => none) DeliveryRaces.deliveredTwice)
        s refusedAgain = some t ∧
      ∃ e ∈ s.database.syncQueue, e.status = .pending ∧
        ∃ e' ∈ t.database.syncQueue, Outcome e e' := by
  have hrefused : (exec (step (Webhook.unsignedConfig 5 60) (fun _ => none)
      DeliveryRaces.deliveredTwice) (initial .empty) refused).map
        (fun s => s.database.syncQueue) = some [⟨1, 1, .pending, 0, none⟩] := by
    decide +kernel
  obtain ⟨s, hs, hqueue⟩ := Option.map_eq_some_iff.mp hrefused
  have hruns : ((exec (step (Webhook.unsignedConfig 5 60) (fun _ => none)
      DeliveryRaces.deliveredTwice) (initial .empty) refused).bind fun s =>
        (exec (step (Webhook.unsignedConfig 5 60) (fun _ => none)
          DeliveryRaces.deliveredTwice) s refusedAgain).map fun _ =>
            ((ahead 1 s.database).card, countAlong (step (Webhook.unsignedConfig 5 60)
              (fun _ => none) DeliveryRaces.deliveredTwice) (serves 1) s refusedAgain)) =
      some (0, 1) := by
    decide +kernel
  rw [hs, Option.bind_some] at hruns
  obtain ⟨t, ht, hcounts⟩ := Option.map_eq_some_iff.mp hruns
  obtain ⟨hahead, hcount⟩ := Prod.mk.inj hcounts
  have he : (⟨1, 1, .pending, 0, none⟩ : PineconeSyncQueue) ∈ s.database.syncQueue := by
    rw [hqueue]
    exact List.mem_singleton_self _
  refine ⟨s, t, hs, ht, _, he, rfl, settled_of_sweeps intact_empty hs ht he ?_⟩
  rw [hahead, hcount]
  exact Nat.one_pos

end Vici.QueueDraining
