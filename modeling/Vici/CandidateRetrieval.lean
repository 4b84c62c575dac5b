import Vici.MatchService
import Vici.KeyedRows

/-!
# The two retrieval paths

Both paths ask one query of the job table. The full scan stops at a row limit
before the jobs without computable earnings are dropped; the retrieval by ids
has no limit and yields a job for every mention of its id. So the paths agree
on the jobs they have in common as long as no wanted job lies past the limit,
and the ids may repeat a job where the scan cannot.
-/
namespace Vici.CandidateRetrieval
open Models Datetimes AppPrograms SessionPrograms JobRepository MatchService KeyedRows

/-- Undated and flexible jobs meet any deadline, dated ones by their instant. -/
def InTime (deadline : Option Datetime) (job : Job) : Prop :=
  ∀ d ∈ deadline, job.idealDatetime = none ∨ job.datetimeFlexible = some true ∨
    ∃ ideal ∈ job.idealDatetime, ideal.instant ≤ d.instant

/-- What a job must be for a worker to be offered it. -/
structure Eligible (deadline : Option Datetime) (job : Job) : Prop where
  available : job.status = .available
  known : job.payType ≠ .unknown
  inTime : InTime deadline job
  computable : job.payTerms.incomputableReason = none

variable {deadline : Option Datetime} {eligible : Job → Bool} {job : Job} {jobs : List Job}
variable {jobIds : List ℤ} {w w' : AppWorld}

/-- The clause normalises the deadline, which leaves its instant as it is. -/
theorem eligibilityStmt_iff (h : eligibilityStmt deadline = .ok eligible) (job : Job) :
    eligible job = true ↔
      job.status = .available ∧ job.payType ≠ .unknown ∧ InTime deadline job := by
  unfold eligibilityStmt at h
  split at h
  case h_1 =>
    cases h
    simp [InTime]
  case h_2 d =>
    split at h
    case h_1 => cases h
    case h_2 utc hutc =>
      cases h
      have hinstant : utc.instant = d.instant := Datetime.instant_astimezoneUTC hutc
      simp [InTime, hinstant, Option.any_eq_true, and_assoc, or_assoc]

theorem mem_computableOnly :
    job ∈ computableOnly jobs ↔ job ∈ jobs ∧ job.payTerms.incomputableReason = none := by
  simp [computableOnly]

theorem computableOnly_append (xs ys : List Job) :
    computableOnly (xs ++ ys) = computableOnly xs ++ computableOnly ys := List.filter_append xs ys

/-- The full scan of a table. -/
def scanned (eligible : Job → Bool) (jobs : List Job) : List Job :=
  computableOnly ((jobs.filter eligible).take maxCandidates)

/-- The retrieval of the given ids from a table. -/
def hits (eligible : Job → Bool) (jobIds : List ℤ) (jobs : List Job) : List Job :=
  jobIds.filterMap (dictGet ((computableOnly
    (jobs.filter fun job => eligible job && decide ((job.id : ℤ) ∈ jobIds))).map
      fun job => ((job.id : ℤ), job)))

theorem findCandidatesForGoal_ok
    (h : (findCandidatesForGoal deadline).run w = (.ok jobs, w')) :
    ∃ eligible, eligibilityStmt deadline = .ok eligible ∧
      jobs = scanned eligible w.store.session.jobs ∧ w'.store = w.store := by
  unfold findCandidatesForGoal at h
  split at h
  case h_1 => cases h
  case h_2 eligible heligible => exact ⟨eligible, heligible, Program.run_query_ok h⟩

theorem findCandidatesByIds_ok
    (h : (findCandidatesByIds jobIds deadline).run w = (.ok jobs, w')) :
    (jobIds = [] ∧ jobs = [] ∨ ∃ eligible, eligibilityStmt deadline = .ok eligible ∧
      jobIds.all isInteger = true ∧ jobs = hits eligible jobIds w.store.session.jobs) ∧
        w'.store = w.store := by
  unfold findCandidatesByIds at h
  split_ifs at h with hempty
  · cases h
    exact ⟨.inl ⟨List.isEmpty_iff.mp hempty, rfl⟩, rfl⟩
  · split at h
    case h_1 => cases h
    case h_2 eligible heligible =>
      obtain ⟨_, w₁, hbind, hquery⟩ := Program.run_bind_ok h
      obtain ⟨hfits, rfl⟩ := run_bindParameters_ok hbind
      obtain ⟨hjobs, hstore⟩ := Program.run_query_ok hquery
      exact ⟨.inr ⟨eligible, heligible, hfits, hjobs⟩, hstore⟩

theorem mem_scanned (h : job ∈ scanned eligible jobs) :
    job ∈ jobs ∧ eligible job = true ∧ job.payTerms.incomputableReason = none := by
  obtain ⟨hmem, hcomputable⟩ := mem_computableOnly.mp h
  obtain ⟨hjob, heligible⟩ := List.mem_filter.mp (List.mem_of_mem_take hmem)
  exact ⟨hjob, heligible, hcomputable⟩

theorem mem_hits (h : job ∈ hits eligible jobIds jobs) :
    job ∈ jobs ∧ eligible job = true ∧ job.payTerms.incomputableReason = none := by
  obtain ⟨i, _, hget⟩ := List.mem_filterMap.mp h
  obtain ⟨q, hq, heq⟩ := List.mem_map.mp (mem_of_dictGet hget)
  cases heq
  obtain ⟨hmem, hcomputable⟩ := mem_computableOnly.mp hq
  obtain ⟨hjob, heligible⟩ := List.mem_filter.mp hmem
  exact ⟨hjob, (Bool.and_eq_true_iff.mp heligible).1, hcomputable⟩

/-- The jobs of a list which bear the given ids, in the order of the ids. -/
def rowsOf (jobIds : List ℤ) (jobs : List Job) : List Job :=
  jobIds.filterMap fun i => jobs.find? fun job => decide ((job.id : ℤ) = i)

theorem nodup_castId (hkeys : (jobs.map Job.id).Nodup) :
    (jobs.map fun job => (job.id : ℤ)).Nodup := by
  simpa [Function.comp_def] using hkeys.map (Nat.cast_injective (R := ℤ))

theorem mem_rowsOf (hkeys : (jobs.map Job.id).Nodup) :
    job ∈ rowsOf jobIds jobs ↔ job ∈ jobs ∧ (job.id : ℤ) ∈ jobIds := by
  rw [rowsOf, List.mem_filterMap]
  constructor
  · rintro ⟨i, hi, hfind⟩
    obtain ⟨hjob, rfl⟩ := (find?_key_eq_some (nodup_castId hkeys)).mp hfind
    exact ⟨hjob, hi⟩
  · rintro ⟨hjob, hid⟩
    exact ⟨_, hid, (find?_key_eq_some (nodup_castId hkeys)).mpr ⟨hjob, rfl⟩⟩

theorem nodup_computableOnly_filter (hkeys : (jobs.map Job.id).Nodup) (p : Job → Bool) :
    ((computableOnly (jobs.filter p)).map Job.id).Nodup :=
  hkeys.sublist ((List.filter_sublist.trans List.filter_sublist).map Job.id)

/-- Under distinct keys the dictionary of the query is a search of the table. -/
theorem hits_eq_rowsOf (hkeys : (jobs.map Job.id).Nodup) :
    hits eligible jobIds jobs = rowsOf jobIds (computableOnly (jobs.filter eligible)) := by
  apply List.filterMap_congr
  intro i hi
  have hwanted := nodup_computableOnly_filter hkeys
    fun job => eligible job && decide ((job.id : ℤ) ∈ jobIds)
  have hentries : (((computableOnly (jobs.filter fun job =>
      eligible job && decide ((job.id : ℤ) ∈ jobIds))).map fun job => ((job.id : ℤ), job)).map
        Prod.fst).Nodup := by
    simpa [Function.comp_def] using nodup_castId hwanted
  ext job
  rw [find?_key_eq_some (nodup_castId (nodup_computableOnly_filter hkeys eligible))]
  constructor
  · intro hget
    obtain ⟨q, hq, heq⟩ := List.mem_map.mp (mem_of_dictGet hget)
    cases heq
    have := mem_computableOnly.mp hq
    simp only [List.mem_filter, Bool.and_eq_true] at this
    exact ⟨mem_computableOnly.mpr ⟨List.mem_filter.mpr ⟨this.1.1, this.1.2.1⟩, this.2⟩, rfl⟩
  · rintro ⟨hjob, rfl⟩
    apply dictGet_of_mem hentries
    obtain ⟨hmem, hcomputable⟩ := mem_computableOnly.mp hjob
    obtain ⟨hrow, heligible⟩ := List.mem_filter.mp hmem
    refine List.mem_map_of_mem (f := fun job : Job => ((job.id : ℤ), job)) ?_
    refine mem_computableOnly.mpr ⟨List.mem_filter.mpr ⟨hrow, ?_⟩, hcomputable⟩
    simp [heligible, hi]

/-- The payable jobs among the rows which pass the clause, up to the row limit. -/
theorem scanned_append_pastLimit (eligible : Job → Bool) (jobs : List Job) :
    scanned eligible jobs ++ computableOnly ((jobs.filter eligible).drop maxCandidates) =
      computableOnly (jobs.filter eligible) := by
  rw [scanned, ← computableOnly_append, List.take_append_drop]

/-- The jobs which the row limit keeps from a full scan. -/
def pastLimit (deadline : Option Datetime) (jobs : List Job) : List Job :=
  match eligibilityStmt deadline with
  | .error _ => []
  | .ok eligible => computableOnly ((jobs.filter eligible).drop maxCandidates)

/-- Rows added at the end of a table show exactly when one of them is wanted. -/
theorem rowsOf_append_eq_iff {front back : List Job}
    (hkeys : ((front ++ back).map Job.id).Nodup) :
    rowsOf jobIds (front ++ back) = rowsOf jobIds front ↔
      ∀ job ∈ back, (job.id : ℤ) ∉ jobIds := by
  have hfront : (front.map Job.id).Nodup :=
    hkeys.sublist ((List.sublist_append_left front back).map Job.id)
  constructor
  · intro heq job hjob hid
    have hall : job ∈ rowsOf jobIds (front ++ back) :=
      (mem_rowsOf hkeys).mpr ⟨List.mem_append_right _ hjob, hid⟩
    rw [heq] at hall
    have hold := ((mem_rowsOf hfront).mp hall).1
    rw [List.map_append] at hkeys
    exact List.disjoint_of_nodup_append hkeys (List.mem_map_of_mem hold) (List.mem_map_of_mem hjob)
  · intro hnone
    apply List.filterMap_congr
    intro i hi
    rw [List.find?_append]
    have hback : (back.find? fun job => decide ((job.id : ℤ) = i)) = none := by
      refine List.find?_eq_none.mpr fun job hjob hid => hnone job hjob ?_
      rwa [of_decide_eq_true hid]
    rw [hback, Option.or_none]

/-- The retrieval by ids finds what the full scan has of them, no more and no less,
exactly when none of the wanted jobs lies past the row limit of the scan. -/
theorem paths_agree_iff {scan found : List Job} {w₁ w₁' : AppWorld}
    (hkeys : (w.store.session.jobs.map Job.id).Nodup)
    (hsame : w'.store.session.jobs = w.store.session.jobs)
    (hscan : (findCandidatesForGoal deadline).run w = (.ok scan, w₁))
    (hfound : (findCandidatesByIds jobIds deadline).run w' = (.ok found, w₁')) :
    found = rowsOf jobIds scan ∧ found ⊆ scan ↔
      ∀ job ∈ pastLimit deadline w.store.session.jobs, (job.id : ℤ) ∉ jobIds := by
  obtain ⟨eligible, heligible, rfl, _⟩ := findCandidatesForGoal_ok hscan
  have hpast : pastLimit deadline w.store.session.jobs =
      computableOnly ((w.store.session.jobs.filter eligible).drop maxCandidates) := by
    rw [pastLimit, heligible]
  have hall : ((scanned eligible w.store.session.jobs ++ computableOnly
      ((w.store.session.jobs.filter eligible).drop maxCandidates)).map Job.id).Nodup := by
    rw [scanned_append_pastLimit]
    exact nodup_computableOnly_filter hkeys eligible
  have hrows : found = rowsOf jobIds (scanned eligible w.store.session.jobs ++ computableOnly
      ((w.store.session.jobs.filter eligible).drop maxCandidates)) := by
    rw [scanned_append_pastLimit, ← hits_eq_rowsOf hkeys]
    rcases (findCandidatesByIds_ok hfound).1 with ⟨rfl, rfl⟩ | ⟨eligible', heligible', _, rfl⟩
    · rfl
    · obtain rfl : eligible = eligible' := Except.ok.inj (heligible.symm.trans heligible')
      rw [hsame]
  rw [hpast, ← rowsOf_append_eq_iff hall, ← hrows]
  refine ⟨And.left, fun heq => ⟨heq, fun job hjob => ?_⟩⟩
  rw [heq] at hjob
  have hscanned := hall.sublist ((List.sublist_append_left _ _).map Job.id)
  exact ((mem_rowsOf hscanned).mp hjob).1

theorem one_cent_pos : ∀ r ∈ some 1, 0 < r := by simp
theorem no_rate_pos : ∀ r ∈ (none : Option ℕ), 0 < r := by simp

/-- A flat job of one cent. -/
def flatCentJob (id : ℕ) : Job :=
  { threeCentJob with id := id, messageId := id, payRate := some 1, payRate_pos := one_cent_pos }

/-- A session on a table of flat jobs with the given ids. -/
def flatCents (ids : List ℕ) : AppWorld :=
  .opened { Database.empty with jobs := ids.map flatCentJob } []

theorem paths_agree_flat_cent :
    [flatCentJob 2] = rowsOf [2, 7] [flatCentJob 1, flatCentJob 2] ∧
      [flatCentJob 2] ⊆ [flatCentJob 1, flatCentJob 2] := by
  have hkeys : ((flatCents [1, 2]).store.session.jobs.map Job.id).Nodup := by decide
  have hscan : (findCandidatesForGoal none).run (flatCents [1, 2]) =
      (.ok [flatCentJob 1, flatCentJob 2], flatCents [1, 2]) := rfl
  have hfound : (findCandidatesByIds [2, 7] none).run (flatCents [1, 2]) =
      (.ok [flatCentJob 2], flatCents [1, 2]) := rfl
  exact (paths_agree_iff hkeys rfl hscan hfound).mpr (by decide)

/-- A table with one job more than the limit. -/
def crowded : AppWorld := flatCents (List.range 501)

theorem full_scan_misses_hit :
    (findCandidatesByIds [500] none).run crowded = (.ok [flatCentJob 500], crowded) ∧
      (findCandidatesForGoal none).run crowded = (.ok ((List.range 500).map flatCentJob), crowded) ∧
      rowsOf [500] ((List.range 500).map flatCentJob) = [] := by
  refine ⟨?_, ?_, ?_⟩
  all_goals decide +kernel

/-- A job which can be paid for the goal, whatever the query says of it. -/
structure Payable (deadline : Option Datetime) (job : Job) : Prop where
  available : job.status = .available
  inTime : InTime deadline job
  computable : job.payTerms.incomputableReason = none

/-- An unknown pay type has no computable earnings, so the clause on it hides nothing. -/
theorem payable_iff (h : eligibilityStmt deadline = .ok eligible) (job : Job) :
    Payable deadline job ↔ eligible job = true ∧ job.payTerms.incomputableReason = none := by
  rw [eligibilityStmt_iff h]
  constructor
  · intro hp
    refine ⟨⟨hp.available, ?_, hp.inTime⟩, hp.computable⟩
    intro hunknown
    have := hp.computable
    simp [PayTerms.incomputableReason, Job.payTerms, hunknown] at this
  · intro hp
    exact ⟨hp.1.1, hp.1.2.2, hp.2⟩

instance (deadline : Option Datetime) (job : Job) : Decidable (InTime deadline job) :=
  inferInstanceAs (Decidable (∀ d ∈ deadline, _ ∨ _ ∨ ∃ ideal ∈ job.idealDatetime, _))

instance (deadline : Option Datetime) (job : Job) : Decidable (Payable deadline job) :=
  decidable_of_iff (job.status = .available ∧ InTime deadline job ∧
      job.payTerms.incomputableReason = none)
    ⟨fun h => ⟨h.1, h.2.1, h.2.2⟩, fun h => ⟨h.available, h.inTime, h.computable⟩⟩

/-- The payable jobs of a table. -/
def payableJobs (deadline : Option Datetime) (jobs : List Job) : List Job :=
  jobs.filter fun job => decide (Payable deadline job)

theorem payableJobs_eq (h : eligibilityStmt deadline = .ok eligible) (jobs : List Job) :
    payableJobs deadline jobs = computableOnly (jobs.filter eligible) := by
  rw [computableOnly, List.filter_filter]
  apply List.filter_congr
  intro job _
  rw [Bool.eq_iff_iff, decide_eq_true_iff, payable_iff h]
  simp [and_comm]

/-- The scan returns as many jobs as the limit allows and there are payable
ones, and so it is empty only if there is none. -/
def ScanComplete (deadline : Option Datetime) (db : Database) : Prop :=
  ∃ found w', (findCandidatesForGoal deadline).run (.opened db []) = (.ok found, w') ∧
    found.length = min maxCandidates (payableJobs deadline db.jobs).length ∧
    (found = [] → ∀ job ∈ db.jobs, ¬Payable deadline job)

/-- The rows which the query returns can all be paid. -/
def FirstRowsComputable (eligible : Job → Bool) (jobs : List Job) : Prop :=
  ∀ job ∈ (jobs.filter eligible).take maxCandidates, job.payTerms.incomputableReason = none

/-- The limit costs a payable job exactly when one lies past it and a row
before it is dropped. -/
theorem length_scanned_eq_min_iff (eligible : Job → Bool) (jobs : List Job) :
    (scanned eligible jobs).length =
        min maxCandidates (computableOnly (jobs.filter eligible)).length ↔
      computableOnly ((jobs.filter eligible).drop maxCandidates) = [] ∨
        FirstRowsComputable eligible jobs := by
  rw [← scanned_append_pastLimit, List.length_append]
  have htake : ((jobs.filter eligible).take maxCandidates).length ≤ maxCandidates :=
    List.length_take_le _ _
  have hscanned : (scanned eligible jobs).length ≤
      ((jobs.filter eligible).take maxCandidates).length := List.length_filter_le _ _
  have hall : FirstRowsComputable eligible jobs ↔
      (scanned eligible jobs).length = ((jobs.filter eligible).take maxCandidates).length := by
    rw [scanned, computableOnly, List.length_filter_eq_length_iff]
    simp [FirstRowsComputable]
  rw [hall, ← List.length_eq_zero_iff]
  constructor
  · intro heq
    by_cases hpast : (computableOnly ((jobs.filter eligible).drop maxCandidates)).length = 0
    · exact Or.inl hpast
    · right
      omega
  · intro h
    rcases h with hpast | hfull
    · omega
    · by_cases hpast : (computableOnly ((jobs.filter eligible).drop maxCandidates)).length = 0
      · omega
      · have hsome : ((jobs.filter eligible).drop maxCandidates).length ≠ 0 := by
          intro hzero
          rw [List.length_eq_zero_iff] at hzero
          simp [hzero, computableOnly] at hpast
        rw [List.length_drop] at hsome
        rw [hfull, List.length_take]
        omega

/-- The scan is complete exactly when the deadline can be converted and either
no payable job lies past the limit or the rows before it can all be paid. -/
theorem scanComplete_iff (deadline : Option Datetime) (db : Database) :
    ScanComplete deadline db ↔ ∃ eligible, eligibilityStmt deadline = .ok eligible ∧
      (pastLimit deadline db.jobs = [] ∨ FirstRowsComputable eligible db.jobs) := by
  have hlength {eligible : Job → Bool} (heligible : eligibilityStmt deadline = .ok eligible) :
      (scanned eligible db.jobs).length =
          min maxCandidates (payableJobs deadline db.jobs).length ↔
        pastLimit deadline db.jobs = [] ∨ FirstRowsComputable eligible db.jobs := by
    rw [payableJobs_eq heligible, length_scanned_eq_min_iff, pastLimit, heligible]
  constructor
  · intro h
    obtain ⟨found, w', hrun, hfound, _⟩ := h
    obtain ⟨eligible, heligible, rfl, _⟩ := findCandidatesForGoal_ok hrun
    exact ⟨eligible, heligible, (hlength heligible).mp hfound⟩
  · intro h
    obtain ⟨eligible, heligible, hcondition⟩ := h
    have hcount := (hlength heligible).mpr hcondition
    refine ⟨scanned eligible db.jobs, .opened db [], ?_, hcount, ?_⟩
    · rw [findCandidatesForGoal, heligible]
      exact Program.run_query_of_calm rfl
    · intro hempty job hjob hpayable
      rw [hempty, List.length_nil, eq_comm, Nat.min_eq_zero_iff] at hcount
      have hnone := List.length_eq_zero_iff.mp (hcount.resolve_left (by decide))
      have hmem : job ∈ payableJobs deadline db.jobs :=
        List.mem_filter.mpr ⟨hjob, decide_eq_true hpayable⟩
      simp [hnone] at hmem

/-- A job whose pay is not known yet. -/
def unpricedJob (id : ℕ) : Job :=
  { flatCentJob id with payRate := none, payRate_pos := no_rate_pos }

/-- As many available jobs without a pay rate as the limit allows, and one flat job after them. -/
def buried : Database :=
  { Database.empty with jobs := (List.range 500).map unpricedJob ++ [flatCentJob 500] }

theorem buried_not_scanComplete :
    ¬ScanComplete none buried ∧
      (findCandidatesForGoal none).run (.opened buried []) = (.ok [], .opened buried []) ∧
      Payable none (flatCentJob 500) := by
  have hrun : (findCandidatesForGoal none).run (.opened buried []) =
      (.ok [], .opened buried []) := by decide +kernel
  have hpayable : Payable none (flatCentJob 500) := by decide
  refine ⟨?_, hrun, hpayable⟩
  intro h
  obtain ⟨found, w', hrun', _, hempty⟩ := h
  rw [hrun, Prod.mk.injEq, Except.ok.injEq] at hrun'
  exact hempty hrun'.1.symm _ (by simp [buried]) hpayable

end Vici.CandidateRetrieval
