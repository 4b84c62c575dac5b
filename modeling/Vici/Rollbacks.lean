import Vici.MigratedTables

/-!
# Rolling the database back

A downgrade from the head to an earlier revision, and the upgrade after it. The
downgrade is refused over rows which an old constraint forbids. What the later
revisions have added is lost, and the amounts come back a hundredfold once the
columns have been dollars.
-/
namespace Vici.Rollbacks
open SchemaChanges Migrations MigratedTables

/-- A row of the head as revision `k` has it. -/
def reverted (k : ℕ) (t : TableName) (row : Row) : Row := fun c =>
  match t, c with
  | .workGoal, .targetDeadline => if k < 8 then none else row c
  | .rateLimit, .count => if k < 7 then some (.integer 1) else row c
  | .job, .payRate | .workGoal, .targetEarnings =>
      if k < 6 then (row c).bind asFloat else row c
  | .job, .status => if k < 5 then none else row c
  | .user, .phoneE164 => if k < 4 then none else row c
  | .job, .userId | .workGoal, .userId => if k < 3 then none else row c
  | .job, .payType | .job, .rawDatetimeText | .job, .inferredTimezone | .job, .rawDurationText =>
      if k < 2 then none else row c
  | _, _ => row c

/-- The tables which revision `k` does not have. -/
def Dropped (k : ℕ) (t : TableName) : Prop := k = 0 ∨ k < 2 ∧ t = .pineconeSyncQueue

instance (k : ℕ) (t : TableName) : Decidable (Dropped k t) :=
  inferInstanceAs (Decidable (k = 0 ∨ k < 2 ∧ t = .pineconeSyncQueue))

/-- The rows of the head after the downgrade, whatever `f` does to one. -/
def kept (k : ℕ) (f : TableName → Row → Row) (rows : Rows) : Rows :=
  fun t => if Dropped k t then [] else (rows t).map (f t)

section
variable {k : ℕ} {rows : Rows} {S : Schema} {t : TableName} {c : ColumnName}

theorem onRowAll_reverting (hk : k ≤ head) (t : TableName) (row : Row) :
    onRowAll (reverting k) t row = reverted k t row := by
  change k ≤ 8 at hk
  funext c
  interval_cases k <;> cases t <;> cases c <;> rfl

theorem clears_reverting (hk : k ≤ head) : (∃ s ∈ reverting k, s.Clears t) ↔ Dropped k t := by
  change k ≤ 8 at hk
  interval_cases k <;> cases t <;> decide

theorem effectAll_reverting (hk : k ≤ head) :
    effectAll (reverting k) rows = kept k (reverted k) rows := by
  funext t
  rw [effectAll_apply, kept]
  refine if_congr (clears_reverting hk) rfl ?_
  exact List.map_congr_left fun row _ => onRowAll_reverting hk t row

/-- The constraints of the early revisions: the unique pair of `rate_limit`, and the rate
of a job, which was required. -/
structure Revertible (k : ℕ) (rows : Rows) : Prop where
  stamps : k < 3 → (Constraint.unique [.userId, .createdAt] : Check).Holds rows .rateLimit
  rates : k < 2 → ∀ row ∈ rows .job, (row .payRate).isSome

theorem holds_of_null {u : TableName} :
    Constraint.Holds (rows.change t c fun _ => none) t (.references c u .id) := by
  intro row hrow v hv
  rw [Rows.change_same] at hrow
  obtain ⟨old, _, rfl⟩ := List.mem_map.mp hrow
  simp at hv

/-- A value in cents. -/
theorem cents_iff {v : Value} :
    integer v ∧ positive [some v] ↔
      ∃ n : ℤ, v = .integer n ∧ 0 < n ∧ n ≤ Models.maxInteger := by
  cases v with
  | integer n =>
      simp [integer, positive, Models.maxInteger]
      omega
  | text s => simp [integer]
  | float q => simp [integer]
  | boolean b => simp [integer]
  | timestamp i => simp [integer]

theorem fits_asFloat (hinv : S.involved t c = [(t, .check [c] positive)])
    (h : ∀ row ∈ rows t, ∀ v ∈ row c, integer v ∧ positive [some v]) :
    Statement.Fits S rows (.alterType t c float asFloat) := by
  rw [Statement.Fits, hinv]
  simp only [List.forall_mem_singleton, Constraint.Holds, Rows.change_same, List.forall_mem_map,
    List.map_cons, List.map_nil, Function.update_self]
  rw [← forall₂_and]
  intro row hrow
  cases hvalue : row c with
  | none => simp [positive]
  | some v =>
      obtain ⟨n, rfl, hn, _⟩ := cents_iff.mp (h row hrow v hvalue)
      simp [asFloat, float, positive, hn]

/-- The values of a column which is in cents. -/
theorem cents_of_valid {table : Table TableName ColumnName ConstraintName Value} {nullable : Bool}
    (hv : Valid ⟨S, rows⟩) (t : TableName) (c : ColumnName) (name : ConstraintName)
    (ht : S.lookup t = some table)
    (hcolumn : (⟨c, integer, nullable⟩ : Column ColumnName Value) ∈ table.columns)
    (hcheck : S.constraint t name = some (.check [c] positive)) :
    ∀ row ∈ rows t, ∀ v ∈ row c, integer v ∧ positive [some v] := by
  intro row hrow v hvalue
  have hadmits := hv.admits t table ht row hrow _ hcolumn
  have hpositive := hv.holdsAt t name hcheck row hrow
  rw [Option.mem_def.mp hvalue] at hadmits
  rw [List.map_cons, List.map_nil, Option.mem_def.mp hvalue] at hpositive
  exact ⟨hadmits, hpositive⟩

theorem payRate_of_valid (hv : Valid ⟨schemaAt head, rows⟩) :
    ∀ row ∈ rows .job, ∀ v ∈ row .payRate, integer v ∧ positive [some v] :=
  cents_of_valid hv .job .payRate .ckJobPayRatePositive rfl
    (.tail _ (.tail _ (.tail _ (.tail _ (.head _))))) rfl

theorem targetEarnings_of_valid (hv : Valid ⟨schemaAt head, rows⟩) :
    ∀ row ∈ rows .workGoal, ∀ v ∈ row .targetEarnings, integer v ∧ positive [some v] :=
  cents_of_valid hv .workGoal .targetEarnings .ckWorkGoalTargetEarningsPositive rfl
    (.tail _ (.tail _ (.head _))) rfl

theorem fits_downgrade008 : FitsAll downgrade008 S rows := fun _ _ => ⟨trivial, trivial⟩

theorem fits_downgrade007 : FitsAll downgrade007 S rows :=
  fun _ _ => ⟨fun _ _ => rfl, trivial⟩

theorem fits_downgrade006 (hv : Valid ⟨schemaAt 6, rows⟩) :
    FitsAll downgrade006 (schemaAt 6) rows := by
  have htarget := cents_of_valid hv .workGoal .targetEarnings
    .ckWorkGoalTargetEarningsPositive rfl (.tail _ (.tail _ (.head _))) rfl
  have hrate := cents_of_valid hv .job .payRate .ckJobPayRatePositive rfl
    (.tail _ (.tail _ (.tail _ (.tail _ (.head _))))) rfl
  rw [downgrade006, fitsAll_cons rfl, fitsAll_cons rfl]
  exact ⟨fits_asFloat rfl htarget, fits_asFloat rfl hrate, trivial⟩

theorem fits_downgrade005 : FitsAll downgrade005 S rows :=
  fun _ _ => ⟨trivial, fun _ _ => ⟨trivial, trivial⟩⟩

theorem fits_downgrade004 : FitsAll downgrade004 S rows := fun _ _ => ⟨trivial, trivial⟩

theorem fits_downgrade003 : FitsAll downgrade003 (revertedTo 3) rows ↔
    (Constraint.unique [.userId, .createdAt] : Check).Holds rows .rateLimit := by
  rw [downgrade003, fitsAll_cons rfl, fitsAll_cons rfl, fitsAll_cons rfl, fitsAll_cons rfl,
    fitsAll_cons rfl, fitsAll_cons rfl]
  constructor
  · rintro ⟨_, hstamps, _⟩
    exact hstamps
  · intro hstamps
    exact ⟨trivial, hstamps, fun _ _ => rfl, holds_of_null, fun _ _ => rfl, holds_of_null, trivial⟩

theorem fits_downgrade002 : FitsAll downgrade002 (revertedTo 2) rows ↔
    ∀ row ∈ rows .job, (row .payRate).isSome := by
  have hsplit : downgrade002 = downgrade002.take 5 ++ [.alterNullable .job .payRate false] := rfl
  have halter : ∃ S₁, alterAll (downgrade002.take 5) (revertedTo 2) = .ok S₁ ∧
      ∃ S₂, Statement.alter S₁ (.alterNullable .job .payRate false) = .ok S₂ := ⟨_, rfl, _, rfl⟩
  have hdrops : FitsAll (downgrade002.take 5) (revertedTo 2) rows := fun _ _ => ⟨trivial,
    fun _ _ => ⟨trivial, fun _ _ => ⟨trivial, fun _ _ => ⟨trivial, fun _ _ =>
      ⟨trivial, trivial⟩⟩⟩⟩⟩
  have hjob : effectAll (downgrade002.take 5) rows .job =
      (rows .job).map (onRowAll (downgrade002.take 5) .job) :=
    effectAll_of_empty fun h => absurd h (by decide)
  have hrate (row : Row) : onRowAll (downgrade002.take 5) .job row .payRate = row .payRate := rfl
  obtain ⟨S₁, h₁, S₂, h₂⟩ := halter
  rw [hsplit, fitsAll_append h₁, fitsAll_cons h₂, Statement.Fits, hjob]
  simp only [hdrops, FitsAll, Bool.false_eq_true, false_or, true_and, and_true,
    List.forall_mem_map, hrate]

theorem fits_downgrade001 : FitsAll downgrade001 S rows :=
  fun _ _ => ⟨trivial, fun _ _ => ⟨trivial, fun _ _ => ⟨trivial, fun _ _ => ⟨trivial, fun _ _ =>
    ⟨trivial, fun _ _ => ⟨trivial, fun _ _ => ⟨trivial, trivial⟩⟩⟩⟩⟩⟩⟩

/-- Nothing stands against a downgrade to revision 003 or a later one. -/
theorem fits_reverting (hk : k ≤ head) (hthree : 3 ≤ k) (hv : Valid ⟨schemaAt head, rows⟩) :
    FitsAll (reverting k) (schemaAt head) rows := by
  have h₇ : FitsAll (reverting 7) (schemaAt head) rows := fits_downgrade008
  have h₆ : FitsAll (reverting 6) (schemaAt head) rows := h₇.append fun _ => fits_downgrade007
  have hsix : Valid ⟨schemaAt 6, effectAll (reverting 6) rows⟩ :=
    hv.run ((run_eq_ok_iff (alterAll_reverting (k := 6) (by decide))).mpr ⟨h₆, rfl⟩)
  have h₅ : FitsAll (reverting 5) (schemaAt head) rows :=
    (fitsAll_append (alterAll_reverting (k := 6) (by decide))).mpr ⟨h₆, fits_downgrade006 hsix⟩
  have h₄ : FitsAll (reverting 4) (schemaAt head) rows := h₅.append fun _ => fits_downgrade005
  have h₃ : FitsAll (reverting 3) (schemaAt head) rows := h₄.append fun _ => fits_downgrade004
  change k ≤ 8 at hk
  interval_cases k
  · exact h₃
  · exact h₄
  · exact h₅
  · exact h₆
  · exact h₇
  · trivial

theorem fits_reverting_iff (hk : k ≤ head) (hv : Valid ⟨schemaAt head, rows⟩) :
    FitsAll (reverting k) (schemaAt head) rows ↔ Revertible k rows := by
  have h₃ : FitsAll (reverting 3) (schemaAt head) rows := fits_reverting (by decide) le_rfl hv
  have hstamps : (Constraint.unique [.userId, .createdAt] : Check).Holds
      (effectAll (reverting 3) rows) .rateLimit ↔
        (Constraint.unique [.userId, .createdAt] : Check).Holds rows .rateLimit := by
    rw [Constraint.Holds, effectAll_of_empty fun h => absurd h (by decide), List.filterMap_map]
    rfl
  have h₂ : FitsAll (reverting 2) (schemaAt head) rows ↔
      (Constraint.unique [.userId, .createdAt] : Check).Holds rows .rateLimit := by
    rw [← hstamps, ← fits_downgrade003]
    refine (fitsAll_append (alterAll_reverting (k := 3) (by decide))).trans ?_
    exact and_iff_right h₃
  have hrates : (∀ row ∈ effectAll (reverting 2) rows .job, (row .payRate).isSome) ↔
      ∀ row ∈ rows .job, (row .payRate).isSome := by
    rw [effectAll_of_empty fun h => absurd h (by decide), List.forall_mem_map]
    refine forall₂_congr fun row hrow => ?_
    change ((row .payRate).bind asFloat).isSome ↔ _
    cases hvalue : row .payRate with
    | none => rfl
    | some v =>
        obtain ⟨n, rfl, _⟩ := cents_iff.mp (payRate_of_valid hv row hrow v hvalue)
        exact iff_of_true rfl rfl
  have h₁ : FitsAll (reverting 1) (schemaAt head) rows ↔
      (Constraint.unique [.userId, .createdAt] : Check).Holds rows .rateLimit ∧
        ∀ row ∈ rows .job, (row .payRate).isSome := by
    rw [← hrates, ← fits_downgrade002, ← h₂]
    exact fitsAll_append (alterAll_reverting (k := 2) (by decide))
  have h₀ : FitsAll (reverting 0) (schemaAt head) rows ↔
      FitsAll (reverting 1) (schemaAt head) rows := by
    refine (fitsAll_append (alterAll_reverting (k := 1) (by decide))).trans ?_
    exact and_iff_left fits_downgrade001
  rcases Nat.lt_or_ge k 3 with hlt | hge
  · interval_cases k
    · rw [h₀, h₁]
      exact ⟨fun h => ⟨fun _ => h.1, fun _ => h.2⟩, fun h => ⟨h.stamps hlt, h.rates (by decide)⟩⟩
    · rw [h₁]
      exact ⟨fun h => ⟨fun _ => h.1, fun _ => h.2⟩, fun h => ⟨h.stamps hlt, h.rates (by decide)⟩⟩
    · rw [h₂]
      exact ⟨fun h => ⟨fun _ => h, fun hlt => absurd hlt (by decide)⟩, fun h => h.stamps hlt⟩
  · refine iff_of_true (fits_reverting hk hge hv) ⟨fun h => ?_, fun h => ?_⟩
    · omega
    · omega

theorem downgradeTo_eq_ok_iff {db : Database} (hk : k ≤ head)
    (hv : Valid ⟨schemaAt head, rows⟩) :
    downgradeTo k ⟨schemaAt head, rows⟩ = .ok db ↔
      Revertible k rows ∧ db = ⟨revertedTo k, kept k (reverted k) rows⟩ := by
  rw [downgradeTo, run_eq_ok_iff (alterAll_reverting hk), effectAll_reverting hk,
    fits_reverting_iff hk hv]

/-- The way back from revision 006 does to the rows what `MoneyMigration.downgrade` does to the
two columns. -/
theorem holdsDollars_reverted {columns : MoneyMigration.MoneyColumns MoneyMigration.Cents}
    (h : HoldsCents rows columns) :
    HoldsDollars (fun t => (rows t).map (reverted 5 t)) (MoneyMigration.downgrade columns) := by
  constructor
  · rw [MoneyMigration.downgrade, List.forall₂_map_left_iff, List.forall₂_map_right_iff]
    refine h.payRate.imp fun row cents hrow => ?_
    have hreverted : reverted 5 .job row .payRate = (row .payRate).bind asFloat := rfl
    rw [hreverted, hrow]
    cases cents <;> simp [number, asFloat, MoneyMigration.asFloat]
  · rw [MoneyMigration.downgrade, List.forall₂_map_left_iff, List.forall₂_map_right_iff]
    refine h.targetEarnings.imp fun row cents hrow => ?_
    have hreverted : reverted 5 .workGoal row .targetEarnings =
      (row .targetEarnings).bind asFloat := rfl
    rw [hreverted, hrow]
    simp [number, asFloat, MoneyMigration.asFloat]

/-- The cast takes cents for dollars, and the upgrade makes them cents again. -/
def hundredfold : Value → Option Value
  | .integer n => some (.integer (n * Money.centsPerDollar))
  | _ => none

/-- A row of the head which was rolled back to revision `k` and has been upgraded again. -/
def returned (k : ℕ) (t : TableName) (row : Row) : Row := fun c =>
  match t, c with
  | .workGoal, .targetDeadline => if k < 8 then none else row c
  | .job, .payRate | .workGoal, .targetEarnings =>
      if k < 6 then (row c).bind hundredfold else row c
  | .job, .status => if k < 5 then some (.text "available") else row c
  | .user, .phoneE164 => if k < 4 then none else row c
  | .job, .payType => if k < 2 then some (.text "unknown") else row c
  | .job, .rawDatetimeText | .job, .inferredTimezone | .job, .rawDurationText =>
      if k < 2 then none else row c
  | _, _ => row c

/-- A hundred times each amount is within the range of its column. -/
structure HundredfoldFits (rows : Rows) : Prop where
  payRate : ∀ row ∈ rows .job, ∀ n, row .payRate = some (.integer n) →
    n * Money.centsPerDollar ≤ Models.maxInteger
  targetEarnings : ∀ row ∈ rows .workGoal, ∀ n, row .targetEarnings = some (.integer n) →
    n * Money.centsPerDollar ≤ Models.maxInteger

theorem dollarsToCents_intCast (n : ℤ) : Money.dollarsToCents n = n * Money.centsPerDollar := by
  rw [Money.dollarsToCents, ← Int.cast_natCast, ← Int.cast_mul, Money.round_intCast]

theorem bind_asFloat_roundedCents (v : Option Value) :
    (v.bind asFloat).bind roundedCents = v.bind hundredfold := by
  cases v with
  | none => rfl
  | some v =>
      cases v with
      | integer n => simp [asFloat, roundedCents, hundredfold, dollarsToCents_intCast]
      | text s => rfl
      | float q => rfl
      | boolean b => rfl
      | timestamp i => rfl

/-- What the head has besides is lost; the columns which it no longer has are empty. -/
theorem migrated_reverted {row : Row} (hk : k ≤ head)
    (habsent : ∀ c ∉ (schemaAt head).names t, row c = none) :
    migrated k t (reverted k t row) = returned k t row := by
  change k ≤ 8 at hk
  funext c
  interval_cases k <;> cases t <;> cases c <;>
    first
    | rfl
    | exact bind_asFloat_roundedCents _
    | exact (habsent _ (by decide)).symm

/-- The amounts of a downgraded database are dollars which were cents. -/
theorem rounds_reverted_iff (hkept : ¬Dropped k t)
    (hmoney : ∀ row : Row, reverted k t row c = (row c).bind asFloat)
    (hv : ∀ row ∈ rows t, ∀ v ∈ row c, integer v ∧ positive [some v]) :
    (∀ row ∈ kept k (reverted k) rows t, ∀ v ∈ row c, Rounds v) ↔
      ∀ row ∈ rows t, ∀ n, row c = some (.integer n) →
        n * Money.centsPerDollar ≤ Models.maxInteger := by
  rw [kept, if_neg hkept, List.forall_mem_map]
  refine forall₂_congr fun row hrow => ?_
  rw [hmoney]
  cases hvalue : row c with
  | none => simp
  | some v =>
      obtain ⟨n, rfl, hn, _⟩ := cents_iff.mp (hv row hrow v hvalue)
      simp [asFloat, Rounds, dollarsToCents_intCast, hn, Money.centsPerDollar]

theorem convertible_kept_iff (hpos : 0 < k) (hcents : k < 6) (hv : Valid ⟨schemaAt head, rows⟩) :
    Convertible (kept k (reverted k) rows) ↔ HundredfoldFits rows := by
  have hrate := rounds_reverted_iff (k := k) (t := .job) (c := .payRate)
    (by simp [Dropped, hpos.ne']) (fun _ => if_pos hcents) (payRate_of_valid hv)
  have htarget := rounds_reverted_iff (k := k) (t := .workGoal) (c := .targetEarnings)
    (by simp [Dropped, hpos.ne']) (fun _ => if_pos hcents) (targetEarnings_of_valid hv)
  constructor
  · intro h
    exact ⟨hrate.mp h.payRate, htarget.mp h.targetEarnings⟩
  · intro h
    exact ⟨hrate.mpr h.payRate, htarget.mpr h.targetEarnings⟩

theorem clears_pending (hk : k ≤ head) : (∃ s ∈ pending k, s.Clears t) ↔ Dropped k t := by
  change k ≤ 8 at hk
  interval_cases k <;> cases t <;> decide

theorem fits_pending_kept (hk : k ≤ head) (hv : Valid ⟨schemaAt head, rows⟩) :
    FitsAll (pending k) (revertedTo k) (kept k (reverted k) rows) ↔
      (0 < k → k < 6 → HundredfoldFits rows) := by
  have hcleared (t : TableName) (h : ∃ s ∈ pending k, s.Clears t) :
      kept k (reverted k) rows t = [] := if_pos ((clears_pending hk).mp h)
  have hsigned : Signed (kept k (reverted k) rows) := by
    intro row hrow
    rw [kept] at hrow
    split_ifs at hrow with hdropped
    · cases hrow
    · obtain ⟨old, hold, rfl⟩ := List.mem_map.mp hrow
      exact signed_of_valid le_rfl hv old hold
  rw [fits_pending hk (.inr rfl) hsigned hcleared]
  rcases Nat.eq_zero_or_pos k with rfl | hpos
  · refine iff_of_true (fun _ => ?_) fun h => absurd h (by decide)
    exact ⟨fun row hrow => absurd hrow List.not_mem_nil,
      fun row hrow => absurd hrow List.not_mem_nil⟩
  · simp only [hpos, true_imp_iff]
    exact imp_congr_right fun hcents => convertible_kept_iff hpos hcents hv

theorem upgradeHead_kept_eq_ok_iff {db : Database} (hk : k ≤ head)
    (hv : Valid ⟨schemaAt head, rows⟩) :
    upgradeHead k ⟨revertedTo k, kept k (reverted k) rows⟩ = .ok db ↔
      (0 < k → k < 6 → HundredfoldFits rows) ∧ db = ⟨schemaAt head, kept k (returned k) rows⟩ := by
  have hrows : effectAll (pending k) (kept k (reverted k) rows) = kept k (returned k) rows := by
    funext t
    rw [effectAll_apply, if_congr (clears_pending hk) rfl rfl, kept, kept]
    split_ifs with hdropped
    · rfl
    · rw [List.map_map]
      refine List.map_congr_left fun row hrow => ?_
      rw [Function.comp, onRowAll_pending hk]
      exact migrated_reverted hk (hv.absent t row hrow)
  rw [upgradeHead, run_eq_ok_iff (alterAll_pending_revertedTo hk), hrows, fits_pending_kept hk hv]

/-- A rollback of the head to any revision, and the way back. -/
theorem rolled_back (hk : k ≤ head) (hv : Valid ⟨schemaAt head, rows⟩) :
    (∀ db, downgradeTo k ⟨schemaAt head, rows⟩ = .ok db ↔
      Revertible k rows ∧ db = ⟨revertedTo k, kept k (reverted k) rows⟩) ∧
    ∀ db, (downgradeTo k ⟨schemaAt head, rows⟩).bind (upgradeHead k) = .ok db ↔
      Revertible k rows ∧ (0 < k → k < 6 → HundredfoldFits rows) ∧
        db = ⟨schemaAt head, kept k (returned k) rows⟩ := by
  refine ⟨fun db => downgradeTo_eq_ok_iff hk hv, fun db => ?_⟩
  rw [← upgradeHead_kept_eq_ok_iff hk hv]
  cases hdown : downgradeTo k ⟨schemaAt head, rows⟩ with
  | error e =>
      have hnever : ¬Revertible k rows := by
        intro h
        rw [(downgradeTo_eq_ok_iff hk hv).mpr ⟨h, rfl⟩] at hdown
        cases hdown
      simp [Except.bind, hnever]
  | ok back =>
      obtain ⟨hrevertible, rfl⟩ := (downgradeTo_eq_ok_iff hk hv).mp hdown
      simp [Except.bind, hrevertible]

end

/-- The rows of `storedRows` at the head: a job at 1550 cents, a goal of 50000. -/
def headRows : Rows := fun t => (storedRows t).map (migrated 5 t)

theorem valid_headRows : Valid ⟨schemaAt head, headRows⟩ :=
  valid_storedRows.run ((upgradeHead_eq_ok_iff (by decide) valid_storedRows).mpr
    ⟨fun _ => convertible_storedRows, rfl⟩)

/-- After revision 002 and back, the job is paid 155000 cents. -/
theorem rolled_back_headRows :
    Valid ⟨schemaAt head, headRows⟩ ∧
      (downgradeTo 2 ⟨schemaAt head, headRows⟩).bind (upgradeHead 2) =
        .ok ⟨schemaAt head, kept 2 (returned 2) headRows⟩ ∧
      (kept 2 (returned 2) headRows .job).map (fun row => row .payRate) =
        [some (.integer 155000)] := by
  have hrevertible : Revertible 2 headRows :=
    ⟨fun _ => by decide +kernel, fun h => absurd h (by decide)⟩
  have hrate : ∀ row ∈ headRows .job, row .payRate = some (.integer 1550) := by decide +kernel
  have htarget : ∀ row ∈ headRows .workGoal, row .targetEarnings = some (.integer 50000) := by
    decide +kernel
  have hfits : HundredfoldFits headRows := by
    constructor
    · intro row hrow n hn
      obtain rfl : 1550 = n := by simpa [hrate row hrow] using hn
      decide
    · intro row hrow n hn
      obtain rfl : 50000 = n := by simpa [htarget row hrow] using hn
      decide
  exact ⟨valid_headRows, ((rolled_back (by decide) valid_headRows).2 _).mpr
    ⟨hrevertible, fun _ _ => hfits, rfl⟩, by decide +kernel⟩

end Vici.Rollbacks
