import Vici.RowCreation

/-!
# The money columns in dollars and in cents

Revision 006 turns the two money columns from dollars, a float, into integer
cents. Its `upgrade` scales each amount by a hundred. Its `downgrade` changes
the types back without a `USING` expression: each amount is cast as it stands.
Dollars are exact rationals. Either direction runs in one transaction, so an
amount which a column refuses leaves both columns as they were.
-/
namespace Vici.MoneyMigration
open AppPrograms RowCreation
open Models (maxInteger)

/-- The contents of `job.pay_rate` and `work_goal.target_earnings`, row by row. -/
structure MoneyColumns (α : Type) where
  payRate : List (Option α)
  targetEarnings : List α
  deriving DecidableEq

/-- A value of an `INTEGER` column which a check holds positive. -/
abbrev Cents := {n : ℕ // 0 < n ∧ n ≤ maxInteger}

/-- `ROUND(x * 100)::INTEGER`, as the column takes it. A tie goes to even in
the database as in the program. -/
def roundedCents (dollars : PositiveAmount) : Except InfraError Cents :=
  let cents := amountCents dollars
  if hrange : cents ≤ maxInteger then
    if hpos : 0 < cents then .ok ⟨cents, hpos, hrange⟩ else .error .integrity
  else .error .data

/-- The same of a nullable column. -/
def roundedCentsOrNull : Option PositiveAmount → Except InfraError (Option Cents)
  | none => .ok none
  | some dollars => (roundedCents dollars).map some

def upgrade (columns : MoneyColumns PositiveAmount) : Except InfraError (MoneyColumns Cents) := do
  let payRate ← columns.payRate.mapM roundedCentsOrNull
  let targetEarnings ← columns.targetEarnings.mapM roundedCents
  return ⟨payRate, targetEarnings⟩

/-- The plain cast of an `INTEGER` to a `FLOAT`. -/
def asFloat (cents : Cents) : PositiveAmount := ⟨cents.1, Nat.cast_pos.mpr cents.2.1⟩

def downgrade (columns : MoneyColumns Cents) : MoneyColumns PositiveAmount :=
  ⟨columns.payRate.map (Option.map asFloat), columns.targetEarnings.map asFloat⟩

namespace MoneyColumns
variable {α β γ : Type}

def map (f : α → β) (columns : MoneyColumns α) : MoneyColumns β :=
  ⟨columns.payRate.map (Option.map f), columns.targetEarnings.map f⟩

/-- Every amount which is stored. -/
def amounts (columns : MoneyColumns α) : List α :=
  columns.payRate.reduceOption ++ columns.targetEarnings

theorem mem_amounts {columns : MoneyColumns α} {a : α} :
    a ∈ columns.amounts ↔ some a ∈ columns.payRate ∨ a ∈ columns.targetEarnings := by
  simp [amounts, List.reduceOption_mem_iff]

theorem map_id (columns : MoneyColumns α) : columns.map id = columns := by
  simp [map]

theorem map_map (f : α → β) (g : β → γ) (columns : MoneyColumns α) :
    (columns.map f).map g = columns.map (g ∘ f) := by
  simp [map]

@[simp] theorem amounts_map (f : α → β) (columns : MoneyColumns α) :
    (columns.map f).amounts = columns.amounts.map f := by
  simp [amounts, map, List.reduceOption_map]

theorem map_eq_map_iff {f g : α → β} {columns : MoneyColumns α} :
    columns.map f = columns.map g ↔ ∀ a ∈ columns.amounts, f a = g a := by
  rw [map, map, mk.injEq, List.map_inj_left, List.map_inj_left]
  constructor
  · intro h a ha
    rcases mem_amounts.mp ha with hrate | htarget
    · simpa using h.1 _ hrate
    · exact h.2 a htarget
  · intro h
    constructor
    · intro r hr
      cases r with
      | none => rfl
      | some a => exact congrArg some (h a (mem_amounts.mpr (.inl hr)))
    · intro a ha
      exact h a (mem_amounts.mpr (.inr ha))

end MoneyColumns

theorem mapM_eq_ok_iff {ε α β : Type} {f : α → Except ε β} {xs : List α} {ys : List β} :
    xs.mapM f = .ok ys ↔ List.Forall₂ (fun x y => f x = .ok y) xs ys := by
  induction xs generalizing ys with
  | nil => simp [pure, Except.pure, eq_comm]
  | cons x xs ih =>
      rw [List.forall₂_cons_left_iff, List.mapM_cons]
      cases f x with
      | error e => simp [bind, Except.bind]
      | ok y =>
          cases hrest : xs.mapM f with
          | error e => simp [bind, Except.bind, ← ih, hrest]
          | ok zs => simp [bind, Except.bind, pure, Except.pure, ← ih, hrest, eq_comm]

/-- A conversion of a list gives the list back exactly if it gives each element back. -/
theorem mapM_eq_ok_self_iff {ε α : Type} {f : α → Except ε α} {xs : List α} :
    xs.mapM f = .ok xs ↔ ∀ x ∈ xs, f x = .ok x := by
  rw [mapM_eq_ok_iff, List.forall₂_same]

theorem upgrade_eq_ok_iff {columns : MoneyColumns PositiveAmount} {cents : MoneyColumns Cents} :
    upgrade columns = .ok cents ↔
      columns.payRate.mapM roundedCentsOrNull = .ok cents.payRate ∧
        columns.targetEarnings.mapM roundedCents = .ok cents.targetEarnings := by
  obtain ⟨payRate, targetEarnings⟩ := cents
  unfold upgrade
  cases columns.payRate.mapM roundedCentsOrNull with
  | error e => simp [bind, Except.bind]
  | ok rates =>
      cases columns.targetEarnings.mapM roundedCents with
      | error e => simp [bind, Except.bind]
      | ok targets => simp [bind, Except.bind, pure, Except.pure]

/-- Cents written in some way as dollars are found again exactly if each is. -/
theorem upgrade_map_eq_ok_iff {f : Cents → PositiveAmount} {columns : MoneyColumns Cents} :
    upgrade (columns.map f) = .ok columns ↔
      ∀ cents ∈ columns.amounts, roundedCents (f cents) = .ok cents := by
  rw [upgrade_eq_ok_iff, MoneyColumns.map, List.mapM_map, List.mapM_map, mapM_eq_ok_self_iff,
    mapM_eq_ok_self_iff]
  constructor
  · intro h cents hmem
    rcases MoneyColumns.mem_amounts.mp hmem with hrate | htarget
    · have hback := h.1 _ hrate
      cases hcents : roundedCents (f cents) with
      | error e => simp [roundedCentsOrNull, hcents, Except.map] at hback
      | ok found => simpa [roundedCentsOrNull, hcents, Except.map] using hback
    · exact h.2 cents htarget
  · intro h
    constructor
    · intro r hr
      cases r with
      | none => rfl
      | some cents =>
          have hback := h cents (MoneyColumns.mem_amounts.mpr (.inl hr))
          simp [roundedCentsOrNull, hback, Except.map]
    · intro cents hmem
      exact h cents (MoneyColumns.mem_amounts.mpr (.inr hmem))

/-- At least one cent, whole cents, and within the range of the column. -/
def WholeCents (dollars : PositiveAmount) : Prop :=
  ∃ cents : Cents, dollars.1 * Money.centsPerDollar = cents.1

/-- The two round trips of the revision. -/
structure Reversible (columns : MoneyColumns PositiveAmount) : Prop where
  restores : (upgrade columns).map downgrade = .ok columns
  repeats : ((upgrade columns).bind fun cents => upgrade (downgrade cents)) = upgrade columns

/-- The dollars of an amount in cents, which is what a cast leaves out. -/
def inDollars (cents : Cents) : PositiveAmount :=
  ⟨cents.1 / Money.centsPerDollar, div_pos (Nat.cast_pos.mpr cents.2.1) Money.centsPerDollar_pos⟩

theorem wholeCents_iff {dollars : PositiveAmount} :
    WholeCents dollars ↔ ∃ cents, inDollars cents = dollars := by
  apply exists_congr
  intro cents
  rw [Subtype.ext_iff, inDollars, div_eq_iff Money.centsPerDollar_pos.ne', eq_comm]

theorem roundedCents_eq_ok_iff {dollars : PositiveAmount} {cents : Cents} :
    roundedCents dollars = .ok cents ↔ amountCents dollars = cents.1 := by
  have hcents := cents.2
  simp only [roundedCents]
  split_ifs with hrange hpos
  · simp [Subtype.ext_iff]
  · refine iff_of_false (by simp) ?_
    omega
  · refine iff_of_false (by simp) ?_
    omega

theorem amountCents_of_scaled {dollars : PositiveAmount} {n : ℕ}
    (h : dollars.1 * Money.centsPerDollar = n) : amountCents dollars = n := by
  rw [amountCents, Money.dollarsToCents, h, ← Int.cast_natCast, Money.round_intCast,
    Int.toNat_natCast]

theorem roundedCents_inDollars (cents : Cents) : roundedCents (inDollars cents) = .ok cents := by
  apply roundedCents_eq_ok_iff.mpr
  exact amountCents_of_scaled (div_mul_cancel₀ _ Money.centsPerDollar_pos.ne')

/-- The cast takes cents for dollars, so that it is a hundred times the amount. -/
theorem amountCents_asFloat (cents : Cents) :
    amountCents (asFloat cents) = cents.1 * Money.centsPerDollar := by
  apply amountCents_of_scaled
  push_cast
  rfl

theorem roundedCents_asFloat_ne (cents : Cents) : roundedCents (asFloat cents) ≠ .ok cents := by
  rw [Ne, roundedCents_eq_ok_iff, amountCents_asFloat, Money.centsPerDollar]
  have hpos := cents.2.1
  omega

theorem asFloat_ne_inDollars (cents : Cents) : asFloat cents ≠ inDollars cents := by
  intro h
  exact roundedCents_asFloat_ne cents (h ▸ roundedCents_inDollars cents)

theorem exists_cents {columns : MoneyColumns PositiveAmount}
    (h : ∀ dollars ∈ columns.amounts, WholeCents dollars) :
    ∃ cents : MoneyColumns Cents, cents.map inDollars = columns := by
  have hone : Nonempty Cents := ⟨⟨1, by decide⟩⟩
  use columns.map (Function.invFun inDollars)
  rw [MoneyColumns.map_map]
  refine Eq.trans ?_ columns.map_id
  rw [MoneyColumns.map_eq_map_iff]
  intro dollars hmem
  exact Function.invFun_eq (wholeCents_iff.mp (h dollars hmem))

variable {cents : MoneyColumns Cents}

theorem upgrade_inDollars : upgrade (cents.map inDollars) = .ok cents :=
  upgrade_map_eq_ok_iff.mpr fun c _ => roundedCents_inDollars c

/-- The upgrade cannot fail on whole cents, but the downgrade brings every amount
back a hundred times too large: only columns without amounts survive. -/
theorem restores_iff :
    (upgrade (cents.map inDollars)).map downgrade = .ok (cents.map inDollars) ↔
      cents.amounts = [] := by
  have hsame : downgrade cents = cents.map inDollars ↔
      ∀ c ∈ cents.amounts, asFloat c = inDollars c := MoneyColumns.map_eq_map_iff
  rw [upgrade_inDollars, Except.map, Except.ok.injEq, hsame, List.eq_nil_iff_forall_not_mem]
  apply forall_congr'
  intro c
  exact imp_congr_right fun _ => iff_of_false (asFloat_ne_inDollars c) id

theorem repeats_iff :
    ((upgrade (cents.map inDollars)).bind fun c => upgrade (downgrade c)) =
        upgrade (cents.map inDollars) ↔ cents.amounts = [] := by
  have hsame : upgrade (downgrade cents) = .ok cents ↔
      ∀ c ∈ cents.amounts, roundedCents (asFloat c) = .ok c := upgrade_map_eq_ok_iff
  rw [upgrade_inDollars, Except.bind, hsame, List.eq_nil_iff_forall_not_mem]
  apply forall_congr'
  intro c
  exact imp_congr_right fun _ => iff_of_false (roundedCents_asFloat_ne c) id

/-- The revision is reversible exactly over columns which hold no amount. -/
theorem reversible_iff {columns : MoneyColumns PositiveAmount}
    (h : ∀ dollars ∈ columns.amounts, WholeCents dollars) :
    Reversible columns ↔ columns.amounts = [] := by
  obtain ⟨cents, rfl⟩ := exists_cents h
  rw [MoneyColumns.amounts_map, List.map_eq_nil_iff]
  constructor
  · intro hreversible
    exact restores_iff.mp hreversible.restores
  · intro hempty
    exact ⟨restores_iff.mpr hempty, repeats_iff.mpr hempty⟩

/-- A job at 15.50 dollars, a job without a rate, and a goal of 500 dollars. -/
def storedColumns : MoneyColumns PositiveAmount :=
  ⟨[some ⟨31 / 2, by norm_num⟩, none], [⟨500, by norm_num⟩]⟩

theorem storedColumns_wholeCents : ∀ dollars ∈ storedColumns.amounts, WholeCents dollars := by
  intro dollars hmem
  simp only [storedColumns, MoneyColumns.mem_amounts, List.mem_cons, List.not_mem_nil, or_false,
    Option.some.injEq, reduceCtorEq] at hmem
  rcases hmem with rfl | rfl
  · exact ⟨⟨1550, by decide⟩, by norm_num [Money.centsPerDollar]⟩
  · exact ⟨⟨50000, by decide⟩, by norm_num [Money.centsPerDollar]⟩

theorem reversible_iff_storedColumns : ¬Reversible storedColumns := by
  intro h
  have hempty := (reversible_iff storedColumns_wholeCents).mp h
  simp [storedColumns, MoneyColumns.amounts, List.reduceOption] at hempty

/-- The rate and the target come back as 1550 and 50000 dollars, and upgraded
again as 155000 and 5000000 cents. -/
theorem storedColumns_hundredfold :
    (∀ dollars ∈ storedColumns.amounts, WholeCents dollars) ∧
      (upgrade storedColumns).map downgrade =
        .ok ⟨[some ⟨1550, by norm_num⟩, none], [⟨50000, by norm_num⟩]⟩ ∧
      ((upgrade storedColumns).bind fun cents => upgrade (downgrade cents)) =
        .ok ⟨[some ⟨155000, by decide⟩, none], [⟨5000000, by decide⟩]⟩ ∧
      ¬Reversible storedColumns := by
  have hrestored : (upgrade storedColumns).map downgrade =
      .ok ⟨[some ⟨1550, by norm_num⟩, none], [⟨50000, by norm_num⟩]⟩ := by decide +kernel
  refine ⟨storedColumns_wholeCents, hrestored, by decide +kernel, ?_⟩
  intro h
  exact absurd (hrestored.symm.trans h.restores) (by decide +kernel)

end Vici.MoneyMigration
