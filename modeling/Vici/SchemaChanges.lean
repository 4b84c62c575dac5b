import Mathlib

/-!
# Statements which change a relational schema

A database is a schema, the tables with their columns and constraints, together
with the rows of each table. A statement alters the schema and rewrites one
column of one table at most. It is refused where the schema does not allow it
and where stored rows would break a type or a constraint. A list of statements
runs as one transaction: with the first refusal nothing of it remains.
-/
namespace Vici.SchemaChanges

section
variable (τ κ ι ν : Type)

/-- The value of each column; a column which the table lacks holds NULL. -/
abbrev Row := κ → Option ν

structure Column where
  name : κ
  type : ν → Bool
  nullable : Bool

inductive Constraint where
  | unique (columns : List κ)
  | check (columns : List κ) (test : List (Option ν) → Bool)
  | references (column : κ) (table : τ) (key : κ)

structure Table where
  columns : List (Column κ ν)
  constraints : List (ι × Constraint τ κ ν)

abbrev Schema := List (τ × Table τ κ ι ν)

abbrev Rows := τ → List (Row κ ν)

structure Database where
  schema : Schema τ κ ι ν
  rows : Rows τ κ ν

inductive Statement where
  | createTable (t : τ) (table : Table τ κ ι ν)
  | dropTable (t : τ)
  | addColumn (t : τ) (column : Column κ ν) (serverDefault : Option ν)
  | dropColumn (t : τ) (c : κ)
  | addConstraint (t : τ) (name : ι) (k : Constraint τ κ ν)
  | dropConstraint (t : τ) (name : ι)
  | alterNullable (t : τ) (c : κ) (nullable : Bool)
  | alterType (t : τ) (c : κ) (type : ν → Bool) (cast : ν → Option ν)

end

inductive Refusal where
  | undefined | duplicate | mismatch | dependents | violation
  deriving DecidableEq, Repr

variable {τ κ ι ν : Type}

namespace Column

/-- A value of the type, or NULL where the column is nullable. -/
def Admits (column : Column κ ν) : Option ν → Prop
  | none => column.nullable
  | some v => column.type v

instance (column : Column κ ν) : DecidablePred column.Admits
  | none => inferInstanceAs (Decidable (column.nullable = true))
  | some v => inferInstanceAs (Decidable (column.type v = true))

end Column

namespace Constraint

/-- The columns of its own table which a constraint reads. -/
def columns : Constraint τ κ ν → List κ
  | unique cs | check cs _ => cs
  | references c _ _ => [c]

/-- The column of a table to which a constraint leads. -/
def target : Constraint τ κ ν → Option (τ × κ)
  | unique _ | check _ _ => none
  | references _ t key => some (t, key)

def isKey : Constraint τ κ ν → Bool
  | unique _ => true
  | check _ _ | references _ _ _ => false

/-- The values of a unique key; a NULL in it is like no other. -/
def keyOf (cs : List κ) (row : Row κ ν) : Option (List ν) := cs.mapM row

def Holds (rows : Rows τ κ ν) (t : τ) : Constraint τ κ ν → Prop
  | unique cs => ((rows t).filterMap (keyOf cs)).Nodup
  | check cs test => ∀ row ∈ rows t, test (cs.map row)
  | references c u key => ∀ row ∈ rows t, ∀ v ∈ row c, ∃ other ∈ rows u, other key = some v

instance [DecidableEq ν] (rows : Rows τ κ ν) (t : τ) :
    DecidablePred (Holds rows t : Constraint τ κ ν → Prop)
  | unique cs => inferInstanceAs (Decidable ((rows t).filterMap (keyOf cs)).Nodup)
  | check cs test => inferInstanceAs (Decidable (∀ row ∈ rows t, test (cs.map row)))
  | references c u key => inferInstanceAs
      (Decidable (∀ row ∈ rows t, ∀ v ∈ row c, ∃ other ∈ rows u, other key = some v))

end Constraint

def Table.names (table : Table τ κ ι ν) : List κ := table.columns.map Column.name

/-- A column, altered where it has the name. -/
def Table.alterColumn [DecidableEq κ] (table : Table τ κ ι ν) (c : κ)
    (f : Column κ ν → Column κ ν) : Table τ κ ι ν :=
  { table with
    columns := table.columns.map fun column => if column.name = c then f column else column }

theorem Table.names_alterColumn [DecidableEq κ] {table : Table τ κ ι ν} {c : κ}
    {f : Column κ ν → Column κ ν} (hf : ∀ column, (f column).name = column.name) :
    (table.alterColumn c f).names = table.names := by
  rw [names, alterColumn, List.map_map, names]
  refine List.map_congr_left fun column _ => ?_
  rw [Function.comp]
  split_ifs
  · exact hf column
  · rfl

namespace Schema

def names [DecidableEq τ] (S : Schema τ κ ι ν) (t : τ) : List κ :=
  ((S.lookup t).map Table.names).getD []

def set [DecidableEq τ] (S : Schema τ κ ι ν) (t : τ) (table : Table τ κ ι ν) : Schema τ κ ι ν :=
  S.map fun e => if e.1 = t then (t, table) else e

def constraint [DecidableEq τ] [DecidableEq ι] (S : Schema τ κ ι ν) (t : τ) (name : ι) :
    Option (Constraint τ κ ν) := (S.lookup t).bind fun table => table.constraints.lookup name

/-- A constraint of some table leads to the column. -/
def Needed (S : Schema τ κ ι ν) (t : τ) (c : κ) : Prop :=
  ∃ e ∈ S, ∃ k ∈ e.2.constraints, k.2.target = some (t, c)

/-- A constraint of another table leads to the table. -/
def NeededElsewhere (S : Schema τ κ ι ν) (t : τ) : Prop :=
  ∃ e ∈ S, e.1 ≠ t ∧ ∃ k ∈ e.2.constraints, k.2.target.map Prod.fst = some t

/-- The constraints which read or reach the column, with their tables. -/
def involved [DecidableEq τ] [DecidableEq κ] (S : Schema τ κ ι ν) (t : τ) (c : κ) :
    List (τ × Constraint τ κ ν) :=
  S.flatMap fun e =>
    (e.2.constraints.filter fun k => (e.1 = t ∧ c ∈ k.2.columns) ∨ k.2.target = some (t, c)).map
      fun k => (e.1, k.2)

/-- A constraint reads and reaches columns which there are. -/
def Grounds [DecidableEq τ] (S : Schema τ κ ι ν) (t : τ) (k : Constraint τ κ ν) : Prop :=
  (∀ c ∈ k.columns, c ∈ S.names t) ∧ ∀ p ∈ k.target, p.2 ∈ S.names p.1

end Schema

namespace Rows

def clear [DecidableEq τ] (rows : Rows τ κ ν) (t : τ) : Rows τ κ ν := Function.update rows t []

/-- Every row of the table, with a new value in the column. -/
def change [DecidableEq τ] [DecidableEq κ] (rows : Rows τ κ ν) (t : τ) (c : κ)
    (g : Option ν → Option ν) : Rows τ κ ν :=
  Function.update rows t ((rows t).map fun row => Function.update row c (g (row c)))

end Rows

namespace Statement
variable [DecidableEq τ] [DecidableEq κ] [DecidableEq ι]

instance (S : Schema τ κ ι ν) (t : τ) (c : κ) : Decidable (S.Needed t c) :=
  inferInstanceAs (Decidable (∃ e ∈ S, ∃ k ∈ e.2.constraints, k.2.target = some (t, c)))

instance (S : Schema τ κ ι ν) (t : τ) : Decidable (S.NeededElsewhere t) :=
  inferInstanceAs (Decidable
    (∃ e ∈ S, e.1 ≠ t ∧ ∃ k ∈ e.2.constraints, k.2.target.map Prod.fst = some t))

instance (S : Schema τ κ ι ν) (t : τ) (k : Constraint τ κ ν) : Decidable (S.Grounds t k) :=
  inferInstanceAs (Decidable
    ((∀ c ∈ k.columns, c ∈ S.names t) ∧ ∀ p ∈ k.target, p.2 ∈ S.names p.1))

/-- The schema after a statement. A column takes the constraints which read it with it. -/
def alter (S : Schema τ κ ι ν) : Statement τ κ ι ν → Except Refusal (Schema τ κ ι ν)
  | createTable t table =>
      if (S.lookup t).isSome then .error .duplicate
      else
        let S' := S ++ [(t, table)]
        if ∀ k ∈ table.constraints, S'.Grounds t k.2 then .ok S' else .error .undefined
  | dropTable t =>
      if S.NeededElsewhere t then .error .dependents
      else if (S.lookup t).isNone then .error .undefined
      else .ok (S.filter fun e => e.1 ≠ t)
  | addColumn t column serverDefault =>
      match S.lookup t with
      | none => .error .undefined
      | some table =>
          if column.name ∈ table.names then .error .duplicate
          else if serverDefault.all column.type then
            .ok (S.set t { table with columns := table.columns ++ [column] })
          else .error .mismatch
  | dropColumn t c =>
      match S.lookup t with
      | none => .error .undefined
      | some table =>
          if c ∉ table.names then .error .undefined
          else if S.Needed t c then .error .dependents
          else .ok (S.set t ⟨table.columns.filter fun column => column.name ≠ c,
            table.constraints.filter fun k => c ∉ k.2.columns⟩)
  | addConstraint t name k =>
      match S.lookup t with
      | none => .error .undefined
      | some table =>
          if name ∈ table.constraints.map Prod.fst then .error .duplicate
          else if S.Grounds t k then
            .ok (S.set t { table with constraints := table.constraints ++ [(name, k)] })
          else .error .undefined
  | dropConstraint t name =>
      match S.lookup t with
      | none => .error .undefined
      | some table =>
          if name ∉ table.constraints.map Prod.fst then .error .undefined
          else if ∃ k ∈ table.constraints, k.1 = name ∧ k.2.isKey ∧
              ∃ c ∈ k.2.columns, S.Needed t c then .error .dependents
          else .ok (S.set t
            { table with constraints := table.constraints.filter fun k => k.1 ≠ name })
  | alterNullable t c nullable =>
      match S.lookup t with
      | none => .error .undefined
      | some table =>
          if c ∉ table.names then .error .undefined
          else .ok (S.set t (table.alterColumn c fun column => { column with nullable }))
  | alterType t c type _ =>
      match S.lookup t with
      | none => .error .undefined
      | some table =>
          if c ∉ table.names then .error .undefined
          else .ok (S.set t (table.alterColumn c fun column => { column with type }))

def effect (rows : Rows τ κ ν) : Statement τ κ ι ν → Rows τ κ ν
  | createTable t _ | dropTable t => rows.clear t
  | addColumn t column serverDefault => rows.change t column.name fun _ => serverDefault
  | dropColumn t c => rows.change t c fun _ => none
  | alterType t c _ cast => rows.change t c fun v => v.bind cast
  | addConstraint _ _ _ | dropConstraint _ _ | alterNullable _ _ _ => rows

/-- The stored rows allow the statement, which leads to the schema `S`. -/
def Fits (S : Schema τ κ ι ν) (rows : Rows τ κ ν) : Statement τ κ ι ν → Prop
  | addColumn t column serverDefault => ∀ _row ∈ rows t, column.Admits serverDefault
  | addConstraint t _ k => k.Holds rows t
  | alterNullable t c nullable => nullable ∨ ∀ row ∈ rows t, (row c).isSome
  | alterType t c type cast =>
      (∀ row ∈ rows t, ∀ v ∈ row c, ∃ w ∈ cast v, type w) ∧
        ∀ p ∈ S.involved t c, p.2.Holds (rows.change t c fun v => v.bind cast) p.1
  | createTable _ _ | dropTable _ | dropColumn _ _ | dropConstraint _ _ => True

instance [DecidableEq ν] (S : Schema τ κ ι ν) (rows : Rows τ κ ν) :
    DecidablePred (Fits S rows : Statement τ κ ι ν → Prop)
  | addColumn t column serverDefault =>
      inferInstanceAs (Decidable (∀ _row ∈ rows t, column.Admits serverDefault))
  | addConstraint t _ k => inferInstanceAs (Decidable (k.Holds rows t))
  | alterNullable t c nullable =>
      inferInstanceAs (Decidable (nullable = true ∨ ∀ row ∈ rows t, (row c).isSome))
  | alterType t c type cast => inferInstanceAs (Decidable
      ((∀ row ∈ rows t, ∀ v ∈ row c, ∃ w ∈ cast v, type w) ∧
        ∀ p ∈ S.involved t c, p.2.Holds (rows.change t c fun v => v.bind cast) p.1))
  | createTable _ _ | dropTable _ | dropColumn _ _ | dropConstraint _ _ => .isTrue trivial

variable [DecidableEq ν]

def apply (s : Statement τ κ ι ν) (db : Database τ κ ι ν) :
    Except Refusal (Database τ κ ι ν) :=
  match s.alter db.schema with
  | .error e => .error e
  | .ok S => if s.Fits S db.rows then .ok ⟨S, s.effect db.rows⟩ else .error .violation

end Statement

section
variable [DecidableEq τ] [DecidableEq κ]

def effectAll (ss : List (Statement τ κ ι ν)) (rows : Rows τ κ ν) : Rows τ κ ν :=
  ss.foldl Statement.effect rows

namespace Statement
variable (t : τ)

/-- The statement leaves the table without rows. -/
def Clears : Statement τ κ ι ν → Prop
  | createTable u _ | dropTable u => u = t
  | addColumn _ _ _ | dropColumn _ _ | alterType _ _ _ _ | addConstraint _ _ _
  | dropConstraint _ _ | alterNullable _ _ _ => False

instance : DecidablePred (Clears t : Statement τ κ ι ν → Prop)
  | createTable u _ | dropTable u => inferInstanceAs (Decidable (u = t))
  | addColumn _ _ _ | dropColumn _ _ | alterType _ _ _ _ | addConstraint _ _ _
  | dropConstraint _ _ | alterNullable _ _ _ => .isFalse id

/-- What the statement does to one row of the table. -/
def onRow (row : Row κ ν) : Statement τ κ ι ν → Row κ ν
  | addColumn u column serverDefault =>
      if u = t then Function.update row column.name serverDefault else row
  | dropColumn u c => if u = t then Function.update row c none else row
  | alterType u c _ cast => if u = t then Function.update row c ((row c).bind cast) else row
  | createTable _ _ | dropTable _ | addConstraint _ _ _ | dropConstraint _ _
  | alterNullable _ _ _ => row

end Statement

def onRowAll (ss : List (Statement τ κ ι ν)) (t : τ) (row : Row κ ν) : Row κ ν :=
  ss.foldl (Statement.onRow t) row

variable {s : Statement τ κ ι ν} {ss : List (Statement τ κ ι ν)} {rows : Rows τ κ ν}

theorem Statement.effect_apply (t : τ) :
    s.effect rows t = if s.Clears t then [] else (rows t).map fun row => s.onRow t row := by
  have hclear (u : τ) : rows.clear u t = if u = t then [] else rows t := by
    rw [Rows.clear, Function.update_apply, if_congr eq_comm rfl rfl]
  have hchange (u : τ) (c : κ) (g : Option ν → Option ν) : rows.change u c g t =
      (rows t).map fun row => if u = t then Function.update row c (g (row c)) else row := by
    rw [Rows.change, Function.update_apply]
    split_ifs with htu hut hut
    · rw [htu]
    · exact absurd htu.symm hut
    · exact absurd hut.symm htu
    · exact (List.map_id' _).symm
  cases s with
  | createTable u _ | dropTable u => simp [effect, Clears, onRow, hclear]
  | addColumn u column serverDefault => simp [effect, Clears, onRow, hchange]
  | dropColumn u c => simp [effect, Clears, onRow, hchange]
  | alterType u c _ cast => simp [effect, Clears, onRow, hchange]
  | addConstraint _ _ _ | dropConstraint _ _ | alterNullable _ _ _ => simp [effect, Clears, onRow]

/-- The rows of each table after the statements, one by one what they do to a row. -/
theorem effectAll_apply (t : τ) :
    effectAll ss rows t =
      if ∃ s ∈ ss, s.Clears t then [] else (rows t).map (onRowAll ss t) := by
  induction ss generalizing rows with
  | nil =>
      have hid : onRowAll ([] : List (Statement τ κ ι ν)) t = id := rfl
      simp [effectAll, hid]
  | cons s ss ih =>
      have hcons : effectAll (s :: ss) rows t = effectAll ss (s.effect rows) t := rfl
      have hrow : onRowAll (s :: ss) t = onRowAll ss t ∘ fun row => s.onRow t row := rfl
      rw [hcons, ih, s.effect_apply, hrow]
      by_cases hs : s.Clears t
      · simp [hs]
      · simp [hs]

theorem effectAll_of_empty {t : τ} (h : (∃ s ∈ ss, s.Clears t) → rows t = []) :
    effectAll ss rows t = (rows t).map (onRowAll ss t) := by
  rw [effectAll_apply]
  split_ifs with hclears
  · rw [h hclears, List.map_nil]
  · rfl

end

section
variable [DecidableEq τ] [DecidableEq κ] [DecidableEq ι]

/-- The statements in order, in one transaction. -/
def run [DecidableEq ν] : List (Statement τ κ ι ν) → Database τ κ ι ν →
    Except Refusal (Database τ κ ι ν)
  | [], db => .ok db
  | s :: ss, db => (s.apply db).bind (run ss)

/-- What the statements do to the schema alone. -/
def alterAll : List (Statement τ κ ι ν) → Schema τ κ ι ν → Except Refusal (Schema τ κ ι ν)
  | [], S => .ok S
  | s :: ss, S => (s.alter S).bind (alterAll ss)

/-- The stored rows allow each of the statements when its turn comes. -/
def FitsAll : List (Statement τ κ ι ν) → Schema τ κ ι ν → Rows τ κ ν → Prop
  | [], _, _ => True
  | s :: ss, S, rows =>
      ∀ S', s.alter S = .ok S' → s.Fits S' rows ∧ FitsAll ss S' (s.effect rows)

variable {s : Statement τ κ ι ν} {ss ss' : List (Statement τ κ ι ν)}
variable {S S' : Schema τ κ ι ν} {rows : Rows τ κ ν} {db db' : Database τ κ ι ν}

theorem fitsAll_append (h : alterAll ss S = .ok S') :
    FitsAll (ss ++ ss') S rows ↔ FitsAll ss S rows ∧ FitsAll ss' S' (effectAll ss rows) := by
  induction ss generalizing S rows with
  | nil =>
      cases h
      simp [FitsAll, effectAll]
  | cons s ss ih =>
      rw [alterAll] at h
      cases hs : s.alter S with
      | error e =>
          rw [hs] at h
          cases h
      | ok S₁ =>
          rw [hs] at h
          rw [List.cons_append, FitsAll, FitsAll, hs]
          simp only [Except.ok.injEq, forall_eq']
          rw [ih h, and_assoc]
          rfl

theorem FitsAll.append (h : FitsAll ss S rows)
    (h' : ∀ S', FitsAll ss' S' (effectAll ss rows)) : FitsAll (ss ++ ss') S rows := by
  induction ss generalizing S rows with
  | nil => exact h' S
  | cons s ss ih =>
      intro S₁ hs
      obtain ⟨hfits, hrest⟩ := h S₁ hs
      exact ⟨hfits, ih hrest h'⟩

theorem fitsAll_cons (h : s.alter S = .ok S') :
    FitsAll (s :: ss) S rows ↔ s.Fits S' rows ∧ FitsAll ss S' (s.effect rows) := by
  rw [FitsAll, h]
  constructor
  · intro hfits
    exact hfits S' rfl
  · intro hfits S'' hsame
    cases hsame
    exact hfits

variable [DecidableEq ν]

theorem Statement.apply_eq_ok_iff :
    s.apply db = .ok db' ↔ ∃ S, s.alter db.schema = .ok S ∧ s.Fits S db.rows ∧
      db' = ⟨S, s.effect db.rows⟩ := by
  unfold apply
  cases s.alter db.schema with
  | error e => simp
  | ok S => by_cases hfits : s.Fits S db.rows <;> simp [hfits, eq_comm]

/-- Where the schema allows the statements, they run if and only if the rows do. -/
theorem run_eq_ok_iff (h : alterAll ss S = .ok S') :
    run ss ⟨S, rows⟩ = .ok db ↔ FitsAll ss S rows ∧ db = ⟨S', effectAll ss rows⟩ := by
  induction ss generalizing S rows with
  | nil =>
      cases h
      simp [run, FitsAll, effectAll, eq_comm]
  | cons s ss ih =>
      rw [alterAll] at h
      cases hs : s.alter S with
      | error e =>
          rw [hs] at h
          cases h
      | ok S₁ =>
          rw [hs] at h
          rw [fitsAll_cons hs, run, Statement.apply, hs]
          by_cases hfits : s.Fits S₁ rows
          · simp only [hfits, if_true, true_and, Except.bind]
            exact ih h
          · simp [hfits, Except.bind]

end

/-- The rows have the columns of their table, in their types, and keep its constraints. -/
structure Valid [DecidableEq τ] (db : Database τ κ ι ν) : Prop where
  grounded : ∀ t table, db.schema.lookup t = some table →
    ∀ k ∈ table.constraints, db.schema.Grounds t k.2
  undefined : ∀ t, db.schema.lookup t = none → db.rows t = []
  absent : ∀ t, ∀ row ∈ db.rows t, ∀ c ∉ db.schema.names t, row c = none
  admits : ∀ t table, db.schema.lookup t = some table →
    ∀ row ∈ db.rows t, ∀ column ∈ table.columns, column.Admits (row column.name)
  holds : ∀ t table, db.schema.lookup t = some table →
    ∀ k ∈ table.constraints, k.2.Holds db.rows t

section
variable [DecidableEq τ]

namespace Rows
variable {rows : Rows τ κ ν} {t u : τ} {c : κ} {g : Option ν → Option ν}

@[simp] theorem clear_same : rows.clear t t = [] := Function.update_self _ _ _

@[simp] theorem clear_of_ne (h : u ≠ t) : rows.clear t u = rows u := Function.update_of_ne h _ _

variable [DecidableEq κ]

@[simp] theorem change_same :
    rows.change t c g t = (rows t).map fun row => Function.update row c (g (row c)) :=
  Function.update_self _ _ _

@[simp] theorem change_of_ne (h : u ≠ t) : rows.change t c g u = rows u :=
  Function.update_of_ne h _ _

/-- Each row of a changed table is an old one but for the column. -/
theorem exists_of_mem_change {row : Row κ ν} (h : row ∈ rows.change t c g u) :
    ∃ old ∈ rows u, ∀ a, (u = t → a ≠ c) → row a = old a := by
  rcases eq_or_ne u t with rfl | hne
  · rw [change_same] at h
    obtain ⟨old, hold, rfl⟩ := List.mem_map.mp h
    exact ⟨old, hold, fun a ha => Function.update_of_ne (ha rfl) _ _⟩
  · rw [change_of_ne hne] at h
    exact ⟨row, h, fun _ _ => rfl⟩

theorem exists_mem_change {old : Row κ ν} (h : old ∈ rows u) :
    ∃ row ∈ rows.change t c g u, ∀ a, (u = t → a ≠ c) → row a = old a := by
  rcases eq_or_ne u t with rfl | hne
  · rw [change_same]
    exact ⟨Function.update old c (g (old c)), List.mem_map.mpr ⟨old, h, rfl⟩,
      fun a ha => Function.update_of_ne (ha rfl) _ _⟩
  · rw [change_of_ne hne]
    exact ⟨old, h, fun _ _ => rfl⟩

end Rows

namespace Constraint
variable {rows : Rows τ κ ν} {t u : τ} {c : κ} {g : Option ν → Option ν} {k : Constraint τ κ ν}

theorem keyOf_congr {cs : List κ} {row row' : Row κ ν} (h : ∀ a ∈ cs, row a = row' a) :
    keyOf cs row = keyOf cs row' := by
  induction cs with
  | nil => rfl
  | cons a cs ih =>
      rw [List.forall_mem_cons] at h
      have hrest : cs.mapM row = cs.mapM row' := ih h.2
      rw [keyOf, keyOf, List.mapM_cons, List.mapM_cons, h.1, hrest]

/-- A change of a column which a constraint neither reads nor reaches leaves it alone. -/
theorem Holds.change [DecidableEq κ] (h : k.Holds rows u) (hown : u = t → c ∉ k.columns)
    (htarget : k.target ≠ some (t, c)) : k.Holds (rows.change t c g) u := by
  cases k with
  | unique cs =>
      rcases eq_or_ne u t with rfl | hne
      · have hsame : ((rows.change u c g) u).filterMap (keyOf cs) =
            (rows u).filterMap (keyOf cs) := by
          rw [Rows.change_same, List.filterMap_map]
          refine List.filterMap_congr fun row _ => keyOf_congr fun a ha => ?_
          refine Function.update_of_ne ?_ _ _
          rintro rfl
          exact hown rfl ha
        rw [Holds, hsame]
        exact h
      · simpa [Holds, hne] using h
  | check cs test =>
      intro row hrow
      obtain ⟨old, hold, hsame⟩ := Rows.exists_of_mem_change hrow
      have hread : cs.map row = cs.map old := by
        refine List.map_congr_left fun a ha => hsame a fun htable => ?_
        rintro rfl
        exact hown htable ha
      exact hread ▸ h old hold
  | references a w key =>
      intro row hrow v hv
      obtain ⟨old, hold, hsame⟩ := Rows.exists_of_mem_change hrow
      have hread : row a = old a := hsame a fun htable ha => hown htable (ha ▸ List.mem_cons_self)
      rw [hread] at hv
      obtain ⟨other, hother, hkey⟩ := h old hold v hv
      obtain ⟨new, hnew, hnewSame⟩ := Rows.exists_mem_change (t := t) (c := c) (g := g) hother
      refine ⟨new, hnew, (hnewSame key fun htable hc => ?_).trans hkey⟩
      exact htarget (by rw [target, htable, hc])

theorem Holds.clear (h : k.Holds rows u) (hown : u ≠ t) (htarget : k.target.map Prod.fst ≠ some t) :
    k.Holds (rows.clear t) u := by
  cases k with
  | unique cs => simpa [Holds, hown] using h
  | check cs test => simpa [Holds, hown] using h
  | references a w key =>
      have hw : w ≠ t := by
        rintro rfl
        exact htarget rfl
      simpa [Holds, hown, hw] using h

end Constraint

theorem mem_of_lookup {α β : Type} [DecidableEq α] {entries : List (α × β)} {a : α} {b : β}
    (h : entries.lookup a = some b) : (a, b) ∈ entries := by
  obtain ⟨before, after, hentries, _⟩ := List.lookup_eq_some_iff.mp h
  rw [hentries]
  exact List.mem_append_right _ List.mem_cons_self

namespace Schema
variable {S : Schema τ κ ι ν} {t u : τ} {c : κ} {table table' : Table τ κ ι ν}

theorem lookup_set_same (h : S.lookup t = some table) :
    (S.set t table').lookup t = some table' := by
  induction S with
  | nil => cases h
  | cons e S ih =>
      rw [set, List.map_cons]
      by_cases he : e.1 = t
      · simp [he]
      · have hne : t ≠ e.1 := Ne.symm he
        rw [if_neg he, List.lookup_cons, beq_false_of_ne hne]
        rw [List.lookup_cons, beq_false_of_ne hne] at h
        exact ih h

theorem lookup_set_of_ne (h : u ≠ t) : (S.set t table').lookup u = S.lookup u := by
  induction S with
  | nil => rfl
  | cons e S ih =>
      rw [set, List.map_cons]
      by_cases he : e.1 = t
      · rw [if_pos he, List.lookup_cons, List.lookup_cons, he, beq_false_of_ne h]
        exact ih
      · rw [if_neg he, List.lookup_cons, List.lookup_cons]
        cases u == e.1 with
        | true => rfl
        | false => exact ih

theorem lookup_concat {found : Table τ κ ι ν} :
    (S ++ [(t, table)]).lookup u = some found ↔
      S.lookup u = some found ∨ S.lookup u = none ∧ u = t ∧ table = found := by
  rw [List.lookup_append]
  cases S.lookup u with
  | some old => simp
  | none =>
      rw [Option.none_or, List.lookup_cons, List.lookup_nil]
      cases hsame : u == t with
      | true => simp [eq_of_beq hsame]
      | false => simp [ne_of_beq_false hsame]

theorem lookup_filter_ne :
    (S.filter fun e => e.1 ≠ t).lookup u = if u = t then none else S.lookup u := by
  induction S with
  | nil => simp
  | cons e S ih =>
      rw [List.filter_cons, List.lookup_cons]
      by_cases he : e.1 = t
      · rw [if_neg (by simpa using he), ih]
        split_ifs with hu
        · rfl
        · rw [beq_false_of_ne (he ▸ hu)]
      · rw [if_pos (by simpa using he), List.lookup_cons]
        cases hsame : u == e.1 with
        | true => rw [if_neg (eq_of_beq hsame ▸ he)]
        | false => exact ih

theorem names_of_lookup (h : S.lookup t = some table) : S.names t = table.names := by
  simp [names, h]

theorem names_set_same (h : S.lookup t = some table) : (S.set t table').names t = table'.names :=
  names_of_lookup (lookup_set_same h)

theorem names_set_of_ne (h : u ≠ t) : (S.set t table').names u = S.names u := by
  rw [names, lookup_set_of_ne h, names]

theorem names_set_of_names_eq (h : S.lookup t = some table) (hnames : table'.names = table.names) :
    (S.set t table').names u = S.names u := by
  rcases eq_or_ne u t with rfl | hne
  · rw [names_set_same h, hnames, names_of_lookup h]
  · exact names_set_of_ne hne

theorem needed_of_lookup (h : S.lookup u = some table) {k : ι × Constraint τ κ ν}
    (hk : k ∈ table.constraints) (htarget : k.2.target = some (t, c)) : S.Needed t c :=
  ⟨_, mem_of_lookup h, k, hk, htarget⟩

/-- A constraint stays grounded if no column goes which it reads or reaches. -/
theorem Grounds.mono {S' : Schema τ κ ι ν} {k : Constraint τ κ ν} (h : S.Grounds t k)
    (hown : ∀ c ∈ k.columns, c ∈ S.names t → c ∈ S'.names t)
    (htarget : ∀ p ∈ k.target, p.2 ∈ S.names p.1 → p.2 ∈ S'.names p.1) : S'.Grounds t k :=
  ⟨fun c hc => hown c hc (h.1 c hc), fun p hp => htarget p hp (h.2 p hp)⟩

end Schema

namespace Valid
variable {S : Schema τ κ ι ν} {rows rows' : Rows τ κ ν} {t : τ} {table table' : Table τ κ ι ν}

/-- A constraint of the schema holds, found by its name. -/
theorem holdsAt [DecidableEq ι] {db : Database τ κ ι ν} (hv : Valid db) (t : τ) (name : ι)
    {k : Constraint τ κ ν} (h : db.schema.constraint t name = some k) : k.Holds db.rows t := by
  obtain ⟨table, ht, hk⟩ := Option.bind_eq_some_iff.mp h
  exact hv.holds t table ht _ (mem_of_lookup hk)

/-- One table is altered, and its rows with it. -/
theorem set (hv : Valid ⟨S, rows⟩) (ht : S.lookup t = some table)
    (hother : ∀ u ≠ t, rows' u = rows u)
    (hkept : ∀ c ∈ table.names, S.Needed t c → c ∈ table'.names)
    (hgrounded : ∀ k ∈ table'.constraints, (S.set t table').Grounds t k.2)
    (habsent : ∀ row ∈ rows' t, ∀ c ∉ table'.names, row c = none)
    (hadmits : ∀ row ∈ rows' t, ∀ column ∈ table'.columns, column.Admits (row column.name))
    (hholds : ∀ k ∈ table'.constraints, k.2.Holds rows' t)
    (hholdsOther : ∀ u ≠ t, ∀ U, S.lookup u = some U → ∀ k ∈ U.constraints, k.2.Holds rows' u) :
    Valid ⟨S.set t table', rows'⟩ := by
  have hlookup {u : τ} {U : Table τ κ ι ν} (hU : (S.set t table').lookup u = some U) :
      u = t ∧ U = table' ∨ u ≠ t ∧ S.lookup u = some U := by
    rcases eq_or_ne u t with rfl | hne
    · exact .inl ⟨rfl, Option.some.inj (hU.symm.trans (Schema.lookup_set_same ht))⟩
    · exact .inr ⟨hne, (Schema.lookup_set_of_ne hne).symm.trans hU⟩
  have hold {u : τ} {row : Row κ ν} (hne : u ≠ t) (hrow : row ∈ rows' u) : row ∈ rows u := by
    rwa [hother u hne] at hrow
  constructor
  · intro u U hU
    rcases hlookup hU with ⟨rfl, rfl⟩ | ⟨hne, hold'⟩
    · exact hgrounded
    · intro k hk
      refine (hv.grounded u U hold' k hk).mono (fun c _ hc => ?_) fun p hp hc => ?_
      · rwa [Schema.names_set_of_ne hne]
      · obtain ⟨w, c⟩ := p
        rcases eq_or_ne w t with rfl | hw
        · rw [Schema.names_set_same ht]
          rw [Schema.names_of_lookup ht] at hc
          exact hkept c hc (Schema.needed_of_lookup hold' hk hp)
        · rwa [Schema.names_set_of_ne hw]
  · intro u hu
    rcases eq_or_ne u t with rfl | hne
    · rw [Schema.lookup_set_same ht] at hu
      cases hu
    · exact (hother u hne).trans (hv.undefined u ((Schema.lookup_set_of_ne hne).symm.trans hu))
  · intro u row hrow c hc
    rcases eq_or_ne u t with rfl | hne
    · rw [Schema.names_set_same ht] at hc
      exact habsent row hrow c hc
    · rw [Schema.names_set_of_ne hne] at hc
      exact hv.absent u row (hold hne hrow) c hc
  · intro u U hU row hrow
    rcases hlookup hU with ⟨rfl, rfl⟩ | ⟨hne, hold'⟩
    · exact hadmits row hrow
    · exact hv.admits u U hold' row (hold hne hrow)
  · intro u U hU
    rcases hlookup hU with ⟨rfl, rfl⟩ | ⟨hne, hold'⟩
    · exact hholds
    · exact hholdsOther u hne U hold'

/-- The rows stay, and the columns keep their names. -/
theorem restated (hv : Valid ⟨S, rows⟩) (ht : S.lookup t = some table)
    (hnames : table'.names = table.names)
    (hadmits : ∀ row ∈ rows t, ∀ column ∈ table'.columns, column.Admits (row column.name))
    (hgrounds : ∀ k ∈ table'.constraints, S.Grounds t k.2)
    (hholds : ∀ k ∈ table'.constraints, k.2.Holds rows t) : Valid ⟨S.set t table', rows⟩ := by
  have hsame (u : τ) : (S.set t table').names u = S.names u :=
    Schema.names_set_of_names_eq ht hnames
  refine hv.set ht (fun _ _ => rfl) (fun c hc _ => hnames ▸ hc) (fun k hk => ?_)
    (fun row hrow c hc => ?_) hadmits hholds fun u _ U hU => hv.holds u U hU
  · exact (hgrounds k hk).mono (fun _ _ hc => hsame t ▸ hc) fun p _ hc => hsame p.1 ▸ hc
  · rw [hnames, ← Schema.names_of_lookup ht] at hc
    exact hv.absent t row hrow c hc

variable [DecidableEq κ] [DecidableEq ι] {s : Statement τ κ ι ν} {S' : Schema τ κ ι ν}

theorem createTable (hv : Valid ⟨S, rows⟩)
    (h : (Statement.createTable t table').alter S = .ok S') : Valid ⟨S', rows.clear t⟩ := by
  simp only [Statement.alter] at h
  split_ifs at h with hdefined hgrounds
  cases h
  have hnew : S.lookup t = none := Option.not_isSome_iff_eq_none.mp hdefined
  have hempty : rows.clear t = rows := by
    have hrows : rows t = [] := hv.undefined t hnew
    rw [Rows.clear, ← hrows, Function.update_eq_self]
  rw [hempty]
  have hnames {u : τ} {c : κ} (hc : c ∈ S.names u) :
      c ∈ Schema.names (S ++ [(t, table')]) u := by
    rw [Schema.names] at hc ⊢
    rw [List.lookup_append]
    cases hS : S.lookup u with
    | none => simp [hS] at hc
    | some V => simpa [hS] using hc
  constructor
  · intro u U hU k hk
    rcases Schema.lookup_concat.mp hU with hold | ⟨_, rfl, rfl⟩
    · exact (hv.grounded u U hold k hk).mono (fun _ _ => hnames) fun _ _ => hnames
    · exact hgrounds k hk
  · intro u hu
    rw [List.lookup_append] at hu
    exact hv.undefined u (Option.or_eq_none_iff.mp hu).1
  · intro u row hrow c hc
    exact hv.absent u row hrow c fun hold => hc (hnames hold)
  · intro u U hU row hrow
    rcases Schema.lookup_concat.mp hU with hold | ⟨hnone, rfl, rfl⟩
    · exact hv.admits u U hold row hrow
    · have hrows : rows u = [] := hv.undefined u hnone
      simp [hrows] at hrow
  · intro u U hU k hk
    rcases Schema.lookup_concat.mp hU with hold | ⟨hnone, rfl, rfl⟩
    · exact hv.holds u U hold k hk
    · have hrows : rows u = [] := hv.undefined u hnone
      cases hkind : k.2 <;> simp [Constraint.Holds, hrows]

theorem dropTable (hv : Valid ⟨S, rows⟩) (h : (Statement.dropTable t).alter S = .ok S') :
    Valid ⟨S', rows.clear t⟩ := by
  simp only [Statement.alter] at h
  split_ifs at h with hneeded hundefined
  cases h
  have hfound {u : τ} {U : Table τ κ ι ν}
      (hU : (S.filter fun e => e.1 ≠ t).lookup u = some U) : u ≠ t ∧ S.lookup u = some U := by
    rw [Schema.lookup_filter_ne] at hU
    split_ifs at hU with hu
    exact ⟨hu, hU⟩
  have htarget {u : τ} {U : Table τ κ ι ν} (hu : u ≠ t) (hU : S.lookup u = some U)
      {k : ι × Constraint τ κ ν} (hk : k ∈ U.constraints) : k.2.target.map Prod.fst ≠ some t :=
    fun hreach => hneeded ⟨_, mem_of_lookup hU, hu, k, hk, hreach⟩
  have hnames {u : τ} (hu : u ≠ t) :
      Schema.names (S.filter fun e => e.1 ≠ t) u = S.names u := by
    rw [Schema.names, Schema.lookup_filter_ne, if_neg hu, Schema.names]
  constructor
  · intro u U hU k hk
    obtain ⟨hu, hold⟩ := hfound hU
    refine (hv.grounded u U hold k hk).mono (fun c _ hc => ?_) fun p hp hc => ?_
    · exact (hnames hu).symm ▸ hc
    · refine (hnames ?_).symm ▸ hc
      rintro rfl
      exact htarget hu hold hk (by rw [hp, Option.map_some])
  · intro u hu
    rcases eq_or_ne u t with rfl | hne
    · exact Rows.clear_same
    · rw [Schema.lookup_filter_ne, if_neg hne] at hu
      exact (Rows.clear_of_ne hne).trans (hv.undefined u hu)
  · intro u row hrow c hc
    rcases eq_or_ne u t with rfl | hne
    · simp at hrow
    · refine hv.absent u row ?_ c (hnames hne ▸ hc)
      simpa [hne] using hrow
  · intro u U hU row hrow
    obtain ⟨hu, hold⟩ := hfound hU
    refine hv.admits u U hold row ?_
    simpa [hu] using hrow
  · intro u U hU k hk
    obtain ⟨hu, hold⟩ := hfound hU
    exact (hv.holds u U hold k hk).clear hu (htarget hu hold hk)

theorem addColumn {column : Column κ ν} {serverDefault : Option ν} (hv : Valid ⟨S, rows⟩)
    (h : (Statement.addColumn t column serverDefault).alter S = .ok S')
    (hfits : ∀ _row ∈ rows t, column.Admits serverDefault) :
    Valid ⟨S', rows.change t column.name fun _ => serverDefault⟩ := by
  simp only [Statement.alter] at h
  split at h
  · cases h
  next table ht =>
  split_ifs at h with hfresh htyped
  cases h
  have hnames : S.names t = table.names := Schema.names_of_lookup ht
  have hkeep {c : κ} (hc : c ∈ table.names) : c ≠ column.name := by
    rintro rfl
    exact hfresh hc
  have hholds {u : τ} {U : Table τ κ ι ν} (hU : S.lookup u = some U) {k : ι × Constraint τ κ ν}
      (hk : k ∈ U.constraints) :
      k.2.Holds (rows.change t column.name fun _ => serverDefault) u := by
    have hgrounds := hv.grounded u U hU k hk
    refine (hv.holds u U hU k hk).change ?_ fun htarget => ?_
    · rintro rfl hread
      exact hfresh (hnames ▸ hgrounds.1 _ hread)
    · exact hfresh (hnames ▸ hgrounds.2 _ htarget)
  have hgrown {u : τ} {c : κ} (hc : c ∈ S.names u) :
      c ∈ (S.set t { table with columns := table.columns ++ [column] }).names u := by
    rcases eq_or_ne u t with rfl | hne
    · rw [hnames] at hc
      rw [Schema.names_set_same ht, Table.names, List.map_append]
      exact List.mem_append_left _ hc
    · rwa [Schema.names_set_of_ne hne]
  refine hv.set ht (fun u hu => Rows.change_of_ne hu) (fun c hc _ => ?_) (fun k hk => ?_)
    (fun row hrow c hc => ?_) (fun row hrow other hother => ?_) (fun k hk => hholds ht hk)
    fun u _ U hU k hk => hholds hU hk
  · rw [Table.names, List.map_append]
    exact List.mem_append_left _ hc
  · exact (hv.grounded t table ht k hk).mono (fun _ _ => hgrown) fun _ _ => hgrown
  · rw [Table.names, List.map_append, List.mem_append, not_or] at hc
    rw [Rows.change_same] at hrow
    obtain ⟨old, hold, rfl⟩ := List.mem_map.mp hrow
    rw [Function.update_of_ne (by simpa using hc.2)]
    exact hv.absent t old hold c (hnames ▸ hc.1)
  · rw [Rows.change_same] at hrow
    obtain ⟨old, hold, rfl⟩ := List.mem_map.mp hrow
    rcases List.mem_append.mp hother with hother | hother
    · rw [Function.update_of_ne (hkeep (List.mem_map_of_mem hother))]
      exact hv.admits t table ht old hold other hother
    · rw [List.mem_singleton.mp hother, Function.update_self]
      exact hfits old hold

theorem dropColumn {c : κ} (hv : Valid ⟨S, rows⟩)
    (h : (Statement.dropColumn t c).alter S = .ok S') :
    Valid ⟨S', rows.change t c fun _ => none⟩ := by
  simp only [Statement.alter] at h
  split at h
  · cases h
  next table ht =>
  split_ifs at h with hmissing hneeded
  cases h
  have hnames : S.names t = table.names := Schema.names_of_lookup ht
  have hunreached {u : τ} {U : Table τ κ ι ν} (hU : S.lookup u = some U)
      {k : ι × Constraint τ κ ν} (hk : k ∈ U.constraints) : k.2.target ≠ some (t, c) :=
    fun htarget => hneeded (Schema.needed_of_lookup hU hk htarget)
  have hleft {a : κ} (ha : a ∈ table.names) (hne : a ≠ c) :
      a ∈ (table.columns.filter fun column => column.name ≠ c).map Column.name := by
    obtain ⟨column, hcolumn, rfl⟩ := List.mem_map.mp ha
    exact List.mem_map_of_mem (List.mem_filter.mpr ⟨hcolumn, by simpa using hne⟩)
  refine hv.set ht (fun u hu => Rows.change_of_ne hu) (fun a ha hreached => ?_) (fun k hk => ?_)
    (fun row hrow a ha => ?_) (fun row hrow column hcolumn => ?_) (fun k hk => ?_)
    fun u hu U hU k hk => (hv.holds u U hU k hk).change (fun hsame => absurd hsame hu)
      (hunreached hU hk)
  · refine hleft ha ?_
    rintro rfl
    exact hneeded hreached
  · obtain ⟨hk', hread⟩ := List.mem_filter.mp hk
    refine (hv.grounded t table ht k hk').mono (fun a ha hold => ?_) fun p hp hold => ?_
    · rw [Schema.names_set_same ht]
      refine hleft (hnames ▸ hold) ?_
      rintro rfl
      simp [ha] at hread
    · obtain ⟨u, a⟩ := p
      rcases eq_or_ne u t with rfl | hu
      · rw [Schema.names_set_same ht]
        refine hleft (hnames ▸ hold) ?_
        rintro rfl
        exact hunreached ht hk' hp
      · rwa [Schema.names_set_of_ne hu]
  · rw [Rows.change_same] at hrow
    obtain ⟨old, hold, rfl⟩ := List.mem_map.mp hrow
    rcases eq_or_ne a c with rfl | hne
    · exact Function.update_self _ _ _
    · rw [Function.update_of_ne hne]
      exact hv.absent t old hold a fun hmem => ha (hleft (hnames ▸ hmem) hne)
  · obtain ⟨hcolumn, hother⟩ := List.mem_filter.mp hcolumn
    rw [Rows.change_same] at hrow
    obtain ⟨old, hold, rfl⟩ := List.mem_map.mp hrow
    rw [Function.update_of_ne (by simpa using hother)]
    exact hv.admits t table ht old hold column hcolumn
  · obtain ⟨hk, hread⟩ := List.mem_filter.mp hk
    exact (hv.holds t table ht k hk).change (fun _ => by simpa using hread) (hunreached ht hk)

theorem addConstraint {name : ι} {k : Constraint τ κ ν} (hv : Valid ⟨S, rows⟩)
    (h : (Statement.addConstraint t name k).alter S = .ok S') (hfits : k.Holds rows t) :
    Valid ⟨S', rows⟩ := by
  simp only [Statement.alter] at h
  split at h
  · cases h
  next table ht =>
  split_ifs at h with hfresh hgrounds
  cases h
  refine hv.restated ht rfl (hv.admits t table ht) (fun k' hk => ?_) fun k' hk => ?_
  · rcases List.mem_append.mp hk with hk | hk
    · exact hv.grounded t table ht k' hk
    · rw [List.mem_singleton.mp hk]
      exact hgrounds
  · rcases List.mem_append.mp hk with hk | hk
    · exact hv.holds t table ht k' hk
    · rw [List.mem_singleton.mp hk]
      exact hfits

theorem dropConstraint {name : ι} (hv : Valid ⟨S, rows⟩)
    (h : (Statement.dropConstraint t name).alter S = .ok S') : Valid ⟨S', rows⟩ := by
  simp only [Statement.alter] at h
  split at h
  · cases h
  next table ht =>
  split_ifs at h with hmissing hneeded
  cases h
  have hmem {k : ι × Constraint τ κ ν} (hk : k ∈ table.constraints.filter fun k => k.1 ≠ name) :
      k ∈ table.constraints := (List.mem_filter.mp hk).1
  exact hv.restated ht rfl (hv.admits t table ht)
    (fun k hk => hv.grounded t table ht k (hmem hk)) fun k hk => hv.holds t table ht k (hmem hk)

theorem alterNullable {c : κ} {nullable : Bool} (hv : Valid ⟨S, rows⟩)
    (h : (Statement.alterNullable t c nullable).alter S = .ok S')
    (hfits : nullable ∨ ∀ row ∈ rows t, (row c).isSome) : Valid ⟨S', rows⟩ := by
  simp only [Statement.alter] at h
  split at h
  · cases h
  next table ht =>
  split_ifs at h with hmissing
  cases h
  refine hv.restated ht (Table.names_alterColumn fun _ => rfl) (fun row hrow column hcolumn => ?_)
    (hv.grounded t table ht) (hv.holds t table ht)
  obtain ⟨old, hold, rfl⟩ := List.mem_map.mp hcolumn
  have hadmits := hv.admits t table ht row hrow old hold
  split_ifs with hname
  · rw [hname] at hadmits ⊢
    cases hvalue : row c with
    | none =>
        rcases hfits with hnullable | hsome
        · exact hnullable
        · simpa [hvalue] using hsome row hrow
    | some v =>
        rw [hvalue] at hadmits
        exact hadmits
  · exact hadmits

theorem alterType {c : κ} {type : ν → Bool} {cast : ν → Option ν} (hv : Valid ⟨S, rows⟩)
    (h : (Statement.alterType t c type cast).alter S = .ok S')
    (hfits : (Statement.alterType t c type cast).Fits S' rows) :
    Valid ⟨S', rows.change t c fun v => v.bind cast⟩ := by
  obtain ⟨hcast, hrechecked⟩ := hfits
  simp only [Statement.alter] at h
  split at h
  · cases h
  next table ht =>
  split_ifs at h with hmissing
  cases h
  set table' := table.alterColumn c fun column => { column with type } with htable'
  have hnames : table'.names = table.names := Table.names_alterColumn fun _ => rfl
  have hsame (u : τ) : (S.set t table').names u = S.names u :=
    Schema.names_set_of_names_eq ht hnames
  have hholds {u : τ} {U V : Table τ κ ι ν} (hU : S.lookup u = some U)
      (hV : (S.set t table').lookup u = some V) {k : ι × Constraint τ κ ν}
      (hk : k ∈ U.constraints) (hkV : k ∈ V.constraints) :
      k.2.Holds (rows.change t c fun v => v.bind cast) u := by
    by_cases hinvolved : (u = t ∧ c ∈ k.2.columns) ∨ k.2.target = some (t, c)
    · exact hrechecked (u, k.2) (List.mem_flatMap.mpr ⟨_, mem_of_lookup hV,
        List.mem_map.mpr ⟨k, List.mem_filter.mpr ⟨hkV, by simpa using hinvolved⟩, rfl⟩⟩)
    · rw [not_or, not_and] at hinvolved
      exact (hv.holds u U hU k hk).change hinvolved.1 hinvolved.2
  refine hv.set ht (fun u hu => Rows.change_of_ne hu) (fun a ha _ => hnames ▸ ha) (fun k hk => ?_)
    (fun row hrow a ha => ?_) (fun row hrow column hcolumn => ?_)
    (fun k hk => hholds ht (Schema.lookup_set_same ht) hk hk) fun u hu U hU k hk =>
      hholds hU ((Schema.lookup_set_of_ne hu).trans hU) hk hk
  · exact (hv.grounded t table ht k hk).mono (fun _ _ hc => hsame t ▸ hc)
      fun p _ hc => hsame p.1 ▸ hc
  · rw [hnames, ← Schema.names_of_lookup ht] at ha
    rw [Rows.change_same] at hrow
    obtain ⟨old, hold, rfl⟩ := List.mem_map.mp hrow
    have hnone := hv.absent t old hold a ha
    rcases eq_or_ne a c with rfl | hne
    · rw [Function.update_self, hnone, Option.bind_none]
    · rw [Function.update_of_ne hne, hnone]
  · rw [Rows.change_same] at hrow
    obtain ⟨old, hold, rfl⟩ := List.mem_map.mp hrow
    obtain ⟨column, hmem, rfl⟩ := List.mem_map.mp hcolumn
    have hadmits := hv.admits t table ht old hold column hmem
    split_ifs with hname
    · rw [hname, Function.update_self]
      rw [hname] at hadmits
      cases hvalue : old c with
      | none =>
          rw [hvalue] at hadmits
          exact hadmits
      | some v =>
          obtain ⟨w, hw, htype⟩ := hcast old hold v hvalue
          rw [Option.bind_some, Option.mem_def.mp hw]
          exact htype
    · rwa [Function.update_of_ne hname]

end Valid

variable [DecidableEq κ] [DecidableEq ι] [DecidableEq ν] {db db' : Database τ κ ι ν}

/-- A statement which is carried out leaves a valid database valid. -/
theorem Valid.apply {s : Statement τ κ ι ν} (hv : Valid db) (h : s.apply db = .ok db') :
    Valid db' := by
  obtain ⟨S', halter, hfits, rfl⟩ := Statement.apply_eq_ok_iff.mp h
  obtain ⟨S, rows⟩ := db
  cases s with
  | createTable t table => exact hv.createTable halter
  | dropTable t => exact hv.dropTable halter
  | addColumn t column serverDefault => exact hv.addColumn halter hfits
  | dropColumn t c => exact hv.dropColumn halter
  | addConstraint t name k => exact hv.addConstraint halter hfits
  | dropConstraint t name => exact hv.dropConstraint halter
  | alterNullable t c nullable => exact hv.alterNullable halter hfits
  | alterType t c type cast => exact hv.alterType halter hfits

theorem Valid.run {ss : List (Statement τ κ ι ν)} (hv : Valid db) (h : run ss db = .ok db') :
    Valid db' := by
  induction ss generalizing db with
  | nil =>
      cases h
      exact hv
  | cons s ss ih =>
      rw [SchemaChanges.run] at h
      cases hs : s.apply db with
      | error e =>
          rw [hs] at h
          cases h
      | ok db₁ =>
          rw [hs] at h
          exact ih (hv.apply hs) h

end

end Vici.SchemaChanges
