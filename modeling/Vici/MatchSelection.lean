import Vici.Models
import Vici.LeastCostSubset

/-!
# The knapsack of the match service

`dpSelect` is the 0/1 knapsack of the service: one row of cells is updated in
place for each candidate, in descending order of the earnings, while a row of
keep bits is recorded; the selection is then rebuilt from the bits alone.

The table is related to the recurrence of `LeastCostSubset` on the candidates
in reverse order, the one in which the back-walk meets them. A cell holds the
least duration of its exact sum over the candidates done so far, a keep bit
says that the recurrence takes the candidate there, and the back-walk is then
the sublist which the recurrence picks.
-/
namespace Vici.MatchSelection
open Models LeastCostSubset

/-- A job eligible for selection, with its earnings and its poster's phone. -/
structure JobCandidate where
  job : Job
  earnings : ℕ
  duration : ℚ
  posterPhone : Option String
  duration_nonneg : 0 ≤ duration
  deriving DecidableEq

abbrev totalEarnings (cs : List JobCandidate) : ℕ := totalWeight JobCandidate.earnings cs
abbrev totalDuration (cs : List JobCandidate) : ℚ := totalCost JobCandidate.duration cs

/-- A table entry `(prev_e, prev_neg_d)`; the bottom element is `float("-inf")`. -/
abbrev Cell := WithBot ℕ × ℚ

def unreachable : Cell := (⊥, 0)

/-- The language's `a > b` on such pairs. -/
def Cell.gt (a b : Cell) : Bool := decide (b.1 < a.1) || (decide (a.1 = b.1) && decide (b.2 < a.2))

def readCell (dp : List Cell) (w : ℕ) : Cell := dp.getD w unreachable
def readBit (bits : List Bool) (w : ℕ) : Bool := bits.getD w false

/-- The row of cells and the keep bits of the candidate being added. -/
structure Row where
  dp : List Cell
  keep : List Bool

/-- One iteration of the inner loop. -/
def relaxAt (c : JobCandidate) (w : ℕ) (r : Row) : Row :=
  let prev := readCell r.dp (w - c.earnings)
  if prev.1 = ⊥ then r
  else
    let candidateVal : Cell := (prev.1 + c.earnings, prev.2 - c.duration)
    if candidateVal.gt (readCell r.dp w) then
      ⟨r.dp.set w candidateVal, r.keep.set w true⟩
    else r

/-- The inner loop over the `k` cells from `e + k - 1` down to `e`. -/
def relaxDown (c : JobCandidate) : ℕ → Row → Row
  | 0, r => r
  | k + 1, r => relaxDown c k (relaxAt c (c.earnings + k) r)

/-- The cells, and the keep rows with the latest candidate first. -/
structure Table where
  dp : List Cell
  keep : List (JobCandidate × List Bool)

def Table.initial (capacity : ℕ) : Table :=
  ⟨(List.replicate (capacity + 1) unreachable).set 0 (0, 0), []⟩

/-- One iteration of the outer loop; the inner range is empty above the capacity. -/
def Table.add (capacity : ℕ) (t : Table) (c : JobCandidate) : Table :=
  let r := relaxDown c (capacity + 1 - c.earnings) ⟨t.dp, List.replicate (capacity + 1) false⟩
  ⟨r.dp, (c, r.keep) :: t.keep⟩

def fillTable (capacity : ℕ) (candidates : List JobCandidate) : Table :=
  candidates.foldl (Table.add capacity) (Table.initial capacity)

/-- The reachable cell with the greatest entry, the first one of several. -/
def bestW (capacity : ℕ) (dp : List Cell) : ℕ :=
  (((List.range (capacity + 1)).filter fun w => (readCell dp w).1 ≠ ⊥).argmax
    fun w => toLex (readCell dp w)).getD 0

/-- The back-walk; a weight below zero would end it. -/
def walkBack : List (JobCandidate × List Bool) → ℕ → List JobCandidate
  | [], _ => []
  | (c, bits) :: older, w =>
      if readBit bits w then
        c :: if w < c.earnings then [] else walkBack older (w - c.earnings)
      else walkBack older w

def maxEarning (candidates : List JobCandidate) : ℕ :=
  (candidates.map JobCandidate.earnings).foldr max 0

def capacity (candidates : List JobCandidate) (target : ℕ) : ℕ :=
  min (totalEarnings candidates) (target + maxEarning candidates)

/-- `MatchService._dp_select` -/
def dpSelect (candidates : List JobCandidate) (target : ℕ) : List JobCandidate :=
  if candidates.isEmpty then []
  else
    let cap := capacity candidates target
    if cap = 0 then []
    else
      let t := fillTable cap candidates
      walkBack t.keep (bestW cap t.dp)

/-- The entry which stands for the least duration of the sum `w`. -/
def cellOf (w : ℕ) : Option ℚ → Cell
  | none => unreachable
  | some d => (w, -d)

abbrev leastDuration (done : List JobCandidate) (w : ℕ) : Option ℚ :=
  leastCost JobCandidate.earnings JobCandidate.duration done w

theorem readCell_set (dp : List Cell) (i w : ℕ) (v : Cell) (hi : i < dp.length) :
    readCell (dp.set i v) w = if i = w then v else readCell dp w := by
  unfold readCell
  rw [List.getD_eq_getElem?_getD, List.getD_eq_getElem?_getD, List.getElem?_set]
  split_ifs with h <;> simp_all

theorem readBit_set (bits : List Bool) (i w : ℕ) (hi : i < bits.length) :
    readBit (bits.set i true) w = if i = w then true else readBit bits w := by
  unfold readBit
  rw [List.getD_eq_getElem?_getD, List.getD_eq_getElem?_getD, List.getElem?_set]
  split_ifs with h <;> simp_all

theorem readBit_replicate (n w : ℕ) : readBit (List.replicate n false) w = false := by
  unfold readBit
  rw [List.getD_eq_getElem?_getD, List.getElem?_replicate]
  split_ifs <;> rfl

theorem cellOf_fst_eq_bot {w : ℕ} {d : Option ℚ} : (cellOf w d).1 = ⊥ ↔ d = none := by
  cases d <;> simp [cellOf, unreachable]

/-- Comparing entries of one cell is comparing durations. -/
theorem gt_cellOf (w : ℕ) (old : Option ℚ) (d : ℚ) :
    Cell.gt (w, -d) (cellOf w old) = improves old (some d) := by
  cases old with
  | none => simp [Cell.gt, cellOf, unreachable, improves]
  | some b => simp [Cell.gt, cellOf, improves]

/-- The step of the recurrence, as the inner loop takes it at one cell. -/
def relaxed (c : JobCandidate) (old : ℕ → Option ℚ) (w : ℕ) : Bool :=
  improves (old w) (costWith JobCandidate.earnings JobCandidate.duration old c w)

def relaxedRow (c : JobCandidate) (old : ℕ → Option ℚ) (w : ℕ) : Option ℚ :=
  if relaxed c old w then costWith JobCandidate.earnings JobCandidate.duration old c w else old w

theorem leastDuration_cons (c : JobCandidate) (done : List JobCandidate) :
    leastDuration (c :: done) = relaxedRow c (leastDuration done) := rfl

theorem relaxed_of_lt {c : JobCandidate} {old : ℕ → Option ℚ} {w : ℕ} (hw : w < c.earnings) :
    relaxed c old w = false := by
  simp [relaxed, costWith, improves, Nat.not_le.mpr hw]

theorem relaxAt_eq (c : JobCandidate) {w : ℕ} (r : Row) (old : ℕ → Option ℚ)
    (hw : c.earnings ≤ w)
    (hprev : readCell r.dp (w - c.earnings) = cellOf (w - c.earnings) (old (w - c.earnings)))
    (hcell : readCell r.dp w = cellOf w (old w)) :
    relaxAt c w r =
      if relaxed c old w then
        ⟨r.dp.set w (cellOf w (relaxedRow c old w)), r.keep.set w true⟩
      else r := by
  unfold relaxAt relaxedRow relaxed
  rw [hprev, hcell]
  cases hold : old (w - c.earnings) with
  | none => simp [cellOf, unreachable, costWith, hold, improves]
  | some d =>
      have hwith : costWith JobCandidate.earnings JobCandidate.duration old c w =
          some (c.duration + d) := by simp [costWith, hw, hold]
      have hval : ((cellOf (w - c.earnings) (some d)).1 + (c.earnings : WithBot ℕ),
          (cellOf (w - c.earnings) (some d)).2 - c.duration) =
            ((w : WithBot ℕ), -(c.duration + d)) := by
        simp only [cellOf, Prod.mk.injEq]
        refine ⟨?_, by ring⟩
        rw [← Nat.cast_add, Nat.sub_add_cancel hw]
      simp only [hval, hwith, gt_cellOf, cellOf_fst_eq_bot, reduceCtorEq, if_false]
      split_ifs <;> rfl

/-- The row before the inner loop reaches the cells below `bound`. -/
structure Row.Reads (r : Row) (cap bound : ℕ) (old : ℕ → Option ℚ) : Prop where
  dp_length : r.dp.length = cap + 1
  keep_length : r.keep.length = cap + 1
  cells : ∀ w < bound, readCell r.dp w = cellOf w (old w)
  bits : ∀ w < bound, readBit r.keep w = false

/-- The row at and above `bound`, where the loop is done. -/
structure Row.Written (r : Row) (cap bound : ℕ) (c : JobCandidate) (old : ℕ → Option ℚ) :
    Prop where
  cells : ∀ w, bound ≤ w → w ≤ cap → readCell r.dp w = cellOf w (relaxedRow c old w)
  bits : ∀ w, bound ≤ w → w ≤ cap → readBit r.keep w = relaxed c old w

/-- One iteration moves the boundary down by one cell. -/
theorem relaxAt_spec {c : JobCandidate} {cap w : ℕ} {old : ℕ → Option ℚ} {r : Row}
    (hw : c.earnings ≤ w) (hcap : w ≤ cap) (hr : r.Reads cap (w + 1) old)
    (hd : r.Written cap (w + 1) c old) :
    (relaxAt c w r).Reads cap w old ∧ (relaxAt c w r).Written cap w c old := by
  rw [relaxAt_eq c r old hw (hr.cells _ (by omega)) (hr.cells _ (by omega))]
  have hdp : w < r.dp.length := by rw [hr.dp_length]; omega
  have hkeep : w < r.keep.length := by rw [hr.keep_length]; omega
  split_ifs with h
  · refine ⟨⟨by simp [hr.dp_length], by simp [hr.keep_length], ?_, ?_⟩, ⟨?_, ?_⟩⟩
    · intro v hv
      rw [readCell_set _ _ _ _ hdp, if_neg (by omega)]
      exact hr.cells v (by omega)
    · intro v hv
      rw [readBit_set _ _ _ hkeep, if_neg (by omega)]
      exact hr.bits v (by omega)
    · intro v hv hvcap
      rw [readCell_set _ _ _ _ hdp]
      split_ifs with hwv
      · rw [hwv]
      · exact hd.cells v (by omega) hvcap
    · intro v hv hvcap
      rw [readBit_set _ _ _ hkeep]
      split_ifs with hwv
      · rw [← hwv, h]
      · exact hd.bits v (by omega) hvcap
  · refine ⟨⟨hr.dp_length, hr.keep_length, fun v hv => hr.cells v (by omega),
      fun v hv => hr.bits v (by omega)⟩, ⟨?_, ?_⟩⟩
    · intro v hv hvcap
      rcases hv.eq_or_lt with rfl | hv
      · rw [relaxedRow, if_neg h]
        exact hr.cells w (by omega)
      · exact hd.cells v hv hvcap
    · intro v hv hvcap
      rcases hv.eq_or_lt with rfl | hv
      · rw [hr.bits w (by omega)]
        exact (Bool.not_eq_true _ ▸ h).symm
      · exact hd.bits v hv hvcap

/-- Descending order reads only cells which the loop has not touched: in the
end every cell is the one of the recurrence, and its bit tells which branch. -/
theorem relaxDown_spec {c : JobCandidate} {cap k : ℕ} {old : ℕ → Option ℚ} {r : Row}
    (hk : c.earnings + k ≤ cap + 1) (hr : r.Reads cap (c.earnings + k) old)
    (hd : r.Written cap (c.earnings + k) c old) :
    (relaxDown c k r).dp.length = cap + 1 ∧ (relaxDown c k r).Written cap 0 c old := by
  induction k generalizing r with
  | zero =>
      refine ⟨hr.dp_length, ⟨fun w _ hw => ?_, fun w _ hw => ?_⟩⟩
      · by_cases he : w < c.earnings
        · rw [relaxedRow, relaxed_of_lt he]
          exact hr.cells w he
        · exact hd.cells w (by omega) hw
      · by_cases he : w < c.earnings
        · rw [relaxed_of_lt he]
          exact hr.bits w he
        · exact hd.bits w (by omega) hw
  | succ k ih =>
      obtain ⟨hr', hd'⟩ := relaxAt_spec (Nat.le_add_right c.earnings k) (by omega) hr hd
      exact ih (by omega) hr' hd'

/-- Each keep row tells where the recurrence takes its candidate. -/
inductive Keeps (cap : ℕ) : List JobCandidate → List (JobCandidate × List Bool) → Prop
  | nil : Keeps cap [] []
  | cons {c : JobCandidate} {bits : List Bool} {done : List JobCandidate}
      {keep : List (JobCandidate × List Bool)} :
      (∀ w ≤ cap, readBit bits w = relaxed c (leastDuration done) w) → Keeps cap done keep →
      Keeps cap (c :: done) ((c, bits) :: keep)

/-- The table after the candidates `done`, the latest one first. -/
structure Table.Holds (t : Table) (cap : ℕ) (done : List JobCandidate) : Prop where
  dp_length : t.dp.length = cap + 1
  cells : ∀ w ≤ cap, readCell t.dp w = cellOf w (leastDuration done w)
  keeps : Keeps cap done t.keep

theorem Table.holds_initial (cap : ℕ) : (Table.initial cap).Holds cap [] := by
  refine ⟨by simp [Table.initial], fun w hw => ?_, .nil⟩
  rw [Table.initial, readCell_set _ _ _ _ (by simp), leastDuration, leastCost]
  rcases Nat.eq_zero_or_pos w with rfl | hpos
  · simp [cellOf]
  · simp [readCell, List.getD_eq_getElem?_getD, cellOf, hpos.ne, hpos.ne',
      Nat.lt_succ_of_le hw]

theorem Table.Holds.add {t : Table} {cap : ℕ} {done : List JobCandidate} (h : t.Holds cap done)
    (c : JobCandidate) : (t.add cap c).Holds cap (c :: done) := by
  let r : Row := ⟨t.dp, List.replicate (cap + 1) false⟩
  have hreads : ∀ bound ≤ cap + 1, r.Reads cap bound (leastDuration done) := fun bound hb =>
    ⟨h.dp_length, by simp [r], fun w hw => h.cells w (by omega),
      fun w _ => readBit_replicate _ w⟩
  by_cases he : c.earnings ≤ cap + 1
  · have hsum : c.earnings + (cap + 1 - c.earnings) = cap + 1 := by omega
    obtain ⟨hlen, hw⟩ := relaxDown_spec hsum.le (hreads _ hsum.le)
      ⟨fun w hw hcap => by omega, fun w hw hcap => by omega⟩
    exact ⟨hlen, fun w hcap => hw.cells w (Nat.zero_le w) hcap,
      .cons (fun w hcap => hw.bits w (Nat.zero_le w) hcap) h.keeps⟩
  · -- A candidate above the capacity leaves the row as it is.
    have hadd : t.add cap c = ⟨t.dp, (c, List.replicate (cap + 1) false) :: t.keep⟩ := by
      simp [Table.add, show cap + 1 - c.earnings = 0 by omega, relaxDown]
    rw [hadd]
    refine ⟨h.dp_length, fun w hw => ?_, .cons (fun w hw => ?_) h.keeps⟩
    · rw [leastDuration_cons, relaxedRow, relaxed_of_lt (by omega)]
      exact h.cells w hw
    · rw [relaxed_of_lt (by omega), readBit_replicate]

/-- The loop invariant of the outer loop, at its end. -/
theorem holds_fillTable (cap : ℕ) (candidates : List JobCandidate) :
    (fillTable cap candidates).Holds cap candidates.reverse := by
  induction candidates using List.reverseRecOn with
  | nil => exact Table.holds_initial cap
  | append_singleton cs c ih =>
      rw [fillTable, List.foldl_append, List.reverse_append]
      exact ih.add c

/-- The bits of overwritten rows suffice: the walk retraces the recurrence. -/
theorem walkBack_eq_pick {cap : ℕ} {done : List JobCandidate}
    {keep : List (JobCandidate × List Bool)} (h : Keeps cap done keep) {w : ℕ} (hw : w ≤ cap) :
    walkBack keep w = pick JobCandidate.earnings JobCandidate.duration done w := by
  induction h generalizing w with
  | nil => rfl
  | @cons c bits done keep hbits _ ih =>
      have ht : takes JobCandidate.earnings JobCandidate.duration c done w =
          readBit bits w := (hbits w hw).symm
      rw [walkBack, pick, ht]
      split_ifs with hbit hlt
      · exact absurd (exists_of_takes (ht.trans hbit)).1 (Nat.not_le.mpr hlt)
      · rw [ih (by omega)]
      · exact ih hw

/-- The chosen cell is the greatest reachable sum within the capacity. -/
theorem isGreatest_bestW {t : Table} {cap : ℕ} {done : List JobCandidate}
    (h : t.Holds cap done) :
    IsGreatest {w | w ≤ cap ∧ (leastDuration done w).isSome} (bestW cap t.dp) := by
  have hmem : ∀ {w}, w ∈ (List.range (cap + 1)).filter (fun w => (readCell t.dp w).1 ≠ ⊥) ↔
      w ≤ cap ∧ (leastDuration done w).isSome := by
    intro w
    rw [List.mem_filter, List.mem_range, Nat.lt_succ_iff]
    apply and_congr_right
    intro hw
    rw [h.cells w hw, decide_eq_true_eq, ne_eq, cellOf_fst_eq_bot, Option.isSome_iff_ne_none]
  have hzero : (leastDuration done 0).isSome := by
    rw [leastDuration, (pick_zero JobCandidate.earnings fun c _ => c.duration_nonneg).1]
    rfl
  obtain ⟨w, hw⟩ : ∃ w, ((List.range (cap + 1)).filter
      (fun w => (readCell t.dp w).1 ≠ ⊥)).argmax (fun w => toLex (readCell t.dp w)) = some w := by
    rw [← Option.isSome_iff_exists, Option.isSome_iff_ne_none, ne_eq, List.argmax_eq_none]
    exact List.ne_nil_of_mem (hmem.mpr ⟨Nat.zero_le cap, hzero⟩)
  have hbest : bestW cap t.dp = w := by rw [bestW, hw]; rfl
  rw [hbest]
  refine ⟨hmem.mp (List.argmax_mem hw), fun v hv => ?_⟩
  have hle := List.le_of_mem_argmax (hmem.mpr hv) hw
  -- The first component of a reachable entry is its own index.
  have hfst : ∀ {u}, u ≤ cap → (leastDuration done u).isSome → (readCell t.dp u).1 = u := by
    intro u hu hsome
    obtain ⟨d, hd⟩ := Option.isSome_iff_exists.mp hsome
    rw [h.cells u hu, hd]
    rfl
  have hw' := hmem.mp (List.argmax_mem hw)
  have := Prod.Lex.monotone_fst _ _ hle
  rw [ofLex_toLex, ofLex_toLex, hfst hv.1 hv.2, hfst hw'.1 hw'.2] at this
  exact_mod_cast this

/-- The sums of sub-collections which fit under the capacity. -/
def sumsWithin (candidates : List JobCandidate) (target : ℕ) : Set ℕ :=
  {s | s ≤ capacity candidates target ∧ ∃ S, S.Sublist candidates ∧ totalEarnings S = s}

theorem isSome_leastDuration_reverse {candidates : List JobCandidate} {w : ℕ} :
    (leastDuration candidates.reverse w).isSome ↔
      ∃ S, S.Sublist candidates ∧ totalEarnings S = w := by
  rw [leastDuration, isSome_leastCost_iff]
  constructor
  · rintro ⟨S, hS, rfl⟩
    exact ⟨S.reverse, by simpa using hS.reverse, totalWeight_reverse _ S⟩
  · rintro ⟨S, hS, rfl⟩
    exact ⟨S.reverse, hS.reverse, totalWeight_reverse _ S⟩

theorem sumsWithin_eq (candidates : List JobCandidate) (target : ℕ) :
    sumsWithin candidates target = {w | w ≤ capacity candidates target ∧
      (leastDuration candidates.reverse w).isSome} := by
  simp only [sumsWithin, isSome_leastDuration_reverse]

/-- The selection is the one of the recurrence at the greatest sum within the capacity. -/
theorem dpSelect_eq_pick (candidates : List JobCandidate) (target : ℕ) :
    ∃ w, IsGreatest (sumsWithin candidates target) w ∧ dpSelect candidates target =
      pick JobCandidate.earnings JobCandidate.duration candidates.reverse w := by
  rw [sumsWithin_eq]
  by_cases hcap : capacity candidates target = 0
  · obtain ⟨hleast, hpick⟩ :=
      pick_zero JobCandidate.earnings fun (c : JobCandidate) (_ : c ∈ candidates.reverse) =>
        c.duration_nonneg
    refine ⟨0, ⟨⟨Nat.zero_le _, by rw [leastDuration, hleast]; rfl⟩, fun w hw => ?_⟩, ?_⟩
    · exact hcap ▸ hw.1
    · rw [hpick]
      simp [dpSelect, hcap]
  · have hne : candidates.isEmpty = false := by
      cases candidates with
      | nil => simp [capacity] at hcap
      | cons c cs => rfl
    have ht := holds_fillTable (capacity candidates target) candidates
    have hbest := isGreatest_bestW ht
    refine ⟨_, hbest, ?_⟩
    simp only [dpSelect, hne, hcap, if_false, Bool.false_eq_true]
    exact walkBack_eq_pick ht.keeps hbest.1.1

/-- Everything the table guarantees about the selection. -/
theorem dpSelect_spec (candidates : List JobCandidate) (target : ℕ) :
    (dpSelect candidates target).reverse.Sublist candidates ∧
      IsGreatest (sumsWithin candidates target) (totalEarnings (dpSelect candidates target)) ∧
      ∀ S, S.Sublist candidates →
        totalEarnings S = totalEarnings (dpSelect candidates target) →
        totalDuration (dpSelect candidates target) ≤ totalDuration S := by
  obtain ⟨w, hw, heq⟩ := dpSelect_eq_pick candidates target
  obtain ⟨d, hd⟩ := Option.isSome_iff_exists.mp
    (isSome_leastDuration_reverse.mpr hw.1.2)
  obtain ⟨hsub, hsum, _⟩ := pick_spec hd
  refine ⟨by simpa [heq] using hsub.reverse, by rwa [heq, totalEarnings, hsum],
    fun S hS hSw => ?_⟩
  have hle := totalCost_pick_le JobCandidate.earnings JobCandidate.duration hS.reverse
  rw [heq, totalEarnings, totalEarnings, hsum] at hSw
  rwa [totalWeight_reverse, hSw, totalCost_reverse, ← heq] at hle

/-- Whatever is selected pays. -/
theorem earnings_pos_of_mem_dpSelect {candidates : List JobCandidate} {target : ℕ}
    {c : JobCandidate} (hc : c ∈ dpSelect candidates target) : 0 < c.earnings := by
  obtain ⟨w, _, heq⟩ := dpSelect_eq_pick candidates target
  rw [heq] at hc
  exact weight_pos_of_mem_pick (fun c _ => c.duration_nonneg) hc

theorem le_maxEarning {candidates : List JobCandidate} {c : JobCandidate}
    (hc : c ∈ candidates) : c.earnings ≤ maxEarning candidates :=
  List.le_max_of_le' 0 (List.mem_map_of_mem hc) le_rfl

/-- A goal which is met at all is met within the capacity, and no later. -/
theorem exists_within_capacity {candidates S : List JobCandidate} {target : ℕ}
    (hS : S.Sublist candidates) (hgoal : target ≤ totalEarnings S) :
    ∃ T, T.Sublist candidates ∧ target ≤ totalEarnings T ∧
      totalEarnings T ≤ capacity candidates target ∧ totalDuration T ≤ totalDuration S := by
  obtain ⟨T, hT, hlow, hhigh⟩ := exists_trimmed JobCandidate.earnings hgoal
    fun c hc => le_maxEarning (hS.subset hc)
  exact ⟨T, hT.trans hS, hlow,
    le_min (totalWeight_sublist JobCandidate.earnings (hT.trans hS)) hhigh,
    totalCost_sublist hT fun c _ => c.duration_nonneg⟩

/-- A goal which is met at all is met by the selection. -/
theorem target_le_dpSelect {candidates S : List JobCandidate} {target : ℕ}
    (hS : S.Sublist candidates) (hgoal : target ≤ totalEarnings S) :
    target ≤ totalEarnings (dpSelect candidates target) := by
  obtain ⟨T, hT, hlow, hcap, _⟩ := exists_within_capacity hS hgoal
  exact hlow.trans ((dpSelect_spec candidates target).2.1.2 ⟨hcap, T, hT, rfl⟩)

/-- When everything fits, every paying candidate is selected and no other one. -/
theorem dpSelect_of_capacity_eq {candidates : List JobCandidate} {target : ℕ}
    (h : capacity candidates target = totalEarnings candidates) :
    dpSelect candidates target = (candidates.filter fun c => 0 < c.earnings).reverse := by
  obtain ⟨w, hw, heq⟩ := dpSelect_eq_pick candidates target
  have hall : IsGreatest (sumsWithin candidates target) (totalEarnings candidates) :=
    ⟨⟨h.ge, candidates, .refl _, rfl⟩, fun s hs => hs.1.trans h.le⟩
  rw [heq, hw.unique hall, ← List.filter_reverse, totalEarnings, ← totalWeight_reverse]
  exact pick_totalWeight JobCandidate.earnings fun c _ => c.duration_nonneg

/-- The exact optimum: distinct positions, the greatest sum within the capacity,
and the least duration among the sub-collections of that sum. -/
theorem dpSelect_exact (candidates : List JobCandidate) (target : ℕ) :
    (∃ positions : List (Fin candidates.length), positions.Nodup ∧
        dpSelect candidates target = positions.map candidates.get) ∧
      IsGreatest
        {s | s ≤ min (totalEarnings candidates) (target + maxEarning candidates) ∧
          ∃ S, S.Sublist candidates ∧ totalEarnings S = s}
        (totalEarnings (dpSelect candidates target)) ∧
      ∀ S, S.Sublist candidates →
        totalEarnings S = totalEarnings (dpSelect candidates target) →
        totalDuration (dpSelect candidates target) ≤ totalDuration S := by
  obtain ⟨hsub, hgreatest, hleast⟩ := dpSelect_spec candidates target
  obtain ⟨positions, hnodup, heq⟩ := exists_positions hsub
  refine ⟨⟨positions.reverse, List.nodup_reverse.mpr hnodup, ?_⟩, hgreatest, hleast⟩
  rw [List.map_reverse, ← heq, List.reverse_reverse]

/-- The selection meets a goal which can be met, and no combination meeting it is faster. -/
def LeastTime (candidates : List JobCandidate) (target : ℕ) (selected : List JobCandidate) :
    Prop :=
  (∃ S, S.Sublist candidates ∧ target ≤ totalEarnings S) →
    target ≤ totalEarnings selected ∧
      ∀ S, S.Sublist candidates → target ≤ totalEarnings S →
        totalDuration selected ≤ totalDuration S

/-- Some combination with the greatest sum within the capacity is as fast as
every combination that meets the goal. -/
def TopSumIsFastest (candidates : List JobCandidate) (target : ℕ) : Prop :=
  ∀ S, S.Sublist candidates → target ≤ totalEarnings S →
    ∃ T, T.Sublist candidates ∧ IsGreatest (sumsWithin candidates target) (totalEarnings T) ∧
      totalDuration T ≤ totalDuration S

/-- The table maximises earnings first: the time is least exactly when
earning the most that fits takes no longer than meeting the goal. -/
theorem leastTime_dpSelect_iff (candidates : List JobCandidate) (target : ℕ) :
    LeastTime candidates target (dpSelect candidates target) ↔
      TopSumIsFastest candidates target := by
  obtain ⟨hsub, hgreatest, hleast⟩ := dpSelect_spec candidates target
  constructor
  · intro h S hS hgoal
    refine ⟨(dpSelect candidates target).reverse, hsub, ?_, ?_⟩
    · rwa [totalEarnings, totalWeight_reverse]
    · rw [totalDuration, totalCost_reverse]
      exact (h ⟨S, hS, hgoal⟩).2 S hS hgoal
  · rintro h ⟨S₀, hS₀, hgoal₀⟩
    refine ⟨target_le_dpSelect hS₀ hgoal₀, fun S hS hgoal => ?_⟩
    obtain ⟨T, hT, htop, hle⟩ := h S hS hgoal
    exact (hleast T hT (htop.unique hgreatest)).trans hle

/-- A flat job of one cent which takes an hour. -/
def centAnHour (id : ℕ) : JobCandidate where
  job := ⟨id, id, none, none, some 1, .flat, some 1, none, none, .available, by simp, by simp⟩
  earnings := 1
  duration := 1
  posterPhone := none
  duration_nonneg := by norm_num

/-- Either job meets a goal of one cent in an hour; both are selected. -/
theorem dpSelect_two_hours_for_one_cent :
    ¬LeastTime [centAnHour 1, centAnHour 2] 1 (dpSelect [centAnHour 1, centAnHour 2] 1) := by
  intro h
  have hone : [centAnHour 1].Sublist [centAnHour 1, centAnHour 2] := by simp
  have hle := (h ⟨_, hone, by decide⟩).2 _ hone (by decide)
  have hboth : totalDuration (dpSelect [centAnHour 1, centAnHour 2] 1) = 2 := by decide +kernel
  rw [hboth] at hle
  norm_num [centAnHour] at hle

/-- The durations stored in the reachable cells from the target up. -/
def storedDurations (cap target : ℕ) (dp : List Cell) : Set ℚ :=
  {d | ∃ w, target ≤ w ∧ w ≤ cap ∧ (readCell dp w).1 ≠ ⊥ ∧ d = -(readCell dp w).2}

/-- What the sub-collections that meet the goal take, however much they earn. -/
def goalDurations (candidates : List JobCandidate) (target : ℕ) : Set ℚ :=
  {d | ∃ S, S.Sublist candidates ∧ target ≤ totalEarnings S ∧ d = totalDuration S}

/-- A stored duration is the one of an actual sub-collection of that sum. -/
theorem storedDurations_subset (candidates : List JobCandidate) (cap target : ℕ) :
    storedDurations cap target (fillTable cap candidates).dp ⊆ goalDurations candidates target := by
  intro d hd
  obtain ⟨w, hlow, hcap, hreach, rfl⟩ := hd
  rw [(holds_fillTable cap candidates).cells w hcap] at hreach ⊢
  obtain ⟨k, hk⟩ := Option.ne_none_iff_exists'.mp (mt cellOf_fst_eq_bot.mpr hreach)
  obtain ⟨hsub, hsum, hcost⟩ := pick_spec hk
  refine ⟨_, by simpa using hsub.reverse, ?_, ?_⟩
  · rw [totalEarnings, totalWeight_reverse, hsum]
    exact hlow
  · rw [totalDuration, totalCost_reverse, hcost, hk]
    simp [cellOf]

/-- A sub-collection under the cap is matched in the cell of its sum. -/
theorem exists_storedDuration_le {candidates T : List JobCandidate} {cap target : ℕ}
    (hT : T.Sublist candidates) (hgoal : target ≤ totalEarnings T) (hcap : totalEarnings T ≤ cap) :
    ∃ d ∈ storedDurations cap target (fillTable cap candidates).dp, d ≤ totalDuration T := by
  obtain ⟨k, hk, hle⟩ := leastCost_le JobCandidate.earnings JobCandidate.duration hT.reverse
  rw [totalWeight_reverse] at hk
  rw [totalCost_reverse] at hle
  have hcell := (holds_fillTable cap candidates).cells _ hcap
  rw [leastDuration, hk] at hcell
  exact ⟨k, ⟨totalEarnings T, hgoal, hcap, by rw [hcell]; simp [cellOf], by
    rw [hcell]; simp [cellOf]⟩, hle⟩

/-- The table stores at most one duration a cell. -/
theorem finite_storedDurations (cap target : ℕ) (dp : List Cell) :
    (storedDurations cap target dp).Finite := by
  apply ((Set.finite_Iic cap).image fun w => -(readCell dp w).2).subset
  intro d hd
  obtain ⟨w, _, hcap, _, rfl⟩ := hd
  exact ⟨w, hcap, rfl⟩

/-- The cap loses no fast combination: when the goal can be met, the least
stored duration is the least of all combinations that meet it. -/
theorem isLeast_storedDurations (candidates : List JobCandidate) (target : ℕ)
    (hgoal : target ≤ totalEarnings candidates) :
    ∃ d, IsLeast (storedDurations (capacity candidates target) target
          (fillTable (capacity candidates target) candidates).dp) d ∧
      IsLeast (goalDurations candidates target) d := by
  have hbelow : ∀ e ∈ goalDurations candidates target,
      ∃ d ∈ storedDurations (capacity candidates target) target
        (fillTable (capacity candidates target) candidates).dp, d ≤ e := by
    intro e he
    obtain ⟨S, hS, hmeets, rfl⟩ := he
    obtain ⟨T, hT, hlow, hcap, hfast⟩ := exists_within_capacity hS hmeets
    obtain ⟨d, hd, hle⟩ := exists_storedDuration_le hT hlow hcap
    exact ⟨d, hd, hle.trans hfast⟩
  obtain ⟨d₀, hd₀, _⟩ := hbelow _ ⟨candidates, .refl _, hgoal, rfl⟩
  obtain ⟨d, hd, hleast⟩ := Set.exists_min_image _ id (finite_storedDurations _ _ _) ⟨d₀, hd₀⟩
  refine ⟨d, ⟨hd, hleast⟩, storedDurations_subset _ _ _ hd, ?_⟩
  intro e he
  obtain ⟨c, hc, hle⟩ := hbelow e he
  exact (hleast c hc).trans hle

/-- The table of two jobs of a cent an hour knows the fast way to a goal of one cent. -/
theorem isLeast_storedDurations_two :
    1 ≤ totalEarnings [centAnHour 1, centAnHour 2] ∧
      ∃ d, IsLeast (storedDurations (capacity [centAnHour 1, centAnHour 2] 1) 1
            (fillTable (capacity [centAnHour 1, centAnHour 2] 1)
              [centAnHour 1, centAnHour 2]).dp) d ∧
        IsLeast (goalDurations [centAnHour 1, centAnHour 2] 1) d :=
  ⟨by decide, isLeast_storedDurations _ 1 (by decide)⟩

end Vici.MatchSelection
