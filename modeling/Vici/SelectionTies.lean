import Vici.MatchSelection

/-!
# Which of several equal selections is returned

The back-walk of the knapsack appends `candidates[i]` for falling positions
`i`. Positions rather than candidates are followed here, since a list may hold
equal candidates and only their rank tells them apart.

The update of a cell wants a strictly better entry, so the keep bit of a late
candidate is set only where nothing earlier does as well. On the positions this
is the tie rule of `LeastCostSubset`: the selection avoids late positions.
-/
namespace Vici.SelectionTies
open LeastCostSubset MatchSelection

/-- The back-walk, as the positions which it appends. -/
def walkPositions : List (JobCandidate × List Bool) → ℕ → List ℕ
  | [], _ => []
  | (c, bits) :: older, w =>
      if readBit bits w then
        older.length :: if w < c.earnings then [] else walkPositions older (w - c.earnings)
      else walkPositions older w

/-- The positions `i` of the candidates that `_dp_select` appends, in its order. -/
def selectedPositions (candidates : List JobCandidate) (target : ℕ) : List ℕ :=
  if candidates.isEmpty then []
  else
    let cap := capacity candidates target
    if cap = 0 then []
    else
      let t := fillTable cap candidates
      walkPositions t.keep (bestW cap t.dp)

def earningsAt (candidates : List JobCandidate) (i : ℕ) : ℕ :=
  (candidates[i]?).elim 0 JobCandidate.earnings

def durationAt (candidates : List JobCandidate) (i : ℕ) : ℚ :=
  (candidates[i]?).elim 0 JobCandidate.duration

/-- What the candidates at a set of positions earn, and how long they take. -/
def positionEarnings (candidates : List JobCandidate) (P : Finset ℕ) : ℕ :=
  ∑ i ∈ P, earningsAt candidates i

def positionDuration (candidates : List JobCandidate) (P : Finset ℕ) : ℚ :=
  ∑ i ∈ P, durationAt candidates i

/-- Of all position sets with the totals of `P`, each other one has the highest
position at which the two differ. -/
def AvoidsLate (candidates : List JobCandidate) (P : Finset ℕ) : Prop :=
  ∀ Q ⊆ Finset.range candidates.length,
    positionEarnings candidates Q = positionEarnings candidates P →
    positionDuration candidates Q = positionDuration candidates P → Q ≠ P →
    ∃ i ∈ Q, i ∉ P ∧ ∀ j, i < j → (j ∈ Q ↔ j ∈ P)

/-- The positions below `n`, the latest first: the order of the back-walk. -/
def fallingPositions (n : ℕ) : List ℕ := (List.range n).reverse

@[simp] theorem fallingPositions_succ (n : ℕ) :
    fallingPositions (n + 1) = n :: fallingPositions n := by
  simp [fallingPositions, List.range_succ]

@[simp] theorem mem_fallingPositions {n i : ℕ} : i ∈ fallingPositions n ↔ i < n := by
  simp [fallingPositions]

theorem pairwise_fallingPositions (n : ℕ) : (fallingPositions n).Pairwise (· > ·) := by
  rw [fallingPositions, List.pairwise_reverse]
  exact List.pairwise_lt_range

/-- Reading the candidates at falling positions is reading them from the end. -/
theorem map_fallingPositions {K : Type*} (candidates : List JobCandidate) (f : JobCandidate → K)
    (k : K) : (fallingPositions candidates.length).map (fun i => (candidates[i]?).elim k f) =
      candidates.reverse.map f := by
  rw [fallingPositions, List.map_reverse, List.map_reverse]
  congr 1
  apply List.ext_getElem
  · simp
  · intro i hi _
    rw [List.length_map, List.length_range] at hi
    simp [hi]

theorem length_of_keeps {cap : ℕ} {done : List JobCandidate}
    {keep : List (JobCandidate × List Bool)} (h : Keeps cap done keep) :
    keep.length = done.length := by
  induction h with
  | nil => rfl
  | cons _ _ ih => rw [List.length_cons, List.length_cons, ih]

theorem walkPositions_eq_pick {cap : ℕ} {done : List JobCandidate}
    {keep : List (JobCandidate × List Bool)} {earnings : ℕ → ℕ} {duration : ℕ → ℚ}
    (h : Keeps cap done keep)
    (hearnings : (fallingPositions done.length).map earnings = done.map JobCandidate.earnings)
    (hduration : (fallingPositions done.length).map duration = done.map JobCandidate.duration)
    {w : ℕ} (hw : w ≤ cap) :
    walkPositions keep w = pick earnings duration (fallingPositions done.length) w := by
  induction h generalizing w with
  | nil => rfl
  | @cons c bits done keep hbits hkeep ih =>
      simp only [List.length_cons, fallingPositions_succ, List.map_cons, List.cons.injEq]
        at hearnings hduration ⊢
      have ht : takes earnings duration done.length (fallingPositions done.length) w =
          readBit bits w :=
        (takes_congr hearnings.1 hduration.1 hearnings.2 hduration.2 w).trans (hbits w hw).symm
      rw [walkPositions, pick, ht, length_of_keeps hkeep]
      split_ifs with hbit hlt
      · have := (exists_of_takes (ht.trans hbit)).1
        omega
      · rw [ih hearnings.2 hduration.2 (by omega), hearnings.1]
      · exact ih hearnings.2 hduration.2 hw

theorem durationAt_nonneg (candidates : List JobCandidate) (i : ℕ) :
    0 ≤ durationAt candidates i := by
  unfold durationAt
  cases candidates[i]? with
  | none => exact le_rfl
  | some c => exact c.duration_nonneg

/-- The appended positions are the recurrence's at a sum which it reaches. -/
theorem selectedPositions_eq_pick (candidates : List JobCandidate) (target : ℕ) :
    ∃ w, (leastCost (earningsAt candidates) (durationAt candidates)
          (fallingPositions candidates.length) w).isSome ∧
      selectedPositions candidates target = pick (earningsAt candidates) (durationAt candidates)
        (fallingPositions candidates.length) w := by
  by_cases hcap : candidates.isEmpty ∨ capacity candidates target = 0
  · obtain ⟨hleast, hpick⟩ := pick_zero (earningsAt candidates)
      fun (i : ℕ) (_ : i ∈ fallingPositions candidates.length) => durationAt_nonneg candidates i
    refine ⟨0, by rw [hleast]; rfl, ?_⟩
    rw [hpick, selectedPositions]
    rcases hcap with hcap | hcap <;> simp [hcap]
  · rw [not_or] at hcap
    have ht := holds_fillTable (capacity candidates target) candidates
    obtain ⟨hle, hreach⟩ := (isGreatest_bestW ht).1
    have hearnings := map_fallingPositions candidates JobCandidate.earnings 0
    have hduration := map_fallingPositions candidates JobCandidate.duration 0
    refine ⟨bestW (capacity candidates target)
      (fillTable (capacity candidates target) candidates).dp, ?_, ?_⟩
    · rwa [leastDuration, ← leastCost_congr hearnings hduration] at hreach
    · simp only [selectedPositions, hcap, if_false, Bool.false_eq_true]
      rw [← List.length_reverse] at hearnings hduration ⊢
      exact walkPositions_eq_pick ht.keeps hearnings hduration hle

theorem lt_of_mem_walkPositions {keep : List (JobCandidate × List Bool)} {w i : ℕ}
    (hi : i ∈ walkPositions keep w) : i < keep.length := by
  induction keep generalizing w with
  | nil => simp [walkPositions] at hi
  | cons r older ih =>
      obtain ⟨c, bits⟩ := r
      unfold walkPositions at hi
      rw [List.length_cons]
      split_ifs at hi with hbit hlt
      · simp only [List.mem_singleton] at hi
        omega
      · rcases List.mem_cons.mp hi with rfl | hi
        · omega
        · have := ih hi
          omega
      · have := ih hi
        omega

/-- Both walks make the same steps: one appends the candidate, one its position. -/
theorem walkBack_eq_filterMap (keep : List (JobCandidate × List Bool)) (w : ℕ) :
    walkBack keep w =
      (walkPositions keep w).filterMap fun i => (keep.map Prod.fst).reverse[i]? := by
  induction keep generalizing w with
  | nil => rfl
  | cons r older ih =>
      obtain ⟨c, bits⟩ := r
      have hlast : ((c :: older.map Prod.fst).reverse)[older.length]? = some c := by simp
      have holder : ∀ v, (walkPositions older v).filterMap
          (fun i => ((c :: older.map Prod.fst).reverse)[i]?) = walkBack older v := by
        intro v
        rw [ih v]
        apply List.filterMap_congr
        intro i hi
        have := lt_of_mem_walkPositions hi
        rw [List.reverse_cons, List.getElem?_append_left (by simpa using this)]
      simp only [walkBack, walkPositions, List.map_cons]
      split_ifs with hbit hlt
      · simp
      · rw [List.filterMap_cons, hlast, holder]
      · rw [holder]

theorem map_fst_of_keeps {cap : ℕ} {done : List JobCandidate}
    {keep : List (JobCandidate × List Bool)} (h : Keeps cap done keep) :
    keep.map Prod.fst = done := by
  induction h with
  | nil => rfl
  | cons _ _ ih => rw [List.map_cons, ih]

/-- What is returned is read off the appended positions. -/
theorem dpSelect_eq_filterMap (candidates : List JobCandidate) (target : ℕ) :
    dpSelect candidates target =
      (selectedPositions candidates target).filterMap fun i => candidates[i]? := by
  have hfst := map_fst_of_keeps (holds_fillTable (capacity candidates target) candidates).keeps
  unfold dpSelect selectedPositions
  dsimp only
  split_ifs
  · rfl
  · rfl
  · simp only [walkBack_eq_filterMap, hfst, List.reverse_reverse]

/-- A set of positions, in the order of the back-walk. -/
def falling (n : ℕ) (Q : Finset ℕ) : List ℕ := (fallingPositions n).filter (· ∈ Q)

theorem mem_falling {n i : ℕ} {Q : Finset ℕ} (hQ : Q ⊆ Finset.range n) :
    i ∈ falling n Q ↔ i ∈ Q := by
  rw [falling, List.mem_filter, mem_fallingPositions, decide_eq_true_eq]
  exact and_iff_right_of_imp fun hi => Finset.mem_range.mp (hQ hi)

theorem sum_falling {K : Type*} [AddCommMonoid K] {n : ℕ} {Q : Finset ℕ} (f : ℕ → K)
    (hQ : Q ⊆ Finset.range n) : ((falling n Q).map f).sum = ∑ i ∈ Q, f i := by
  have hnodup : (falling n Q).Nodup := (pairwise_fallingPositions n).nodup.filter _
  rw [← List.sum_toFinset f hnodup]
  apply Finset.sum_congr _ fun _ _ => rfl
  ext i
  rw [List.mem_toFinset, mem_falling hQ]

theorem totals_falling (candidates : List JobCandidate) {Q : Finset ℕ}
    (hQ : Q ⊆ Finset.range candidates.length) :
    totalWeight (earningsAt candidates) (falling candidates.length Q) =
        positionEarnings candidates Q ∧
      totalCost (durationAt candidates) (falling candidates.length Q) =
        positionDuration candidates Q :=
  ⟨sum_falling _ hQ, sum_falling _ hQ⟩

/-- The positions fall, and as a set they have the totals of the recurrence's sublist. -/
theorem selectedPositions_sublist (candidates : List JobCandidate) (target : ℕ) :
    (selectedPositions candidates target).Sublist (fallingPositions candidates.length) := by
  obtain ⟨w, hw, heq⟩ := selectedPositions_eq_pick candidates target
  obtain ⟨k, hk⟩ := Option.isSome_iff_exists.mp hw
  exact heq ▸ (pick_spec hk).1

theorem toFinset_selectedPositions_subset (candidates : List JobCandidate) (target : ℕ) :
    (selectedPositions candidates target).toFinset ⊆ Finset.range candidates.length := by
  intro i hi
  rw [List.mem_toFinset] at hi
  exact Finset.mem_range.mpr
    (mem_fallingPositions.mp ((selectedPositions_sublist candidates target).subset hi))

theorem falling_toFinset {n : ℕ} {ps : List ℕ} (h : ps.Sublist (fallingPositions n)) :
    falling n ps.toFinset = ps := by
  have hps : ps.Pairwise (· > ·) := (pairwise_fallingPositions n).sublist h
  apply List.Pairwise.eq_of_mem_iff ((pairwise_fallingPositions n).filter _) hps
  intro i
  rw [List.mem_filter, decide_eq_true_eq, List.mem_toFinset]
  exact and_iff_right_of_imp fun hi => h.subset hi

theorem avoidsLate_selectedPositions (candidates : List JobCandidate) (target : ℕ) :
    AvoidsLate candidates (selectedPositions candidates target).toFinset := by
  intro Q hQ hearnings hduration hne
  have hP := toFinset_selectedPositions_subset candidates target
  have hfall := falling_toFinset (selectedPositions_sublist candidates target)
  obtain ⟨w, hw, heq⟩ := selectedPositions_eq_pick candidates target
  obtain ⟨k, hk⟩ := Option.isSome_iff_exists.mp hw
  obtain ⟨_, hweight, hcost⟩ := pick_spec hk
  rw [← heq, ← hfall] at hweight hcost
  rw [(totals_falling candidates hP).1, ← hearnings, ← (totals_falling candidates hQ).1] at hweight
  rw [(totals_falling candidates hP).2, ← hduration, ← (totals_falling candidates hQ).2] at hcost
  rw [← hweight, ← hcost] at hk
  have hsub : (falling candidates.length Q).Sublist (fallingPositions candidates.length) :=
    List.filter_sublist
  have htie := pick_first_difference (pairwise_fallingPositions _) hsub hk
  rw [hweight, ← heq] at htie
  simp only [mem_falling hQ] at htie
  rcases htie with hsame | ⟨i, hi, hnot, hrank⟩
  · refine absurd ?_ hne
    ext i
    rw [← mem_falling hQ, hsame, List.mem_toFinset]
  · refine ⟨i, hi, by simpa using hnot, ?_⟩
    intro j hj
    rw [List.mem_toFinset, hrank j hj]

/-- Exchanging two positions of the same value keeps the total. -/
theorem sum_exchange {K : Type*} [AddCommMonoid K] {P : Finset ℕ} {i j : ℕ} (f : ℕ → K)
    (hi : i ∉ P) (hj : j ∈ P) (h : f i = f j) :
    ∑ k ∈ insert i (P.erase j), f k = ∑ k ∈ P, f k := by
  rw [Finset.sum_insert (fun hmem => hi (Finset.mem_of_mem_erase hmem)), h,
    Finset.add_sum_erase P f hj]

/-- Of two equal candidates the later one is taken only if the earlier one is. -/
theorem AvoidsLate.mem_of_equal {candidates : List JobCandidate} {P : Finset ℕ}
    (h : AvoidsLate candidates P) (hP : P ⊆ Finset.range candidates.length) {i j : ℕ} (hij : i < j)
    (hearnings : earningsAt candidates i = earningsAt candidates j)
    (hduration : durationAt candidates i = durationAt candidates j) (hj : j ∈ P) : i ∈ P := by
  by_contra hi
  -- With `i` in the place of `j` the totals are the same, and `j` is the highest difference.
  have hrange : insert i (P.erase j) ⊆ Finset.range candidates.length := by
    apply Finset.insert_subset
    · exact Finset.mem_range.mpr (hij.trans (Finset.mem_range.mp (hP hj)))
    · exact (Finset.erase_subset j P).trans hP
  have hne : insert i (P.erase j) ≠ P := fun heq => hi (heq ▸ Finset.mem_insert_self i _)
  obtain ⟨k, hk, hnot, hrank⟩ := h _ hrange (sum_exchange _ hi hj hearnings)
    (sum_exchange _ hi hj hduration) hne
  rcases Finset.mem_insert.mp hk with rfl | hk
  · have hmem := (hrank j hij).mpr hj
    rcases Finset.mem_insert.mp hmem with hji | hmem
    · omega
    · exact absurd rfl (Finset.mem_erase.mp hmem).1
  · exact hnot (Finset.mem_of_mem_erase hk)

/-- Retrieval rank breaks ties. The appended positions fall and stand for what
is returned; among the position sets with the same totals they avoid late
positions, and so of two equal candidates the later one comes second. -/
theorem dpSelect_avoids_late (candidates : List JobCandidate) (target : ℕ) :
    (selectedPositions candidates target).Pairwise (· > ·) ∧
      dpSelect candidates target =
        (selectedPositions candidates target).filterMap (fun i => candidates[i]?) ∧
      (selectedPositions candidates target).toFinset ⊆ Finset.range candidates.length ∧
      AvoidsLate candidates (selectedPositions candidates target).toFinset ∧
      ∀ i j, i < j → earningsAt candidates i = earningsAt candidates j →
        durationAt candidates i = durationAt candidates j →
        j ∈ selectedPositions candidates target → i ∈ selectedPositions candidates target := by
  have hP := toFinset_selectedPositions_subset candidates target
  have hlate := avoidsLate_selectedPositions candidates target
  refine ⟨(pairwise_fallingPositions _).sublist (selectedPositions_sublist candidates target),
    dpSelect_eq_filterMap candidates target, hP, hlate, ?_⟩
  intro i j hij hearnings hduration hj
  rw [← List.mem_toFinset] at hj ⊢
  exact hlate.mem_of_equal hP hij hearnings hduration hj

/-- Two of three equal jobs fit under the cap: the last one is left out. -/
example : selectedPositions [centAnHour 1, centAnHour 2, centAnHour 3] 1 = [1, 0] := by
  decide +kernel

end Vici.SelectionTies
