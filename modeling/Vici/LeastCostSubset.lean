import Mathlib

/-!
# Least-cost sublists of an exact weight

A 0/1 selection problem over a list of items: every item carries a natural
weight and a cost in an ordered group, and a sub-collection is a sublist. The
recurrence below decides each item from the latest to the earliest one; it
takes the item only when this is strictly cheaper than leaving it out.

`leastCost` is the value of the recurrence and `pick` the sublist it stands
for. The last section trims a sublist that is too heavy: whatever reaches a
goal contains something that reaches it and overshoots by one item at most.
-/
namespace Vici.LeastCostSubset

variable {α K : Type*}

section Totals
variable [AddCommMonoid K]

def totalWeight (weight : α → ℕ) (xs : List α) : ℕ := (xs.map weight).sum
def totalCost (cost : α → K) (xs : List α) : K := (xs.map cost).sum

@[simp] theorem totalWeight_nil (weight : α → ℕ) : totalWeight weight [] = 0 := rfl
@[simp] theorem totalWeight_cons (weight : α → ℕ) (x : α) (xs : List α) :
    totalWeight weight (x :: xs) = weight x + totalWeight weight xs := by simp [totalWeight]
@[simp] theorem totalCost_nil (cost : α → K) : totalCost cost [] = 0 := rfl
@[simp] theorem totalCost_cons (cost : α → K) (x : α) (xs : List α) :
    totalCost cost (x :: xs) = cost x + totalCost cost xs := by simp [totalCost]

theorem totalWeight_perm (weight : α → ℕ) {xs ys : List α} (h : xs.Perm ys) :
    totalWeight weight xs = totalWeight weight ys := (h.map weight).sum_eq

theorem totalCost_perm (cost : α → K) {xs ys : List α} (h : xs.Perm ys) :
    totalCost cost xs = totalCost cost ys := (h.map cost).sum_eq

@[simp] theorem totalWeight_reverse (weight : α → ℕ) (xs : List α) :
    totalWeight weight xs.reverse = totalWeight weight xs :=
  totalWeight_perm weight xs.reverse_perm

@[simp] theorem totalCost_reverse (cost : α → K) (xs : List α) :
    totalCost cost xs.reverse = totalCost cost xs :=
  totalCost_perm cost xs.reverse_perm

theorem totalWeight_sublist (weight : α → ℕ) {xs ys : List α} (h : xs.Sublist ys) :
    totalWeight weight xs ≤ totalWeight weight ys := by
  induction h with
  | slnil => exact le_rfl
  | cons x _ ih => exact ih.trans (by simp)
  | cons_cons x _ ih => simpa using ih

/-- Where the values of one collection are among those of another, so are the values of its
sub-collections. -/
theorem exists_sublist_of_subperm {β γ : Type*} {f : α → γ} {g : β → γ} {xs S : List α}
    {ys : List β} (h : (xs.map f).Subperm (ys.map g)) (hS : S.Sublist xs) :
    ∃ T : List β, T.Sublist ys ∧ (T.map g).Perm (S.map f) := by
  obtain ⟨zs, hperm, hsub⟩ := (hS.map f).subperm.trans h
  obtain ⟨T, hT, rfl⟩ := List.sublist_map_iff.mp hsub
  exact ⟨T, hT, hperm⟩

/-- A sub-collection takes its items at distinct positions. -/
theorem exists_positions {xs ys : List α} (h : xs.Sublist ys) :
    ∃ positions : List (Fin ys.length), positions.Nodup ∧ xs = positions.map ys.get := by
  obtain ⟨f, hf⟩ := List.sublist_iff_exists_fin_orderEmbedding_get_eq.mp h
  refine ⟨(List.finRange xs.length).map f, (List.nodup_finRange _).map f.injective, ?_⟩
  rw [List.map_map]
  conv_lhs => rw [← List.map_get_finRange xs]
  exact List.map_congr_left fun i _ => hf i

end Totals

section Recurrence
variable [AddCommGroup K] [LinearOrder K]
variable (weight : α → ℕ) (cost : α → K)

/-- Taking the item must be strictly cheaper: a tie leaves it out. -/
def improves : Option K → Option K → Bool
  | _, none => false
  | none, some _ => true
  | some a, some b => decide (b < a)

/-- The cheapest way to weigh `w` with the item, given the row without it. -/
def costWith (row : ℕ → Option K) (x : α) (w : ℕ) : Option K :=
  if weight x ≤ w then (row (w - weight x)).map (cost x + ·) else none

/-- The cost of the cheapest sublist of weight exactly `w`, the head decided first. -/
def leastCost : List α → ℕ → Option K
  | [], w => if w = 0 then some 0 else none
  | x :: xs, w =>
      if improves (leastCost xs w) (costWith weight cost (leastCost xs) x w)
      then costWith weight cost (leastCost xs) x w else leastCost xs w

/-- The recurrence takes `x` on top of `xs` at weight `w`. -/
def takes (x : α) (xs : List α) (w : ℕ) : Bool :=
  improves (leastCost weight cost xs w) (costWith weight cost (leastCost weight cost xs) x w)

/-- The sublist which the recurrence stands for. -/
def pick : List α → ℕ → List α
  | [], _ => []
  | x :: xs, w =>
      if takes weight cost x xs w then x :: pick xs (w - weight x) else pick xs w

variable {weight cost}

theorem leastCost_cons (x : α) (xs : List α) (w : ℕ) :
    leastCost weight cost (x :: xs) w =
      if takes weight cost x xs w then costWith weight cost (leastCost weight cost xs) x w
      else leastCost weight cost xs w := rfl

theorem improves_iff {a b : Option K} :
    improves a b = true ↔ ∃ k, b = some k ∧ ∀ l, a = some l → k < l := by
  cases a <;> cases b <;> simp [improves]

/-- A taken item fits, and the rest of the weight is reachable without it. -/
theorem exists_of_takes {x : α} {xs : List α} {w : ℕ} (h : takes weight cost x xs w = true) :
    weight x ≤ w ∧ ∃ k, leastCost weight cost xs (w - weight x) = some k ∧
      costWith weight cost (leastCost weight cost xs) x w = some (cost x + k) ∧
      ∀ l, leastCost weight cost xs w = some l → cost x + k < l := by
  obtain ⟨k, hk, hlt⟩ := improves_iff.mp h
  unfold costWith at hk
  split_ifs at hk with hw
  obtain ⟨m, hm, rfl⟩ := Option.map_eq_some_iff.mp hk
  exact ⟨hw, m, hm, by simp [costWith, hw, hm], hlt⟩

theorem costWith_of_le {x : α} {xs : List α} {w : ℕ} {k : K} (hw : weight x ≤ w)
    (hk : leastCost weight cost xs (w - weight x) = some k) :
    costWith weight cost (leastCost weight cost xs) x w = some (cost x + k) := by
  simp [costWith, hw, hk]

/-- What the recurrence promises is the cost of an actual sublist of that weight. -/
theorem pick_spec {xs : List α} {w : ℕ} {k : K} (h : leastCost weight cost xs w = some k) :
    (pick weight cost xs w).Sublist xs ∧ totalWeight weight (pick weight cost xs w) = w ∧
      totalCost cost (pick weight cost xs w) = k := by
  induction xs generalizing w k with
  | nil =>
      simp only [leastCost] at h
      split_ifs at h with hw
      simp_all [pick]
  | cons x xs ih =>
      rw [leastCost_cons] at h
      unfold pick
      split_ifs at h ⊢ with ht
      · obtain ⟨hw, m, hm, hwith, _⟩ := exists_of_takes ht
        obtain ⟨hsub, hweight, hcost⟩ := ih hm
        rw [hwith, Option.some.injEq] at h
        refine ⟨hsub.cons_cons x, ?_, ?_⟩
        · rw [totalWeight_cons, hweight]
          omega
        · rw [totalCost_cons, hcost, h]
      · obtain ⟨hsub, hrest⟩ := ih h
        exact ⟨hsub.cons x, hrest⟩

/-- A failed test leaves the row without the item at least as good. -/
theorem le_costWith_of_not_takes {x : α} {xs : List α} {w : ℕ} {k : K}
    (h : ¬takes weight cost x xs w = true)
    (hk : costWith weight cost (leastCost weight cost xs) x w = some k) :
    ∃ l, leastCost weight cost xs w = some l ∧ l ≤ k := by
  unfold takes at h
  rw [hk] at h
  cases hl : leastCost weight cost xs w with
  | none => simp [improves, hl] at h
  | some l => exact ⟨l, rfl, by simpa [improves, hl] using h⟩

/-- Costs being nonnegative, the empty sublist is the cheapest one of weight zero. -/
theorem pick_zero (weight : α → ℕ) {cost : α → K} {xs : List α} (hcost : ∀ x ∈ xs, 0 ≤ cost x) :
    leastCost weight cost xs 0 = some 0 ∧ pick weight cost xs 0 = [] := by
  induction xs with
  | nil => exact ⟨rfl, rfl⟩
  | cons x xs ih =>
      obtain ⟨hleast, hpick⟩ := ih (fun y hy => hcost y (List.mem_cons_of_mem x hy))
      have hnot : ¬takes weight cost x xs 0 = true := by
        intro ht
        obtain ⟨_, k, hk, _, hlt⟩ := exists_of_takes ht
        rw [Nat.zero_sub, hleast, Option.some.injEq] at hk
        subst hk
        exact absurd (hlt 0 hleast) (by simpa using hcost x List.mem_cons_self)
      rw [leastCost_cons, pick, if_neg hnot, if_neg hnot]
      exact ⟨hleast, hpick⟩

/-- The recurrence reads its items through their weights and costs only. -/
theorem leastCost_congr {β : Type*} {weight' : β → ℕ} {cost' : β → K} {xs : List α} {ys : List β}
    (hweight : xs.map weight = ys.map weight') (hcost : xs.map cost = ys.map cost') (w : ℕ) :
    leastCost weight cost xs w = leastCost weight' cost' ys w := by
  induction xs generalizing ys w with
  | nil =>
      obtain rfl := List.map_eq_nil_iff.mp hweight.symm
      rfl
  | cons x xs ih =>
      obtain ⟨y, ys, rfl, hx, hxs⟩ := List.map_eq_cons_iff.mp hweight.symm
      simp only [List.map_cons, List.cons.injEq] at hcost
      have hrow : leastCost weight cost xs = leastCost weight' cost' ys :=
        funext (ih hxs.symm hcost.2)
      simp only [leastCost, costWith, hrow, hcost.1, hx]

theorem takes_congr {β : Type*} {weight' : β → ℕ} {cost' : β → K} {x : α} {y : β} {xs : List α}
    {ys : List β} (hx : weight x = weight' y) (hy : cost x = cost' y)
    (hweight : xs.map weight = ys.map weight') (hcost : xs.map cost = ys.map cost') (w : ℕ) :
    takes weight cost x xs w = takes weight' cost' y ys w := by
  have hrow : leastCost weight cost xs = leastCost weight' cost' ys :=
    funext (leastCost_congr hweight hcost)
  simp only [takes, costWith, hrow, hx, hy]

variable [IsOrderedAddMonoid K]

/-- A weightless item is never strictly cheaper, so it is never picked. -/
theorem weight_pos_of_mem_pick {xs : List α} (hcost : ∀ x ∈ xs, 0 ≤ cost x) {w : ℕ} {y : α}
    (hy : y ∈ pick weight cost xs w) : 0 < weight y := by
  induction xs generalizing w with
  | nil => cases hy
  | cons x xs ih =>
      have hrest : ∀ z ∈ xs, 0 ≤ cost z := fun z hz => hcost z (List.mem_cons_of_mem x hz)
      unfold pick at hy
      split_ifs at hy with ht
      · rcases List.mem_cons.mp hy with rfl | hy
        · obtain ⟨_, k, hk, _, hlt⟩ := exists_of_takes ht
          by_contra hzero
          rw [Nat.eq_zero_of_not_pos hzero, Nat.sub_zero] at hk
          exact absurd (hlt k hk) (not_lt.mpr (le_add_of_nonneg_left (hcost y List.mem_cons_self)))
        · exact ih hrest hy
      · exact ih hrest hy

/-- No sublist of the same weight is cheaper. -/
theorem leastCost_le (weight : α → ℕ) (cost : α → K) {xs S : List α} (hS : S.Sublist xs) :
    ∃ k, leastCost weight cost xs (totalWeight weight S) = some k ∧ k ≤ totalCost cost S := by
  induction xs generalizing S with
  | nil =>
      obtain rfl := List.sublist_nil.mp hS
      exact ⟨0, by simp [leastCost], by simp⟩
  | cons x xs ih =>
      rw [leastCost_cons]
      rcases List.sublist_cons_iff.mp hS with h | ⟨T, rfl, hT⟩
      · obtain ⟨k, hk, hle⟩ := ih h
        split_ifs with ht
        · obtain ⟨_, m, _, hwith, hlt⟩ := exists_of_takes ht
          exact ⟨cost x + m, hwith, (hlt k hk).le.trans hle⟩
        · exact ⟨k, hk, hle⟩
      · obtain ⟨k, hk, hle⟩ := ih hT
        have hwith : costWith weight cost (leastCost weight cost xs) x
            (totalWeight weight (x :: T)) = some (cost x + k) :=
          costWith_of_le (by simp) (by simpa using hk)
        have hcost : cost x + k ≤ totalCost cost (x :: T) := by
          simpa using hle
        split_ifs with ht
        · exact ⟨cost x + k, hwith, hcost⟩
        · obtain ⟨l, hl, hlk⟩ := le_costWith_of_not_takes ht hwith
          exact ⟨l, hl, hlk.trans hcost⟩

/-- A weight is reachable exactly when some sublist has it. -/
theorem isSome_leastCost_iff (weight : α → ℕ) (cost : α → K) {xs : List α} {w : ℕ} :
    (leastCost weight cost xs w).isSome ↔ ∃ S, S.Sublist xs ∧ totalWeight weight S = w := by
  constructor
  · intro h
    obtain ⟨k, hk⟩ := Option.isSome_iff_exists.mp h
    obtain ⟨hsub, hw, _⟩ := pick_spec hk
    exact ⟨_, hsub, hw⟩
  · rintro ⟨S, hS, rfl⟩
    obtain ⟨k, hk, _⟩ := leastCost_le weight cost hS
    simp [hk]

/-- The picked sublist is as cheap as any sublist of its weight. -/
theorem totalCost_pick_le (weight : α → ℕ) (cost : α → K) {xs S : List α} (hS : S.Sublist xs) :
    totalCost cost (pick weight cost xs (totalWeight weight S)) ≤ totalCost cost S := by
  obtain ⟨k, hk, hle⟩ := leastCost_le weight cost hS
  rwa [(pick_spec hk).2.2]

/-- The tie rule. The items are ranked, the head last: whatever else has the
weight and the cost of the picked sublist differs from it first, from the head
on, at an item which the picked sublist leaves out. -/
theorem pick_first_difference [LinearOrder α] {xs S : List α} (hxs : xs.Pairwise (· > ·))
    (hS : S.Sublist xs) (hleast : leastCost weight cost xs (totalWeight weight S) =
      some (totalCost cost S)) :
    S = pick weight cost xs (totalWeight weight S) ∨
      ∃ i ∈ S, i ∉ pick weight cost xs (totalWeight weight S) ∧
        ∀ j, i < j → (j ∈ S ↔ j ∈ pick weight cost xs (totalWeight weight S)) := by
  induction xs generalizing S with
  | nil => exact Or.inl (List.sublist_nil.mp hS)
  | cons x xs ih =>
      obtain ⟨hlast, hrest⟩ := List.pairwise_cons.mp hxs
      rw [leastCost_cons] at hleast
      unfold pick
      split_ifs at hleast ⊢ with ht
      · obtain ⟨hw, k, hk, hwith, hlt⟩ := exists_of_takes ht
        rw [hwith, Option.some.injEq] at hleast
        rcases List.sublist_cons_iff.mp hS with h | ⟨T, rfl, hT⟩
        · -- Without `x` the weight costs strictly more.
          obtain ⟨l, hl, hle⟩ := leastCost_le weight cost h
          exact absurd (hlt l hl) (not_lt.mpr (hleast ▸ hle))
        · rw [totalWeight_cons, Nat.add_sub_cancel_left] at hk ⊢
          rw [totalCost_cons, add_right_inj] at hleast
          rcases ih hrest hT (hk.trans (congrArg some hleast)) with heq | ⟨i, hi, hnot, hrank⟩
          · exact Or.inl (congrArg (x :: ·) heq)
          · have hix : i < x := hlast i (hT.subset hi)
            refine Or.inr ⟨i, List.mem_cons_of_mem x hi, ?_, ?_⟩
            · rw [List.mem_cons, not_or]
              exact ⟨hix.ne, hnot⟩
            · intro j hj
              rw [List.mem_cons, List.mem_cons, hrank j hj]
      · rcases List.sublist_cons_iff.mp hS with h | ⟨T, rfl, hT⟩
        · exact ih hrest h hleast
        · have hbelow : ∀ j ∈ pick weight cost xs (totalWeight weight (x :: T)), j < x :=
            fun j hj => hlast j ((pick_spec hleast).1.subset hj)
          refine Or.inr ⟨x, List.mem_cons_self, fun hx => (hbelow x hx).false, ?_⟩
          intro j hj
          rw [List.mem_cons]
          constructor
          · intro hmem
            rcases hmem with rfl | hmem
            · exact absurd hj (lt_irrefl j)
            · exact absurd (hlast j (hT.subset hmem)) hj.asymm
          · intro hmem
            exact absurd (hbelow j hmem) hj.asymm

/-- At the total weight nothing heavy can be left out and, costs being
nonnegative, nothing weightless is worth taking. -/
theorem pick_totalWeight (weight : α → ℕ) {cost : α → K} {xs : List α}
    (hcost : ∀ x ∈ xs, 0 ≤ cost x) :
    pick weight cost xs (totalWeight weight xs) = xs.filter (fun x => 0 < weight x) := by
  induction xs with
  | nil => rfl
  | cons x xs ih =>
      obtain ⟨k, hk, _⟩ := leastCost_le weight cost (List.Sublist.refl xs)
      have hwith : costWith weight cost (leastCost weight cost xs) x
          (totalWeight weight (x :: xs)) = some (cost x + k) :=
        costWith_of_le (by simp) (by simpa using hk)
      have hrest := ih (fun y hy => hcost y (List.mem_cons_of_mem x hy))
      rcases Nat.eq_zero_or_pos (weight x) with hx | hx
      · have htotal : totalWeight weight (x :: xs) = totalWeight weight xs := by simp [hx]
        have hnot : ¬takes weight cost x xs (totalWeight weight (x :: xs)) = true := by
          intro ht
          obtain ⟨_, m, hm, hwith', hlt⟩ := exists_of_takes ht
          rw [htotal] at hlt
          rw [hwith, Option.some.injEq, add_right_inj] at hwith'
          have hpos := hcost x List.mem_cons_self
          have := hlt k hk
          rw [← hwith'] at this
          exact absurd this (not_lt.mpr (le_add_of_nonneg_left hpos))
        rw [pick, if_neg hnot, htotal, hrest]
        simp [hx]
      · have hnone : leastCost weight cost xs (totalWeight weight (x :: xs)) = none := by
          by_contra hne
          obtain ⟨S, hS, hw⟩ :=
            (isSome_leastCost_iff weight cost).mp (Option.isSome_iff_ne_none.mpr hne)
          have := totalWeight_sublist weight hS
          rw [hw, totalWeight_cons] at this
          omega
        have ht : takes weight cost x xs (totalWeight weight (x :: xs)) = true := by
          rw [takes, hwith, hnone]
          rfl
        rw [pick, if_pos ht, totalWeight_cons, Nat.add_sub_cancel_left, hrest]
        simp [hx]

end Recurrence

section Trimming
variable [AddCommMonoid K] [PartialOrder K] [IsOrderedAddMonoid K]
variable {weight : α → ℕ} {cost : α → K}

/-- Dropping items never costs more. -/
theorem totalCost_sublist {xs ys : List α} (h : xs.Sublist ys) (hcost : ∀ y ∈ ys, 0 ≤ cost y) :
    totalCost cost xs ≤ totalCost cost ys := by
  induction h with
  | slnil => exact le_rfl
  | cons y _ ih =>
      rw [totalCost_cons]
      exact le_add_of_nonneg_of_le (hcost y List.mem_cons_self)
        (ih fun z hz => hcost z (List.mem_cons_of_mem y hz))
  | cons_cons y _ ih =>
      rw [totalCost_cons, totalCost_cons]
      exact add_le_add_right (ih fun z hz => hcost z (List.mem_cons_of_mem y hz)) _

/-- Greedy suffix: cutting a heavy sublist down to the first suffix that still
reaches the goal overshoots by less than one item. -/
theorem exists_trimmed (weight : α → ℕ) {goal bound : ℕ} {S : List α}
    (hgoal : goal ≤ totalWeight weight S) (hbound : ∀ x ∈ S, weight x ≤ bound) :
    ∃ T, T.Sublist S ∧ goal ≤ totalWeight weight T ∧ totalWeight weight T ≤ goal + bound := by
  induction S with
  | nil => exact ⟨[], .slnil, hgoal, by simp⟩
  | cons x S ih =>
      by_cases hS : goal ≤ totalWeight weight S
      · obtain ⟨T, hT, hlow, hhigh⟩ := ih hS (fun y hy => hbound y (List.mem_cons_of_mem x hy))
        exact ⟨T, hT.cons x, hlow, hhigh⟩
      · refine ⟨x :: S, .refl _, hgoal, ?_⟩
        have := hbound x List.mem_cons_self
        rw [totalWeight_cons]
        omega

end Trimming

end Vici.LeastCostSubset
