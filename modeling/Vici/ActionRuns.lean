import Mathlib

/-!
# Runs of a labelled system

A system is a partial step function on states and actions; an action without a
step is not enabled. `Along` restricts a run to steps which meet a condition on
the action and the state in which it is taken. An invariant needs to be kept
only by the steps which the condition allows.
-/
namespace Vici.ActionRuns

variable {σ α : Type*} {step : σ → α → Option σ} {ok : σ → α → Prop}

/-- The state after the listed actions, when each of them is enabled in its turn. -/
def exec (step : σ → α → Option σ) : σ → List α → Option σ
  | s, [] => some s
  | s, a :: as => (step s a).bind fun t => exec step t as

/-- Every action of the run meets `ok` in the state where it is taken. -/
def Along (step : σ → α → Option σ) (ok : σ → α → Prop) : σ → List α → Prop
  | _, [] => True
  | s, a :: as => ok s a ∧ ∀ t, step s a = some t → Along step ok t as

def Reachable (step : σ → α → Option σ) (init s : σ) : Prop := ∃ as, exec step init as = some s

theorem exec_append (s : σ) (as bs : List α) :
    exec step s (as ++ bs) = (exec step s as).bind fun t => exec step t bs := by
  induction as generalizing s with
  | nil => rfl
  | cons a as ih =>
      simp only [List.cons_append, exec, Option.bind_assoc]
      exact Option.bind_congr fun t _ => ih t

/-- A run goes on with one more step. -/
theorem exec_snoc {s m t : σ} {as : List α} {a : α} (h : exec step s as = some m)
    (ha : step m a = some t) : exec step s (as ++ [a]) = some t := by
  rw [exec_append, h]
  simp [exec, ha]

theorem Along.append {s : σ} {as bs : List α} (h : Along step ok s (as ++ bs)) :
    Along step ok s as ∧ ∀ t, exec step s as = some t → Along step ok t bs := by
  induction as generalizing s with
  | nil =>
      refine ⟨trivial, fun t ht => ?_⟩
      obtain rfl : s = t := by simpa [exec] using ht
      exact h
  | cons a as ih =>
      obtain ⟨ha, hrest⟩ := h
      refine ⟨⟨ha, fun t ht => (ih (hrest t ht)).1⟩, fun t ht => ?_⟩
      obtain ⟨m, hm, ht⟩ := Option.bind_eq_some_iff.mp ht
      exact (ih (hrest m hm)).2 t ht

theorem along_append {s : σ} {as bs : List α} (h : Along step ok s as)
    (h' : ∀ t, exec step s as = some t → Along step ok t bs) : Along step ok s (as ++ bs) := by
  induction as generalizing s with
  | nil => exact h' s rfl
  | cons a as ih =>
      refine ⟨h.1, fun m hm => ih (h.2 m hm) fun t ht => h' t ?_⟩
      rw [exec, hm]
      exact ht

/-- The condition on the last action of a run. -/
theorem Along.last {s t : σ} {as : List α} {a : α} (h : Along step ok s (as ++ [a]))
    (ht : exec step s as = some t) : ok t a := (h.append.2 t ht).1

theorem Along.cons {s t : σ} {a : α} {as : List α} (ha : ok s a) (hstep : step s a = some t)
    (h : Along step ok t as) : Along step ok s (a :: as) := by
  refine ⟨ha, fun m hm => ?_⟩
  obtain rfl : t = m := Option.some.inj (hstep.symm.trans hm)
  exact h

theorem along_true (s : σ) (as : List α) : Along step (fun _ _ => True) s as := by
  induction as generalizing s with
  | nil => trivial
  | cons a as ih => exact ⟨trivial, fun t _ => ih t⟩

/-- A condition which does not depend on the states. -/
theorem along_of_forall {as : List α} (h : ∀ a ∈ as, ∀ s, ok s a) (s : σ) :
    Along step ok s as := by
  induction as generalizing s with
  | nil => trivial
  | cons a as ih =>
      obtain ⟨ha, has⟩ := List.forall_mem_cons.mp h
      exact ⟨ha s, fun t _ => ih has t⟩

/-- What every allowed step keeps, every allowed run keeps. -/
theorem exec_invariant (inv : σ → Prop)
    (hstep : ∀ s a t, ok s a → inv s → step s a = some t → inv t) {s t : σ}
    {as : List α} (hok : Along step ok s as) (hs : inv s) (h : exec step s as = some t) :
    inv t := by
  induction as generalizing s with
  | nil =>
      obtain rfl : s = t := by simpa [exec] using h
      exact hs
  | cons a as ih =>
      obtain ⟨m, hm, h⟩ := Option.bind_eq_some_iff.mp h
      exact ih (hok.2 m hm) (hstep s a m hok.1 hs hm) h

/-- What every step relates to the state before it, under an invariant which it keeps, a run
relates to the state where it starts. -/
theorem exec_related (inv : σ → Prop) (rel : σ → σ → Prop) (hrefl : ∀ s, rel s s)
    (htrans : ∀ {s m t}, rel s m → rel m t → rel s t)
    (hstep : ∀ {s a t}, inv s → step s a = some t → inv t ∧ rel s t) {s t : σ} {as : List α}
    (hs : inv s) (h : exec step s as = some t) : inv t ∧ rel s t := by
  induction as generalizing s with
  | nil =>
      obtain rfl : s = t := by simpa [exec] using h
      exact ⟨hs, hrefl s⟩
  | cons a as ih =>
      obtain ⟨m, hm, h⟩ := Option.bind_eq_some_iff.mp h
      obtain ⟨hmid, hrel⟩ := hstep hs hm
      obtain ⟨ht, hrel'⟩ := ih hmid h
      exact ⟨ht, htrans hrel hrel'⟩

/-- A measure which no step raises and which the steps of one kind lower bounds their number. -/
theorem countP_add_le (inv : σ → Prop) (kind : α → Bool) (measure : σ → ℕ)
    (hstep : ∀ s a t, ok s a → inv s → step s a = some t →
      inv t ∧ measure t + (if kind a then 1 else 0) ≤ measure s) {s t : σ} {as : List α}
    (hok : Along step ok s as) (hs : inv s) (h : exec step s as = some t) :
    as.countP kind + measure t ≤ measure s := by
  induction as generalizing s with
  | nil =>
      obtain rfl : s = t := by simpa [exec] using h
      simp
  | cons a as ih =>
      obtain ⟨m, hm, h⟩ := Option.bind_eq_some_iff.mp h
      obtain ⟨hinv, hle⟩ := hstep s a m hok.1 hs hm
      have hrest := ih (hok.2 m hm) hinv h
      rw [List.countP_cons]
      omega

/-- The number of steps of a run which are of the kind. -/
def countAlong (step : σ → α → Option σ) (kind : σ → α → Bool) : σ → List α → ℕ
  | _, [] => 0
  | s, a :: as => (if kind s a then 1 else 0) +
      ((step s a).map fun t => countAlong step kind t as).getD 0

/-- Until a goal is reached, which no step undoes, no step raises the measure and the steps
of one kind lower it; so a run with enough of these reaches the goal. -/
theorem reached_or_countAlong_le (inv goal : σ → Prop) (kind : σ → α → Bool) (measure : σ → ℕ)
    (hinv : ∀ {s a t}, inv s → step s a = some t → inv t)
    (hgoal : ∀ {s a t}, inv s → goal s → step s a = some t → goal t)
    (hstep : ∀ {s a t}, inv s → ¬goal s → step s a = some t →
      goal t ∨ measure t + (if kind s a then 1 else 0) ≤ measure s) {s t : σ} {as : List α}
    (hs : inv s) (h : exec step s as = some t) :
    goal t ∨ countAlong step kind s as + measure t ≤ measure s := by
  induction as generalizing s with
  | nil =>
      obtain rfl : s = t := by simpa [exec] using h
      exact .inr (by simp [countAlong])
  | cons a as ih =>
      obtain ⟨m, hm, h⟩ := Option.bind_eq_some_iff.mp h
      have hrest := ih (hinv hs hm) h
      have hkept (hreached : goal m) : goal t :=
        (exec_invariant (fun s => inv s ∧ goal s)
          (fun _ _ _ _ hs h => ⟨hinv hs.1 h, hgoal hs.1 hs.2 h⟩) (along_true m as)
            ⟨hinv hs hm, hreached⟩ h).2
      by_cases hreached : goal s
      · exact .inl (hkept (hgoal hs hreached hm))
      · rcases hstep hs hreached hm with hnow | hless
        · exact .inl (hkept hnow)
        · rcases hrest with hlater | hle
          · exact .inl hlater
          · right
            rw [countAlong, hm, Option.map_some, Option.getD_some]
            omega

theorem reachable_invariant (inv : σ → Prop)
    (hstep : ∀ s a t, inv s → step s a = some t → inv t) {init s : σ}
    (hinit : inv init) (h : Reachable step init s) : inv s := by
  obtain ⟨as, has⟩ := h
  exact exec_invariant inv (fun s a t _ => hstep s a t) (along_true init as) hinit has

end Vici.ActionRuns
