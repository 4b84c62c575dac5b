import Vici.RateLimiter
import Vici.ActionRuns

/-!
# Concurrent passes of the limiter

Any number of gates run at once, each in its own transaction. A statement sees
the committed rows and those of its own transaction. No lock is taken on the
user, so between the count of one gate and its commit other gates of the same
user may commit; the limit is kept as long as no more of them do so than the
count has left room for. All readings come from one clock which never goes back.
-/
namespace Vici.RateLimitRaces
open Models Datetimes AppPrograms SessionPrograms SmsRepositories Webhook RateLimiter ActionRuns

/-- Where a gate stands; a reading which it has taken stays with it, and so do the
committed rows among which it has counted. -/
inductive Phase where
  | idle
  | begun (windowAt : ℤ)
  | inserted (clock : Readings)
  | counted (clock : Readings) (seen : List RateLimit)
  | admitted (clock : Readings)
  | rejected
  deriving DecidableEq

structure State where
  now : ℤ
  committed : List RateLimit
  gates : ℕ → Phase

inductive Action where
  | tick (elapsed : ℕ)
  | begin (g : ℕ)
  | insert (g : ℕ)
  | count (g : ℕ)
  | finish (g : ℕ)
  | abort (g : ℕ)

def initial : State := ⟨0, [], fun _ => .idle⟩

def State.move (s : State) (g : ℕ) (p : Phase) : State :=
  { s with gates := Function.update s.gates g p }

section
variable (cfg : Config) (owner : ℕ → ℕ)

/-- The row of a gate, under the gate's own number. -/
def rowOf (g : ℕ) (clock : Readings) : RateLimit := ⟨g, owner g, clock.createdAt⟩

/-- What a statement of the gate sees: committed rows, and the gate's own one. -/
def visible (committed : List RateLimit) (g : ℕ) (clock : Readings) : List RateLimit :=
  committed ++ [rowOf owner g clock]

/-- The gate's count over the committed rows. -/
def countAmong (committed : List RateLimit) (g : ℕ) (clock : Readings) : ℕ :=
  countSince (owner g) (since cfg clock) (visible owner committed g clock)

/-- One statement of one gate: the reading of the window, the insert, the count, and
the commit or the rollback; at any point the transaction may fail. -/
def step (s : State) : Action → Option State
  | .tick elapsed => some { s with now := s.now + elapsed }
  | .begin g =>
      match s.gates g with
      | .idle =>
          if (windowStart s.now cfg.rateLimitWindowSeconds).isSome then
            some (s.move g (.begun s.now))
          else some (s.move g .rejected)
      | _ => none
  | .insert g =>
      match s.gates g with
      | .begun windowAt => some (s.move g (.inserted ⟨windowAt, s.now⟩))
      | _ => none
  | .count g =>
      match s.gates g with
      | .inserted clock => some (s.move g (.counted clock s.committed))
      | _ => none
  | .finish g =>
      match s.gates g with
      | .counted clock seen =>
          if cfg.rateLimitMax < countAmong cfg owner seen g clock then some (s.move g .rejected)
          else some { s.move g (.admitted clock) with
            committed := visible owner s.committed g clock }
      | _ => none
  | .abort g =>
      match s.gates g with
      | .begun _ | .inserted _ | .counted _ _ => some (s.move g .rejected)
      | _ => none

/-- The gates of the same user which have committed a row of the gate's window since the
gate counted: their rows, which come after those it has seen. -/
def overtaking (s : State) (g : ℕ) (clock : Readings) (seen : List RateLimit) : List RateLimit :=
  (s.committed.drop seen.length).filter fun r =>
    decide (r.userId = owner g ∧ since cfg clock ≤ r.createdAt)

/-- No more gates have overtaken the one which is about to commit than its count has left
room for. -/
def NotOvertaken (s : State) : Action → Prop
  | .finish g => ∀ clock seen, s.gates g = .counted clock seen →
      (countAmong cfg owner seen g clock : ℤ) ≤ cfg.rateLimitMax →
        (countAmong cfg owner seen g clock : ℤ) + (overtaking cfg owner s g clock seen).length ≤
          cfg.rateLimitMax
  | _ => True

end

section
variable {cfg : Config} {owner : ℕ → ℕ} {s t : State} {a : Action}

/-- Readings are ordered, and an admitted gate has its row. -/
def PhaseValid (owner : ℕ → ℕ) (s : State) (g : ℕ) : Phase → Prop
  | .begun windowAt => windowAt ≤ s.now
  | .inserted clock => clock.windowAt ≤ clock.createdAt
  | .counted clock seen => clock.windowAt ≤ clock.createdAt ∧ seen <+: s.committed
  | .admitted clock => rowOf owner g clock ∈ s.committed
  | _ => True

def Valid (owner : ℕ → ℕ) (s : State) : Prop := ∀ g, PhaseValid owner s g (s.gates g)

theorem PhaseValid.mono (hnow : s.now ≤ t.now) (hrows : s.committed <+: t.committed) {g : ℕ}
    {p : Phase} (h : PhaseValid owner s g p) : PhaseValid owner t g p := by
  cases p with
  | begun windowAt => exact le_trans h hnow
  | counted clock seen => exact ⟨h.1, h.2.trans hrows⟩
  | admitted clock => exact hrows.subset h
  | _ => exact h

/-- A valid state stays valid when one gate moves, rows are added and time passes. -/
theorem Valid.move (h : Valid owner s) {g : ℕ} {p : Phase} (hgates : t.gates = (s.move g p).gates)
    (hnow : s.now ≤ t.now) (hrows : s.committed <+: t.committed) (hp : PhaseValid owner t g p) :
    Valid owner t := by
  intro i
  rw [hgates]
  rcases eq_or_ne i g with rfl | hne
  · simpa [State.move] using hp
  · simpa [State.move, hne] using (h i).mono hnow hrows

/-- Everything that a step can do. -/
theorem step_cases (h : step cfg owner s a = some t) :
    (∃ elapsed : ℕ, t = { s with now := s.now + elapsed }) ∨
    (∃ g p, t = s.move g p ∧ (Valid owner s → PhaseValid owner t g p)) ∨
    (∃ g clock seen, a = .finish g ∧ s.gates g = .counted clock seen ∧
      (countAmong cfg owner seen g clock : ℤ) ≤ cfg.rateLimitMax ∧
      t = { s.move g (.admitted clock) with committed := visible owner s.committed g clock }) := by
  cases a with
  | tick elapsed => exact .inl ⟨elapsed, (Option.some.inj h).symm⟩
  | begin g =>
      simp only [step] at h
      split at h
      · split_ifs at h
        · exact .inr (.inl ⟨g, _, (Option.some.inj h).symm, fun _ => by
            rw [← Option.some.inj h]
            exact le_rfl⟩)
        · exact .inr (.inl ⟨g, _, (Option.some.inj h).symm, fun _ => trivial⟩)
      · cases h
  | insert g =>
      simp only [step] at h
      split at h
      case h_1 windowAt hgate =>
        refine .inr (.inl ⟨g, _, (Option.some.inj h).symm, fun hs => ?_⟩)
        have hbegun := hs g
        rwa [hgate] at hbegun
      case h_2 => cases h
  | count g =>
      simp only [step] at h
      split at h
      case h_1 clock hgate =>
        refine .inr (.inl ⟨g, _, (Option.some.inj h).symm, fun hs => ?_⟩)
        have hinserted := hs g
        rw [hgate] at hinserted
        rw [← Option.some.inj h]
        exact ⟨hinserted, List.prefix_rfl⟩
      case h_2 => cases h
  | finish g =>
      simp only [step] at h
      split at h
      case h_1 clock seen hgate =>
        split_ifs at h with hlimit
        · exact .inr (.inl ⟨g, _, (Option.some.inj h).symm, fun _ => trivial⟩)
        · exact .inr (.inr ⟨g, clock, seen, rfl, hgate, not_lt.mp hlimit,
            (Option.some.inj h).symm⟩)
      case h_2 => cases h
  | abort g =>
      simp only [step] at h
      split at h
      case h_4 => cases h
      all_goals exact .inr (.inl ⟨g, _, (Option.some.inj h).symm, fun _ => trivial⟩)

theorem valid_step (hs : Valid owner s) (h : step cfg owner s a = some t) : Valid owner t := by
  rcases step_cases h with ⟨elapsed, rfl⟩ | ⟨g, p, rfl, hp⟩ | ⟨g, clock, seen, _, _, _, rfl⟩
  · intro i
    have hnow : s.now ≤ s.now + elapsed := by omega
    exact (hs i).mono (t := { s with now := s.now + elapsed }) hnow List.prefix_rfl
  · exact hs.move rfl le_rfl List.prefix_rfl (hp hs)
  · refine hs.move rfl le_rfl (List.prefix_append _ _) ?_
    exact List.mem_append_right _ (List.mem_singleton_self _)

/-- How many of the user's rows are stamped within the window which begins at `start`. -/
def stampedWithin (cfg : Config) (rows : List RateLimit) (userId : ℕ) (start : ℤ) : ℕ :=
  rows.countP fun r => decide (r.userId = userId ∧ start ≤ r.createdAt ∧
    r.createdAt ≤ start + cfg.rateLimitWindowSeconds * second)

def WithinBound (cfg : Config) (s : State) : Prop :=
  ∀ userId start, (stampedWithin cfg s.committed userId start : ℤ) ≤ cfg.rateLimitMax

/-- A window which holds the gate's own row begins no earlier than the gate's window,
so that the gate would count all there is in it. -/
theorem stampedWithin_le_countAmong {committed : List RateLimit} {g : ℕ} {clock : Readings}
    {start : ℤ} (hclock : clock.windowAt ≤ clock.createdAt)
    (hend : clock.createdAt ≤ start + cfg.rateLimitWindowSeconds * second) :
    stampedWithin cfg (visible owner committed g clock) (owner g) start ≤
      countAmong cfg owner committed g clock := by
  apply List.countP_mono_left
  intro r _ hr
  obtain ⟨huser, hstart, _⟩ := of_decide_eq_true hr
  refine decide_eq_true ⟨huser, ?_⟩
  unfold since
  omega

/-- What it would count now is what it has counted and those which have overtaken it. -/
theorem countAmong_committed {g : ℕ} {clock : Readings} {seen : List RateLimit}
    (hseen : seen <+: s.committed) : countAmong cfg owner s.committed g clock =
      countAmong cfg owner seen g clock + (overtaking cfg owner s g clock seen).length := by
  obtain ⟨later, hlater⟩ := hseen
  simp only [countAmong, countSince, visible, overtaking, ← hlater, List.countP_append,
    List.drop_left, ← List.countP_eq_length_filter]
  omega

theorem withinBound_step (hs : Valid owner s ∧ WithinBound cfg s)
    (hok : NotOvertaken cfg owner s a) (h : step cfg owner s a = some t) :
    WithinBound cfg t := by
  obtain ⟨hvalid, hbound⟩ := hs
  rcases step_cases h with ⟨elapsed, rfl⟩ | ⟨g, p, rfl, _⟩ | ⟨g, clock, seen, rfl, hgate, hc, rfl⟩
  · exact hbound
  · exact hbound
  · intro userId start
    have hcounted := hvalid g
    rw [hgate] at hcounted
    obtain ⟨hclock, hseen⟩ := hcounted
    have hnow : (countAmong cfg owner s.committed g clock : ℤ) ≤ cfg.rateLimitMax := by
      rw [countAmong_committed hseen]
      exact_mod_cast hok clock seen hgate hc
    by_cases hown : owner g = userId ∧ start ≤ clock.createdAt ∧
        clock.createdAt ≤ start + cfg.rateLimitWindowSeconds * second
    · obtain ⟨rfl, _, hend⟩ := hown
      have hle : stampedWithin cfg (visible owner s.committed g clock) (owner g) start ≤
          countAmong cfg owner s.committed g clock := stampedWithin_le_countAmong hclock hend
      exact le_trans (by exact_mod_cast hle) hnow
    · have hsame : stampedWithin cfg (visible owner s.committed g clock) userId start =
          stampedWithin cfg s.committed userId start := by
        rw [stampedWithin, visible, List.countP_append]
        simp [stampedWithin, rowOf, hown]
      rw [hsame]
      exact hbound userId start

theorem invariant_initial (hmax : 0 ≤ cfg.rateLimitMax) :
    Valid owner initial ∧ WithinBound cfg initial :=
  ⟨fun _ => trivial, fun _ _ => hmax⟩

/-- Unless a gate is overtaken by more than it has left room for, no window of the configured
length holds more of a user's admitted messages than the limit. -/
theorem card_admitted_le {run : List Action} (hmax : 0 ≤ cfg.rateLimitMax)
    (hok : Along (step cfg owner) (NotOvertaken cfg owner) initial run)
    (hrun : exec (step cfg owner) initial run = some s) (userId : ℕ) (start : ℤ)
    (admitted : Finset ℕ)
    (hadmitted : ∀ g ∈ admitted, owner g = userId ∧ ∃ clock, s.gates g = .admitted clock ∧
      start ≤ clock.createdAt ∧
        clock.createdAt ≤ start + cfg.rateLimitWindowSeconds * second) :
    (admitted.card : ℤ) ≤ cfg.rateLimitMax := by
  obtain ⟨hvalid, hbound⟩ := exec_invariant (fun x => Valid owner x ∧ WithinBound cfg x)
    (fun x a y hxa hx hy => ⟨valid_step hx.1 hy, withinBound_step hx hxa hy⟩) hok
    (invariant_initial hmax) hrun
  let rows := s.committed.filter fun r => decide (r.userId = userId ∧ start ≤ r.createdAt ∧
    r.createdAt ≤ start + cfg.rateLimitWindowSeconds * second)
  have hids : admitted ⊆ (rows.map RateLimit.id).toFinset := by
    intro g hg
    obtain ⟨hown, clock, hgate, hstart, hend⟩ := hadmitted g hg
    have hrow : rowOf owner g clock ∈ s.committed := by
      have := hvalid g
      rwa [hgate] at this
    refine List.mem_toFinset.mpr (List.mem_map.mpr ⟨rowOf owner g clock, ?_, rfl⟩)
    exact List.mem_filter.mpr ⟨hrow, decide_eq_true ⟨hown, hstart, hend⟩⟩
  have hcard : admitted.card ≤ stampedWithin cfg s.committed userId start := by
    calc admitted.card ≤ (rows.map RateLimit.id).toFinset.card := Finset.card_le_card hids
      _ ≤ (rows.map RateLimit.id).length := List.toFinset_card_le _
      _ = stampedWithin cfg s.committed userId start := by
          rw [List.length_map, stampedWithin, List.countP_eq_length_filter]
  exact le_trans (by exact_mod_cast hcard) (hbound userId start)

end

/-- Two gates of one user count one message each before either commits, and under a limit
of two there is room for both; a third one, and one of another user, come after them. -/
def overlappingWithRoom : List Action :=
  [.tick 3600000000, .begin 0, .begin 1, .insert 0, .insert 1, .count 0, .count 1, .finish 0,
    .begin 3, .finish 1, .begin 2, .tick 5, .insert 2, .insert 3, .count 3, .count 2, .finish 2,
    .finish 3]

/-- Gate 3 is that of the other user. -/
def twoOwners (g : ℕ) : ℕ := if g = 3 then 8 else 7

theorem card_admitted_le_overlapping :
    ∃ s, exec (step (unsignedConfig 2 60) twoOwners) initial overlappingWithRoom = some s ∧
      s.gates 2 = .rejected ∧ s.gates 3 = .admitted ⟨3600000000, 3600000005⟩ ∧
      ((({0, 1} : Finset ℕ).card : ℕ) : ℤ) ≤ 2 := by
  have hok : Along (step (unsignedConfig 2 60) twoOwners)
      (NotOvertaken (unsignedConfig 2 60) twoOwners) initial overlappingWithRoom := by
    repeat first
      | exact trivial
      | refine .cons ?_ rfl ?_
        first
          | exact trivial
          | (intro clock seen hgate; cases hgate; decide)
  refine ⟨_, rfl, rfl, rfl, card_admitted_le (by decide) hok rfl 7 3600000000 {0, 1} ?_⟩
  intro g hg
  rcases Finset.mem_insert.mp hg with rfl | hg
  · exact ⟨rfl, _, rfl, by decide, by decide⟩
  · obtain rfl := Finset.mem_singleton.mp hg
    exact ⟨rfl, _, rfl, by decide, by decide⟩

theorem countAmong_eq {cfg : Config} {owner : ℕ → ℕ} (committed : List RateLimit) (g : ℕ)
    (clock : Readings) : countAmong cfg owner committed g clock =
      countSince (owner g) (since cfg clock) committed +
        if since cfg clock ≤ clock.createdAt then 1 else 0 := countSince_append _ _ _ _

/-- The statements of one gate with nothing but time between them. -/
theorem lone_gate_counts {cfg : Config} {owner : ℕ → ℕ} {s : State} {g : ℕ} (elapsed : ℕ)
    (hidle : s.gates g = .idle)
    (hwindow : (windowStart s.now cfg.rateLimitWindowSeconds).isSome) :
    exec (step cfg owner) s [.begin g, .tick elapsed, .insert g, .count g] =
      some ({ s with now := s.now + elapsed }.move g
        (.counted ⟨s.now, s.now + elapsed⟩ s.committed)) := by
  simp [exec, step, hidle, hwindow, State.move]

/-- A gate which meets no other decides as the program of the gate does. -/
theorem lone_gate_refines {cfg : Config} {owner : ℕ → ℕ} {s : State} {g elapsed : ℕ}
    {inbound : InboundSms} {w : AppWorld} (hidle : s.gates g = .idle)
    (hwindow : (windowStart s.now cfg.rateLimitWindowSeconds).isSome)
    (hcalm : w.faults = [])
    (hrows : Program.Holds (fun d => d.rateLimits = s.committed) w.store)
    (hsender : inbound.sender.id = owner g)
    (huser : ∃ u ∈ w.store.session.users, u.id = inbound.sender.id) :
    ∃ t, exec (step cfg owner) s
        ([.begin g, .tick elapsed, .insert g, .count g] ++ [.finish g]) = some t ∧
      (t.gates g = .admitted ⟨s.now, s.now + elapsed⟩ ↔
        ∃ count w', (recordAndCount cfg ⟨s.now, s.now + elapsed⟩ inbound).run w =
          (.ok count, w')) := by
  have hprogram : WithinLimit cfg ⟨s.now, s.now + elapsed⟩ s.committed inbound.sender.id ↔
      ∃ count w', (recordAndCount cfg ⟨s.now, s.now + elapsed⟩ inbound).run w =
        (.ok count, w') := by
    constructor
    · exact run_recordAndCount hcalm hrows.2 huser
    · rintro ⟨count, w', hrun⟩
      exact withinLimit_of_takesRow ((run_recordAndCount_rows hrows hrun).2 count rfl) hrows
  have hlimit : WithinLimit cfg ⟨s.now, s.now + elapsed⟩ s.committed (owner g) ↔
      ¬cfg.rateLimitMax < countAmong cfg owner s.committed g ⟨s.now, s.now + elapsed⟩ := by
    rw [countAmong_eq, not_lt]
    exact withinLimit_iff_of_isSome hwindow
  rw [← hprogram, hsender, hlimit, exec_append, lone_gate_counts elapsed hidle hwindow]
  by_cases hover : cfg.rateLimitMax < countAmong cfg owner s.committed g ⟨s.now, s.now + elapsed⟩
  · simp [exec, step, State.move, hover]
  · simp [exec, step, State.move, hover]

/-- Two gates which insert and count before either of them commits. -/
def overlapping : List Action :=
  [.tick 3600000000, .begin 0, .begin 1, .insert 0, .insert 1, .count 0, .count 1,
    .finish 0, .finish 1]

/-- Under a limit of one message per minute, both gates of one user are admitted
at the same instant. -/
theorem overlapping_both_admitted :
    ∃ s, exec (step (unsignedConfig 1 60) fun _ => 7) initial overlapping = some s ∧
      s.gates 0 = .admitted ⟨3600000000, 3600000000⟩ ∧
      s.gates 1 = .admitted ⟨3600000000, 3600000000⟩ ∧
      ¬((({0, 1} : Finset ℕ).card : ℤ) ≤ (unsignedConfig 1 60).rateLimitMax) :=
  ⟨_, rfl, rfl, rfl, by decide⟩

end Vici.RateLimitRaces
