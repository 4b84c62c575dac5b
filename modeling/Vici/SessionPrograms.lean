import Mathlib

/-!
# Programs over one transactional session

A program reads and writes through one session: it sees the committed database
together with its own flushed changes, and only a commit makes these durable.
Each step first meets the environment, which may refuse the step with an
infrastructure error, lose the answer of a commit or of an external call which
did take place, or kill the process. The log lists the durable states and the external effects
in the order in which they happened.

`Triple` is partial correctness with a separate condition for a program that
stops. Assertions speak of the store alone, so that a step of the environment
never disturbs them. The rules follow the constructors of programs.
-/
namespace Vici.SessionPrograms

/-- What the environment may do to one step. -/
inductive Fault (φ : Type) where
  | refuses (e : φ)
  | loses (e : φ)
  | crashes
  deriving DecidableEq

/-- An exception: an infrastructure error or one of the application. -/
inductive Exn (φ ε : Type) where
  | infra (e : φ)
  | app (e : ε)
  deriving DecidableEq

/-- A crashed program runs no handler: the process, or the task, is gone. -/
inductive Stop (φ ε : Type) where
  | raised (e : Exn φ ε)
  | crashed
  deriving DecidableEq

/-- A stop which no code of the program's own has raised. -/
def Stop.FromOutside {φ ε : Type} : Stop φ ε → Prop
  | .raised (.infra _) => True
  | .raised (.app _) => False
  | .crashed => True

inductive Event (D E : Type) where
  | committed (d : D)
  | effect (e : E)
  deriving DecidableEq

structure Store (D E : Type) where
  committed : D
  session : D
  log : List (Event D E)
  deriving DecidableEq

/-- No fault strikes once the listed moves of the environment are used up. -/
structure World (D E φ : Type) where
  store : Store D E
  faults : List (Option (Fault φ))
  deriving DecidableEq

namespace World
variable {D E φ : Type}

/-- A freshly opened session on a database. -/
def opened (d : D) (faults : List (Option (Fault φ))) : World D E φ := ⟨⟨d, d, []⟩, faults⟩

/-- The environment's next move. -/
def next (w : World D E φ) : Option (Fault φ) × World D E φ :=
  match w.faults with
  | [] => (none, w)
  | f :: fs => (f, { w with faults := fs })

@[simp] theorem next_store (w : World D E φ) : w.next.2.store = w.store := by
  unfold next
  split <;> rfl

theorem next_faults (w : World D E φ) : w.next.2.faults <:+ w.faults := by
  unfold next
  split
  case h_1 => exact List.suffix_rfl
  case h_2 f fs hf => exact hf ▸ List.suffix_cons f fs

/-- A call made now takes place, whether or not its answer arrives. -/
def applies (w : World D E φ) : Bool :=
  match w.next.1 with
  | none => true
  | some (.loses _) => true
  | _ => false

theorem applies_of_calm {w : World D E φ} (h : w.faults = []) : w.applies = true := by
  obtain ⟨store, faults⟩ := w
  cases h
  rfl

theorem next_of_calm {w : World D E φ} (h : w.faults = []) : w.next = (none, w) := by
  simp only [next, h]

/-- Between the two worlds the environment has made a move against the program. -/
def Struck (w w' : World D E φ) : Prop :=
  ∃ used f, w.faults = used ++ w'.faults ∧ some f ∈ used

theorem Struck.mono {w w₁ w₂ w' : World D E φ} (h : w₁.Struck w₂)
    (hbefore : w₁.faults <:+ w.faults) (hafter : w'.faults <:+ w₂.faults) : w.Struck w' := by
  obtain ⟨before, hbefore⟩ := hbefore
  obtain ⟨after, hafter⟩ := hafter
  obtain ⟨used, f, hused, hf⟩ := h
  refine ⟨before ++ (used ++ after), f, ?_,
    List.mem_append_right _ (List.mem_append_left _ hf)⟩
  rw [← hbefore, hused, ← hafter, List.append_assoc, List.append_assoc]

theorem struck_of_next {w w₁ w' : World D E φ} {f : Fault φ} (h : w.next = (some f, w₁))
    (hfaults : w'.faults = w₁.faults) : w.Struck w' := by
  obtain ⟨store, faults⟩ := w
  cases faults with
  | nil => cases h
  | cons g fs =>
      cases h
      exact ⟨[some f], f, congrArg (some f :: ·) hfaults.symm, List.mem_cons_self⟩

end World

/-- A program returns or stops, in the world it has left behind; whatever it meets
on its way comes from the front of the environment's list. -/
@[ext]
structure Program (D E φ ε α : Type) where
  run : World D E φ → Except (Stop φ ε) α × World D E φ
  faults_run : ∀ w, (run w).2.faults <:+ w.faults

namespace Program
variable {D E φ ε α β : Type}

instance : Monad (Program D E φ ε) where
  pure a := ⟨fun w => (.ok a, w), fun _ => List.suffix_rfl⟩
  bind x f :=
    { run := fun w =>
        match x.run w with
        | (.ok a, w') => (f a).run w'
        | (.error s, w') => (.error s, w')
      faults_run := fun w => by
        have hx := x.faults_run w
        split <;> rename_i hrun <;> rw [hrun] at hx
        · exact ((f _).faults_run _).trans hx
        · exact hx }

def raise (e : ε) : Program D E φ ε α :=
  ⟨fun w => (.error (.raised (.app e)), w), fun _ => List.suffix_rfl⟩

/-- A step that a fault may prevent. -/
def step : Program D E φ ε Unit where
  run w :=
    match w.next with
    | (none, w') => (.ok (), w')
    | (some .crashes, w') => (.error .crashed, w')
    | (some (.refuses e), w') => (.error (.raised (.infra e)), w')
    | (some (.loses e), w') => (.error (.raised (.infra e)), w')
  faults_run w := by
    have hw := w.next_faults
    split <;> rename_i hn <;> rw [hn] at hw <;> exact hw

/-- A change of the store that nothing can prevent. -/
def update (f : Store D E → Store D E) : Program D E φ ε Unit :=
  ⟨fun w => (.ok (), { w with store := f w.store }), fun _ => List.suffix_rfl⟩

/-- What a statement computes: it fails without effect or changes the session's view. -/
def apply (f : D → Except (Exn φ ε) (α × D)) : Program D E φ ε α where
  run w :=
    match f w.store.session with
    | .ok (a, d) => (.ok a, { w with store := { w.store with session := d } })
    | .error e => (.error (.raised e), w)
  faults_run w := by split <;> exact List.suffix_rfl

def statement (f : D → Except (Exn φ ε) (α × D)) : Program D E φ ε α := do
  step
  apply f

def query (f : D → α) : Program D E φ ε α := statement fun d => .ok (f d, d)

/-- A change at the other end of a call: it may take place although the caller sees
an error. -/
def call (f : Store D E → Store D E) : Program D E φ ε Unit where
  run w :=
    match w.next with
    | (none, w') => (.ok (), { w' with store := f w'.store })
    | (some .crashes, w') => (.error .crashed, w')
    | (some (.refuses x), w') => (.error (.raised (.infra x)), w')
    | (some (.loses x), w') => (.error (.raised (.infra x)), { w' with store := f w'.store })
  faults_run w := by
    have hw := w.next_faults
    split <;> rename_i hn <;> rw [hn] at hw <;> exact hw

/-- The session's view becomes durable. -/
def commit : Program D E φ ε Unit :=
  call fun s => ⟨s.session, s.session, s.log ++ [.committed s.session]⟩

def rollback : Program D E φ ε Unit := do
  step
  update fun s => { s with session := s.committed }

def logged (e : E) (s : Store D E) : Store D E := { s with log := s.log ++ [.effect e] }

/-- A call of a service outside, which leaves an effect there. -/
def external (e : E) : Program D E φ ε Unit := call (logged e)

/-- When `body` stops, the session's view is replaced by `back` of the store it left. -/
def restoring (back : Store D E → D) (body : Program D E φ ε α) : Program D E φ ε α where
  run w :=
    match body.run w with
    | (.ok a, w') => (.ok a, w')
    | (.error s, w') =>
        (.error s, { w' with store := { w'.store with session := back w'.store } })
  faults_run w := by
    have hw := body.faults_run w
    split <;> rename_i hn <;> rw [hn] at hw <;> exact hw

/-- A program chosen by the present store. -/
def withStore (f : Store D E → Program D E φ ε α) : Program D E φ ε α :=
  ⟨fun w => (f w.store).run w, fun w => (f w.store).faults_run w⟩

/-- An exception inside the block restores the view which the savepoint captured. -/
def savepoint (body : Program D E φ ε α) : Program D E φ ε α := do
  step
  withStore fun captured => restoring (fun _ => captured.session) (do
    let a ← body
    step
    pure a)

/-- A `begin` block: committed on leaving, rolled back when an exception leaves it. -/
def transaction (body : Program D E φ ε α) : Program D E φ ε α :=
  restoring Store.committed (do
    let a ← body
    commit
    pure a)

/-- Closing a session drops whatever it has not committed. -/
def closing (body : Program D E φ ε α) : Program D E φ ε α :=
  restoring Store.committed (do
    let a ← body
    update fun s => { s with session := s.committed }
    pure a)

/-- `try` with the handlers of the exceptions it names. -/
def attempt (body : Program D E φ ε α) (handler : Exn φ ε → Option (Program D E φ ε α)) :
    Program D E φ ε α where
  run w :=
    match body.run w with
    | (.ok a, w') => (.ok a, w')
    | (.error .crashed, w') => (.error .crashed, w')
    | (.error (.raised e), w') =>
        match handler e with
        | some h => h.run w'
        | none => (.error (.raised e), w')
  faults_run w := by
    have hw := body.faults_run w
    split <;> rename_i hn <;> rw [hn] at hw
    · exact hw
    · exact hw
    · split
      · rename_i h _
        exact (h.faults_run _).trans hw
      · exact hw

def forEach (body : α → Program D E φ ε Unit) : List α → Program D E φ ε Unit
  | [] => pure ()
  | a :: as => do
      body a
      forEach body as

theorem run_bind (x : Program D E φ ε α) (f : α → Program D E φ ε β) (w : World D E φ) :
    (x >>= f).run w =
      match x.run w with
      | (.ok a, w') => (f a).run w'
      | (.error s, w') => (.error s, w') := rfl

theorem run_bind_of_ok {x : Program D E φ ε α} {f : α → Program D E φ ε β} {w w' : World D E φ}
    {a : α} (h : x.run w = (.ok a, w')) : (x >>= f).run w = (f a).run w' := by
  rw [run_bind, h]

theorem run_bind_of_error {x : Program D E φ ε α} {f : α → Program D E φ ε β}
    {w w' : World D E φ} {s : Stop φ ε} (h : x.run w = (.error s, w')) :
    (x >>= f).run w = (.error s, w') := by
  rw [run_bind, h]

theorem run_bind_pure (x : Program D E φ ε α) (w : World D E φ) :
    (x >>= Pure.pure).run w = x.run w := by
  rw [run_bind]
  rcases x.run w with ⟨s | a, w'⟩ <;> rfl

theorem run_bind_bind {γ : Type} (x : Program D E φ ε α) (f : α → Program D E φ ε β)
    (g : β → Program D E φ ε γ) (w : World D E φ) :
    (x >>= f >>= g).run w = (x >>= fun a => f a >>= g).run w := by
  rcases h : x.run w with ⟨s | a, w'⟩
  · rw [run_bind_of_error (run_bind_of_error h), run_bind_of_error h]
  · rw [run_bind_of_ok h, run_bind, run_bind_of_ok h, run_bind]

instance : LawfulMonad (Program D E φ ε) := LawfulMonad.mk' _
  (fun x => Program.ext (funext (run_bind_pure x)))
  (fun _ _ => rfl)
  (fun x f g => Program.ext (funext (run_bind_bind x f g)))

/-- A session may be closed between two parts when the first leaves nothing uncommitted. -/
theorem closing_bind {x : Program D E φ ε α} {f : α → Program D E φ ε β}
    (h : ∀ w a w', x.run w = (.ok a, w') → w'.store.session = w'.store.committed) :
    closing (x >>= f) = closing x >>= fun a => closing (f a) := by
  ext1
  funext w
  rcases hx : x.run w with ⟨s | a, w'⟩
  · simp only [closing, restoring, run_bind, hx]
  · have hsame : { w' with store := { w'.store with session := w'.store.committed } } = w' := by
      rw [← h w a w' hx]
    have hclosed : (closing x).run w = (.ok a, w') := by
      simp only [closing, restoring, run_bind, hx, update]
      rw [hsame]
      rfl
    rw [run_bind_of_ok hclosed]
    simp only [closing, restoring, run_bind, hx]

/-- What the environment has left to do after a run it was to do before. -/
theorem faults_of_run {x : Program D E φ ε α} {w w' : World D E φ} {r : Except (Stop φ ε) α}
    (h : x.run w = (r, w')) : w'.faults <:+ w.faults := by
  have hsuffix := x.faults_run w
  rwa [h] at hsuffix

/-- A sequence returns only through its first part. -/
theorem run_bind_ok {x : Program D E φ ε α} {f : α → Program D E φ ε β} {w w' : World D E φ}
    {b : β} (h : (x >>= f).run w = (.ok b, w')) :
    ∃ a w₁, x.run w = (.ok a, w₁) ∧ (f a).run w₁ = (.ok b, w') := by
  rw [run_bind] at h
  rcases hrun : x.run w with ⟨s | a, w₁⟩ <;> rw [hrun] at h
  · cases h
  · exact ⟨a, w₁, rfl, h⟩

/-- What is made of a result at the end does not decide whether there is one. -/
theorem exists_run_map_iff {x : Program D E φ ε α} {f : α → β} {w : World D E φ} :
    (∃ b w', (x >>= fun a => Pure.pure (f a)).run w = (.ok b, w')) ↔
      ∃ a w', x.run w = (.ok a, w') := by
  constructor
  · intro h
    obtain ⟨b, w', hrun⟩ := h
    obtain ⟨a, w₁, hx, _⟩ := run_bind_ok hrun
    exact ⟨a, w₁, hx⟩
  · intro h
    obtain ⟨a, w', hx⟩ := h
    rw [run_bind_of_ok hx]
    exact ⟨f a, w', rfl⟩

/-- A step which succeeds leaves the store alone. -/
theorem run_step_ok {w w' : World D E φ}
    (h : (step : Program D E φ ε Unit).run w = (.ok (), w')) : w'.store = w.store := by
  rw [← w.next_store]
  rcases hn : w.next with ⟨_ | (_ | _ | _), w₂⟩ <;> simp [step, hn] at h
  rw [h]

/-- What a query returns is what the session shows, and the store is left alone. -/
theorem run_query_ok {f : D → α} {w w' : World D E φ} {a : α}
    (h : (query f : Program D E φ ε α).run w = (.ok a, w')) :
    a = f w.store.session ∧ w'.store = w.store := by
  obtain ⟨_, w₁, hstep, h⟩ := run_bind_ok h
  have hw₁ := run_step_ok hstep
  cases h
  exact ⟨by rw [hw₁], hw₁⟩

/-- A statement which returns has put what it computes in place of the session's view. -/
theorem run_statement_store {f : D → Except (Exn φ ε) (α × D)} {w w' : World D E φ} {a : α}
    (h : (statement f : Program D E φ ε α).run w = (.ok a, w')) :
    ∃ d, f w.store.session = .ok (a, d) ∧ w'.store = { w.store with session := d } := by
  obtain ⟨_, w₁, hstep, h⟩ := run_bind_ok h
  rw [← run_step_ok hstep]
  cases hf : f w₁.store.session with
  | ok r =>
      simp only [apply, hf, Prod.mk.injEq, Except.ok.injEq] at h
      obtain ⟨rfl, rfl⟩ := h
      exact ⟨r.2, rfl, rfl⟩
  | error e => simp [apply, hf] at h

/-- A call which returns has made its change. -/
theorem run_call_ok {f : Store D E → Store D E} {w w' : World D E φ}
    (h : (call f : Program D E φ ε Unit).run w = (.ok (), w')) : w'.store = f w.store := by
  rw [← w.next_store]
  rcases hn : w.next with ⟨_ | (_ | _ | _), w₂⟩ <;> simp [call, hn] at h
  rw [← h]

theorem applies_of_run_call {f : Store D E → Store D E} {w w' : World D E φ}
    (h : (call f : Program D E φ ε Unit).run w = (.ok (), w')) : w.applies = true := by
  rcases hn : w.next with ⟨_ | (_ | _ | _), w₂⟩ <;> simp [call, hn] at h
  simp [World.applies, hn]

theorem next_of_run_call {f : Store D E → Store D E} {w w' : World D E φ}
    (h : (call f : Program D E φ ε Unit).run w = (.ok (), w')) : w.next.1 = none := by
  rcases hn : w.next with ⟨_ | (_ | _ | _), w₂⟩ <;> simp [call, hn] at h
  rfl

theorem run_step_error {w w' : World D E φ} {s : Stop φ ε}
    (h : (step : Program D E φ ε Unit).run w = (.error s, w')) :
    w.Struck w' ∧ w'.store = w.store := by
  rw [← w.next_store]
  rcases hn : w.next with ⟨_ | (_ | _ | _), w₂⟩ <;> simp [step, hn] at h
  all_goals
    obtain ⟨_, rfl⟩ := h
    exact ⟨World.struck_of_next hn rfl, rfl⟩

/-- A call which stops has made no change, or its answer was lost. -/
theorem run_call_error {f : Store D E → Store D E} {w w' : World D E φ} {s : Stop φ ε}
    (h : (call f : Program D E φ ε Unit).run w = (.error s, w')) :
    w.Struck w' ∧ s.FromOutside ∧ (w'.store = w.store ∨ ∃ x, w.next.1 = some (.loses x) ∧
      s = .raised (.infra x) ∧ w'.store = f w.store) := by
  rw [← w.next_store]
  rcases hn : w.next with ⟨_ | (_ | _ | _), w₂⟩ <;> simp [call, hn] at h
  all_goals obtain ⟨rfl, rfl⟩ := h
  · exact ⟨World.struck_of_next hn rfl, True.intro, .inl rfl⟩
  · exact ⟨World.struck_of_next hn rfl, True.intro, .inr ⟨_, rfl, rfl, rfl⟩⟩
  · exact ⟨World.struck_of_next hn rfl, True.intro, .inl rfl⟩

/-- A call takes place and stops only when its answer is lost. -/
theorem run_call_lost {f : Store D E → Store D E} {w w' : World D E φ} {s : Stop φ ε}
    (h : (call f : Program D E φ ε Unit).run w = (.error s, w')) (happlies : w.applies = true) :
    ∃ x, w.next.1 = some (.loses x) ∧ s = .raised (.infra x) ∧ w'.store = f w.store := by
  rw [← w.next_store]
  rcases hn : w.next with ⟨_ | (_ | _ | _), w₂⟩ <;> simp [call, hn] at h
  all_goals obtain ⟨rfl, rfl⟩ := h
  · simp [World.applies, hn] at happlies
  · exact ⟨_, rfl, rfl, rfl⟩
  · simp [World.applies, hn] at happlies

theorem run_call_store (f : Store D E → Store D E) (w : World D E φ) :
    ((call f : Program D E φ ε Unit).run w).2.store =
      if w.applies then f w.store else w.store := by
  rw [← w.next_store]
  rcases hn : w.next with ⟨_ | (_ | _ | _), w₂⟩ <;> simp [call, World.applies, hn]

/-- A commit which returns has made the session's view durable. -/
theorem run_commit_ok {w w' : World D E φ}
    (h : (commit : Program D E φ ε Unit).run w = (.ok (), w')) : w'.store =
      ⟨w.store.session, w.store.session, w.store.log ++ [.committed w.store.session]⟩ :=
  run_call_ok h

/-- Nothing disturbs a program in a calm world, and it leaves the world calm. -/
theorem calm_run {x : Program D E φ ε α} {w w' : World D E φ} {r : Except (Stop φ ε) α}
    (hcalm : w.faults = []) (h : x.run w = (r, w')) : w'.faults = [] := by
  have hsuffix := x.faults_run w
  rw [h, hcalm] at hsuffix
  exact List.suffix_nil.mp hsuffix

theorem run_step_of_calm {w : World D E φ} (h : w.faults = []) :
    (step : Program D E φ ε Unit).run w = (.ok (), w) := by
  simp only [step, World.next_of_calm h]

theorem run_statement_of_calm {f : D → Except (Exn φ ε) (α × D)} {w : World D E φ}
    (h : w.faults = []) : (statement f : Program D E φ ε α).run w = (apply f).run w := by
  rw [statement, run_bind, run_step_of_calm h]

theorem run_statement_ok {f : D → Except (Exn φ ε) (α × D)} {w : World D E φ} {a : α} {d : D}
    (h : w.faults = []) (hf : f w.store.session = .ok (a, d)) :
    (statement f : Program D E φ ε α).run w =
      (.ok a, { w with store := { w.store with session := d } }) := by
  rw [run_statement_of_calm h]
  simp only [apply, hf]

theorem run_statement_error {f : D → Except (Exn φ ε) (α × D)} {w : World D E φ} {e : Exn φ ε}
    (h : w.faults = []) (hf : f w.store.session = .error e) :
    (statement f : Program D E φ ε α).run w = (.error (.raised e), w) := by
  rw [run_statement_of_calm h]
  simp only [apply, hf]

/-- A statement returns what it computes from the session's view. -/
theorem run_statement_inv {f : D → Except (Exn φ ε) (α × D)} {w w' : World D E φ} {a : α}
    (h : (statement f : Program D E φ ε α).run w = (.ok a, w')) :
    ∃ d, f w.store.session = .ok (a, d) := by
  obtain ⟨_, w₁, hstep, h⟩ := run_bind_ok h
  rw [← run_step_ok hstep]
  cases hf : f w₁.store.session with
  | ok r =>
      simp only [apply, hf, Prod.mk.injEq, Except.ok.injEq] at h
      exact ⟨r.2, by rw [← h.1]⟩
  | error e => simp [apply, hf] at h

theorem run_call_of_calm {f : Store D E → Store D E} {w : World D E φ} (h : w.faults = []) :
    (call f : Program D E φ ε Unit).run w = (.ok (), { w with store := f w.store }) := by
  simp only [call, World.next_of_calm h]

theorem run_commit_of_calm {w : World D E φ} (h : w.faults = []) :
    (commit : Program D E φ ε Unit).run w = (.ok (), { w with store :=
      ⟨w.store.session, w.store.session, w.store.log ++ [.committed w.store.session]⟩ }) :=
  run_call_of_calm h

theorem run_external_of_calm {e : E} {w : World D E φ} (h : w.faults = []) :
    (external e : Program D E φ ε Unit).run w = (.ok (), { w with store := logged e w.store }) :=
  run_call_of_calm h

theorem run_closing_of_ok {body : Program D E φ ε α} {w w' : World D E φ} {a : α}
    (h : body.run w = (.ok a, w')) : (closing body).run w =
      (.ok a, { w' with store := { w'.store with session := w'.store.committed } }) := by
  simp only [closing, restoring, run_bind, h, update]
  rfl

/-- However the body ends, the session is dropped behind it. -/
theorem run_closing {body : Program D E φ ε α} {w w' : World D E φ} {r : Except (Stop φ ε) α}
    (h : body.run w = (r, w')) : (closing body).run w =
      (r, { w' with store := { w'.store with session := w'.store.committed } }) := by
  rcases r with s | a
  · simp only [closing, restoring, run_bind, h]
  · exact run_closing_of_ok h

theorem run_query_of_calm {f : D → α} {w : World D E φ} (h : w.faults = []) :
    (query f : Program D E φ ε α).run w = (.ok (f w.store.session), w) := by
  rw [query, run_statement_of_calm h]
  rfl

theorem run_transaction_of_calm {body : Program D E φ ε α} {w w' : World D E φ} {a : α}
    (h : w.faults = []) (hbody : body.run w = (.ok a, w')) :
    (transaction body).run w = (.ok a, { w' with
      store := ⟨w'.store.session, w'.store.session,
        w'.store.log ++ [.committed w'.store.session]⟩ }) := by
  have hcommit := run_commit_of_calm (ε := ε) (calm_run h hbody)
  simp only [transaction, restoring, run_bind, hbody, hcommit]
  rfl

theorem run_transaction_of_error {body : Program D E φ ε α} {w w' : World D E φ} {e : Stop φ ε}
    (hbody : body.run w = (.error e, w')) :
    (transaction body).run w =
      (.error e, { w' with store := { w'.store with session := w'.store.committed } }) := by
  simp only [transaction, restoring, run_bind, hbody]

/-- A transaction which stops is rolled back, unless its commit took place unheard. -/
theorem run_transaction_error {body : Program D E φ ε α} {w w' : World D E φ} {s : Stop φ ε}
    (h : (transaction body).run w = (.error s, w')) :
    (∃ w₁, body.run w = (.error s, w₁) ∧
        w'.store = { w₁.store with session := w₁.store.committed }) ∨
      ∃ a w₁, body.run w = (.ok a, w₁) ∧ s.FromOutside ∧
        (w'.store = { w₁.store with session := w₁.store.committed } ∨
          ∃ x, w₁.next.1 = some (.loses x) ∧ s = .raised (.infra x) ∧
            w'.store = ⟨w₁.store.session, w₁.store.session,
              w₁.store.log ++ [.committed w₁.store.session]⟩) := by
  rcases hbody : body.run w with ⟨s₁ | a, w₁⟩
  · rw [run_transaction_of_error hbody] at h
    cases h
    exact .inl ⟨w₁, rfl, rfl⟩
  · rcases hcommit : (commit : Program D E φ ε Unit).run w₁ with ⟨s₁ | _, w₂⟩
    · simp only [transaction, restoring, run_bind, hbody, hcommit] at h
      cases h
      obtain ⟨_, houtside, hstore⟩ := run_call_error hcommit
      refine .inr ⟨a, w₁, rfl, houtside, ?_⟩
      rcases hstore with hsame | ⟨x, hnext, hs, hlost⟩
      · exact .inl (by rw [hsame])
      · exact .inr ⟨x, hnext, hs, by rw [hlost]⟩
    · simp only [transaction, restoring, run_bind, hbody, hcommit] at h
      cases h

/-- Behind its body a transaction is durable or gone. -/
theorem run_transaction_store {body : Program D E φ ε α} {w w₁ : World D E φ} {a : α}
    (hbody : body.run w = (.ok a, w₁)) :
    ((transaction body).run w).2.store =
        (if w₁.applies then
          ⟨w₁.store.session, w₁.store.session, w₁.store.log ++ [.committed w₁.store.session]⟩
        else { w₁.store with session := w₁.store.committed }) ∧
      (∀ b, ((transaction body).run w).1 = .ok b → w₁.applies = true) ∧
      ∀ s, ((transaction body).run w).1 = .error s → s.FromOutside := by
  have hcommit := run_call_store (ε := ε) (fun s : Store D E =>
    ⟨s.session, s.session, s.log ++ [.committed s.session]⟩) w₁
  rcases hrun : (commit : Program D E φ ε Unit).run w₁ with ⟨s | _, w₂⟩
  · rw [commit] at hrun
    rw [hrun] at hcommit
    obtain ⟨_, houtside, _⟩ := run_call_error hrun
    simp only [transaction, restoring, run_bind, hbody, commit, hrun]
    refine ⟨?_, ?_, ?_⟩
    · rw [hcommit]
      split_ifs <;> rfl
    · rintro b ⟨⟩
    · rintro _ ⟨⟩
      exact houtside
  · rw [commit] at hrun
    rw [hrun] at hcommit
    simp only [transaction, restoring, run_bind, hbody, commit, hrun]
    refine ⟨?_, fun _ _ => applies_of_run_call hrun, ?_⟩
    · rw [if_pos (applies_of_run_call hrun)] at hcommit ⊢
      exact hcommit
    · rintro _ ⟨⟩

/-- A savepoint which is left without an exception is released. -/
theorem run_savepoint_of_ok {body : Program D E φ ε α} {w w' : World D E φ} {a : α}
    (h : w.faults = []) (hbody : body.run w = (.ok a, w')) :
    (savepoint body).run w = (.ok a, w') := by
  have hrelease := run_step_of_calm (ε := ε) (calm_run h hbody)
  rw [savepoint, run_bind_of_ok (run_step_of_calm h)]
  simp only [withStore, restoring, run_bind, hbody, hrelease]
  rfl

/-- What its block has done before an exception is undone, and nothing else. -/
theorem run_savepoint_of_error {body : Program D E φ ε α} {w w' : World D E φ} {s : Stop φ ε}
    (h : w.faults = []) (hbody : body.run w = (.error s, w')) :
    (savepoint body).run w =
      (.error s, { w' with store := { w'.store with session := w.store.session } }) := by
  rw [savepoint, run_bind_of_ok (run_step_of_calm h)]
  simp only [withStore, restoring, run_bind, hbody]

theorem run_attempt_of_ok {body : Program D E φ ε α}
    {handler : Exn φ ε → Option (Program D E φ ε α)} {w w' : World D E φ} {a : α}
    (hbody : body.run w = (.ok a, w')) : (attempt body handler).run w = (.ok a, w') := by
  simp only [attempt, hbody]

theorem run_attempt_of_caught {body h : Program D E φ ε α}
    {handler : Exn φ ε → Option (Program D E φ ε α)} {w w' : World D E φ} {e : Exn φ ε}
    (hbody : body.run w = (.error (.raised e), w')) (hcaught : handler e = some h) :
    (attempt body handler).run w = h.run w' := by
  simp only [attempt, hbody, hcaught]

theorem run_attempt_of_missed {body : Program D E φ ε α}
    {handler : Exn φ ε → Option (Program D E φ ε α)} {w w' : World D E φ} {e : Exn φ ε}
    (hbody : body.run w = (.error (.raised e), w')) (hmissed : handler e = none) :
    (attempt body handler).run w = (.error (.raised e), w') := by
  simp only [attempt, hbody, hmissed]

/-- The environment is to refuse a step with the error, or to lose its answer. -/
def Refused (e : φ) (faults : List (Option (Fault φ))) : Prop :=
  some (.refuses e) ∈ faults ∨ some (.loses e) ∈ faults

theorem Refused.of_suffix {e : φ} {fs gs : List (Option (Fault φ))} (h : Refused e fs)
    (hsuffix : fs <:+ gs) : Refused e gs :=
  h.imp (fun hmem => hsuffix.subset hmem) fun hmem => hsuffix.subset hmem

theorem run_step_raised {w w' : World D E φ} {e : φ}
    (h : (step : Program D E φ ε Unit).run w = (.error (.raised (.infra e)), w')) :
    Refused e w.faults := by
  obtain ⟨store, faults⟩ := w
  match faults with
  | [] => simp [step, World.next] at h
  | none :: fs => simp [step, World.next] at h
  | some (.refuses x) :: fs =>
      have heq : x = e := by simpa [step, World.next] using congrArg Prod.fst h
      exact .inl (heq ▸ List.mem_cons_self)
  | some (.loses x) :: fs =>
      have heq : x = e := by simpa [step, World.next] using congrArg Prod.fst h
      exact .inr (heq ▸ List.mem_cons_self)
  | some .crashes :: fs => simp [step, World.next] at h

/-- A statement is refused by the environment, or it refuses itself. -/
theorem run_statement_raised {f : D → Except (Exn φ ε) (α × D)} {w w' : World D E φ} {e : φ}
    (h : (statement f : Program D E φ ε α).run w = (.error (.raised (.infra e)), w')) :
    Refused e w.faults ∨ f w.store.session = .error (.infra e) := by
  rcases hstep : (step : Program D E φ ε Unit).run w with ⟨s | _, w₁⟩
  · rw [statement, run_bind_of_error hstep] at h
    cases h
    exact .inl (run_step_raised hstep)
  · rw [statement, run_bind_of_ok hstep] at h
    rw [← run_step_ok hstep]
    cases hf : f w₁.store.session with
    | ok r => simp [apply, hf] at h
    | error x =>
        simp only [apply, hf, Prod.mk.injEq, Except.error.injEq, Stop.raised.injEq] at h
        exact .inr (congrArg Except.error h.1)

/-- An error leaves a savepoint from its body, or from the environment. -/
theorem run_savepoint_raised {body : Program D E φ ε α} {w w' : World D E φ} {e : φ}
    (h : (savepoint body).run w = (.error (.raised (.infra e)), w')) :
    Refused e w.faults ∨ ∃ w₁ w₂, w₁.store = w.store ∧ w₁.faults <:+ w.faults ∧
      body.run w₁ = (.error (.raised (.infra e)), w₂) := by
  rcases hstep : (step : Program D E φ ε Unit).run w with ⟨s | _, w₁⟩
  · rw [savepoint, run_bind_of_error hstep] at h
    cases h
    exact .inl (run_step_raised hstep)
  · have hw₁ := run_step_ok hstep
    have hsuffix₁ := faults_of_run hstep
    rw [savepoint, run_bind_of_ok hstep] at h
    rcases hbody : body.run w₁ with ⟨s | a, w₂⟩
    · simp only [withStore, restoring, run_bind_of_error hbody] at h
      cases h
      exact .inr ⟨w₁, w₂, hw₁, hsuffix₁, hbody⟩
    · rcases hrelease : (step : Program D E φ ε Unit).run w₂ with ⟨s | _, w₃⟩
      · simp only [withStore, restoring, run_bind_of_ok hbody, run_bind_of_error hrelease] at h
        cases h
        refine .inl ((run_step_raised hrelease).of_suffix ?_)
        exact (faults_of_run hbody).trans hsuffix₁
      · simp only [withStore, restoring, run_bind_of_ok hbody, run_bind_of_ok hrelease] at h
        cases h

/-- A savepoint which is released keeps what its body has done. -/
theorem run_savepoint_inv {body : Program D E φ ε α} {w w' : World D E φ} {a : α}
    (h : (savepoint body).run w = (.ok a, w')) :
    ∃ w₁ w₂, w₁.store = w.store ∧ body.run w₁ = (.ok a, w₂) ∧ w'.store = w₂.store := by
  obtain ⟨_, w₁, hstep, h⟩ := run_bind_ok h
  rcases hbody : body.run w₁ with ⟨s | b, w₂⟩
  · simp only [withStore, restoring, run_bind_of_error hbody] at h
    cases h
  · rcases hrelease : (step : Program D E φ ε Unit).run w₂ with ⟨s | _, w₃⟩
    · simp only [withStore, restoring, run_bind_of_ok hbody, run_bind_of_error hrelease] at h
      cases h
    · simp only [withStore, restoring, run_bind_of_ok hbody, run_bind_of_ok hrelease] at h
      cases h
      exact ⟨w₁, w₂, run_step_ok hstep, hbody, run_step_ok hrelease⟩

/-- Only the environment crashes the program. -/
def Survives (x : Program D E φ ε α) : Prop :=
  ∀ w, some .crashes ∉ w.faults → (x.run w).1 ≠ .error .crashed

namespace Survives

theorem pure (a : α) : Survives (Pure.pure a : Program D E φ ε α) :=
  fun _ _ h => by cases h

theorem update (f : Store D E → Store D E) : Survives (update f : Program D E φ ε Unit) :=
  fun _ _ h => by cases h

theorem apply (f : D → Except (Exn φ ε) (α × D)) :
    Survives (apply f : Program D E φ ε α) := by
  intro w _
  cases hf : f w.store.session <;> simp [Program.apply, hf]

/-- The environment's next move is one of the listed ones. -/
theorem next_ne_crashes {w : World D E φ} (h : some .crashes ∉ w.faults) :
    w.next.1 ≠ some .crashes := by
  obtain ⟨store, faults⟩ := w
  cases faults with
  | nil => simp [World.next]
  | cons f fs =>
      intro heq
      exact h (List.mem_cons.mpr (.inl heq.symm))

theorem step : Survives (step : Program D E φ ε Unit) := by
  intro w hw
  have hnext := next_ne_crashes hw
  rcases hn : w.next with ⟨_ | (_ | _ | _), w'⟩ <;> simp_all [Program.step]

theorem call (f : Store D E → Store D E) : Survives (call f : Program D E φ ε Unit) := by
  intro w hw
  have hnext := next_ne_crashes hw
  rcases hn : w.next with ⟨_ | (_ | _ | _), w'⟩ <;> simp_all [Program.call]

theorem external (e : E) : Survives (external e : Program D E φ ε Unit) := .call _

theorem bind {x : Program D E φ ε α} {f : α → Program D E φ ε β} (hx : Survives x)
    (hf : ∀ a, Survives (f a)) : Survives (x >>= f) := by
  intro w hw
  have hx' := hx w hw
  have hrest := x.faults_run w
  rw [run_bind]
  rcases hrun : x.run w with ⟨s | a, w'⟩ <;> rw [hrun] at hx' hrest
  · simpa using hx'
  · exact hf a w' fun hmem => hw (hrest.subset hmem)

theorem statement (f : D → Except (Exn φ ε) (α × D)) :
    Survives (statement f : Program D E φ ε α) := .bind .step fun _ => .apply f

theorem commit : Survives (commit : Program D E φ ε Unit) := .call _

theorem rollback : Survives (rollback : Program D E φ ε Unit) := .bind .step fun _ => .update _

theorem attempt {body : Program D E φ ε α} {handler : Exn φ ε → Option (Program D E φ ε α)}
    (hbody : Survives body) (hcaught : ∀ e h, handler e = some h → Survives h) :
    Survives (attempt body handler) := by
  intro w hw
  have hbody' := hbody w hw
  have hrest := body.faults_run w
  rcases hrun : body.run w with ⟨(e | _) | a, w'⟩ <;> rw [hrun] at hbody' hrest
  · cases hh : handler e with
    | none => simp [Program.attempt, hrun, hh]
    | some h =>
        simp only [Program.attempt, hrun, hh]
        exact hcaught e h hh w' fun hmem => hw (hrest.subset hmem)
  · exact absurd rfl hbody'
  · simp [Program.attempt, hrun]

theorem forEach {body : α → Program D E φ ε Unit} (h : ∀ a, Survives (body a)) (as : List α) :
    Survives (forEach body as) := by
  induction as with
  | nil => exact .pure ()
  | cons a as ih => exact .bind (h a) fun _ => ih

theorem closing {body : Program D E φ ε α} (h : Survives body) : Survives (closing body) := by
  intro w hw
  have hbody := h w hw
  rcases hrun : body.run w with ⟨s | a, w'⟩ <;> rw [hrun] at hbody
  · simpa [Program.closing, restoring, run_bind, hrun] using hbody
  · simp [run_closing_of_ok hrun]

end Survives

abbrev Assertion (D E : Type) := Store D E → Prop

def Meets (post : α → Assertion D E) (stop : Stop φ ε → Assertion D E) :
    Except (Stop φ ε) α × World D E φ → Prop
  | (.ok a, w) => post a w.store
  | (.error s, w) => stop s w.store

/-- From `pre` the program returns in `post` or stops in `stop`. -/
def Triple (pre : Assertion D E) (x : Program D E φ ε α) (post : α → Assertion D E)
    (stop : Stop φ ε → Assertion D E) : Prop :=
  ∀ w, pre w.store → Meets post stop (x.run w)

variable {pre pre' : Assertion D E} {Q post post' : α → Assertion D E}
variable {stop stop' : Stop φ ε → Assertion D E}

theorem Triple.ok {x : Program D E φ ε α} (h : Triple pre x post stop) {w w' : World D E φ}
    {a : α} (hw : pre w.store) (hx : x.run w = (.ok a, w')) : post a w'.store := by
  simpa [hx, Meets] using h w hw

theorem Triple.error {x : Program D E φ ε α} (h : Triple pre x post stop) {w w' : World D E φ}
    {s : Stop φ ε} (hw : pre w.store) (hx : x.run w = (.error s, w')) : stop s w'.store := by
  simpa [hx, Meets] using h w hw

theorem Triple.consequence {x : Program D E φ ε α} (h : Triple pre x post stop)
    (hpre : ∀ s, pre' s → pre s) (hpost : ∀ a s, post a s → post' a s)
    (hstop : ∀ e s, stop e s → stop' e s) : Triple pre' x post' stop' := by
  intro w hw
  have hx := h w (hpre _ hw)
  rcases hrun : x.run w with ⟨s | a, w'⟩
  · rw [hrun] at hx
    exact hstop _ _ hx
  · rw [hrun] at hx
    exact hpost _ _ hx

/-- Two triples of one program hold together. -/
theorem Triple.and {x : Program D E φ ε α} (h : Triple pre x post stop)
    (h' : Triple pre' x post' stop') :
    Triple (fun s => pre s ∧ pre' s) x (fun a s => post a s ∧ post' a s)
      (fun e s => stop e s ∧ stop' e s) := by
  intro w hw
  have hx := h w hw.1
  have hx' := h' w hw.2
  rcases hrun : x.run w with ⟨s | a, w'⟩ <;> rw [hrun] at hx hx' <;> exact ⟨hx, hx'⟩

/-- What a program leaves behind, where returning and stopping need the same. -/
theorem Triple.store {P : Assertion D E} {x : Program D E φ ε α}
    (h : Triple pre x (fun _ => P) (fun _ => P)) {w : World D E φ} (hw : pre w.store) :
    P (x.run w).2.store := by
  have hx := h w hw
  rcases hrun : x.run w with ⟨s | a, w'⟩ <;> rw [hrun] at hx <;> exact hx

theorem Triple.trivial (x : Program D E φ ε α) :
    Triple (fun _ => True) x (fun _ _ => True) (fun _ _ => True) := by
  intro w _
  rcases hrun : x.run w with ⟨s | a, w'⟩ <;> exact True.intro

theorem Triple.pure {a : α} (h : ∀ s, pre s → post a s) :
    Triple pre (Pure.pure a : Program D E φ ε α) post stop := fun w hw => h w.store hw

theorem Triple.raise {e : ε} (h : ∀ s, pre s → stop (.raised (.app e)) s) :
    Triple pre (raise e : Program D E φ ε α) post stop := fun w hw => h w.store hw

theorem Triple.bind {x : Program D E φ ε α} {f : α → Program D E φ ε β}
    {final : β → Assertion D E} (hx : Triple pre x Q stop)
    (hf : ∀ a, Triple (Q a) (f a) final stop) : Triple pre (x >>= f) final stop := by
  intro w hw
  have hx' := hx w hw
  rw [run_bind]
  rcases hrun : x.run w with ⟨s | a, w'⟩
  · rw [hrun] at hx'
    exact hx'
  · rw [hrun] at hx'
    exact hf a w' hx'

theorem Triple.step (h : ∀ e s, e.FromOutside → pre s → stop e s) :
    Triple pre (step : Program D E φ ε Unit) (fun _ => pre) stop := by
  intro w hw
  have hs : pre w.next.2.store := by rwa [World.next_store]
  rcases hn : w.next with ⟨_ | (_ | _ | _), w'⟩ <;> rw [hn] at hs
  · simpa [Program.step, hn, Meets] using hs
  · simpa [Program.step, hn, Meets] using h (.raised (.infra _)) _ True.intro hs
  · simpa [Program.step, hn, Meets] using h (.raised (.infra _)) _ True.intro hs
  · simpa [Program.step, hn, Meets] using h .crashed _ True.intro hs

theorem Triple.update {f : Store D E → Store D E} {final : Assertion D E}
    (h : ∀ s, pre s → final (f s)) :
    Triple pre (update f : Program D E φ ε Unit) (fun _ => final) stop := fun _ hw => h _ hw

theorem Triple.statement {f : D → Except (Exn φ ε) (α × D)}
    (hstop : ∀ e s, e.FromOutside → pre s → stop e s)
    (herror : ∀ s e, pre s → f s.session = .error e → stop (.raised e) s)
    (hok : ∀ s a d, pre s → f s.session = .ok (a, d) → post a { s with session := d }) :
    Triple pre (statement f) post stop := by
  refine Triple.bind (Triple.step hstop) fun _ w hw => ?_
  cases hf : f w.store.session with
  | ok r =>
      obtain ⟨a, d⟩ := r
      simpa [Program.apply, hf, Meets] using hok _ a d hw hf
  | error e => simpa [Program.apply, hf, Meets] using herror _ e hw hf

/-- A statement of which only the return matters. -/
theorem Triple.statement_of_ok {f : D → Except (Exn φ ε) (α × D)}
    (hok : ∀ s a d, pre s → f s.session = .ok (a, d) → post a { s with session := d }) :
    Triple pre (Program.statement f) post (fun _ _ => True) :=
  .statement (fun _ _ _ _ => True.intro) (fun _ _ _ _ => True.intro) hok

theorem Triple.query {f : D → α} (hstop : ∀ e s, e.FromOutside → pre s → stop e s)
    (hok : ∀ s, pre s → post (f s.session) s) :
    Triple pre (query f : Program D E φ ε α) post stop := by
  refine Triple.statement hstop (fun s e _ hf => nomatch hf) fun s a d hs hf => ?_
  simp only [Except.ok.injEq, Prod.mk.injEq] at hf
  obtain ⟨rfl, rfl⟩ := hf
  exact hok s hs

/-- Whoever sees an error does not know whether the change has taken place. -/
theorem Triple.call {f : Store D E → Store D E} {final : Assertion D E}
    (hstop : ∀ x s, x.FromOutside → pre s → stop x s)
    (hlost : ∀ x s, x.FromOutside → pre s → stop x (f s)) (hok : ∀ s, pre s → final (f s)) :
    Triple pre (call f : Program D E φ ε Unit) (fun _ => final) stop := by
  intro w hw
  have hs : pre w.next.2.store := by rwa [World.next_store]
  rcases hn : w.next with ⟨_ | (_ | _ | _), w'⟩ <;> rw [hn] at hs
  · simpa [Program.call, hn, Meets] using hok _ hs
  · simpa [Program.call, hn, Meets] using hstop (.raised (.infra _)) _ True.intro hs
  · simpa [Program.call, hn, Meets] using hlost (.raised (.infra _)) _ True.intro hs
  · simpa [Program.call, hn, Meets] using hstop .crashed _ True.intro hs

theorem Triple.commit {final : Assertion D E}
    (hstop : ∀ e s, e.FromOutside → pre s → stop e s)
    (hlost : ∀ e s, e.FromOutside → pre s →
      stop e ⟨s.session, s.session, s.log ++ [.committed s.session]⟩)
    (hok : ∀ s, pre s → final ⟨s.session, s.session, s.log ++ [.committed s.session]⟩) :
    Triple pre (commit : Program D E φ ε Unit) (fun _ => final) stop :=
  Triple.call hstop hlost hok

theorem Triple.rollback {final : Assertion D E}
    (hstop : ∀ e s, e.FromOutside → pre s → stop e s)
    (hok : ∀ s, pre s → final { s with session := s.committed }) :
    Triple pre (rollback : Program D E φ ε Unit) (fun _ => final) stop :=
  Triple.bind (Triple.step hstop) fun _ => Triple.update hok

theorem Triple.external {e : E} {final : Assertion D E}
    (hstop : ∀ x s, x.FromOutside → pre s → stop x s)
    (hlost : ∀ x s, x.FromOutside → pre s → stop x (logged e s))
    (hok : ∀ s, pre s → final (logged e s)) :
    Triple pre (external e : Program D E φ ε Unit) (fun _ => final) stop :=
  Triple.call hstop hlost hok

theorem Triple.restoring {back : Store D E → D} {body : Program D E φ ε α}
    (hbody : Triple pre body post (fun e s => stop e { s with session := back s })) :
    Triple pre (restoring back body) post stop := by
  intro w hw
  have hx := hbody w hw
  rcases hrun : body.run w with ⟨s | a, w'⟩
  all_goals
    rw [hrun] at hx
    simpa [Program.restoring, hrun, Meets] using hx

theorem Triple.savepoint {body : Program D E φ ε α}
    (hstop : ∀ e s, e.FromOutside → pre s → stop e s)
    (hbody : ∀ s, pre s → Triple (· = s) body
      (fun a t => post a t ∧ ∀ e, e.FromOutside → stop e { t with session := s.session })
      (fun e t => stop e { t with session := s.session })) :
    Triple pre (savepoint body) post stop := by
  refine Triple.bind (Triple.step hstop) fun _ w hw => ?_
  have hblock : Triple (· = w.store) (Program.restoring (fun _ => w.store.session) (do
      let a ← body
      Program.step
      Pure.pure a)) post stop := by
    refine Triple.restoring (Triple.bind (hbody _ hw) fun a => ?_)
    exact Triple.bind (Triple.step fun e t he ht => ht.2 e he) fun _ =>
      Triple.pure fun t ht => ht.1
  exact hblock w rfl

theorem Triple.transaction {body : Program D E φ ε α}
    (hbody : Triple pre body
      (fun a s => post a ⟨s.session, s.session, s.log ++ [.committed s.session]⟩ ∧
        ∀ e, e.FromOutside → stop e { s with session := s.committed } ∧
          stop e ⟨s.session, s.session, s.log ++ [.committed s.session]⟩)
      (fun e s => stop e { s with session := s.committed })) :
    Triple pre (transaction body) post stop := by
  refine Triple.restoring (Triple.bind hbody fun a => ?_)
  exact Triple.bind (Triple.commit (fun e s he hs => (hs.2 e he).1)
    (fun e s he hs => (hs.2 e he).2) fun s hs => hs.1) fun _ => Triple.pure fun s hs => hs

theorem Triple.closing {body : Program D E φ ε α}
    (hbody : Triple pre body (fun a s => post a { s with session := s.committed })
      (fun e s => stop e { s with session := s.committed })) :
    Triple pre (closing body) post stop :=
  Triple.restoring <| Triple.bind hbody fun _ =>
    Triple.bind (Triple.update fun _ hs => hs) fun _ => Triple.pure fun _ hs => hs

theorem Triple.attempt {body : Program D E φ ε α}
    {handler : Exn φ ε → Option (Program D E φ ε α)} (hbody : Triple pre body post stop')
    (hcrash : ∀ s, stop' .crashed s → stop .crashed s)
    (hcaught : ∀ e h, handler e = some h → Triple (stop' (.raised e)) h post stop)
    (hmissed : ∀ e, handler e = none → ∀ s, stop' (.raised e) s → stop (.raised e) s) :
    Triple pre (attempt body handler) post stop := by
  intro w hw
  have hx := hbody w hw
  rcases hrun : body.run w with ⟨(e | _) | a, w'⟩ <;> rw [hrun] at hx
  · cases hh : handler e with
    | none => simpa [Program.attempt, hrun, hh, Meets] using hmissed e hh _ hx
    | some h => simpa [Program.attempt, hrun, hh] using hcaught e h hh w' hx
  · simpa [Program.attempt, hrun, Meets] using hcrash _ hx
  · simpa [Program.attempt, hrun, Meets] using hx

/-- The invariant of a loop may speak of the items done and those to come. -/
theorem Triple.forEach {body : α → Program D E φ ε Unit}
    (inv : List α → List α → Assertion D E)
    (hbody : ∀ done a todo, Triple (inv done (a :: todo)) (body a)
      (fun _ => inv (done ++ [a]) todo) stop) (done todo : List α) :
    Triple (inv done todo) (forEach body todo) (fun _ => inv (done ++ todo) []) stop := by
  induction todo generalizing done with
  | nil => exact Triple.pure fun s hs => by simpa using hs
  | cons a todo ih =>
      refine Triple.bind (hbody done a todo) fun _ => ?_
      simpa using ih (done ++ [a])

/-- An exception of the application is one which `R` allows. -/
def Allowed (R : ε → Prop) (e : Stop φ ε) : Prop := ∀ a, e = .raised (.app a) → R a

/-- However the program ends, `P` still holds and only what `R` allows has been raised. -/
def Keeps (P : Assertion D E) (R : ε → Prop) (x : Program D E φ ε α) : Prop :=
  Triple P x (fun _ => P) (fun e s => P s ∧ Allowed R e)

variable {P : Assertion D E} {R S : ε → Prop}

theorem allowed_of_fromOutside {e : Stop φ ε} (h : e.FromOutside) : Allowed R e := by
  rintro a rfl
  exact h.elim

/-- Where a step of the environment stops the program, nothing has changed yet. -/
theorem stopped {e : Stop φ ε} (s : Store D E) (he : e.FromOutside) (hs : P s) :
    P s ∧ Allowed R e := ⟨hs, allowed_of_fromOutside he⟩

/-- What is kept holds of the store which is left behind, whatever the result. -/
theorem Keeps.store {x : Program D E φ ε α} (h : Keeps P R x) {w : World D E φ}
    (hw : P w.store) : P (x.run w).2.store :=
  Triple.store (h.consequence (fun _ hs => hs) (fun _ _ hs => hs) fun _ _ hs => hs.1) hw

/-- The same where nothing is asked of a program that stops. -/
theorem Keeps.triple {x : Program D E φ ε α} (h : Keeps P (fun _ => True) x) :
    Triple P x (fun _ => P) (fun _ _ => True) :=
  h.consequence (fun _ hs => hs) (fun _ _ hs => hs) fun _ _ _ => True.intro

namespace Keeps

theorem pure (a : α) : Keeps P R (Pure.pure a : Program D E φ ε α) :=
  Triple.pure fun _ hs => hs

theorem raise {e : ε} (h : R e) : Keeps P R (Program.raise e : Program D E φ ε α) :=
  Triple.raise fun _ hs => ⟨hs, fun _ ha => by cases ha; exact h⟩

theorem bind {x : Program D E φ ε α} {f : α → Program D E φ ε β} (hx : Keeps P R x)
    (hf : ∀ a, Keeps P R (f a)) : Keeps P R (x >>= f) := Triple.bind hx hf

theorem step : Keeps P R (step : Program D E φ ε Unit) := Triple.step fun _ => stopped

theorem statement {f : D → Except (Exn φ ε) (α × D)}
    (hok : ∀ s a d, P s → f s.session = .ok (a, d) → P { s with session := d })
    (herror : ∀ s e, P s → f s.session = .error (.app e) → R e) :
    Keeps P R (statement f : Program D E φ ε α) := by
  refine Triple.statement (fun _ => stopped) (fun s e hs hf => ⟨hs, ?_⟩) hok
  intro a ha
  cases ha
  exact herror s a hs hf

theorem query (f : D → α) : Keeps P R (query f : Program D E φ ε α) :=
  Triple.query (fun _ => stopped) fun _ hs => hs

/-- What follows a query may use the state in which it was asked. -/
theorem query_bind {f : D → α} {g : α → Program D E φ ε β}
    (h : ∀ s, P s → Keeps P R (g (f s.session))) : Keeps P R (Program.query f >>= g) := by
  refine Triple.bind (Q := fun a s => P s ∧ a = f s.session)
    (Triple.query (fun _ => stopped) fun s hs => ⟨hs, rfl⟩) fun a => ?_
  rintro w ⟨hw, rfl⟩
  exact h w.store hw w hw

theorem external {e : E} (h : ∀ s, P s → P (logged e s)) :
    Keeps P R (external e : Program D E φ ε Unit) :=
  Triple.external (fun _ => stopped)
    (fun _ s he hs => ⟨h s hs, allowed_of_fromOutside he⟩) h

theorem commit
    (h : ∀ s, P s → P ⟨s.session, s.session, s.log ++ [.committed s.session]⟩) :
    Keeps P R (commit : Program D E φ ε Unit) :=
  Triple.commit (fun _ => stopped) (fun _ s he hs => ⟨h s hs, allowed_of_fromOutside he⟩) h

theorem rollback (h : ∀ s, P s → P { s with session := s.committed }) :
    Keeps P R (rollback : Program D E φ ε Unit) := Triple.rollback (fun _ => stopped) h

theorem transaction {body : Program D E φ ε α}
    (hcommit : ∀ s, P s → P ⟨s.session, s.session, s.log ++ [.committed s.session]⟩)
    (hback : ∀ s, P s → P { s with session := s.committed }) (h : Keeps P R body) :
    Keeps P R (transaction body) := by
  refine Triple.transaction <| h.consequence (fun _ hs => hs) (fun _ s hs => ?_) fun _ s hs => ?_
  · exact ⟨hcommit s hs, fun _ he => ⟨⟨hback s hs, allowed_of_fromOutside he⟩,
      hcommit s hs, allowed_of_fromOutside he⟩⟩
  · exact ⟨hback s hs.1, hs.2⟩

theorem savepoint {body : Program D E φ ε α}
    (hback : ∀ s t, P s → P t → P { t with session := s.session }) (h : Keeps P R body) :
    Keeps P R (savepoint body) := by
  refine Triple.savepoint (fun _ => stopped) fun s hs => ?_
  refine h.consequence (fun t ht => ht ▸ hs) (fun _ t ht => ?_) fun _ t ht => ?_
  · exact ⟨ht, fun _ he => ⟨hback s t hs ht, allowed_of_fromOutside he⟩⟩
  · exact ⟨hback s t hs ht.1, ht.2⟩

theorem attempt {body : Program D E φ ε α}
    {handler : Exn φ ε → Option (Program D E φ ε α)} (hbody : Keeps P S body)
    (hcaught : ∀ e h, handler e = some h → Allowed S (.raised e : Stop φ ε) → Keeps P R h)
    (hmissed : ∀ a, handler (.app a) = none → S a → R a) :
    Keeps P R (attempt body handler) := by
  refine Triple.attempt hbody (fun s hs => ⟨hs.1, ?_⟩) (fun e h hh => ?_) fun e hh s hs => ?_
  · intro a ha
    cases ha
  · rintro w ⟨hw, hallowed⟩
    exact hcaught e h hh hallowed w hw
  · refine ⟨hs.1, ?_⟩
    intro a ha
    cases ha
    exact hmissed a hh (hs.2 a rfl)

theorem forEach {body : α → Program D E φ ε Unit} (h : ∀ a, Keeps P R (body a))
    (as : List α) : Keeps P R (forEach body as) :=
  Triple.forEach (fun _ _ => P) (fun _ a _ => h a) [] as

end Keeps

/-- `I` holds of the durable database and of the session's view. -/
def Holds (I : D → Prop) : Assertion D E := fun s => I s.committed ∧ I s.session

namespace Holds
variable {I : D → Prop}

theorem statement {f : D → Except (Exn φ ε) (α × D)}
    (hok : ∀ d a d', I d → f d = .ok (a, d') → I d')
    (herror : ∀ d e, I d → f d = .error (.app e) → R e) :
    Keeps (Holds I : Assertion D E) R (statement f : Program D E φ ε α) :=
  .statement (fun s a d hs hf => ⟨hs.1, hok s.session a d hs.2 hf⟩)
    fun s e hs hf => herror s.session e hs.2 hf

theorem external (e : E) : Keeps (Holds I) R (external e : Program D E φ ε Unit) :=
  .external fun _ hs => hs

theorem transaction {body : Program D E φ ε α} (h : Keeps (Holds I) R body) :
    Keeps (Holds I) R (transaction body) :=
  .transaction (fun _ hs => ⟨hs.2, hs.2⟩) (fun _ hs => ⟨hs.1, hs.1⟩) h

theorem savepoint {body : Program D E φ ε α} (h : Keeps (Holds I) R body) :
    Keeps (Holds I) R (savepoint body) :=
  .savepoint (fun _ _ hs ht => ⟨ht.1, hs.2⟩) h

theorem closing {body : Program D E φ ε α} (h : Keeps (Holds I) R body) :
    Keeps (Holds I) R (closing body) :=
  Triple.closing <| h.consequence (fun _ hs => hs) (fun _ _ hs => ⟨hs.1, hs.1⟩)
    fun _ _ hs => ⟨⟨hs.1.1, hs.1.1⟩, hs.2⟩

end Holds

/-- Nothing has been committed and no effect has taken place since the log was `l`. -/
def Staged (d : D) (l : List (Event D E)) : Assertion D E := fun s => s.committed = d ∧ s.log = l

namespace Staged
variable {d : D} {l : List (Event D E)}

theorem statement {f : D → Except (Exn φ ε) (α × D)}
    (herror : ∀ d e, f d = .error (.app e) → R e) :
    Keeps (Staged d l) R (statement f : Program D E φ ε α) :=
  .statement (fun _ _ _ hs _ => hs) fun s e _ hf => herror s.session e hf

theorem savepoint {body : Program D E φ ε α} (h : Keeps (Staged d l) R body) :
    Keeps (Staged d l) R (savepoint body) :=
  .savepoint (fun _ _ _ ht => ht) h

end Staged

end Program

end Vici.SessionPrograms
