import Vici.SessionPrograms

/-!
# Two runs of one program

A program runs twice, under the same faults, from stores whose databases are
related. It is `Blind` to the relation when both runs end in the same way and
leave related databases behind. Nothing reads the log, so the logs are free.

There is one rule for each constructor of programs; only a statement looks at
the database, so only its rule asks for something.
-/
namespace Vici.SessionPrograms.Program
variable {D E φ ε α β : Type} {S : D → D → Prop}

/-- What is durable is related, and so is what the sessions show. -/
structure Coupled (S : D → D → Prop) (s t : Store D E) : Prop where
  committed : S s.committed t.committed
  session : S s.session t.session

/-- Two ends of a run which differ by the relation alone. -/
structure Agree (S : D → D → Prop) (p q : Except (Stop φ ε) α × World D E φ) : Prop where
  result : p.1 = q.1
  faults : p.2.faults = q.2.faults
  stores : Coupled S p.2.store q.2.store

/-- The program cannot tell related databases apart. -/
def Blind (S : D → D → Prop) (x : Program D E φ ε α) : Prop :=
  ∀ w v, w.faults = v.faults → Coupled S w.store v.store → Agree S (x.run w) (x.run v)

/-- Two outcomes of a statement which differ by the relation alone. -/
def Alike (S : D → D → Prop) (p q : Except (Exn φ ε) (α × D)) : Prop :=
  match p, q with
  | .ok a, .ok b => a.1 = b.1 ∧ S a.2 b.2
  | .error e, .error e' => e = e'
  | _, _ => False

namespace Blind

theorem pure (a : α) : Blind S (Pure.pure a : Program D E φ ε α) :=
  fun _ _ hfaults hstores => ⟨rfl, hfaults, hstores⟩

theorem raise (e : ε) : Blind S (Program.raise e : Program D E φ ε α) :=
  fun _ _ hfaults hstores => ⟨rfl, hfaults, hstores⟩

theorem bind {x : Program D E φ ε α} {f : α → Program D E φ ε β} (hx : Blind S x)
    (hf : ∀ a, Blind S (f a)) : Blind S (x >>= f) := by
  intro w v hfaults hstores
  have h := hx w v hfaults hstores
  rcases hw : x.run w with ⟨s | a, w'⟩ <;> rcases hv : x.run v with ⟨t | b, v'⟩ <;>
    rw [hw, hv] at h
  · rw [run_bind_of_error hw, run_bind_of_error hv, Except.error.inj h.result]
    exact ⟨rfl, h.faults, h.stores⟩
  · cases h.result
  · cases h.result
  · obtain rfl := Except.ok.inj h.result
    rw [run_bind_of_ok hw, run_bind_of_ok hv]
    exact hf a w' v' h.faults h.stores

/-- The environment's next move is the same in both runs, and leaves them coupled. -/
theorem next {w v : World D E φ} (hfaults : w.faults = v.faults)
    (hstores : Coupled S w.store v.store) :
    ∃ f w' v', w.next = (f, w') ∧ v.next = (f, v') ∧ w'.faults = v'.faults ∧
      Coupled S w'.store v'.store := by
  have hmove : w.next.1 = v.next.1 ∧ w.next.2.faults = v.next.2.faults := by
    unfold World.next
    rw [hfaults]
    cases v.faults with
    | nil => exact ⟨rfl, hfaults⟩
    | cons f fs => exact ⟨rfl, rfl⟩
  rw [← w.next_store, ← v.next_store] at hstores
  exact ⟨w.next.1, w.next.2, v.next.2, rfl, Prod.ext hmove.1.symm rfl, hmove.2, hstores⟩

theorem step : Blind S (Program.step : Program D E φ ε Unit) := by
  intro w v hfaults hstores
  obtain ⟨f, w', v', hw, hv, hrest, hstores⟩ := next hfaults hstores
  simp only [Program.step, hw, hv]
  rcases f with _ | (_ | _ | _) <;> exact ⟨rfl, hrest, hstores⟩

theorem update {f : Store D E → Store D E}
    (hf : ∀ s t, Coupled S s t → Coupled S (f s) (f t)) :
    Blind S (Program.update f : Program D E φ ε Unit) :=
  fun _ _ hfaults hstores => ⟨rfl, hfaults, hf _ _ hstores⟩

theorem apply {f : D → Except (Exn φ ε) (α × D)} (hf : ∀ d e, S d e → Alike S (f d) (f e)) :
    Blind S (Program.apply f : Program D E φ ε α) := by
  intro w v hfaults hstores
  have h := hf _ _ hstores.session
  simp only [Program.apply]
  rcases hw : f w.store.session with e | ⟨a, d⟩ <;>
    rcases hv : f v.store.session with e' | ⟨b, d'⟩ <;> rw [hw, hv] at h
  · obtain rfl : e = e' := h
    exact ⟨rfl, hfaults, hstores⟩
  · exact h.elim
  · exact h.elim
  · obtain ⟨rfl, hd⟩ : a = b ∧ S d d' := h
    exact ⟨rfl, hfaults, hstores.committed, hd⟩

theorem statement {f : D → Except (Exn φ ε) (α × D)} (hf : ∀ d e, S d e → Alike S (f d) (f e)) :
    Blind S (Program.statement f : Program D E φ ε α) := step.bind fun _ => apply hf

theorem query {f : D → α} (hf : ∀ d e, S d e → f d = f e) :
    Blind S (Program.query f : Program D E φ ε α) :=
  statement fun d e hde => ⟨hf d e hde, hde⟩

theorem call {f : Store D E → Store D E} (hf : ∀ s t, Coupled S s t → Coupled S (f s) (f t)) :
    Blind S (Program.call f : Program D E φ ε Unit) := by
  intro w v hfaults hstores
  obtain ⟨move, w', v', hw, hv, hrest, hstores⟩ := next hfaults hstores
  simp only [Program.call, hw, hv]
  rcases move with _ | (_ | _ | _)
  · exact ⟨rfl, hrest, hf _ _ hstores⟩
  · exact ⟨rfl, hrest, hstores⟩
  · exact ⟨rfl, hrest, hf _ _ hstores⟩
  · exact ⟨rfl, hrest, hstores⟩

theorem commit : Blind S (Program.commit : Program D E φ ε Unit) :=
  call fun _ _ hst => ⟨hst.session, hst.session⟩

theorem external (e : E) : Blind S (Program.external e : Program D E φ ε Unit) :=
  call fun _ _ hst => ⟨hst.committed, hst.session⟩

theorem transaction {body : Program D E φ ε α} (hbody : Blind S body) :
    Blind S (Program.transaction body) := by
  intro w v hfaults hstores
  have hinner : Blind S (do
      let a ← body
      Program.commit
      Pure.pure a) := hbody.bind fun a => commit.bind fun _ => Blind.pure a
  have h := hinner w v hfaults hstores
  simp only [Program.transaction, Program.restoring]
  rcases hw : Program.run _ w with ⟨s | a, w'⟩ <;> rcases hv : Program.run _ v with ⟨t | b, v'⟩ <;>
    rw [hw, hv] at h
  · exact ⟨h.result, h.faults, h.stores.committed, h.stores.committed⟩
  · cases h.result
  · cases h.result
  · exact h

theorem attempt {body : Program D E φ ε α} {handler : Exn φ ε → Option (Program D E φ ε α)}
    (hbody : Blind S body) (hhandler : ∀ e h, handler e = some h → Blind S h) :
    Blind S (Program.attempt body handler) := by
  intro w v hfaults hstores
  have h := hbody w v hfaults hstores
  simp only [Program.attempt]
  rcases hw : body.run w with ⟨(e | _) | a, w'⟩ <;>
    rcases hv : body.run v with ⟨(e' | _) | b, v'⟩ <;>
    rw [hw, hv] at h <;> cases h.result
  · dsimp only
    cases hh : handler e with
    | none => exact ⟨rfl, h.faults, h.stores⟩
    | some x => exact hhandler e x hh w' v' h.faults h.stores
  · exact h
  · exact h

end Blind

end Vici.SessionPrograms.Program
