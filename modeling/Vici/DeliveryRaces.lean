import Vici.DeliveryFootprints
import Vici.ActionRuns
import Vici.KeyedRows

/-!
# Concurrent deliveries

Any number of deliveries run at once. Each transaction of a gate is one step,
except for the two which hold a row back until their commit: the limiter, whose
count sees the committed rows and its own one, and the route, whose insert
claims the index entry of its MessageSid until the transaction ends. An insert
which meets a claimed entry waits; one which meets a committed row fails. A
delivery may be lost at any point.

The duplicate check and the insert are different transactions, so any number of
deliveries of one MessageSid may pass the check. The index lets one of them
through; the others end in its integrity error, which no handler answers. A call
which starts a workflow may be refused, or its answer may be lost; either way it
has been made.
-/
namespace Vici.DeliveryRaces
open Models Datetimes AppPrograms SessionPrograms SmsRepositories Webhook DeliveryFootprints
open ActionRuns KeyedRows

/-- Where a delivery stands: what it has found or written last. -/
inductive Phase where
  | idle
  | validated (payload : TwilioWebhookPayload)
  | duplicate (payload : TwilioWebhookPayload)
  | checked (payload : TwilioWebhookPayload)
  | identified (inbound : InboundSms)
  | overLimit (inbound : InboundSms)
  | counted (inbound : InboundSms)
  | admitted (inbound : InboundSms)
  | inserted (inbound : InboundSms)
  | stored (inbound : InboundSms)
  | answered (answer : Except AppStop Unit)
  deriving DecidableEq

structure State where
  database : Database
  /-- The index entries of messages which are inserted but not committed. -/
  holder : Locks String ℕ
  deliveries : ℕ → Phase
  /-- The calls of `start_process_message_workflow`, refused ones among them. -/
  starts : List String
  /-- Which delivery has committed which message. -/
  creators : List (ℕ × ℕ)

inductive Action where
  | advance (i : ℕ)
  | abort (i : ℕ) (stop : AppStop)
  | loseStart (i : ℕ) (stop : AppStop)
  | refuseStart (i : ℕ) (stop : AppStop)
  deriving DecidableEq

def initial (db : Database) : State := ⟨db, fun _ => none, fun _ => .idle, [], []⟩

def State.move (s : State) (i : ℕ) (p : Phase) : State :=
  { s with deliveries := Function.update s.deliveries i p }

/-- A transaction which commits takes its delivery on; one which fails is answered. -/
def State.after {α : Type} (s : State) (i : ℕ) (next : Phase) :
    Except AppExn (α × Database) → State
  | .ok (_, d) => { s.move i next with database := d }
  | .error e => s.move i (.answered (.error (.raised e)))

section
variable (cfg : Config) (requests : ℕ → Request)

/-- The next step of a delivery; none while it waits, or once it has been answered. -/
def advance (s : State) (i : ℕ) : Option State :=
  match s.deliveries i with
  | .idle =>
      match ((validateTwilioRequest cfg (requests i)).run (.opened s.database [])).1 with
      | .ok payload => some (s.move i (.validated payload))
      | .error stop => some (s.move i (.answered (.error stop)))
  | .validated payload =>
      if !isText payload.messageSid.1 then
        some (s.move i (.answered (.error (.raised (.infra .data)))))
      else if s.database.messages.any fun m => decide (m.messageSid = payload.messageSid.1) then
        some (s.move i (.duplicate payload))
      else some (s.move i (.checked payload))
  | .duplicate payload =>
      some (s.after i (.answered (.error (.raised (.app .duplicateMessageSid))))
        (insertAudit payload.messageSid.1 .duplicate none s.database))
  | .checked payload =>
      if payload.fromNumber.1.isEmpty then
        some (s.move i (.answered (.error (.raised (.app .valueError)))))
      else if !isText payload.fromNumber.1 then
        some (s.move i (.answered (.error (.raised (.infra .data)))))
      else
        let (user, d) := upsertUser (cfg.hmac payload.fromNumber.1) (some payload.fromNumber.1)
          s.database
        some { s.move i (.identified ⟨payload, user⟩) with database := d }
  | .identified inbound =>
      match windowStart (requests i).clock.windowAt cfg.rateLimitWindowSeconds with
      | none => some (s.move i (.answered (.error (.raised (.app .overflow)))))
      | some window =>
          match insertRateLimit inbound.sender.id (requests i).clock.createdAt s.database with
          | .error e => some (s.move i (.answered (.error (.raised e))))
          | .ok (_, d) =>
              if cfg.rateLimitMax < countSince inbound.sender.id window.instant d.rateLimits then
                some (s.move i (.overLimit inbound))
              else some (s.move i (.counted inbound))
  | .overLimit inbound =>
      some (s.after i (.answered (.error (.raised (.app .rateLimitExceeded))))
        (insertAudit inbound.messageSid .rateLimited none s.database))
  | .counted inbound =>
      some (s.after i (.admitted inbound)
        (insertRateLimit inbound.sender.id (requests i).clock.createdAt s.database))
  | .admitted inbound =>
      if (s.holder inbound.messageSid).isSome then none
      else
        match insertMessage inbound.messageSid inbound.sender.id inbound.payload.body.1
            s.database with
        | .error e => some (s.move i (.answered (.error (.raised e))))
        | .ok _ => some { s.move i (.inserted inbound) with
            holder := s.holder.acquire i [inbound.messageSid] }
  | .inserted inbound =>
      match storeMessage inbound s.database with
      | .error e => some { s.move i (.answered (.error (.raised e))) with
          holder := s.holder.release i }
      | .ok (message, d) => some { s.move i (.stored inbound) with
          database := d
          holder := s.holder.release i
          creators := s.creators ++ [(message.id, i)] }
  | .stored inbound =>
      some { s.move i (.answered (.ok ())) with starts := s.starts ++ [inbound.messageSid] }
  | .answered _ => none

/-- One delivery goes on; or it is lost, and its transaction is rolled back; or the call
which starts its workflow raises, with a workflow started or without. -/
def step (s : State) : Action → Option State
  | .advance i => advance cfg requests s i
  | .abort i stop =>
      match s.deliveries i with
      | .idle | .answered _ => none
      | _ => some { s.move i (.answered (.error stop)) with holder := s.holder.release i }
  | .loseStart i stop | .refuseStart i stop =>
      match s.deliveries i with
      | .stored inbound => some { s.move i (.answered (.error stop)) with
          starts := s.starts ++ [inbound.messageSid] }
      | _ => none

end

namespace Phase

/-- The payload which the first gate has let through. -/
def payload : Phase → Option TwilioWebhookPayload
  | .validated payload | .duplicate payload | .checked payload => some payload
  | .identified inbound | .overLimit inbound | .counted inbound | .admitted inbound
  | .inserted inbound | .stored inbound => some inbound.payload
  | .idle | .answered _ => none

def inbound : Phase → Option InboundSms
  | .identified inbound | .overLimit inbound | .counted inbound | .admitted inbound
  | .inserted inbound | .stored inbound => some inbound
  | _ => none

/-- The MessageSid of a message which is inserted but not committed. -/
def inserting : Phase → Option String
  | .inserted inbound => some inbound.messageSid
  | _ => none

/-- The MessageSid of a message which is committed while its start is still to come. -/
def starting : Phase → Option String
  | .stored inbound => some inbound.messageSid
  | _ => none

end Phase

/-- Rows of the limiter, and audit rows of messages which are not stored. -/
def Aside (d d' : Database) : Prop :=
  ∃ limits logs, (∀ row ∈ logs, row.event ≠ .received) ∧
    d' = { d with rateLimits := limits, auditLogs := d.auditLogs ++ logs }

section
variable {cfg : Config} {requests : ℕ → Request} {s t : State} {i : ℕ} {a : Action}
variable {d d' : Database}

theorem Aside.refl (d : Database) : Aside d d :=
  ⟨d.rateLimits, [], by simp, by simp⟩

theorem aside_of_insertAudit {messageSid : String} {event : AuditEvent} (hevent : event ≠ .received)
    (h : insertAudit messageSid event none d = .ok ((), d')) : Aside d d' := by
  obtain ⟨row, _, hrow, rfl⟩ := insertAudit_ok h
  exact ⟨d.rateLimits, [row], by simpa [hrow] using hevent, rfl⟩

theorem aside_of_insertRateLimit {userId : ℕ} {now : ℤ}
    (h : insertRateLimit userId now d = .ok ((), d')) : Aside d d' := by
  obtain ⟨j, rfl⟩ := insertRateLimit_ok h
  exact ⟨d.rateLimits ++ [⟨j, userId, now⟩], [], by simp, by simp⟩

/-- The next phase is not about to store or to start anything, and it holds what the
last one held or the form of the request holds. -/
structure Passes (req : Request) (p q : Phase) : Prop where
  apart : p.inserting = none
  inserting : q.inserting = none
  starting : q.starting = none
  payload : ∀ x, q.payload = some x →
    p.payload = some x ∨ TwilioWebhookPayload.parse (formData req.form) = .ok x
  inbound : ∀ x, q.inbound = some x → p.inbound = some x

theorem Passes.answered {req : Request} {p : Phase} (apart : p.inserting = none)
    (answer : Except AppStop Unit) : Passes req p (.answered answer) :=
  ⟨apart, rfl, rfl, fun _ h => (by cases h), fun _ h => by cases h⟩

theorem Passes.carried {req : Request} {p q : Phase} (apart : p.inserting = none)
    (inserting : q.inserting = none) (starting : q.starting = none)
    (payload : q.payload = p.payload) (inbound : q.inbound = p.inbound) : Passes req p q :=
  ⟨apart, inserting, starting, fun _ hx => .inl (payload ▸ hx), fun _ hx => inbound ▸ hx⟩

/-- The kinds of steps of delivery `i`. -/
inductive Change (cfg : Config) (requests : ℕ → Request) (s : State) (i : ℕ) : State → Prop
  | aside {p : Phase} {d : Database} (hp : Passes (requests i) (s.deliveries i) p)
      (hd : Aside s.database d) : Change cfg requests s i { s.move i p with database := d }
  | upserted {payload : TwilioWebhookPayload} {user : User} {d : Database}
      (hphase : s.deliveries i = .checked payload)
      (hupsert : upsertUser (cfg.hmac payload.fromNumber.1) (some payload.fromNumber.1)
        s.database = (user, d)) :
      Change cfg requests s i { s.move i (.identified ⟨payload, user⟩) with database := d }
  | inserted {inbound : InboundSms} (hphase : s.deliveries i = .admitted inbound)
      (hfree : s.holder inbound.messageSid = none)
      (hfresh : inbound.messageSid ∉ sids s.database) :
      Change cfg requests s i { s.move i (.inserted inbound) with
        holder := s.holder.acquire i [inbound.messageSid] }
  | stored {inbound : InboundSms} {message : Message} {d : Database}
      (hphase : s.deliveries i = .inserted inbound)
      (hstore : storeMessage inbound s.database = .ok (message, d)) :
      Change cfg requests s i { s.move i (.stored inbound) with
        database := d
        holder := s.holder.release i
        creators := s.creators ++ [(message.id, i)] }
  | dropped {answer : Except AppStop Unit} : Change cfg requests s i
      { s.move i (.answered answer) with holder := s.holder.release i }
  | started {inbound : InboundSms} {answer : Except AppStop Unit}
      (hphase : s.deliveries i = .stored inbound) :
      Change cfg requests s i { s.move i (.answered answer) with
        starts := s.starts ++ [inbound.messageSid] }

theorem Change.passes {p : Phase} (hp : Passes (requests i) (s.deliveries i) p) :
    Change cfg requests s i (s.move i p) := .aside hp (Aside.refl _)

theorem Change.after {α : Type} {p : Phase} {r : Except AppExn (α × Database)}
    (hp : Passes (requests i) (s.deliveries i) p)
    (hr : ∀ a d, r = .ok (a, d) → Aside s.database d) :
    Change cfg requests s i (s.after i p r) := by
  cases hcases : r with
  | error e => exact .passes (.answered hp.apart _)
  | ok done => exact .aside hp (hr done.1 done.2 hcases)

theorem advance_cases (h : advance cfg requests s i = some t) : Change cfg requests s i t := by
  unfold advance at h
  split at h
  case h_1 hphase =>
    have hapart : (s.deliveries i).inserting = none := by rw [hphase]; rfl
    split at h
    case h_1 payload hvalid =>
      cases h
      have hparse : TwilioWebhookPayload.parse (formData (requests i).form) = .ok payload :=
        ((validateTwilioRequest_triple (P := fun _ => True) (R := fun _ => True)
          fun _ _ => trivial).ok trivial (Prod.ext hvalid rfl)).2
      refine .passes ⟨hapart, rfl, rfl, fun x hx => .inr ?_, fun _ h => by cases h⟩
      cases hx
      exact hparse
    case h_2 stop _ =>
      cases h
      exact .passes (.answered hapart _)
  case h_2 payload hphase =>
    split_ifs at h
    · cases h
      exact .passes (hphase ▸ .answered rfl _)
    · cases h
      exact .passes (hphase ▸ .carried rfl rfl rfl rfl rfl)
    · cases h
      exact .passes (hphase ▸ .carried rfl rfl rfl rfl rfl)
  case h_3 payload hphase =>
    cases h
    exact .after (hphase ▸ .answered rfl _) fun _ d hd => aside_of_insertAudit (by decide) hd
  case h_4 payload hphase =>
    split_ifs at h
    · cases h
      exact .passes (hphase ▸ .answered rfl _)
    · cases h
      exact .passes (hphase ▸ .answered rfl _)
    · cases h
      exact .upserted hphase rfl
  case h_5 inbound hphase =>
    split at h
    · cases h
      exact .passes (hphase ▸ .answered rfl _)
    · split at h
      · cases h
        exact .passes (hphase ▸ .answered rfl _)
      · split_ifs at h
        · cases h
          exact .passes (hphase ▸ .carried rfl rfl rfl rfl rfl)
        · cases h
          exact .passes (hphase ▸ .carried rfl rfl rfl rfl rfl)
  case h_6 inbound hphase =>
    cases h
    exact .after (hphase ▸ .answered rfl _) fun _ d hd => aside_of_insertAudit (by decide) hd
  case h_7 inbound hphase =>
    cases h
    exact .after (hphase ▸ .carried rfl rfl rfl rfl rfl)
      fun _ d hd => aside_of_insertRateLimit hd
  case h_8 inbound hphase =>
    split_ifs at h with hheld
    split at h
    case h_1 =>
      cases h
      exact .passes (hphase ▸ .answered rfl _)
    case h_2 done hinsert =>
      cases h
      refine .inserted hphase (by simpa using hheld) ?_
      intro hmem
      obtain ⟨m, hm, hsid⟩ := List.mem_map.mp hmem
      exact (insertMessage_ok hinsert).1 m hm hsid
  case h_9 inbound hphase =>
    split at h
    case h_1 =>
      cases h
      exact .dropped
    case h_2 message d hstore =>
      cases h
      exact .stored hphase hstore
  case h_10 inbound hphase =>
    cases h
    exact .started hphase
  case h_11 => cases h

theorem step_cases (h : step cfg requests s a = some t) : ∃ i, Change cfg requests s i t := by
  cases a with
  | advance i => exact ⟨i, advance_cases h⟩
  | abort i stop =>
      simp only [step] at h
      split at h
      case h_3 =>
        cases h
        exact ⟨i, .dropped⟩
      all_goals cases h
  | loseStart i stop | refuseStart i stop =>
      simp only [step] at h
      split at h
      case h_1 inbound hphase =>
        cases h
        exact ⟨i, .started hphase⟩
      case h_2 => cases h

end

def isReceived (messageSid : String) (row : AuditLog) : Bool :=
  decide (row.messageSid = messageSid ∧ row.event = .received)

def receivedCount (messageSid : String) (d : Database) : ℕ :=
  d.auditLogs.countP (isReceived messageSid)

/-- What the tables promise: a unique index, and no audit row of a message without it. -/
structure Consistent (d : Database) : Prop where
  unique : (sids d).Nodup
  received : ∀ messageSid, receivedCount messageSid d ≤ (sids d).count messageSid

/-- A MessageSid is claimed by one delivery at most, and never once it is stored; it is
started once at most, by the delivery which has stored it. -/
structure Sound (s : State) : Prop where
  consistent : Consistent s.database
  held : ∀ i messageSid, (s.deliveries i).inserting = some messageSid ↔
    s.holder messageSid = some i
  fresh : ∀ i messageSid, (s.deliveries i).inserting = some messageSid →
    messageSid ∉ sids s.database
  pending : ∀ i messageSid, (s.deliveries i).starting = some messageSid →
    messageSid ∈ sids s.database ∧ messageSid ∉ s.starts
  alone : ∀ i j messageSid, (s.deliveries i).starting = some messageSid →
    (s.deliveries j).starting = some messageSid → i = j
  once : s.starts.Nodup
  started : ∀ messageSid ∈ s.starts, messageSid ∈ sids s.database

section
variable {cfg : Config} {requests : ℕ → Request} {s t : State} {i : ℕ} {a : Action}
variable {d d' : Database}

theorem sound_initial (h : Consistent d) : Sound (initial d) where
  consistent := h
  held := by simp [initial, Phase.inserting]
  fresh := by simp [initial, Phase.inserting]
  pending := by simp [initial, Phase.starting]
  alone := by simp [initial, Phase.starting]
  once := List.nodup_nil
  started := by simp [initial]

theorem Aside.sids_eq (h : Aside d d') : sids d' = sids d := by
  obtain ⟨limits, logs, _, rfl⟩ := h
  rfl

theorem Aside.receivedCount_eq (h : Aside d d') (messageSid : String) :
    receivedCount messageSid d' = receivedCount messageSid d := by
  obtain ⟨limits, logs, hlogs, rfl⟩ := h
  have hnone : logs.countP (isReceived messageSid) = 0 := by
    apply List.countP_eq_zero.mpr
    intro row hrow hreceived
    exact hlogs row hrow (of_decide_eq_true hreceived).2
  rw [receivedCount, List.countP_append, hnone]
  rfl

theorem Aside.consistent (h : Aside d d') (hd : Consistent d) : Consistent d' where
  unique := by rw [h.sids_eq]; exact hd.unique
  received messageSid := by
    rw [h.sids_eq, h.receivedCount_eq]
    exact hd.received messageSid

theorem deliveries_move (s : State) (i j : ℕ) (p : Phase) :
    (s.move i p).deliveries j = if j = i then p else s.deliveries j :=
  Function.update_apply _ _ _ _

/-- Only the phase of a delivery which has nothing at stake has changed. -/
theorem Sound.pass {p : Phase} (h : Sound s) (hconsistent : Consistent t.database)
    (hsids : sids t.database = sids s.database) (hholder : t.holder = s.holder)
    (hstarts : t.starts = s.starts) (hdeliveries : t.deliveries = (s.move i p).deliveries)
    (hapart : (s.deliveries i).inserting = none) (hinserting : p.inserting = none)
    (hstarting : p.starting = none) : Sound t := by
  have hins : ∀ j, (t.deliveries j).inserting = (s.deliveries j).inserting := by
    intro j
    rw [hdeliveries, deliveries_move]
    split_ifs with hj
    · rw [hj, hinserting, hapart]
    · rfl
  have hstart : ∀ j messageSid, (t.deliveries j).starting = some messageSid →
      (s.deliveries j).starting = some messageSid := by
    intro j messageSid hj
    rw [hdeliveries, deliveries_move] at hj
    split_ifs at hj
    · rw [hstarting] at hj
      cases hj
    · exact hj
  constructor
  · exact hconsistent
  · intro j messageSid
    rw [hins, hholder]
    exact h.held j messageSid
  · intro j messageSid hj
    rw [hsids]
    exact h.fresh j messageSid (hins j ▸ hj)
  · intro j messageSid hj
    rw [hsids, hstarts]
    exact h.pending j messageSid (hstart j messageSid hj)
  · intro j k messageSid hj hk
    exact h.alone j k messageSid (hstart j messageSid hj) (hstart k messageSid hk)
  · rw [hstarts]
    exact h.once
  · rw [hstarts, hsids]
    exact h.started

theorem inserting_move (s : State) (i j : ℕ) (p : Phase) (messageSid : String) :
    ((s.move i p).deliveries j).inserting = some messageSid ↔
      if j = i then p.inserting = some messageSid
        else (s.deliveries j).inserting = some messageSid := by
  rw [deliveries_move]
  split_ifs <;> rfl

theorem starting_move (s : State) (i j : ℕ) (p : Phase) (messageSid : String) :
    ((s.move i p).deliveries j).starting = some messageSid ↔
      if j = i then p.starting = some messageSid
        else (s.deliveries j).starting = some messageSid := by
  rw [deliveries_move]
  split_ifs <;> rfl

theorem inserting_of_move {p : Phase} {j : ℕ} {messageSid : String} (hp : p.inserting = none)
    (h : ((s.move i p).deliveries j).inserting = some messageSid) :
    j ≠ i ∧ (s.deliveries j).inserting = some messageSid := by
  rw [inserting_move, hp] at h
  split_ifs at h with hj
  exact ⟨hj, h⟩

theorem starting_of_move {p : Phase} {j : ℕ} {messageSid : String} (hp : p.starting = none)
    (h : ((s.move i p).deliveries j).starting = some messageSid) :
    j ≠ i ∧ (s.deliveries j).starting = some messageSid := by
  rw [starting_move, hp] at h
  split_ifs at h with hj
  exact ⟨hj, h⟩

/-- A delivery which does not insert any longer has given its claim back. -/
theorem Sound.held_release {p : Phase} (h : Sound s) (hinserting : p.inserting = none) (j : ℕ)
    (messageSid : String) : ((s.move i p).deliveries j).inserting = some messageSid ↔
      s.holder.release i messageSid = some j := by
  rw [inserting_move, Locks.release_eq_some, ← h.held]
  split_ifs with hj <;> simp [hj, hinserting]

theorem Sound.dropped (h : Sound s) (answer : Except AppStop Unit) :
    Sound { s.move i (.answered answer) with holder := s.holder.release i } where
  consistent := h.consistent
  held := h.held_release rfl
  fresh j _ hj := h.fresh j _ (inserting_of_move rfl hj).2
  pending j _ hj := h.pending j _ (starting_of_move rfl hj).2
  alone j k _ hj hk := h.alone j k _ (starting_of_move rfl hj).2 (starting_of_move rfl hk).2
  once := h.once
  started := h.started

theorem Sound.inserted {inbound : InboundSms} (h : Sound s)
    (hphase : s.deliveries i = .admitted inbound) (hfree : s.holder inbound.messageSid = none)
    (hfresh : inbound.messageSid ∉ sids s.database) :
    Sound { s.move i (.inserted inbound) with
      holder := s.holder.acquire i [inbound.messageSid] } where
  consistent := h.consistent
  held := by
    intro j messageSid
    rw [inserting_move, Locks.acquire_singleton_eq_some hfree, ← h.held]
    split_ifs with hj
    · simp [hj, hphase, Phase.inserting, eq_comm]
    · simp [hj]
  fresh := by
    intro j messageSid hj
    rw [inserting_move] at hj
    split_ifs at hj
    · cases hj
      exact hfresh
    · exact h.fresh j messageSid hj
  pending j _ hj := h.pending j _ (starting_of_move rfl hj).2
  alone j k _ hj hk := h.alone j k _ (starting_of_move rfl hj).2 (starting_of_move rfl hk).2
  once := h.once
  started := h.started

/-- The commit of a message is the only change of the tables which the invariant sees. -/
theorem Consistent.stored {inbound : InboundSms} {message : Message} (h : Consistent d)
    (hstore : storeMessage inbound d = .ok (message, d')) :
    Consistent d' ∧ sids d' = sids d ++ [inbound.messageSid] := by
  obtain ⟨hfresh, hsid, _, _, rfl⟩ := storeMessage_ok hstore
  have hsids : sids (audited inbound.messageSid .received (some message.id)
      { d with messages := d.messages ++ [message] }) = sids d ++ [inbound.messageSid] := by
    rw [audited, sids, List.map_append, List.map_singleton, hsid]
  refine ⟨⟨?_, ?_⟩, hsids⟩
  · rw [hsids]
    exact h.unique.append (List.nodup_singleton _) (List.disjoint_singleton.mpr hfresh)
  · intro messageSid
    rw [hsids, List.count_append, receivedCount, audited, List.countP_append]
    apply Nat.add_le_add (h.received messageSid)
    rw [List.countP_singleton, List.count_singleton]
    split_ifs with hrow hne
    · exact le_rfl
    · simp only [isReceived, decide_eq_true_eq] at hrow
      simp [hrow.1] at hne
    · exact Nat.zero_le _
    · exact le_rfl

theorem Sound.stored {inbound : InboundSms} {message : Message} (h : Sound s)
    (hphase : s.deliveries i = .inserted inbound)
    (hstore : storeMessage inbound s.database = .ok (message, d)) :
    Sound { s.move i (.stored inbound) with
      database := d
      holder := s.holder.release i
      creators := s.creators ++ [(message.id, i)] } := by
  have hins : (s.deliveries i).inserting = some inbound.messageSid := by rw [hphase]; rfl
  have hfresh := h.fresh i _ hins
  obtain ⟨hconsistent, hsids⟩ := h.consistent.stored hstore
  have hother : ∀ j, (s.deliveries j).starting ≠ some inbound.messageSid :=
    fun j hj => hfresh (h.pending j _ hj).1
  constructor
  · exact hconsistent
  · exact h.held_release rfl
  · intro j messageSid hj hmem
    obtain ⟨hne, hj⟩ := inserting_of_move rfl hj
    rw [hsids] at hmem
    rcases List.mem_append.mp hmem with hmem | hmem
    · exact h.fresh j messageSid hj hmem
    · -- two deliveries cannot claim one entry
      rw [List.mem_singleton.mp hmem] at hj
      have hheld : some j = some i := ((h.held j _).mp hj).symm.trans ((h.held i _).mp hins)
      exact hne (Option.some.inj hheld)
  · intro j messageSid hj
    rw [hsids]
    rw [starting_move] at hj
    split_ifs at hj
    · cases hj
      exact ⟨List.mem_append_right _ (List.mem_singleton_self _),
        fun hstarted => hfresh (h.started _ hstarted)⟩
    · exact ⟨List.mem_append_left _ (h.pending j messageSid hj).1, (h.pending j messageSid hj).2⟩
  · intro j k messageSid hj hk
    rw [starting_move] at hj hk
    split_ifs at hj hk with hji hki hki
    · rw [hji, hki]
    · cases hj
      exact absurd hk (hother k)
    · cases hk
      exact absurd hj (hother j)
    · exact h.alone j k messageSid hj hk
  · exact h.once
  · intro messageSid hstarted
    rw [hsids]
    exact List.mem_append_left _ (h.started messageSid hstarted)

theorem Sound.started_once {inbound : InboundSms} (h : Sound s)
    (hphase : s.deliveries i = .stored inbound) (answer : Except AppStop Unit) :
    Sound { s.move i (.answered answer) with starts := s.starts ++ [inbound.messageSid] } := by
  have hstart : (s.deliveries i).starting = some inbound.messageSid := by rw [hphase]; rfl
  obtain ⟨hstored, hfirst⟩ := h.pending i _ hstart
  constructor
  · exact h.consistent
  · intro j messageSid
    refine (inserting_move s i j _ messageSid).trans (Iff.trans ?_ (h.held j messageSid))
    split_ifs with hj
    · simp [hj, hphase, Phase.inserting]
    · rfl
  · intro j messageSid hj
    exact h.fresh j messageSid (inserting_of_move rfl hj).2
  · intro j messageSid hj
    obtain ⟨hne, hj⟩ := starting_of_move rfl hj
    refine ⟨(h.pending j messageSid hj).1, fun hmem => ?_⟩
    rcases List.mem_append.mp hmem with hmem | hmem
    · exact (h.pending j messageSid hj).2 hmem
    · rw [List.mem_singleton.mp hmem] at hj
      exact hne (h.alone j i _ hj hstart)
  · intro j k messageSid hj hk
    exact h.alone j k messageSid (starting_of_move rfl hj).2 (starting_of_move rfl hk).2
  · exact h.once.append (List.nodup_singleton _) (List.disjoint_singleton.mpr hfirst)
  · intro messageSid hmem
    rcases List.mem_append.mp hmem with hmem | hmem
    · exact h.started messageSid hmem
    · rw [List.mem_singleton.mp hmem]
      exact hstored

theorem sound_step (hs : Sound s) (h : step cfg requests s a = some t) : Sound t := by
  obtain ⟨i, hchange⟩ := step_cases h
  cases hchange with
  | aside hp hd =>
      exact hs.pass (hd.consistent hs.consistent) hd.sids_eq rfl rfl rfl hp.apart hp.inserting
        hp.starting
  | upserted hphase hupsert =>
      obtain ⟨_, _, users, rfl⟩ := upsertUser_ok hupsert
      exact hs.pass ⟨hs.consistent.unique, hs.consistent.received⟩ rfl rfl rfl rfl
        (by rw [hphase]; rfl) rfl rfl
  | inserted hphase hfree hfresh => exact hs.inserted hphase hfree hfresh
  | stored hphase hstore => exact hs.stored hphase hstore
  | dropped => exact hs.dropped _
  | started hphase => exact hs.started_once hphase _

theorem sound_of_run {run : List Action} (hd : Consistent d)
    (h : exec (step cfg requests) (initial d) run = some s) : Sound s :=
  reachable_invariant Sound (fun _ _ _ hs h => sound_step hs h) (sound_initial hd) ⟨run, h⟩

/-- However deliveries of one MessageSid are interleaved, repeated or lost, one message
is stored for them, one audit row says so, and one start is attempted. -/
theorem processed_once {run : List Action} (hd : Consistent d)
    (h : exec (step cfg requests) (initial d) run = some s) (messageSid : String) :
    (s.database.messages.filter fun m => decide (m.messageSid = messageSid)).length ≤ 1 ∧
      (s.database.auditLogs.filter (isReceived messageSid)).length ≤ 1 ∧
      s.starts.count messageSid ≤ 1 := by
  have hs := sound_of_run hd h
  have hcount : (sids s.database).count messageSid ≤ 1 :=
    List.nodup_iff_count_le_one.mp hs.consistent.unique messageSid
  refine ⟨length_filter_key_le_one hs.consistent.unique messageSid, ?_, ?_⟩
  · rw [← List.countP_eq_length_filter]
    exact (hs.consistent.received messageSid).trans hcount
  · exact List.nodup_iff_count_le_one.mp hs.once messageSid

end

theorem consistent_empty : Consistent .empty :=
  ⟨List.nodup_nil, fun _ => Nat.zero_le _⟩

/-- The gates of a delivery which is admitted. -/
def gates (i : ℕ) : List Action := List.replicate 5 (.advance i)

/-- Two deliveries pass all gates; the first one stores its message before the second
one inserts. -/
def overlapping : List Action :=
  gates 0 ++ gates 1 ++ [.advance 0, .advance 0, .advance 1, .advance 0]

def deliveredTwice : ℕ → Request := fun _ => hello

theorem processed_once_overlapping :
    ∃ s, exec (step (unsignedConfig 5 60) deliveredTwice) (initial .empty) overlapping = some s ∧
      (s.database.messages.filter fun m => decide (m.messageSid = "SM1")).length ≤ 1 ∧
      (s.database.auditLogs.filter (isReceived "SM1")).length ≤ 1 ∧
      s.starts.count "SM1" ≤ 1 := by
  have hrun : ∃ s, exec (step (unsignedConfig 5 60) deliveredTwice) (initial .empty)
      overlapping = some s := ⟨_, rfl⟩
  obtain ⟨s, hrun⟩ := hrun
  exact ⟨s, hrun, processed_once consistent_empty hrun "SM1"⟩

/-- The texts of the form can be stored. -/
def Storable (req : Request) : Prop :=
  ∀ payload, TwilioWebhookPayload.parse (formData req.form) = .ok payload →
    isText payload.messageSid.1 = true ∧ isText payload.fromNumber.1 = true ∧
      isText payload.body.1 = true

/-- A delivery carries the payload of its form. -/
def Carried (requests : ℕ → Request) (s : State) : Prop :=
  ∀ i payload, (s.deliveries i).payload = some payload →
    TwilioWebhookPayload.parse (formData (requests i).form) = .ok payload

/-- The database and the workflow service are there throughout. -/
def Available : Action → Prop
  | .advance _ => True
  | .abort _ _ | .loseStart _ _ | .refuseStart _ _ => False

/-- No delivery which has passed the duplicate check inserts its message after another
one has committed a message of the same MessageSid. -/
def InsertsFirst (s : State) : Action → Prop
  | .advance i =>
      match s.deliveries i with
      | .admitted inbound => inbound.messageSid ∉ sids s.database
      | _ => True
  | .abort _ _ | .loseStart _ _ | .refuseStart _ _ => True

/-- How many steps a delivery has before it at most. -/
def Phase.remaining : Phase → ℕ
  | .idle => 8
  | .validated _ => 7
  | .checked _ => 6
  | .identified _ => 5
  | .counted _ => 4
  | .admitted _ => 3
  | .inserted _ => 2
  | .stored _ | .duplicate _ | .overLimit _ => 1
  | .answered _ => 0

/-- The senders of the deliveries under way are stored. -/
def Known (s : State) : Prop :=
  ∀ i inbound, (s.deliveries i).inbound = some inbound →
    ∃ u ∈ s.database.users, u.id = inbound.sender.id

section
variable {cfg : Config} {requests : ℕ → Request} {s t : State} {i : ℕ} {a : Action}
variable {d d' : Database} {inbound : InboundSms}

theorem deliveries_move_self (s : State) (i : ℕ) (p : Phase) : (s.move i p).deliveries i = p := by
  rw [deliveries_move, if_pos rfl]

/-- A delivery has gone on, and if it has been answered, then with 200 and empty TwiML. -/
structure Proceeds (s t : State) (i : ℕ) : Prop where
  remaining : (t.deliveries i).remaining < (s.deliveries i).remaining
  response : ∀ answer, t.deliveries i = .answered answer →
    responseOf answer = some emptyResponse

theorem Proceeds.goes {p q : Phase} (hphase : s.deliveries i = p)
    (hdeliveries : t.deliveries = (s.move i q).deliveries)
    (hremaining : 0 < q.remaining ∧ q.remaining < p.remaining) : Proceeds s t i := by
  have ht : t.deliveries i = q := by rw [hdeliveries, deliveries_move_self]
  constructor
  · rw [ht, hphase]
    exact hremaining.2
  · intro answer hanswer
    rw [← ht, hanswer] at hremaining
    exact absurd hremaining.1 (Nat.lt_irrefl 0)

theorem Proceeds.ends {p : Phase} {answer : Except AppStop Unit} (hphase : s.deliveries i = p)
    (hdeliveries : t.deliveries = (s.move i (.answered answer)).deliveries)
    (hremaining : 0 < p.remaining) (hresponse : responseOf answer = some emptyResponse) :
    Proceeds s t i := by
  have ht : t.deliveries i = .answered answer := by rw [hdeliveries, deliveries_move_self]
  constructor
  · rw [ht, hphase]
    exact hremaining
  · intro answer' hanswer
    rw [ht] at hanswer
    cases hanswer
    exact hresponse

/-- Nothing but a claimed index entry keeps a genuine delivery from going on. -/
theorem proceeds_of_ready (hs : Sound s) (hknown : Known s) (hgenuine : Genuine cfg (requests i))
    (hwindow : (windowStart (requests i).clock.windowAt cfg.rateLimitWindowSeconds).isSome)
    (htexts : ∀ payload, (s.deliveries i).payload = some payload →
      isText payload.messageSid.1 = true ∧ isText payload.fromNumber.1 = true ∧
        isText payload.body.1 = true) (hfirst : InsertsFirst s (.advance i))
    (hopen : ∀ answer, s.deliveries i ≠ .answered answer)
    (hfree : ∀ inbound, s.deliveries i = .admitted inbound →
      s.holder inbound.messageSid = none) :
    ∃ t, advance cfg requests s i = some t ∧ Proceeds s t i := by
  have hsender : ∀ inbound, (s.deliveries i).inbound = some inbound →
      ∃ u ∈ s.database.users, u.id = inbound.sender.id := hknown i
  unfold advance
  cases hphase : s.deliveries i with
  | idle =>
      obtain ⟨payload, hpassed⟩ := hgenuine
      simp only [run_validate_of_passed hpassed]
      exact ⟨_, rfl, .goes hphase rfl (by simp [Phase.remaining])⟩
  | validated payload =>
      obtain ⟨hsid, _, _⟩ := htexts payload (by rw [hphase]; rfl)
      simp only [hsid, Bool.not_true, Bool.false_eq_true, if_false]
      split_ifs
      · exact ⟨_, rfl, .goes hphase rfl (by simp [Phase.remaining])⟩
      · exact ⟨_, rfl, .goes hphase rfl (by simp [Phase.remaining])⟩
  | duplicate payload =>
      simp only [insertAudit_of_none (htexts payload (by rw [hphase]; rfl)).1]
      exact ⟨_, rfl, .ends hphase rfl Nat.one_pos rfl⟩
  | checked payload =>
      obtain ⟨_, hnumber, _⟩ := htexts payload (by rw [hphase]; rfl)
      simp only [BoundedStr.isEmpty_eq_false, hnumber, Bool.not_true, Bool.false_eq_true, if_false]
      exact ⟨_, rfl, .goes hphase rfl (by simp [Phase.remaining])⟩
  | identified inbound =>
      rw [hphase] at hsender
      obtain ⟨window, hsome⟩ := Option.isSome_iff_exists.mp hwindow
      simp only [hsome, insertRateLimit_of_mem (hsender inbound rfl)]
      split_ifs
      · exact ⟨_, rfl, .goes hphase rfl (by simp [Phase.remaining])⟩
      · exact ⟨_, rfl, .goes hphase rfl (by simp [Phase.remaining])⟩
  | overLimit inbound =>
      simp only [insertAudit_of_none (htexts inbound.payload (by rw [hphase]; rfl)).1]
      exact ⟨_, rfl, .ends hphase rfl Nat.one_pos rfl⟩
  | counted inbound =>
      rw [hphase] at hsender
      simp only [insertRateLimit_of_mem (hsender inbound rfl)]
      exact ⟨_, rfl, .goes hphase rfl (by simp [Phase.remaining])⟩
  | admitted inbound =>
      have hfresh : ∀ m ∈ s.database.messages, m.messageSid ≠ inbound.messageSid := by
        intro m hm hsid
        simp only [InsertsFirst, hphase] at hfirst
        exact hfirst (List.mem_map.mpr ⟨m, hm, hsid⟩)
      obtain ⟨hsid, _, hbody⟩ := htexts inbound.payload (by rw [hphase]; rfl)
      rw [hphase] at hsender
      simp only [hfree inbound hphase, Option.isSome_none, Bool.false_eq_true, if_false,
        insertMessage_of_fresh hsid hbody hfresh (hsender inbound rfl)]
      exact ⟨_, rfl, .goes hphase rfl (by simp [Phase.remaining])⟩
  | inserted inbound =>
      have hfresh := hs.fresh i inbound.messageSid (by rw [hphase]; rfl)
      obtain ⟨hsid, _, hbody⟩ := htexts inbound.payload (by rw [hphase]; rfl)
      rw [hphase] at hsender
      obtain ⟨m, d, hstore⟩ := storeMessage_of_fresh hsid hbody hfresh (hsender inbound rfl)
      simp only [hstore]
      exact ⟨_, rfl, .goes hphase rfl (by simp [Phase.remaining])⟩
  | stored inbound => exact ⟨_, rfl, .ends hphase rfl Nat.one_pos rfl⟩
  | answered answer => exact absurd hphase (hopen answer)

theorem Change.others (h : Change cfg requests s i t) {j : ℕ} (hj : j ≠ i) :
    t.deliveries j = s.deliveries j := by
  have hmove : ∀ p, (s.move i p).deliveries j = s.deliveries j := by
    intro p
    rw [deliveries_move, if_neg hj]
  cases h with
  | aside => exact hmove _
  | upserted => exact hmove _
  | inserted => exact hmove _
  | stored => exact hmove _
  | dropped => exact hmove _
  | started => exact hmove _

/-- Senders stay known while users are added and one delivery moves. -/
theorem Known.move {p : Phase} (h : Known s) (hdeliveries : t.deliveries = (s.move i p).deliveries)
    (hkept : ∀ id, (∃ u ∈ s.database.users, u.id = id) → ∃ u ∈ t.database.users, u.id = id)
    (hp : ∀ inbound, p.inbound = some inbound →
      ∃ u ∈ t.database.users, u.id = inbound.sender.id) : Known t := by
  intro j inbound hj
  rw [hdeliveries, deliveries_move] at hj
  split_ifs at hj
  · exact hp inbound hj
  · exact hkept _ (h j inbound hj)

theorem Change.known (h : Change cfg requests s i t) (hs : Known s) : Known t := by
  cases h with
  | aside hp hd =>
      obtain ⟨_, _, _, rfl⟩ := hd
      exact hs.move rfl (fun _ hid => hid) fun inbound hin => hs i inbound (hp.inbound _ hin)
  | upserted hphase hupsert =>
      obtain ⟨hmem, hkept, _⟩ := upsertUser_ok hupsert
      refine hs.move rfl hkept fun inbound hin => ?_
      cases hin
      exact ⟨_, hmem, rfl⟩
  | inserted hphase =>
      refine hs.move rfl (fun _ hid => hid) fun inbound hin => hs i inbound ?_
      rw [hphase]
      exact hin
  | stored hphase hstore =>
      obtain ⟨_, _, _, _, rfl⟩ := storeMessage_ok hstore
      refine hs.move rfl (fun _ hid => hid) fun inbound hin => hs i inbound ?_
      rw [hphase]
      exact hin
  | dropped => exact hs.move rfl (fun _ hid => hid) fun _ hin => by cases hin
  | started => exact hs.move rfl (fun _ hid => hid) fun _ hin => by cases hin

theorem Carried.move {p : Phase} (h : Carried requests s)
    (hdeliveries : t.deliveries = (s.move i p).deliveries)
    (hp : ∀ payload, p.payload = some payload →
      TwilioWebhookPayload.parse (formData (requests i).form) = .ok payload) :
    Carried requests t := by
  intro j payload hj
  rw [hdeliveries, deliveries_move] at hj
  split_ifs at hj with hji
  · exact hji ▸ hp payload hj
  · exact h j payload hj

theorem Change.carried (h : Change cfg requests s i t) (hs : Carried requests s) :
    Carried requests t := by
  cases h with
  | aside hp hd =>
      exact hs.move rfl fun payload hpayload => (hp.payload payload hpayload).elim (hs i payload) id
  | upserted hphase _ =>
      refine hs.move rfl fun payload hpayload => hs i payload ?_
      rw [hphase]
      exact hpayload
  | inserted hphase _ _ =>
      refine hs.move rfl fun payload hpayload => hs i payload ?_
      rw [hphase]
      exact hpayload
  | stored hphase _ =>
      refine hs.move rfl fun payload hpayload => hs i payload ?_
      rw [hphase]
      exact hpayload
  | dropped => exact hs.move rfl fun _ hpayload => by cases hpayload
  | started => exact hs.move rfl fun _ hpayload => by cases hpayload

/-- A delivery takes its next step unless it is answered or waits for an index entry. -/
theorem advance_isSome (hopen : ∀ answer, s.deliveries i ≠ .answered answer)
    (hfree : ∀ inbound, s.deliveries i = .admitted inbound →
      s.holder inbound.messageSid = none) : (advance cfg requests s i).isSome := by
  unfold advance
  cases hphase : s.deliveries i with
  | answered answer => exact absurd hphase (hopen answer)
  | admitted inbound =>
      simp only [hfree inbound hphase, Option.isSome_none, Bool.false_eq_true, if_false]
      split <;> rfl
  | identified inbound =>
      dsimp only
      split
      · rfl
      · split
        · rfl
        · split_ifs <;> rfl
  | checked payload =>
      dsimp only
      split_ifs <;> rfl
  | validated payload =>
      dsimp only
      split_ifs <;> rfl
  | _ =>
      dsimp only
      repeat' split
      all_goals rfl

/-- An enabled step is not that of an answered or a waiting delivery. -/
theorem ready_of_advance (h : advance cfg requests s i = some t) :
    (∀ answer, s.deliveries i ≠ .answered answer) ∧
      ∀ inbound, s.deliveries i = .admitted inbound → s.holder inbound.messageSid = none := by
  constructor
  · intro answer hphase
    simp [advance, hphase] at h
  · intro inbound hphase
    by_contra hheld
    simp [advance, hphase, Option.isSome_iff_ne_none, hheld] at h

/-- A delivery is answered, or it can go on, or it waits for one that can. -/
theorem Sound.unstuck (hs : Sound s) (cfg : Config) (requests : ℕ → Request) (i : ℕ) :
    (∃ answer, s.deliveries i = .answered answer) ∨ (step cfg requests s (.advance i)).isSome ∨
      ∃ inbound j, s.deliveries i = .admitted inbound ∧
        (s.deliveries j).inserting = some inbound.messageSid ∧
          (step cfg requests s (.advance j)).isSome := by
  by_cases hopen : ∀ answer, s.deliveries i ≠ .answered answer
  · by_cases hfree : ∀ inbound, s.deliveries i = .admitted inbound →
        s.holder inbound.messageSid = none
    · exact .inr (.inl (advance_isSome hopen hfree))
    · push Not at hfree
      obtain ⟨inbound, hphase, hheld⟩ := hfree
      obtain ⟨j, hj⟩ := Option.ne_none_iff_exists'.mp hheld
      have hinserting := (hs.held j _).mpr hj
      -- the holder has nothing to wait for: it is past its insert
      refine .inr (.inr ⟨inbound, j, hphase, hinserting, advance_isSome ?_ ?_⟩)
      · intro answer hanswer
        rw [hanswer] at hinserting
        cases hinserting
      · intro other hadmitted
        rw [hadmitted] at hinserting
        cases hinserting
  · push Not at hopen
    exact .inl hopen

/-- What holds in every state of a run in which no delivery is overtaken. -/
structure Timely (requests : ℕ → Request) (s : State) : Prop where
  sound : Sound s
  known : Known s
  carried : Carried requests s
  response : ∀ i answer, s.deliveries i = .answered answer →
    responseOf answer = some emptyResponse

theorem timely_initial (hd : Consistent d) : Timely requests (initial d) :=
  ⟨sound_initial hd, fun _ _ h => (by cases h), fun _ _ h => (by cases h),
    fun _ _ h => (by cases h)⟩

section
variable (hgenuine : ∀ i, Genuine cfg (requests i)) (hstorable : ∀ i, Storable (requests i))
variable (hwindow : ∀ i, (windowStart (requests i).clock.windowAt
  cfg.rateLimitWindowSeconds).isSome)
include hgenuine hstorable hwindow

theorem Timely.proceeds (hs : Timely requests s) (hfirst : InsertsFirst s (.advance i))
    (h : advance cfg requests s i = some t) : Proceeds s t i := by
  obtain ⟨hopen, hfree⟩ := ready_of_advance h
  obtain ⟨t', ht', hproceeds⟩ := proceeds_of_ready hs.sound hs.known (hgenuine i) (hwindow i)
    (fun payload hpayload => hstorable i payload (hs.carried i payload hpayload))
    hfirst hopen hfree
  obtain rfl : t' = t := Option.some.inj (ht'.symm.trans h)
  exact hproceeds

theorem timely_step (hs : Timely requests s) (hok : Available a ∧ InsertsFirst s a)
    (h : step cfg requests s a = some t) : Timely requests t := by
  obtain ⟨havailable, hfirst⟩ := hok
  cases a with
  | abort => exact havailable.elim
  | loseStart => exact havailable.elim
  | refuseStart => exact havailable.elim
  | advance i =>
      have hproceeds := hs.proceeds hgenuine hstorable hwindow hfirst h
      refine ⟨sound_step hs.sound h, (advance_cases h).known hs.known,
        (advance_cases h).carried hs.carried, fun j answer hj => ?_⟩
      rcases eq_or_ne j i with rfl | hne
      · exact hproceeds.response answer hj
      · rw [(advance_cases h).others hne] at hj
        exact hs.response j answer hj

theorem remaining_step (hs : Timely requests s) (hok : Available a ∧ InsertsFirst s a)
    (h : step cfg requests s a = some t) (i : ℕ) :
    (t.deliveries i).remaining + (if a = .advance i then 1 else 0) ≤
      (s.deliveries i).remaining := by
  obtain ⟨havailable, hfirst⟩ := hok
  cases a with
  | abort => exact havailable.elim
  | loseStart => exact havailable.elim
  | refuseStart => exact havailable.elim
  | advance j =>
      rcases eq_or_ne i j with rfl | hne
      · rw [if_pos rfl]
        exact (hs.proceeds hgenuine hstorable hwindow hfirst h).remaining
      · rw [(advance_cases h).others hne, if_neg (by simpa using hne.symm)]
        exact le_rfl

theorem timely_of_run {run : List Action} (hd : Consistent d)
    (hok : Along (step cfg requests) (fun s a => Available a ∧ InsertsFirst s a) (initial d) run)
    (h : exec (step cfg requests) (initial d) run = some s) : Timely requests s :=
  exec_invariant (Timely requests)
    (fun _ _ _ hx hy hz => timely_step hgenuine hstorable hwindow hy hx hz) hok
      (timely_initial hd) h

theorem count_advance_le {run : List Action} (hd : Consistent d)
    (hok : Along (step cfg requests) (fun s a => Available a ∧ InsertsFirst s a) (initial d) run)
    (h : exec (step cfg requests) (initial d) run = some s) (i : ℕ) :
    run.count (.advance i) ≤ 8 := by
  have hcount := countP_add_le (Timely requests) (fun b => decide (b = .advance i))
    (fun x => (x.deliveries i).remaining)
    (fun x b y hx hy hz => ⟨timely_step hgenuine hstorable hwindow hy hx hz, by
      simpa using remaining_step hgenuine hstorable hwindow hy hx hz i⟩) hok (timely_initial hd) h
  have hidle : ((initial d).deliveries i).remaining = 8 := rfl
  rw [List.count_eq_countP]
  simp only [beq_eq_decide]
  omega

/-- As long as no delivery is overtaken between its duplicate check and its insert,
every answer is 200; no delivery is stuck, and none takes more than eight steps. -/
theorem answered_200 {run : List Action} (hd : Consistent d)
    (hok : Along (step cfg requests) (fun s a => Available a ∧ InsertsFirst s a) (initial d) run)
    (h : exec (step cfg requests) (initial d) run = some s) :
    (∀ i answer, s.deliveries i = .answered answer →
      responseOf answer = some emptyResponse) ∧
      (∀ i, (∃ answer, s.deliveries i = .answered answer) ∨
        (step cfg requests s (.advance i)).isSome ∨
          ∃ inbound j, s.deliveries i = .admitted inbound ∧
            (s.deliveries j).inserting = some inbound.messageSid ∧
              (step cfg requests s (.advance j)).isSome) ∧
      ∀ i, run.count (.advance i) ≤ 8 := by
  have hs := timely_of_run hgenuine hstorable hwindow hd hok h
  refine ⟨hs.response, ?_, ?_⟩
  · intro i
    exact hs.sound.unstuck cfg requests i
  · intro i
    exact count_advance_le hgenuine hstorable hwindow hd hok h i

end

end

/-- A program which has come to its end. -/
def ended (answer : Except AppStop Unit) : App Unit :=
  ⟨fun w => (answer, w), fun _ => List.suffix_rfl⟩

def finish (inbound : InboundSms) : App Unit := do
  persistMessage inbound
  startProcessMessageWorkflow inbound

/-- What is left of the program of a delivery. -/
def rest (cfg : Config) (req : Request) : Phase → App Unit
  | .idle => do
      let payload ← validateTwilioRequest cfg req
      Webhook.checkIdempotency payload
      let inbound ← getOrCreateUser cfg payload
      let inbound ← Webhook.enforceRateLimit cfg req.clock inbound
      finish inbound
  | .validated payload => do
      Webhook.checkIdempotency payload
      let inbound ← getOrCreateUser cfg payload
      let inbound ← Webhook.enforceRateLimit cfg req.clock inbound
      finish inbound
  | .duplicate payload => do
      .transaction (writeAudit payload.messageSid.1 .duplicate none)
      .raise .duplicateMessageSid
  | .checked payload => do
      let inbound ← getOrCreateUser cfg payload
      let inbound ← Webhook.enforceRateLimit cfg req.clock inbound
      finish inbound
  | .identified inbound => do
      let inbound ← Webhook.enforceRateLimit cfg req.clock inbound
      finish inbound
  | .overLimit inbound => do
      .transaction (writeAudit inbound.messageSid .rateLimited none)
      .raise .rateLimitExceeded
  | .counted inbound => do
      .transaction (.statement (insertRateLimit inbound.sender.id req.clock.createdAt))
      finish inbound
  | .admitted inbound | .inserted inbound => finish inbound
  | .stored inbound => startProcessMessageWorkflow inbound
  | .answered answer => ended answer

section
variable {cfg : Config} {requests : ℕ → Request} {s t : State} {i : ℕ}

theorem run_rest_counted {req : Request} {inbound : InboundSms} {db : Database}
    (log : List (Event Database Effect)) (huser : ∃ u ∈ db.users, u.id = inbound.sender.id) :
    (rest cfg req (.counted inbound)).run (settled db log) =
      (finish inbound).run (settled (limited req.clock inbound.sender.id db)
        (log ++ [.committed (limited req.clock inbound.sender.id db)])) :=
  Program.run_bind_of_ok (run_limited req.clock log huser)

theorem advance_runs_validated {payload : TwilioWebhookPayload}
    (hphase : s.deliveries i = .validated payload) (h : advance cfg requests s i = some t)
    (log : List (Event Database Effect)) :
    ∃ log', (rest cfg (requests i) (.validated payload)).run (settled s.database log) =
      (rest cfg (requests i) (t.deliveries i)).run (settled t.database log') := by
  have hseen : (s.database.messages.any fun m => decide (m.messageSid = payload.messageSid.1)) =
      true ↔ payload.messageSid.1 ∈ sids s.database := by
    simp [sids]
  simp only [advance, hphase] at h
  split_ifs at h with hunfit hany
  · cases h
    rw [deliveries_move_self]
    exact ⟨log, Program.run_bind_of_error
      (run_checkIdempotency_of_unfit (Bool.not_eq_true' _ ▸ hunfit))⟩
  all_goals
    have hsid : isText payload.messageSid.1 = true := by simpa using hunfit
    have hcheck := run_checkIdempotency s.database log hsid
  · cases h
    rw [if_pos (hseen.mp hany)] at hcheck
    rw [deliveries_move_self]
    refine ⟨log, (Program.run_bind_of_error hcheck).trans ?_⟩
    rw [rest, run_rejecting, rejected_of_text hsid]
    rfl
  · cases h
    rw [if_neg (mt hseen.mpr hany)] at hcheck
    rw [deliveries_move_self]
    exact ⟨_, Program.run_bind_of_ok hcheck⟩

/-- The limiter decides once; what it has decided is carried out in the next phase. -/
theorem advance_runs_identified {inbound : InboundSms}
    (hphase : s.deliveries i = .identified inbound)
    (huser : ∃ u ∈ s.database.users, u.id = inbound.sender.id)
    (h : advance cfg requests s i = some t) (log : List (Event Database Effect)) :
    ∃ log', (rest cfg (requests i) (.identified inbound)).run (settled s.database log) =
      (rest cfg (requests i) (t.deliveries i)).run (settled t.database log') := by
  have hgate := run_enforceRateLimit cfg (requests i) log huser
  simp only [advance, hphase, insertRateLimit_eq_limited _ huser] at h
  split at h
  case h_1 hwindow =>
    cases h
    rw [hwindow] at hgate
    rw [deliveries_move_self]
    exact ⟨_, Program.run_bind_of_error hgate⟩
  case h_2 window hwindow =>
    rw [hwindow] at hgate
    dsimp only at hgate
    split_ifs at h with hover
    · cases h
      rw [if_pos hover] at hgate
      rw [deliveries_move_self]
      refine ⟨log, (Program.run_bind_of_error hgate).trans ?_⟩
      exact (run_rejecting _ _ _).symm
    · cases h
      rw [if_neg hover] at hgate
      rw [deliveries_move_self]
      refine ⟨log, (Program.run_bind_of_ok hgate).trans ?_⟩
      exact (run_rest_counted log huser).symm

/-- A rejection is answered once its audit row is committed, or with what refused the row. -/
theorem run_rest_rejected {p : Phase} {error : AppError} {messageSid : String}
    {event : AuditEvent} (hrest : rest cfg (requests i) p = (do
      .transaction (writeAudit messageSid event none)
      .raise error))
    {u : State} (hu : u = s.after i (.answered (.error (.raised (.app error))))
      (insertAudit messageSid event none s.database)) (h : some u = some t)
    (log : List (Event Database Effect)) :
    ∃ log', (rest cfg (requests i) p).run (settled s.database log) =
      (rest cfg (requests i) (t.deliveries i)).run (settled t.database log') := by
  cases h
  rw [hrest, hu, run_rejecting, rejected]
  cases haudit : insertAudit messageSid event none s.database with
  | ok done =>
      refine ⟨log ++ [.committed done.2], ?_⟩
      rw [State.after, deliveries_move_self]
      rfl
  | error e =>
      refine ⟨log, ?_⟩
      rw [State.after, deliveries_move_self]
      rfl

/-- A step of a delivery runs the program of the delivery up to the next phase. -/
theorem advance_runs (hknown : Known s) (h : advance cfg requests s i = some t)
    (log : List (Event Database Effect)) :
    ∃ log', (rest cfg (requests i) (s.deliveries i)).run (settled s.database log) =
      (rest cfg (requests i) (t.deliveries i)).run (settled t.database log') := by
  have hsender : ∀ inbound, (s.deliveries i).inbound = some inbound →
      ∃ u ∈ s.database.users, u.id = inbound.sender.id := hknown i
  have hadvance := h
  unfold advance at h
  cases hphase : s.deliveries i with
  | idle =>
      rw [hphase] at h
      obtain ⟨r, hr⟩ := run_validate cfg (requests i)
      simp only [hr] at h
      cases r with
      | ok payload =>
          cases h
          rw [deliveries_move_self]
          exact ⟨log, Program.run_bind_of_ok (hr _)⟩
      | error stop =>
          cases h
          rw [deliveries_move_self]
          exact ⟨log, Program.run_bind_of_error (hr _)⟩
  | validated payload => exact advance_runs_validated hphase hadvance log
  | duplicate payload =>
      rw [hphase] at h
      exact run_rest_rejected rfl rfl h log
  | checked payload =>
      rw [hphase] at h
      simp only [BoundedStr.isEmpty_eq_false, Bool.false_eq_true, if_false] at h
      split_ifs at h with hunfit
      · cases h
        rw [deliveries_move_self]
        exact ⟨log, Program.run_bind_of_error
          (run_getOrCreateUser_of_unfit (Bool.not_eq_true' _ ▸ hunfit))⟩
      · cases h
        rw [deliveries_move_self]
        exact ⟨_, Program.run_bind_of_ok (run_getOrCreateUser payload (by simpa using hunfit) rfl)⟩
  | identified inbound =>
      rw [hphase] at hsender
      exact advance_runs_identified hphase (hsender inbound rfl) hadvance log
  | overLimit inbound =>
      rw [hphase] at h
      exact run_rest_rejected rfl rfl h log
  | counted inbound =>
      rw [hphase] at h hsender
      have huser := hsender inbound rfl
      simp only [insertRateLimit_eq_limited _ huser] at h
      cases h
      rw [State.after, deliveries_move_self]
      exact ⟨_, run_rest_counted log huser⟩
  | admitted inbound =>
      rw [hphase] at h
      dsimp only at h
      split_ifs at h
      split at h
      case h_1 e hinsert =>
        cases h
        rw [deliveries_move_self]
        exact ⟨log, Program.run_bind_of_error (run_persistMessage_of_error hinsert)⟩
      case h_2 =>
        cases h
        rw [deliveries_move_self]
        exact ⟨log, rfl⟩
  | inserted inbound =>
      rw [hphase] at h
      dsimp only at h
      split at h
      case h_1 e hstore =>
        cases h
        rw [deliveries_move_self]
        exact ⟨log, Program.run_bind_of_error (run_persistMessage_of_refused hstore)⟩
      case h_2 m d hstore =>
        cases h
        rw [deliveries_move_self]
        exact ⟨_, Program.run_bind_of_ok (run_persistMessage hstore)⟩
  | stored inbound =>
      rw [hphase] at h
      cases h
      rw [deliveries_move_self]
      exact ⟨_, run_start inbound⟩
  | answered answer =>
      rw [hphase] at h
      cases h

theorem alone_runs {n : ℕ} (hknown : Known s)
    (h : exec (step cfg requests) s (List.replicate n (.advance i)) = some t)
    (log : List (Event Database Effect)) :
    ∃ log', (rest cfg (requests i) (s.deliveries i)).run (settled s.database log) =
      (rest cfg (requests i) (t.deliveries i)).run (settled t.database log') := by
  induction n generalizing s log with
  | zero =>
      cases h
      exact ⟨log, rfl⟩
  | succ n ih =>
      obtain ⟨m, hm, h⟩ := Option.bind_eq_some_iff.mp h
      obtain ⟨log₁, hlog₁⟩ := advance_runs hknown hm log
      obtain ⟨log₂, hlog₂⟩ := ih ((advance_cases hm).known hknown) h log₁
      exact ⟨log₂, hlog₁.trans hlog₂⟩

/-- A delivery which meets no other is answered as its program is, and commits the same. -/
theorem alone_refines {n : ℕ} {answer : Except AppStop Unit} (hknown : Known s)
    (hidle : s.deliveries i = .idle)
    (h : exec (step cfg requests) s (List.replicate n (.advance i)) = some t)
    (hanswer : t.deliveries i = .answered answer) :
    (deliver cfg s.database ⟨requests i, []⟩).1 = answer ∧
      (deliver cfg s.database ⟨requests i, []⟩).2.store.committed = t.database := by
  obtain ⟨log, hlog⟩ := alone_runs hknown h []
  rw [hidle, hanswer] at hlog
  have hdeliver : deliver cfg s.database ⟨requests i, []⟩ = (answer, settled t.database log) :=
    (deliver_eq cfg s.database (requests i)).trans hlog
  rw [hdeliver]
  exact ⟨rfl, rfl⟩

end

theorem alone_refines_hello :
    ∃ t, exec (step (unsignedConfig 5 60) deliveredTwice) (initial .empty)
        (List.replicate 8 (.advance 0)) = some t ∧
      (deliver (unsignedConfig 5 60) .empty ⟨hello, []⟩).1 = .ok () ∧
      (deliver (unsignedConfig 5 60) .empty ⟨hello, []⟩).2.store.committed = t.database := by
  obtain ⟨t, hrun, hanswer⟩ : ∃ t, exec (step (unsignedConfig 5 60) deliveredTwice)
      (initial .empty) (List.replicate 8 (.advance 0)) = some t ∧
        t.deliveries 0 = .answered (.ok ()) := ⟨_, rfl, rfl⟩
  have hknown : Known (initial .empty) := fun _ _ h => by cases h
  exact ⟨t, hrun, alone_refines hknown rfl hrun hanswer⟩

theorem genuine_deliveredTwice (i : ℕ) : Genuine (unsignedConfig 5 60) (deliveredTwice i) :=
  ⟨⟨⟨"SM1", by decide⟩, ⟨"+1", by decide⟩, ⟨"hi", by decide⟩, ⟨"AC1", by decide⟩⟩, rfl, .inl rfl⟩

/-- Two deliveries of one message, and another message of the same sender. -/
def threeDeliveries (i : ℕ) : Request :=
  if i = 2 then
    { hello with form := [("MessageSid", .text "SM2"), ("From", .text "+1"), ("Body", .text "hi"),
      ("AccountSid", .text "AC1")] }
  else hello

/-- All three are under way at once. The first one stores its message before the second one
looks for a duplicate, and its row fills the window before the third one counts. -/
def interleaved : List Action :=
  [0, 1, 2, 0, 2, 0, 2, 0, 0, 2, 0, 0, 1, 2, 1, 0].map .advance

theorem parse_threeDeliveries (i : ℕ) :
    TwilioWebhookPayload.parse (formData (threeDeliveries i).form) =
      .ok ⟨⟨if i = 2 then "SM2" else "SM1", by split_ifs <;> decide⟩, ⟨"+1", by decide⟩,
        ⟨"hi", by decide⟩, ⟨"AC1", by decide⟩⟩ := by
  by_cases h : i = 2
  · subst h
    rfl
  · simp only [threeDeliveries, if_neg h]
    rfl

theorem genuine_threeDeliveries (i : ℕ) : Genuine (unsignedConfig 1 60) (threeDeliveries i) :=
  ⟨_, parse_threeDeliveries i, .inl rfl⟩

theorem storable_threeDeliveries (i : ℕ) : Storable (threeDeliveries i) := by
  intro payload hparse
  rw [parse_threeDeliveries] at hparse
  cases hparse
  refine ⟨?_, ?_, ?_⟩
  · dsimp only
    split_ifs <;> decide
  · show isText "+1" = true
    decide
  · show isText "hi" = true
    decide

theorem answered_200_interleaved :
    ∃ s, exec (step (unsignedConfig 1 60) threeDeliveries) (initial .empty) interleaved = some s ∧
      s.deliveries 0 = .answered (.ok ()) ∧
      s.deliveries 1 = .answered (.error (.raised (.app .duplicateMessageSid))) ∧
      s.deliveries 2 = .answered (.error (.raised (.app .rateLimitExceeded))) ∧
      (∀ i answer, s.deliveries i = .answered answer →
        responseOf answer = some emptyResponse) ∧
      (∀ i, (∃ answer, s.deliveries i = .answered answer) ∨
        (step (unsignedConfig 1 60) threeDeliveries s (.advance i)).isSome ∨
          ∃ inbound j, s.deliveries i = .admitted inbound ∧
            (s.deliveries j).inserting = some inbound.messageSid ∧
              (step (unsignedConfig 1 60) threeDeliveries s (.advance j)).isSome) ∧
      ∀ i, interleaved.count (.advance i) ≤ 8 := by
  have hok : Along (step (unsignedConfig 1 60) threeDeliveries)
      (fun s a => Available a ∧ InsertsFirst s a) (initial .empty) interleaved := by
    rw [interleaved]
    repeat first
      | exact trivial
      | refine .cons ?_ rfl ?_
        first
          | exact ⟨trivial, trivial⟩
          | exact ⟨trivial, List.not_mem_nil⟩
  have hwindow (i : ℕ) : (windowStart (threeDeliveries i).clock.windowAt 60).isSome := by
    by_cases h : i = 2
    · subst h
      rfl
    · rw [threeDeliveries, if_neg h]
      rfl
  obtain ⟨s, hrun, hfirst, hsecond, hthird⟩ : ∃ s,
      exec (step (unsignedConfig 1 60) threeDeliveries) (initial .empty) interleaved = some s ∧
        s.deliveries 0 = .answered (.ok ()) ∧
        s.deliveries 1 = .answered (.error (.raised (.app .duplicateMessageSid))) ∧
        s.deliveries 2 = .answered (.error (.raised (.app .rateLimitExceeded))) :=
    ⟨_, rfl, rfl, rfl, rfl⟩
  exact ⟨s, hrun, hfirst, hsecond, hthird, answered_200 genuine_threeDeliveries
    storable_threeDeliveries hwindow consistent_empty hok hrun⟩

/-- Both deliveries pass the duplicate check; the second one is answered with the
integrity error of its insert, and will be repeated. -/
theorem overtaken_answered_500 :
    (∀ i, Genuine (unsignedConfig 5 60) (deliveredTwice i)) ∧ (∀ a ∈ overlapping, Available a) ∧
      ∃ s, exec (step (unsignedConfig 5 60) deliveredTwice) (initial .empty) overlapping = some s ∧
        s.deliveries 0 = .answered (.ok ()) ∧
        s.deliveries 1 = .answered (.error (.raised (.infra .integrity))) ∧
        (responseOf (.error (.raised (.infra .integrity)))).map Response.status = some 500 := by
  refine ⟨genuine_deliveredTwice, ?_, _, rfl, rfl, rfl, rfl⟩
  simp [overlapping, gates, Available]

end Vici.DeliveryRaces
