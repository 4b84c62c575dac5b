import Vici.CoupledRuns
import Vici.RateLimiter

/-!
# The limiter and the purge of its rows

The limiter counts the rows of a configurable window; the purge deletes rows
older than a constant. Two runs of the same requests, one of them interrupted
by purges, are coupled: their databases agree on everything but the rows of the
limiter, and on the counts which a window of the present can still ask for.
That coupling survives a purge as long as the window is no longer than what the
purge retains.
-/
namespace Vici.RateLimitPurge
open Models Datetimes AppPrograms SessionPrograms SmsRepositories Webhook RateLimiter
open Program (Triple Holds Blind Alike Coupled Agree)

/-- `RATE_LIMIT_PURGE_RETENTION`, one hour -/
def rateLimitPurgeRetention : ℤ := 3600 * second

/-- Rows older than the cutoff are deleted; the result counts them. -/
def purgeRateLimitEntries (olderThan : ℤ) : App ℕ :=
  .statement fun db => .ok
    (db.rateLimits.countP fun r => decide (r.createdAt < olderThan),
      { db with rateLimits := db.rateLimits.filter fun r => !decide (r.createdAt < olderThan) })

def purgeRateLimitActivity (now : ℤ) : App String :=
  match Datetime.ofInstant (now - rateLimitPurgeRetention) with
  | none => .raise .overflow
  | some cutoff => .closing (do
      let _ ← purgeRateLimitEntries cutoff.instant
      .commit
      pure "ok")

/-- What one run of the activity leaves behind. -/
def purged (db : Database) (now : ℤ) (faults : List (Option AppFault)) : Database :=
  ((purgeRateLimitActivity now).run (.opened db faults)).2.store.committed

inductive Step where
  | deliver (d : Delivery)
  | purge (now : ℤ) (faults : List (Option AppFault))

namespace Step

def isDelivery : Step → Bool
  | deliver _ => true
  | purge _ _ => false

/-- The first and the last reading of the clock in a step. -/
def first : Step → ℤ
  | deliver d => d.request.clock.windowAt
  | purge now _ => now

def last : Step → ℤ
  | deliver d => d.request.clock.createdAt
  | purge now _ => now

end Step

/-- Which requests of a run the limiter lets through, one entry for each request. -/
def admissions (cfg : Config) : Database → List Step → List (Option Admission)
  | _, [] => []
  | db, .deliver d :: rest =>
      admission cfg db d :: admissions cfg (Webhook.deliver cfg db d).2.store.committed rest
  | db, .purge now faults :: rest => admissions cfg (purged db now faults) rest

/-- A clock of the calendar which never goes back. -/
def Ordered (steps : List Step) : Prop :=
  (∀ e ∈ steps, 0 ≤ e.first ∧ e.first ≤ e.last ∧ e.last < calendarEnd) ∧
    steps.Pairwise fun e f => e.last ≤ f.first

theorem Ordered.cons {e : Step} {rest : List Step} (h : Ordered (e :: rest)) :
    (0 ≤ e.first ∧ e.first ≤ e.last ∧ e.last < calendarEnd) ∧
      (∀ f ∈ rest, e.last ≤ f.first) ∧ Ordered rest := by
  obtain ⟨hlast, hrest⟩ := List.pairwise_cons.mp h.2
  exact ⟨h.1 e List.mem_cons_self, hlast, fun f hf => h.1 f (List.mem_cons_of_mem e hf), hrest⟩

/-- Under settings of the limiter no purge changes which requests are admitted. -/
def PurgeInvisible (maxMessages windowSeconds : ℤ) : Prop :=
  ∀ cfg : Config, cfg.rateLimitMax = maxMessages → cfg.rateLimitWindowSeconds = windowSeconds →
    ∀ db steps, db.rateLimits = [] → Ordered steps →
      admissions cfg db steps = admissions cfg db (steps.filter Step.isDelivery)

/-- The databases agree on everything but the limiter's rows, and these on every
count from `bound` on. -/
structure SameFrom (bound : ℤ) (d e : Database) : Prop where
  frame : e = { d with rateLimits := e.rateLimits }
  counts : ∀ userId since, bound ≤ since →
    countSince userId since d.rateLimits = countSince userId since e.rateLimits

theorem SameFrom.refl (bound : ℤ) (d : Database) : SameFrom bound d d := ⟨rfl, fun _ _ _ => rfl⟩

theorem SameFrom.mono {bound bound' : ℤ} {d e : Database} (h : SameFrom bound d e)
    (hle : bound ≤ bound') : SameFrom bound' d e :=
  ⟨h.frame, fun userId since hsince => h.counts userId since (hle.trans hsince)⟩

/-- A statement which neither reads nor writes the limiter's rows. -/
def IgnoresLimits {α : Type} (f : Database → Except AppExn (α × Database)) : Prop :=
  ∀ d rows, f { d with rateLimits := rows } =
    (f d).map fun p => (p.1, { p.2 with rateLimits := rows })

section
variable {bound : ℤ} {cfg : Config} {req : Request} {α : Type}

theorem IgnoresLimits.alike {f : Database → Except AppExn (α × Database)} (hf : IgnoresLimits f)
    {d e : Database} (h : SameFrom bound d e) : Alike (SameFrom bound) (f d) (f e) := by
  have hself := hf d d.rateLimits
  have hother := hf d e.rateLimits
  rw [← h.frame] at hother
  rw [hother]
  cases hd : f d with
  | error x => exact rfl
  | ok p =>
      rw [hd] at hself
      have hrows : p.2.rateLimits = d.rateLimits := by
        have := congrArg (fun q : α × Database => q.2.rateLimits) (Except.ok.inj hself)
        simpa using this
      refine ⟨rfl, rfl, ?_⟩
      intro userId since hsince
      rw [hrows]
      exact h.counts userId since hsince

theorem blind_of_ignores {f : Database → Except AppExn (α × Database)} (hf : IgnoresLimits f) :
    Blind (SameFrom bound) (.statement f : App α) := Blind.statement fun _ _ h => hf.alike h

theorem ignores_insertAudit (messageSid : String) (event : AuditEvent) (messageId : Option ℕ) :
    IgnoresLimits (insertAudit messageSid event messageId) := by
  intro d rows
  unfold insertAudit
  split_ifs <;> rfl

theorem ignores_upsertUser (phoneHash : String) (phoneE164 : Option String) :
    IgnoresLimits fun db => .ok (upsertUser phoneHash phoneE164 db) := by
  intro d rows
  unfold upsertUser
  dsimp only
  cases d.users.find? fun u => decide (u.phoneHash = phoneHash) <;> rfl

theorem ignores_insertMessage (messageSid : String) (userId : ℕ) (body : String) :
    IgnoresLimits (insertMessage messageSid userId body) := by
  intro d rows
  unfold insertMessage
  dsimp only
  split_ifs <;> rfl

theorem blind_writeAudit (messageSid : String) (event : AuditEvent) (messageId : Option ℕ) :
    Blind (SameFrom bound) (writeAudit messageSid event messageId) :=
  blind_of_ignores (ignores_insertAudit messageSid event messageId)

theorem blind_bindParameters {fits : Bool} : Blind (SameFrom bound) (bindParameters fits) := by
  unfold bindParameters
  split_ifs
  · exact .pure _
  · exact .statement fun _ _ _ => rfl

theorem blind_auditing {error : AppError} {messageSid : String} {event : AuditEvent} {body : App α}
    (hbody : Blind (SameFrom bound) body) :
    Blind (SameFrom bound) (auditing error messageSid event body) := by
  refine .attempt hbody fun e handler hhandler => ?_
  split_ifs at hhandler
  cases hhandler
  exact .bind (.transaction (blind_writeAudit _ _ _)) fun _ => .raise _

theorem blind_identify : Blind (SameFrom bound) (identify cfg req) := by
  refine .bind ?_ fun payload => .bind (blind_auditing (.transaction ?_)) fun _ => ?_
  · unfold validateTwilioRequest
    split
    · exact .raise _
    · split_ifs
      · exact .pure _
      · split
        · exact .raise _
        · split_ifs
          · exact .pure _
          · exact .raise _
  · refine .bind blind_bindParameters fun _ => .bind (.query fun d e h => ?_) fun seen => ?_
    · rw [h.frame]
    · split_ifs
      · exact .raise _
      · exact .pure _
  · refine .bind ?_ fun phoneHash =>
      .bind (.transaction (.bind blind_bindParameters fun _ =>
        blind_of_ignores (ignores_upsertUser _ _))) fun user => .pure _
    unfold hashPhone
    split_ifs
    · exact .raise _
    · exact .pure _

theorem alike_insertRateLimit (userId : ℕ) (now : ℤ) {d e : Database} (h : SameFrom bound d e) :
    Alike (SameFrom bound) (insertRateLimit userId now d) (insertRateLimit userId now e) := by
  have husers : e.users = d.users := by rw [h.frame]
  unfold insertRateLimit
  rw [husers]
  split_ifs
  · exact rfl
  · refine ⟨rfl, ?_, ?_⟩
    · rw [h.frame]
    · intro u since hsince
      have hcounts := h.counts u since hsince
      simp only [countSince, List.countP_append, List.countP_singleton] at hcounts ⊢
      omega

/-- The window of the request starts where the counts still agree. -/
theorem blind_enforceRateLimit {clock : Readings} {inbound : InboundSms}
    (hcovers : bound ≤ since cfg clock) :
    Blind (SameFrom bound) (Webhook.enforceRateLimit cfg clock inbound) := by
  refine .bind (blind_auditing (.transaction ?_)) fun _ => .pure _
  unfold SmsRepositories.enforceRateLimit
  split
  case h_1 => exact .raise _
  case h_2 window hwindow =>
    have hinstant : window.instant = since cfg clock := Datetime.instant_ofInstant hwindow
    refine .bind (.statement fun _ _ h => alike_insertRateLimit _ _ h) fun _ =>
      .bind (.query fun d e h => ?_) fun count => ?_
    · exact h.counts _ _ (hinstant ▸ hcovers)
    · split_ifs
      · exact .raise _
      · exact .pure _

theorem blind_receiveSms (hcovers : bound ≤ since cfg req.clock) :
    Blind (SameFrom bound) (receiveSms cfg req) := by
  rw [receiveSms_eq]
  refine .bind blind_identify fun inbound => .bind (blind_enforceRateLimit hcovers) fun inbound' =>
    .bind (.transaction ?_) fun _ => .external _
  exact .bind (blind_of_ignores (ignores_insertMessage _ _ _)) fun _ => blind_writeAudit _ _ _

/-- The gates up to the limiter, whose result tells whether the request is admitted. -/
theorem admission_eq (cfg : Config) (db : Database) (d : Delivery) :
    admission cfg db d =
      match ((do
          let inbound ← identify cfg d.request
          Webhook.enforceRateLimit cfg d.request.clock inbound).run (.opened db d.faults)).1 with
      | .ok inbound => some (inbound.sender.id, d.request.clock.createdAt)
      | .error _ => none := by
  unfold admission
  rcases hid : (identify cfg d.request).run (.opened db d.faults) with ⟨s | inbound, w⟩
  · rw [Program.run_bind_of_error hid]
  · rw [Program.run_bind_of_ok hid]
    rcases hgate : (Webhook.enforceRateLimit cfg d.request.clock inbound).run w
      with ⟨s | inbound', w'⟩
    · simp only [hgate]
    · obtain ⟨rfl, _⟩ := enforceRateLimit_ok hgate
      simp only [hgate]

/-- Coupled databases give the same answer to a request and stay coupled. -/
theorem coupled_deliver {db db' : Database} {d : Delivery}
    (hcovers : bound ≤ since cfg d.request.clock) (h : SameFrom bound db db') :
    admission cfg db d = admission cfg db' d ∧
      SameFrom bound (Webhook.deliver cfg db d).2.store.committed
        (Webhook.deliver cfg db' d).2.store.committed := by
  have hopened : Coupled (SameFrom bound) (World.opened db d.faults : AppWorld).store
      (World.opened db' d.faults : AppWorld).store := ⟨h, h⟩
  have hgates : Blind (SameFrom bound) (do
      let inbound ← identify cfg d.request
      Webhook.enforceRateLimit cfg d.request.clock inbound) :=
    .bind blind_identify fun _ => blind_enforceRateLimit hcovers
  constructor
  · have hresult := (hgates (.opened db d.faults) (.opened db' d.faults) rfl hopened).result
    rw [admission_eq, admission_eq, hresult]
  · exact (blind_receiveSms hcovers (.opened db d.faults) (.opened db' d.faults) rfl
      hopened).stores.committed

/-- The rows which a purge at the given time keeps. -/
def keptAt (now : ℤ) (rows : List RateLimit) : List RateLimit :=
  rows.filter fun r => !decide (r.createdAt < now - rateLimitPurgeRetention)

/-- A purge which is stopped deletes nothing, unless its commit took place. -/
theorem purged_eq (db : Database) (now : ℤ) (faults : List (Option AppFault)) :
    purged db now faults = db ∨
      purged db now faults = { db with rateLimits := keptAt now db.rateLimits } := by
  have htriple : Triple (fun s => s.committed = db ∧ s.session = db) (purgeRateLimitActivity now)
      (fun _ s => s.committed = db ∨
        s.committed = { db with rateLimits := keptAt now db.rateLimits })
      (fun _ s => s.committed = db ∨
        s.committed = { db with rateLimits := keptAt now db.rateLimits }) := by
    unfold purgeRateLimitActivity
    split
    case h_1 => exact .raise fun s hs => .inl hs.1
    case h_2 cutoff hcutoff =>
      have hinstant := Datetime.instant_ofInstant hcutoff
      refine .closing (.bind (Q := fun _ s => s.committed = db ∧
        s.session = { db with rateLimits := keptAt now db.rateLimits }) ?_ fun _ => ?_)
      · refine .statement (fun _ s _ hs => .inl hs.1) (fun s _ hs _ => .inl hs.1) ?_
        intro s _ d hs hok
        cases hok
        rw [hs.2, hinstant]
        exact ⟨hs.1, rfl⟩
      · refine .bind (.commit (fun _ s _ hs => .inl hs.1) (fun _ s _ hs => .inr hs.2)
          fun s hs => hs.2) fun _ => .pure fun s hs => .inr hs
  exact htriple.store ⟨rfl, rfl⟩

theorem countSince_keptAt {now since : ℤ} (userId : ℕ) (rows : List RateLimit)
    (hsince : now - rateLimitPurgeRetention ≤ since) :
    countSince userId since (keptAt now rows) = countSince userId since rows := by
  rw [countSince, keptAt, List.countP_filter, countSince]
  apply List.countP_congr
  intro r _
  simp only [decide_eq_true_eq, Bool.and_eq_true, Bool.not_eq_true', decide_eq_false_iff_not]
  omega

/-- From the cutoff on a purge changes no count. -/
theorem SameFrom.purged {db db' : Database} {now : ℤ} (h : SameFrom bound db db')
    (hbound : now - rateLimitPurgeRetention ≤ bound) (faults : List (Option AppFault)) :
    SameFrom bound (purged db now faults) db' := by
  rcases purged_eq db now faults with heq | heq
  · rwa [heq]
  · rw [heq]
    refine ⟨by rw [h.frame], ?_⟩
    intro userId since hsince
    rw [countSince_keptAt userId db.rateLimits (hbound.trans hsince)]
    exact h.counts userId since hsince

/-- A window within the retention: what a purge deletes no later window reaches. -/
theorem admissions_of_short_window (hshort : cfg.rateLimitWindowSeconds ≤ 3600)
    {steps : List Step} {now : ℤ} {db db' : Database}
    (hsame : SameFrom (now - cfg.rateLimitWindowSeconds * second) db db')
    (hordered : Ordered steps) (hnow : ∀ e ∈ steps, now ≤ e.first) :
    admissions cfg db steps = admissions cfg db' (steps.filter Step.isDelivery) := by
  have hretained : cfg.rateLimitWindowSeconds * second ≤ rateLimitPurgeRetention :=
    mul_le_mul_of_nonneg_right hshort (by decide)
  induction steps generalizing now db db' with
  | nil => rfl
  | cons e rest ih =>
      obtain ⟨⟨_, hspan, _⟩, hlast, hordered'⟩ := hordered.cons
      have hfirst := hnow e List.mem_cons_self
      have hsame' := hsame.mono (show now - cfg.rateLimitWindowSeconds * second ≤
        e.first - cfg.rateLimitWindowSeconds * second by omega)
      cases e with
      | deliver d =>
          obtain ⟨hanswer, hnext⟩ := coupled_deliver (le_refl (since cfg d.request.clock)) hsame'
          rw [List.filter_cons_of_pos rfl, admissions, admissions, hanswer]
          congr 1
          refine ih (hnext.mono ?_) hordered' hlast
          exact sub_le_sub_right hspan _
      | purge t faults =>
          rw [List.filter_cons_of_neg Bool.false_ne_true, admissions]
          exact ih (hsame'.purged (sub_le_sub_left hretained t) faults) hordered' hlast

/-- A limit of no messages admits nobody whose own row lies in the window. -/
theorem admissions_of_no_messages (hmax : cfg.rateLimitMax ≤ 0)
    (hwindow : 0 ≤ cfg.rateLimitWindowSeconds) {steps : List Step} {db db' : Database}
    (hordered : Ordered steps) :
    admissions cfg db steps = admissions cfg db' (steps.filter Step.isDelivery) := by
  have hnone {d : Delivery} (hd : d.request.clock.windowAt ≤ d.request.clock.createdAt)
      (e : Database) : admission cfg e d = none := by
    rw [Option.eq_none_iff_forall_not_mem]
    intro a ha
    have hlimit := (recorded_eq_some (recorded_of_admission ha)).2
    have hcount := (withinLimit_iff_of_isSome hlimit.isSome_windowStart).mp hlimit
    have hlong := mul_nonneg hwindow (by decide : (0 : ℤ) ≤ second)
    have hsince : since cfg d.request.clock ≤ d.request.clock.createdAt := by
      unfold since
      omega
    rw [if_pos hsince] at hcount
    push_cast at hcount
    omega
  induction steps generalizing db db' with
  | nil => rfl
  | cons e rest ih =>
      obtain ⟨⟨_, hspan, _⟩, _, hordered'⟩ := hordered.cons
      cases e with
      | deliver d =>
          rw [List.filter_cons_of_pos rfl, admissions, admissions, hnone hspan, hnone hspan,
            ih hordered']
      | purge t faults =>
          rw [List.filter_cons_of_neg Bool.false_ne_true, admissions]
          exact ih hordered'

/-- The row of a request lies one window after the beginning of the calendar. -/
theorem window_le_of_recorded {db : Database} {d : Delivery} {a : Admission}
    (hclock : d.request.clock.windowAt ≤ d.request.clock.createdAt)
    (h : recorded cfg db d = some a) : cfg.rateLimitWindowSeconds * second ≤ a.2 := by
  obtain ⟨hstamp, hlimit⟩ := recorded_eq_some h
  have hcalendar := Datetime.isSome_ofInstant_iff.mp hlimit.isSome_windowStart
  omega

/-- A purge deletes nothing from a table whose rows are all within the retention. -/
theorem purged_of_young {db : Database} {now : ℤ}
    (hyoung : ∀ a ∈ stamps db.rateLimits, now - rateLimitPurgeRetention ≤ a.2)
    (faults : List (Option AppFault)) : purged db now faults = db := by
  have hkept : keptAt now db.rateLimits = db.rateLimits := by
    rw [keptAt, List.filter_eq_self]
    intro r hr
    have hle := hyoung _ (List.mem_map_of_mem hr)
    simpa using hle
  rcases purged_eq db now faults with heq | heq
  · exact heq
  · rw [heq, hkept]

/-- A window so long that no row can ever become old enough to be purged. -/
theorem admissions_of_endless_window
    (hlong : calendarEnd ≤ cfg.rateLimitWindowSeconds * second + rateLimitPurgeRetention + 1)
    {steps : List Step} {db : Database} (hordered : Ordered steps)
    (hrows : ∀ a ∈ stamps db.rateLimits, cfg.rateLimitWindowSeconds * second ≤ a.2) :
    admissions cfg db steps = admissions cfg db (steps.filter Step.isDelivery) := by
  induction steps generalizing db with
  | nil => rfl
  | cons e rest ih =>
      obtain ⟨⟨_, hspan, hend⟩, _, hordered'⟩ := hordered.cons
      cases e with
      | deliver d =>
          rw [List.filter_cons_of_pos rfl, admissions, admissions]
          congr 1
          refine ih hordered' fun a ha => ?_
          rw [stamps_deliver] at ha
          rcases List.mem_append.mp ha with ha | ha
          · exact hrows a ha
          · exact window_le_of_recorded hspan (Option.mem_toList.mp ha)
      | purge t faults =>
          have hpurged : purged db t faults = db := by
            refine purged_of_young (fun a ha => ?_) faults
            have hlate := hrows a ha
            simp only [Step.last] at hend
            omega
          rw [List.filter_cons_of_neg Bool.false_ne_true, admissions, hpurged]
          exact ih hordered' hrows

end

/-- A table of the limiter's rows beside one stored user. -/
def withRows (rows : List RateLimit) : Database :=
  { Database.empty with users := [⟨1, "+1", some "+1"⟩], rateLimits := rows }

def helloAt (now : ℤ) : Request := { hello with clock := ⟨now, now⟩ }

/-- The seven steps up to the limiter's commit succeed, and the message is not stored. -/
def droppedAt (now : ℤ) : Delivery :=
  ⟨helloAt now, [none, none, none, none, none, none, none,
    some (.refuses (.unavailable "database"))]⟩

/-- The limiter lets the resident user through when its three steps succeed. -/
theorem run_enforceRateLimit_of_none {cfg : Config} {now : ℤ} {rows : List RateLimit}
    (payload : TwilioWebhookPayload) (log : List (Event Database Effect))
    (faults : List (Option AppFault)) (hlimit : WithinLimit cfg ⟨now, now⟩ rows 1) :
    ∃ i log', (Webhook.enforceRateLimit cfg ⟨now, now⟩ ⟨payload, ⟨1, "+1", some "+1"⟩⟩).run
        ⟨⟨withRows rows, withRows rows, log⟩, none :: none :: none :: faults⟩ =
      (.ok ⟨payload, ⟨1, "+1", some "+1"⟩⟩, ⟨⟨withRows (rows ++ [⟨i, 1, now⟩]),
        withRows (rows ++ [⟨i, 1, now⟩]), log'⟩, faults⟩) := by
  obtain ⟨window, hwindow, hcount⟩ := hlimit
  have hinsert : (Program.statement (insertRateLimit 1 now) : App Unit).run
      ⟨⟨withRows rows, withRows rows, log⟩, none :: none :: none :: faults⟩ =
        (.ok (), ⟨⟨withRows rows, withRows (rows ++ [⟨nextId (rows.map RateLimit.id), 1, now⟩]),
          log⟩, none :: none :: faults⟩) := rfl
  have hquery : (Program.query (fun db => countSince 1 window.instant db.rateLimits) : App ℕ).run
      ⟨⟨withRows rows, withRows (rows ++ [⟨nextId (rows.map RateLimit.id), 1, now⟩]), log⟩,
        none :: none :: faults⟩ = (.ok (countSince 1 window.instant
          (rows ++ [⟨nextId (rows.map RateLimit.id), 1, now⟩])),
            ⟨⟨withRows rows, withRows (rows ++ [⟨nextId (rows.map RateLimit.id), 1, now⟩]), log⟩,
              none :: faults⟩) := rfl
  have hrecord : ∃ count i log', (recordAndCount cfg ⟨now, now⟩
      ⟨payload, ⟨1, "+1", some "+1"⟩⟩).run
        ⟨⟨withRows rows, withRows rows, log⟩, none :: none :: none :: faults⟩ =
      (.ok count, ⟨⟨withRows (rows ++ [⟨i, 1, now⟩]), withRows (rows ++ [⟨i, 1, now⟩]), log'⟩,
        faults⟩) := by
    simp only [recordAndCount, SmsRepositories.enforceRateLimit, hwindow, Program.transaction,
      Program.restoring, bind_assoc]
    rw [Program.run_bind_of_ok hinsert, Program.run_bind_of_ok hquery, countSince_append,
      if_neg (not_lt.mpr hcount)]
    exact ⟨_, _, _, rfl⟩
  obtain ⟨count, i, log', hrecord⟩ := hrecord
  refine ⟨i, log', ?_⟩
  rw [Webhook.enforceRateLimit, Program.run_bind_of_ok (auditing_ok.mpr hrecord)]
  rfl

@[simp] theorem clock_droppedAt (now : ℤ) : (droppedAt now).request.clock = ⟨now, now⟩ := rfl

theorem run_identify_droppedAt (maxMessages windowSeconds now : ℤ) (rows : List RateLimit) :
    ∃ payload log, (identify (unsignedConfig maxMessages windowSeconds) (droppedAt now).request).run
        (.opened (withRows rows) (droppedAt now).faults) =
      (.ok ⟨payload, ⟨1, "+1", some "+1"⟩⟩, ⟨⟨withRows rows, withRows rows, log⟩,
        [none, none, none, some (.refuses (.unavailable "database"))]⟩) :=
  ⟨⟨⟨"SM1", by decide⟩, ⟨"+1", by decide⟩, ⟨"hi", by decide⟩, ⟨"AC1", by decide⟩⟩,
    [.committed (withRows rows), .committed (withRows rows)], rfl⟩

section
variable {maxMessages windowSeconds now : ℤ} {rows : List RateLimit} {n k : ℕ}

/-- A dropped request leaves its row and nothing else. -/
theorem deliver_droppedAt
    (hlimit : WithinLimit (unsignedConfig maxMessages windowSeconds) ⟨now, now⟩ rows 1) :
    admission (unsignedConfig maxMessages windowSeconds) (withRows rows) (droppedAt now) =
        some (1, now) ∧
      ∃ i, (Webhook.deliver (unsignedConfig maxMessages windowSeconds) (withRows rows)
        (droppedAt now)).2.store.committed = withRows (rows ++ [⟨i, 1, now⟩]) := by
  obtain ⟨payload, log, hreach⟩ := run_identify_droppedAt maxMessages windowSeconds now rows
  obtain ⟨i, log', hgate⟩ := run_enforceRateLimit_of_none payload log
    [some (.refuses (.unavailable "database"))] hlimit
  constructor
  · simp only [admission, hreach, clock_droppedAt, hgate]
  · refine ⟨i, ?_⟩
    rw [Webhook.deliver, receiveSms_eq, Program.run_bind_of_ok hreach, clock_droppedAt,
      Program.run_bind_of_ok hgate]
    rfl

/-- Beyond the limit it is rejected. -/
theorem admission_droppedAt_eq_none
    (hlimit : ¬WithinLimit (unsignedConfig maxMessages windowSeconds) ⟨now, now⟩ rows 1) :
    admission (unsignedConfig maxMessages windowSeconds) (withRows rows) (droppedAt now) =
      none := by
  rw [Option.eq_none_iff_forall_not_mem]
  intro a ha
  obtain ⟨payload, log, hreach⟩ := run_identify_droppedAt maxMessages windowSeconds now rows
  have hlimit' := (recorded_eq_some (recorded_of_admission ha)).2
  have hfst : a.1 = 1 := by
    unfold admission at ha
    rw [hreach] at ha
    dsimp only at ha
    split at ha
    · cases ha
    · cases ha
      rfl
  rw [hfst] at hlimit'
  exact hlimit hlimit'

/-- With rows of one stamp the limiter compares a number with the limit. -/
theorem withinLimit_of_replicate {stamp : ℤ}
    (hrows : stamps rows = List.replicate k (1, stamp))
    (hstart : 0 ≤ now - windowSeconds * second ∧ now - windowSeconds * second < calendarEnd)
    (hwindow : 0 ≤ windowSeconds) (hstamp : now - windowSeconds * second ≤ stamp) :
    WithinLimit (unsignedConfig maxMessages windowSeconds) ⟨now, now⟩ rows 1 ↔
      ((k + 1 : ℕ) : ℤ) ≤ maxMessages := by
  have hlong := mul_nonneg hwindow (by decide : (0 : ℤ) ≤ second)
  have hsince : since (unsignedConfig maxMessages windowSeconds) ⟨now, now⟩ =
    now - windowSeconds * second := rfl
  have hcount : countSince 1 (now - windowSeconds * second) rows = k := by
    rw [countSince_eq_idealCount, hrows, idealCount, List.countP_replicate]
    simp [hstamp]
  have hpast : now - windowSeconds * second ≤ now := by omega
  rw [withinLimit_iff_of_isSome (Datetime.isSome_ofInstant_iff.mpr hstart), hsince, hcount,
    if_pos hpast]
  exact Iff.rfl

/-- As many dropped requests as the limit allows, one after the other. -/
theorem admissions_burst (hwindow : 0 ≤ windowSeconds) (hnow : now = windowSeconds * second)
    (hrows : stamps rows = List.replicate k (1, now)) (hmax : ((k + n : ℕ) : ℤ) ≤ maxMessages) :
    ∃ rows', stamps rows' = List.replicate (k + n) (1, now) ∧ ∀ rest,
      admissions (unsignedConfig maxMessages windowSeconds) (withRows rows)
          (List.replicate n (.deliver (droppedAt now)) ++ rest) =
        List.replicate n (some (1, now)) ++
          admissions (unsignedConfig maxMessages windowSeconds) (withRows rows') rest := by
  induction n generalizing rows k with
  | zero => exact ⟨rows, hrows, fun rest => rfl⟩
  | succ n ih =>
      have hnonneg := mul_nonneg hwindow (by decide : (0 : ℤ) ≤ second)
      have hlimit : WithinLimit (unsignedConfig maxMessages windowSeconds) ⟨now, now⟩ rows 1 := by
        rw [withinLimit_of_replicate hrows (by rw [hnow, sub_self]; decide) hwindow (by omega)]
        push_cast at hmax ⊢
        omega
      obtain ⟨hadmitted, i, hnext⟩ := deliver_droppedAt hlimit
      have hrows' : stamps (rows ++ [⟨i, 1, now⟩]) = List.replicate (k + 1) (1, now) := by
        rw [stamps, List.map_append, ← stamps, hrows, List.replicate_succ']
        rfl
      obtain ⟨rows', hstamps, hrun⟩ := ih hrows' (by push_cast at hmax ⊢; omega)
      refine ⟨rows', by rw [hstamps, Nat.add_right_comm, Nat.add_assoc], ?_⟩
      intro rest
      rw [List.replicate_succ, List.cons_append, admissions, hadmitted, hnext, hrun]
      rfl

/-- An undisturbed purge deletes what is older than the retention. -/
theorem purged_of_calm (db : Database)
    (hcutoff : 0 ≤ now - rateLimitPurgeRetention ∧ now - rateLimitPurgeRetention < calendarEnd) :
    purged db now [] = { db with rateLimits := keptAt now db.rateLimits } := by
  obtain ⟨cutoff, hstart⟩ :=
    Option.isSome_iff_exists.mp (Datetime.isSome_ofInstant_iff.mpr hcutoff)
  have hinstant := Datetime.instant_ofInstant hstart
  simp only [purged, purgeRateLimitActivity, hstart, hinstant]
  rfl

/-- It deletes a burst which is older than that. -/
theorem keptAt_of_replicate {stamp : ℤ} (hrows : stamps rows = List.replicate k (1, stamp))
    (hold : stamp < now - rateLimitPurgeRetention) : keptAt now rows = [] := by
  rw [keptAt, List.filter_eq_nil_iff]
  intro r hr
  have hstamp : (r.userId, r.createdAt) ∈ stamps rows := List.mem_map_of_mem hr
  rw [hrows] at hstamp
  have := (Prod.mk.inj (List.eq_of_mem_replicate hstamp)).2
  simp only [Bool.not_eq_true', decide_eq_false_iff_not]
  omega

/-- A full burst, a purge after the retention, and one more request. -/
def interrupted (n : ℕ) (now later : ℤ) : List Step :=
  List.replicate n (.deliver (droppedAt now)) ++ [.purge later [], .deliver (droppedAt later)]

theorem filter_interrupted (n : ℕ) (now later : ℤ) :
    (interrupted n now later).filter Step.isDelivery =
      List.replicate n (.deliver (droppedAt now)) ++ [.deliver (droppedAt later)] := by
  rw [interrupted, List.filter_append, List.filter_replicate_of_pos rfl]
  rfl

theorem ordered_interrupted {later : ℤ} (hstart : 0 ≤ now) (hlater : now ≤ later)
    (hend : later < calendarEnd) : Ordered (interrupted n now later) := by
  constructor
  · intro e he
    simp only [interrupted, List.mem_append, List.mem_replicate, List.mem_cons,
      List.not_mem_nil, or_false] at he
    rcases he with ⟨_, rfl⟩ | rfl | rfl
    · exact ⟨hstart, le_rfl, hlater.trans_lt hend⟩
    · exact ⟨hstart.trans hlater, le_rfl, hend⟩
    · exact ⟨hstart.trans hlater, le_rfl, hend⟩
  · rw [interrupted, List.pairwise_append]
    refine ⟨List.pairwise_replicate.mpr (.inr le_rfl), ?_, ?_⟩
    · simp [Step.first, Step.last]
    · intro e he f hf
      obtain ⟨_, rfl⟩ := List.mem_replicate.mp he
      simp only [List.mem_cons, List.not_mem_nil, or_false] at hf
      rcases hf with rfl | rfl <;> exact hlater

/-- A window longer than the retention lets the purge readmit a sender. -/
theorem not_purgeInvisible (hwindow : 3600 < windowSeconds) (hmax : 0 < maxMessages)
    (hend : windowSeconds * second + rateLimitPurgeRetention + 1 < calendarEnd) :
    ¬PurgeInvisible maxMessages windowSeconds := by
  intro h
  obtain ⟨n, rfl⟩ := Int.eq_ofNat_of_zero_le hmax.le
  obtain ⟨now, hnow⟩ : ∃ now, now = windowSeconds * second := ⟨_, rfl⟩
  have hlong : rateLimitPurgeRetention + second ≤ now := by
    have := mul_le_mul_of_nonneg_right hwindow (by decide : (0 : ℤ) ≤ second)
    rw [hnow]
    rwa [add_mul, one_mul] at this
  have hretention : (0 : ℤ) < rateLimitPurgeRetention := by decide
  have hsecond : (0 : ℤ) < second := by decide
  obtain ⟨rows, hrows, hburst⟩ := admissions_burst (n := n) (k := 0) (by omega) hnow
    (rfl : stamps [] = _) (by simp : ((0 + n : ℕ) : ℤ) ≤ n)
  rw [zero_add] at hrows
  -- Without the purge the burst fills the window of the last request.
  have hrejected : ¬WithinLimit (unsignedConfig n windowSeconds)
      ⟨now + rateLimitPurgeRetention + 1, now + rateLimitPurgeRetention + 1⟩ rows 1 := by
    rw [withinLimit_of_replicate hrows (by omega) (by omega) (by omega)]
    push_cast
    omega
  -- The purge has emptied it.
  have hpurged : purged (withRows rows) (now + rateLimitPurgeRetention + 1) [] = withRows [] := by
    have hnone : keptAt (now + rateLimitPurgeRetention + 1) rows = [] :=
      keptAt_of_replicate hrows (by omega)
    rw [purged_of_calm _ (by omega)]
    simp only [withRows, hnone]
  have hadmitted : WithinLimit (unsignedConfig n windowSeconds)
      ⟨now + rateLimitPurgeRetention + 1, now + rateLimitPurgeRetention + 1⟩ [] 1 := by
    have hrows' : stamps [] = List.replicate 0 (1, now) := rfl
    rw [withinLimit_of_replicate hrows' (by omega) (by omega) (by omega)]
    omega
  have hordered := ordered_interrupted (n := n) (by omega : 0 ≤ now)
    (by omega : now ≤ now + rateLimitPurgeRetention + 1) (by omega)
  have heq := h (unsignedConfig n windowSeconds) rfl rfl (withRows []) _ rfl hordered
  rw [filter_interrupted, interrupted, hburst, hburst, List.append_cancel_left_eq] at heq
  simp only [admissions, hpurged, (deliver_droppedAt hadmitted).1,
    admission_droppedAt_eq_none hrejected] at heq
  cases heq

end

/-- The purge is invisible to the limiter exactly when the window is within the
retention, or nothing is ever admitted or grows old enough. -/
theorem purgeInvisible_iff (maxMessages windowSeconds : ℤ) :
    PurgeInvisible maxMessages windowSeconds ↔
      windowSeconds ≤ 3600 ∨ maxMessages ≤ 0 ∨
        calendarEnd ≤ windowSeconds * second + rateLimitPurgeRetention + 1 := by
  constructor
  · intro h
    by_contra hnot
    rw [not_or, not_or, not_le, not_le, not_le] at hnot
    exact not_purgeInvisible hnot.1 hnot.2.1 hnot.2.2 h
  · intro h cfg hmax hwindow db steps hempty hordered
    subst hmax hwindow
    by_cases hshort : cfg.rateLimitWindowSeconds ≤ 3600
    · have hfirst : ∀ e ∈ steps, 0 ≤ e.first := fun e he => (hordered.1 e he).1
      exact admissions_of_short_window hshort (SameFrom.refl _ db) hordered hfirst
    · rcases h.resolve_left hshort with hnone | hlong
      · exact admissions_of_no_messages hnone (by omega) hordered
      · refine admissions_of_endless_window hlong hordered fun a ha => ?_
        rw [hempty] at ha
        cases ha

/-- Two texts of one sender, and a purge right before the second. -/
def twoTexts : List Step :=
  [.deliver (texted "SM1" "+1" (7200 * second)), .purge (11000 * second) [],
    .deliver (texted "SM2" "+1" (11000 * second))]

/-- Two hours of window, one message: the purge after one hour lets a second one through. -/
theorem purge_readmits_sender :
    ¬PurgeInvisible 1 7200 ∧
      admissions (unsignedConfig 1 7200) .empty twoTexts =
        [some (1, 7200 * second), some (1, 11000 * second)] ∧
      admissions (unsignedConfig 1 7200) .empty (twoTexts.filter Step.isDelivery) =
        [some (1, 7200 * second), none] :=
  ⟨not_purgeInvisible (by decide) (by decide) (by decide), by decide +kernel, by decide +kernel⟩

end Vici.RateLimitPurge
