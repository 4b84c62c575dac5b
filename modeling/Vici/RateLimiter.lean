import Vici.Webhook

/-!
# The limiter on sequential traffic

Requests are handled one at a time. The limiter inserts a row, counts, and
takes the row back with its transaction when the count is too high; so the rows
which remain are those of the admitted requests, and the count is that of an
ideal sliding window together with the row just inserted. A row stamped before
the start of its own window does not count itself.
-/
namespace Vici.RateLimiter
open Models Datetimes AppPrograms SessionPrograms SmsRepositories Webhook
open Program (Triple Keeps Holds Allowed)

/-- An admitted request: its user and the stamp of its row. -/
abbrev Admission := ℕ × ℤ

/-- The sliding window: how many of the user's admissions are not before `since`. -/
def idealCount (admitted : List Admission) (userId : ℕ) (since : ℤ) : ℕ :=
  admitted.countP fun a => decide (a.1 = userId ∧ since ≤ a.2)

def stamps (rows : List RateLimit) : List Admission := rows.map fun r => (r.userId, r.createdAt)

theorem countSince_eq_idealCount (rows : List RateLimit) (userId : ℕ) (since : ℤ) :
    countSince userId since rows = idealCount (stamps rows) userId since := by
  rw [countSince, idealCount, stamps, List.countP_map]
  rfl

section
variable {cfg : Config} {req : Request} {clock : Readings} {rows : List RateLimit}
variable {inbound : InboundSms}

/-- The rows, with the one just inserted, are within the limit. -/
def WithinLimit (cfg : Config) (clock : Readings) (rows : List RateLimit) (userId : ℕ) : Prop :=
  ∃ window, windowStart clock.windowAt cfg.rateLimitWindowSeconds = some window ∧
    ((countSince userId window.instant rows +
      if window.instant ≤ clock.createdAt then 1 else 0 : ℕ) : ℤ) ≤ cfg.rateLimitMax

theorem countSince_append (userId i : ℕ) (since now : ℤ) :
    countSince userId since (rows ++ [⟨i, userId, now⟩]) =
      countSince userId since rows + if since ≤ now then 1 else 0 := by
  rw [countSince, countSince, List.countP_append]
  by_cases h : since ≤ now <;> simp [h]

/-- What the limiter does before its commit: it adds a row, and returns within the limit. -/
theorem limiter_triple :
    Triple (Holds fun d => d.rateLimits = rows)
      (SmsRepositories.enforceRateLimit inbound.sender.id cfg.rateLimitMax
        cfg.rateLimitWindowSeconds clock)
      (fun _ s => s.committed.rateLimits = rows ∧ (∃ i, s.session.rateLimits =
        rows ++ [⟨i, inbound.sender.id, clock.createdAt⟩]) ∧
          WithinLimit cfg clock rows inbound.sender.id)
      (fun _ s => s.committed.rateLimits = rows) := by
  unfold SmsRepositories.enforceRateLimit
  split
  case h_1 => exact .raise fun s hs => hs.1
  case h_2 window hwindow =>
    refine .bind (Q := fun _ s => s.committed.rateLimits = rows ∧
      ∃ i, s.session.rateLimits = rows ++ [⟨i, inbound.sender.id, clock.createdAt⟩]) ?_ ?_
    · refine .statement (fun _ s _ hs => hs.1) (fun s _ hs _ => hs.1) ?_
      intro s _ d hs hok
      obtain ⟨i, rfl⟩ := insertRateLimit_ok hok
      exact ⟨hs.1, i, by rw [hs.2]⟩
    · intro heq
      cases heq
      refine .bind (Q := fun count s => (s.committed.rateLimits = rows ∧
        ∃ i, s.session.rateLimits = rows ++ [⟨i, inbound.sender.id, clock.createdAt⟩]) ∧
          count = countSince inbound.sender.id window.instant s.session.rateLimits)
        (.query (fun _ s _ hs => hs.1) fun s hs => ⟨hs, rfl⟩) fun count => ?_
      split_ifs with hlimit
      · exact .raise fun s hs => hs.1.1
      · refine .pure fun s hs => ?_
        obtain ⟨⟨hcommitted, i, hsession⟩, rfl⟩ := hs
        refine ⟨hcommitted, ⟨i, hsession⟩, window, hwindow, ?_⟩
        rw [hsession, countSince_append] at hlimit
        exact not_lt.mp hlimit

/-- The limiter's transaction takes place, whether or not the gate hears of it. -/
def takesRow (cfg : Config) (clock : Readings) (inbound : InboundSms) (w : AppWorld) : Bool :=
  match (SmsRepositories.enforceRateLimit inbound.sender.id cfg.rateLimitMax
      cfg.rateLimitWindowSeconds clock).run w with
  | (.ok _, w₁) => w₁.applies
  | _ => false

theorem withinLimit_of_takesRow {w : AppWorld} (h : takesRow cfg clock inbound w = true)
    (hw : Holds (fun d => d.rateLimits = rows) w.store) :
    WithinLimit cfg clock rows inbound.sender.id := by
  unfold takesRow at h
  split at h
  case h_1 hrun => exact (limiter_triple.ok hw hrun).2.2
  case h_2 => cases h

/-- The rows are left as they were, or with one more if the transaction takes place. -/
def RowLeft (cfg : Config) (clock : Readings) (inbound : InboundSms) (rows : List RateLimit)
    (w : AppWorld) (d : Database) : Prop :=
  stamps d.rateLimits = stamps rows ++
    if takesRow cfg clock inbound w then [(inbound.sender.id, clock.createdAt)] else []

theorem run_recordAndCount_rows {w w' : AppWorld} {r : Except AppStop ℕ}
    (hw : Holds (fun d => d.rateLimits = rows) w.store)
    (h : (recordAndCount cfg clock inbound).run w = (r, w')) :
    Holds (RowLeft cfg clock inbound rows w) w'.store ∧
      ∀ count, r = .ok count → takesRow cfg clock inbound w = true := by
  rcases hlimiter : (SmsRepositories.enforceRateLimit inbound.sender.id cfg.rateLimitMax
    cfg.rateLimitWindowSeconds clock).run w with ⟨e | count, w₁⟩
  · have hw₁ := limiter_triple.error hw hlimiter
    rw [recordAndCount, Program.run_transaction_of_error hlimiter] at h
    cases h
    have hleft : RowLeft cfg clock inbound rows w w₁.store.committed := by
      simp [RowLeft, takesRow, hlimiter, hw₁]
    refine ⟨⟨hleft, hleft⟩, ?_⟩
    rintro _ ⟨⟩
  · obtain ⟨hcommitted, ⟨i, hsession⟩, _⟩ := limiter_triple.ok hw hlimiter
    obtain ⟨hstore, hok, _⟩ := Program.run_transaction_store hlimiter
    have htakes : takesRow cfg clock inbound w = w₁.applies := by rw [takesRow, hlimiter]
    rw [recordAndCount] at h
    rw [h] at hstore hok
    rw [htakes]
    refine ⟨?_, hok⟩
    split_ifs at hstore with happlies
    · have hleft : RowLeft cfg clock inbound rows w w₁.store.session := by
        simp [RowLeft, htakes, happlies, hsession, stamps]
      rw [hstore]
      exact ⟨hleft, hleft⟩
    · have hleft : RowLeft cfg clock inbound rows w w₁.store.committed := by
        simp [RowLeft, htakes, happlies, hcommitted]
      rw [hstore]
      exact ⟨hleft, hleft⟩

/-- Undisturbed, the limiter lets a stored user within the limit through. -/
theorem run_recordAndCount {w : AppWorld} (hcalm : w.faults = [])
    (hrows : w.store.session.rateLimits = rows)
    (huser : ∃ u ∈ w.store.session.users, u.id = inbound.sender.id)
    (hlimit : WithinLimit cfg clock rows inbound.sender.id) :
    ∃ count w', (recordAndCount cfg clock inbound).run w = (.ok count, w') := by
  obtain ⟨window, hwindow, hcount⟩ := hlimit
  subst hrows
  have hinsert : insertRateLimit inbound.sender.id clock.createdAt w.store.session = _ :=
    insertRateLimit_of_mem huser
  have hbody : ∃ count w', (SmsRepositories.enforceRateLimit inbound.sender.id cfg.rateLimitMax
      cfg.rateLimitWindowSeconds clock).run w = (.ok count, w') := by
    simp only [SmsRepositories.enforceRateLimit, hwindow]
    rw [Program.run_bind_of_ok (Program.run_statement_ok hcalm hinsert), Program.run_bind,
      Program.run_query_of_calm]
    · dsimp only
      rw [countSince_append, if_neg (not_lt.mpr hcount)]
      exact ⟨_, _, rfl⟩
    · exact hcalm
  obtain ⟨count, w', hrun⟩ := hbody
  exact ⟨count, _, Program.run_transaction_of_calm hcalm hrun⟩

/-- Auditing a rejection leaves the rows alone. -/
theorem run_enforceRateLimit_rows {w w' : AppWorld} {r : Except AppStop InboundSms}
    (hw : Holds (fun d => d.rateLimits = rows) w.store)
    (h : (Webhook.enforceRateLimit cfg clock inbound).run w = (r, w')) :
    Holds (RowLeft cfg clock inbound rows w) w'.store := by
  have haudit : Keeps (Holds (RowLeft cfg clock inbound rows w)) (fun _ => True) (do
      .transaction (writeAudit inbound.payload.messageSid.1 .rateLimited none)
      .raise .rateLimitExceeded : App ℕ) :=
    .bind (Holds.transaction (keeps_writeAudit (holds_auditLogs fun _ _ hleft => hleft) _ _ _))
      fun _ => .raise trivial
  have hgate : Holds (RowLeft cfg clock inbound rows w)
      ((auditing .rateLimitExceeded inbound.payload.messageSid.1 .rateLimited
        (recordAndCount cfg clock inbound)).run w).2.store := by
    rcases hrun : (recordAndCount cfg clock inbound).run w with ⟨(e | _) | count, w₁⟩
    all_goals have hrows := (run_recordAndCount_rows hw hrun).1
    · by_cases he : e = .app .rateLimitExceeded
      · rw [auditing, Program.run_attempt_of_caught hrun (if_pos he)]
        exact haudit.store hrows
      · rwa [auditing, Program.run_attempt_of_missed hrun (if_neg he)]
    · simpa only [auditing, Program.attempt, hrun] using hrows
    · rwa [auditing, Program.run_attempt_of_ok hrun]
  rw [Webhook.enforceRateLimit, Program.run_bind] at h
  split at h
  all_goals
    rename_i hrun
    rw [hrun] at hgate
    cases h
    exact hgate

theorem takesRow_of_enforceRateLimit {inbound' : InboundSms} {w w' : AppWorld}
    (hw : Holds (fun d => d.rateLimits = rows) w.store)
    (h : (Webhook.enforceRateLimit cfg clock inbound).run w = (.ok inbound', w')) :
    takesRow cfg clock inbound w = true := by
  obtain ⟨_, count, hrun⟩ := enforceRateLimit_ok h
  exact (run_recordAndCount_rows hw hrun).2 count rfl

/-- What follows the gates adds to the audit log and to the messages. -/
theorem keeps_route {I : Database → Prop} (hlogs : ∀ d logs, I d → I { d with auditLogs := logs })
    (hmessages : ∀ d messages, I d → I { d with messages := messages }) (inbound : InboundSms) :
    Keeps (Holds I) (fun _ => True) (do
      persistMessage inbound
      startProcessMessageWorkflow inbound) :=
  .bind (keeps_persistMessage hlogs hmessages inbound) fun _ => Holds.external _

theorem keeps_rateLimits_identify :
    Keeps (Holds fun d => d.rateLimits = rows) (fun _ => True) (identify cfg req) :=
  keeps_identify (fun _ _ h => h) (fun _ _ h => h) (fun _ _ => trivial) fun _ _ _ _ _ => trivial

end

/-- The user and the stamp of the request, when its row is committed. -/
def recorded (cfg : Config) (db : Database) (d : Delivery) : Option Admission :=
  match (identify cfg d.request).run (.opened db d.faults) with
  | (.error _, _) => none
  | (.ok inbound, w) =>
      if takesRow cfg d.request.clock inbound w then
        some (inbound.sender.id, d.request.clock.createdAt)
      else none

/-- The user and the stamp of the request, when the limiter lets it through. -/
def admission (cfg : Config) (db : Database) (d : Delivery) : Option Admission :=
  match (identify cfg d.request).run (.opened db d.faults) with
  | (.error _, _) => none
  | (.ok inbound, w) =>
      match (Webhook.enforceRateLimit cfg d.request.clock inbound).run w with
      | (.error _, _) => none
      | (.ok _, _) => some (inbound.sender.id, d.request.clock.createdAt)

structure Traffic where
  database : Database
  admitted : List Admission

def Traffic.deliver (cfg : Config) (t : Traffic) (d : Delivery) : Traffic :=
  ⟨(Webhook.deliver cfg t.database d).2.store.committed,
    t.admitted ++ (recorded cfg t.database d).toList⟩

/-- The traffic of a list of requests, handled one after the other. -/
def traffic (cfg : Config) (db : Database) (ds : List Delivery) : Traffic :=
  ds.foldl (Traffic.deliver cfg) ⟨db, []⟩

/-- A clock which never goes back, within a request and from one to the next. -/
def TimeOrdered (ds : List Delivery) : Prop :=
  (∀ d ∈ ds, d.request.clock.windowAt ≤ d.request.clock.createdAt) ∧
    ds.Pairwise fun d e => d.request.clock.createdAt ≤ e.request.clock.windowAt

section
variable {cfg : Config} {db : Database} {d : Delivery} {ds : List Delivery}

/-- A request leaves one more row when it is recorded, and none otherwise. -/
theorem stamps_deliver : stamps (Webhook.deliver cfg db d).2.store.committed.rateLimits =
    stamps db.rateLimits ++ (recorded cfg db d).toList := by
  have hopened : Holds (fun e => e.rateLimits = db.rateLimits)
      (World.opened db d.faults : AppWorld).store := ⟨rfl, rfl⟩
  rw [Webhook.deliver, receiveSms_eq, recorded]
  rcases hid : (identify cfg d.request).run (.opened db d.faults) with ⟨e | inbound, w⟩
  · have hw := keeps_rateLimits_identify.error hopened hid
    rw [Program.run_bind_of_error hid]
    simp [hw.1.1]
  · have hw := keeps_rateLimits_identify.ok hopened hid
    have hleft (e : Database) (he : RowLeft cfg d.request.clock inbound db.rateLimits w e) :
        stamps e.rateLimits = stamps db.rateLimits ++
          (if takesRow cfg d.request.clock inbound w then
            some (inbound.sender.id, d.request.clock.createdAt) else none).toList := by
      rw [he]
      split_ifs <;> rfl
    rw [Program.run_bind_of_ok hid]
    dsimp only
    rcases hgate : (Webhook.enforceRateLimit cfg d.request.clock inbound).run w
      with ⟨e | inbound', w'⟩
    all_goals have hrows := run_enforceRateLimit_rows hw hgate
    · rw [Program.run_bind_of_error hgate]
      exact hleft _ hrows.1
    · rw [Program.run_bind_of_ok hgate]
      exact hleft _ ((keeps_route (fun _ _ h => h) (fun _ _ h => h) inbound').store hrows).1

theorem traffic_concat :
    traffic cfg db (ds ++ [d]) = (traffic cfg db ds).deliver cfg d := by
  simp [traffic]

/-- The rows are those of the recorded requests: nothing of a rejected one remains. -/
theorem stamps_traffic (hempty : db.rateLimits = []) :
    stamps (traffic cfg db ds).database.rateLimits = (traffic cfg db ds).admitted := by
  induction ds using List.reverseRecOn with
  | nil => simp [traffic, stamps, hempty]
  | append_singleton ds d ih =>
      rw [traffic_concat]
      exact stamps_deliver.trans (by rw [ih]; rfl)

/-- A recorded request has found the rows within the limit. -/
theorem recorded_eq_some {a : Admission} (h : recorded cfg db d = some a) :
    a.2 = d.request.clock.createdAt ∧ WithinLimit cfg d.request.clock db.rateLimits a.1 := by
  unfold recorded at h
  split at h
  case h_1 => cases h
  case h_2 inbound w hid =>
    split_ifs at h with htakes
    cases h
    have hopened : Holds (fun e => e.rateLimits = db.rateLimits)
        (World.opened db d.faults : AppWorld).store := ⟨rfl, rfl⟩
    exact ⟨rfl, withinLimit_of_takesRow htakes (keeps_rateLimits_identify.ok hopened hid)⟩

/-- Whom the limiter lets through it has recorded. -/
theorem recorded_of_admission {a : Admission} (h : admission cfg db d = some a) :
    recorded cfg db d = some a := by
  unfold admission at h
  split at h
  case h_1 => cases h
  case h_2 inbound w hid =>
    split at h
    case h_1 => cases h
    case h_2 hgate =>
      cases h
      have hopened : Holds (fun e => e.rateLimits = db.rateLimits)
          (World.opened db d.faults : AppWorld).store := ⟨rfl, rfl⟩
      have hw := keeps_rateLimits_identify.ok hopened hid
      rw [recorded, hid]
      exact if_pos (takesRow_of_enforceRateLimit hw hgate)

theorem mem_admitted {a : Admission} (h : a ∈ (traffic cfg db ds).admitted) :
    ∃ d ∈ ds, a.2 = d.request.clock.createdAt := by
  induction ds using List.reverseRecOn with
  | nil => cases h
  | append_singleton ds d ih =>
      rw [traffic_concat] at h
      rcases List.mem_append.mp h with h | h
      · obtain ⟨e, he, ha⟩ := ih h
        exact ⟨e, List.mem_append_left _ he, ha⟩
      · exact ⟨d, List.mem_append_right _ (List.mem_singleton_self d),
          (recorded_eq_some (Option.mem_toList.mp h)).1⟩

/-- The start of the window as an instant, in the calendar or not. -/
def since (cfg : Config) (clock : Readings) : ℤ :=
  clock.windowAt - cfg.rateLimitWindowSeconds * second

theorem WithinLimit.isSome_windowStart {clock : Readings} {rows : List RateLimit} {userId : ℕ}
    (h : WithinLimit cfg clock rows userId) :
    (windowStart clock.windowAt cfg.rateLimitWindowSeconds).isSome := by
  obtain ⟨window, hwindow, _⟩ := h
  rw [hwindow]
  rfl

/-- Where the window starts in the calendar, the limit is a bound on a count. -/
theorem withinLimit_iff_of_isSome {clock : Readings} {rows : List RateLimit} {userId : ℕ}
    (h : (windowStart clock.windowAt cfg.rateLimitWindowSeconds).isSome) :
    WithinLimit cfg clock rows userId ↔ ((countSince userId (since cfg clock) rows +
      if since cfg clock ≤ clock.createdAt then 1 else 0 : ℕ) : ℤ) ≤ cfg.rateLimitMax := by
  obtain ⟨window, hwindow⟩ := Option.isSome_iff_exists.mp h
  have hinstant : window.instant = since cfg clock := Datetime.instant_ofInstant hwindow
  simp only [WithinLimit, hwindow, Option.some.injEq, exists_eq_left', hinstant]

/-- Counting the row just inserted amounts to the strict bound of the ideal counter:
that row lies in its own window, or the window is in the future and empty. -/
theorem withinLimit_iff {clock : Readings} {rows : List RateLimit} {userId : ℕ}
    (hcfg : 0 ≤ cfg.rateLimitWindowSeconds ∨ cfg.rateLimitMax ≠ 0)
    (hclock : clock.windowAt ≤ clock.createdAt)
    (hpast : ∀ a ∈ stamps rows, a.2 ≤ clock.windowAt) :
    WithinLimit cfg clock rows userId ↔
      (windowStart clock.windowAt cfg.rateLimitWindowSeconds).isSome ∧
        (idealCount (stamps rows) userId (since cfg clock) : ℤ) < cfg.rateLimitMax := by
  by_cases hwindow : (windowStart clock.windowAt cfg.rateLimitWindowSeconds).isSome
  · rw [withinLimit_iff_of_isSome hwindow, countSince_eq_idealCount,
      and_iff_right hwindow]
    rcases le_or_gt 0 cfg.rateLimitWindowSeconds with hnonneg | hneg
    · have hsince : since cfg clock ≤ clock.createdAt := by
        have := mul_nonneg hnonneg (by decide : (0 : ℤ) ≤ second)
        unfold since
        omega
      rw [if_pos hsince]
      omega
    · have hfuture : clock.windowAt < since cfg clock := by
        have := mul_neg_of_neg_of_pos hneg (by decide : (0 : ℤ) < second)
        unfold since
        omega
      have hnone : idealCount (stamps rows) userId (since cfg clock) = 0 := by
        apply List.countP_eq_zero.mpr
        intro a ha hcount
        have hle := hpast a ha
        have hge := (of_decide_eq_true hcount).2
        omega
      have hmax := hcfg.resolve_left (by omega)
      rw [hnone]
      split <;> omega
  · constructor
    · intro h
      exact absurd h.isSome_windowStart hwindow
    · intro h
      exact absurd h.1 hwindow

/-- A request which reaches an undisturbed limiter is admitted exactly when the start
of its window is in the calendar and the ideal counter admits it. -/
theorem admitted_iff_ideal (hcfg : 0 ≤ cfg.rateLimitWindowSeconds ∨ cfg.rateLimitMax ≠ 0)
    (hempty : db.rateLimits = []) (hordered : TimeOrdered (ds ++ [d])) {inbound : InboundSms}
    {w : AppWorld}
    (hreach : (identify cfg d.request).run (.opened (traffic cfg db ds).database d.faults) =
      (.ok inbound, w))
    (hcalm : w.faults = []) :
    admission cfg (traffic cfg db ds).database d =
        some (inbound.sender.id, d.request.clock.createdAt) ↔
      (windowStart d.request.clock.windowAt cfg.rateLimitWindowSeconds).isSome ∧
        (idealCount (traffic cfg db ds).admitted inbound.sender.id
          (since cfg d.request.clock) : ℤ) < cfg.rateLimitMax := by
  have hrows := keeps_rateLimits_identify.ok ⟨rfl, rfl⟩ hreach
  have huser := identify_sender.ok True.intro hreach
  have hpast : ∀ a ∈ stamps (traffic cfg db ds).database.rateLimits,
      a.2 ≤ d.request.clock.windowAt := by
    intro a ha
    rw [stamps_traffic hempty] at ha
    obtain ⟨e, he, heq⟩ := mem_admitted ha
    rw [heq]
    exact (List.pairwise_append.mp hordered.2).2.2 e he d (List.mem_singleton_self d)
  have hclock := hordered.1 d (List.mem_append_right _ (List.mem_singleton_self d))
  rw [← stamps_traffic hempty, ← withinLimit_iff hcfg hclock hpast]
  unfold admission
  rw [hreach]
  dsimp only
  constructor
  · intro h
    split at h
    · cases h
    · rename_i hgate
      exact withinLimit_of_takesRow (takesRow_of_enforceRateLimit hrows hgate) hrows
  · intro hlimit
    obtain ⟨count, w', hrun⟩ := run_recordAndCount hcalm hrows.2 huser hlimit
    have hgate : (Webhook.enforceRateLimit cfg d.request.clock inbound).run w =
        (.ok inbound, w') := by
      rw [Webhook.enforceRateLimit, Program.run_bind_of_ok (auditing_ok.mpr hrun)]
      rfl
    rw [hgate]

end

/-- A text of a sender at an instant, under a MessageSid of its own. -/
def texted (messageSid fromNumber : String) (now : ℤ) : Delivery where
  request :=
    { hello with
      form := [("MessageSid", .text messageSid), ("From", .text fromNumber), ("Body", .text "hi"),
        ("AccountSid", .text "AC1")]
      clock := ⟨now, now⟩ }
  faults := []

/-- Under a limit of one a minute: a text, one too many, and one of another sender. -/
def threeTexts : List Delivery :=
  [texted "SM1" "+1" (3600 * second), texted "SM2" "+1" (3601 * second),
    texted "SM3" "+2" (3602 * second)]

/-- The first text lies at the very start of the fourth one's window. -/
def fourthText : Delivery := texted "SM4" "+1" (3660 * second)

theorem admitted_iff_ideal_threeTexts :
    (traffic (unsignedConfig 1 60) .empty threeTexts).admitted =
        [(1, 3600 * second), (2, 3602 * second)] ∧
      (admission (unsignedConfig 1 60) (traffic (unsignedConfig 1 60) .empty threeTexts).database
          fourthText = some (1, 3660 * second) ↔
        (windowStart (3660 * second) 60).isSome ∧
          (idealCount (traffic (unsignedConfig 1 60) .empty threeTexts).admitted 1
            (since (unsignedConfig 1 60) fourthText.request.clock) : ℤ) < 1) := by
  have hreach : (identify (unsignedConfig 1 60) fourthText.request).run
      (.opened (traffic (unsignedConfig 1 60) .empty threeTexts).database fourthText.faults) =
      (.ok ⟨⟨⟨"SM4", by decide⟩, ⟨"+1", by decide⟩, ⟨"hi", by decide⟩, ⟨"AC1", by decide⟩⟩,
        ⟨1, "+1", some "+1"⟩⟩, _) := rfl
  have hordered : TimeOrdered (threeTexts ++ [fourthText]) := by
    simp [TimeOrdered, threeTexts, fourthText, texted, second]
  exact ⟨by decide +kernel, admitted_iff_ideal (.inl (by decide)) rfl hordered hreach rfl⟩

/-- With a window in the future the row just inserted goes uncounted, so that a limit
of no messages admits one. -/
theorem admitted_beyond_limit :
    admission (unsignedConfig 0 (-1)) (traffic (unsignedConfig 0 (-1)) .empty []).database
        ⟨hello, []⟩ = some (1, 3600000000) ∧
      ¬(idealCount (traffic (unsignedConfig 0 (-1)) .empty []).admitted 1
        (since (unsignedConfig 0 (-1)) hello.clock) : ℤ) < 0 :=
  ⟨rfl, by decide⟩

end Vici.RateLimiter
