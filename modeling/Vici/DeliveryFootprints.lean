import Vici.RateLimiter

/-!
# What a delivery leaves behind

An undisturbed delivery runs its transactions one after the other, and each of
them leaves nothing pending in the session. So a delivery which a gate rejects
leaves what the gates before it have committed and the audit row of its own
rejection; the row of the limiter goes with the transaction which it fails. A
text which cannot be bound stops the delivery at the first statement it is for.
-/
namespace Vici.DeliveryFootprints
open Models Datetimes AppPrograms SessionPrograms SmsRepositories Webhook RateLimiter

/-- An undisturbed world in which nothing is pending. -/
def settled (db : Database) (log : List (Event Database Effect)) : AppWorld := ⟨⟨db, db, log⟩, []⟩

abbrev sids (d : Database) : List String := d.messages.map Message.messageSid

/-- The database with one more row in the audit log. -/
def audited (messageSid : String) (event : AuditEvent) (messageId : Option ℕ) (d : Database) :
    Database :=
  { d with auditLogs := d.auditLogs ++
    [⟨nextId (d.auditLogs.map AuditLog.id), messageSid, messageId, event⟩] }

/-- The database with the row which the limiter inserts. -/
def limited (clock : Readings) (userId : ℕ) (d : Database) : Database :=
  { d with rateLimits := d.rateLimits ++
    [⟨nextId (d.rateLimits.map RateLimit.id), userId, clock.createdAt⟩] }

/-- The payload which the first gate lets through: it is complete, and it is signed
where signatures are checked. -/
def Passed (cfg : Config) (req : Request) (payload : TwilioWebhookPayload) : Prop :=
  TwilioWebhookPayload.parse (formData req.form) = .ok payload ∧
    (cfg.disableTwilioSignatureValidation = true ∨ ∃ url, publicRequestUrl cfg req = some url ∧
      cfg.validate url (formData req.form) (req.signature.getD "") = true)

def Genuine (cfg : Config) (req : Request) : Prop := ∃ payload, Passed cfg req payload

/-- What the transaction of the route commits: the message and its audit row. -/
def storeMessage (inbound : InboundSms) (db : Database) : Except AppExn (Message × Database) := do
  let (message, d) ← insertMessage inbound.messageSid inbound.sender.id inbound.payload.body.1 db
  let (_, d) ← insertAudit inbound.messageSid .received (some message.id) d
  pure (message, d)

section
variable {cfg : Config} {req : Request} {payload : TwilioWebhookPayload} {inbound : InboundSms}
variable {db d : Database} {log : List (Event Database Effect)} {α : Type}

theorem run_write (f : Database → Except AppExn (α × Database)) :
    (Program.transaction (.statement f) : App α).run (settled db log) =
      match f db with
      | .ok (a, d) => (.ok a, settled d (log ++ [.committed d]))
      | .error e => (.error (.raised e), settled db log) := by
  cases hf : f db with
  | ok done =>
      have hstatement : (Program.statement f : App α).run (settled db log) =
          (.ok done.1, ⟨⟨db, done.2, log⟩, []⟩) := Program.run_statement_ok rfl hf
      rw [Program.run_transaction_of_calm rfl hstatement]
      rfl
  | error e =>
      have hstatement : (Program.statement f : App α).run (settled db log) =
          (.error (.raised e), settled db log) := Program.run_statement_error rfl hf
      rw [Program.run_transaction_of_error hstatement]
      rfl

/-- The audit of a rejection has a transaction of its own; where it leads. -/
def rejected (error : AppError) (messageSid : String) (event : AuditEvent) (db : Database)
    (log : List (Event Database Effect)) : AppExn × AppWorld :=
  match insertAudit messageSid event none db with
  | .ok (_, d) => (.app error, settled d (log ++ [.committed d]))
  | .error e => (e, settled db log)

theorem rejected_of_text {messageSid : String} (hsid : isText messageSid = true)
    (error : AppError) (event : AuditEvent) : rejected error messageSid event db log =
      (.app error, settled (audited messageSid event none db)
        (log ++ [.committed (audited messageSid event none db)])) := by
  rw [rejected, insertAudit_of_none hsid]
  rfl

theorem run_rejecting (error : AppError) (messageSid : String) (event : AuditEvent) :
    (do
      .transaction (writeAudit messageSid event none)
      .raise error : App α).run (settled db log) =
        (.error (.raised (rejected error messageSid event db log).1),
          (rejected error messageSid event db log).2) := by
  have hwrite : (Program.transaction (.statement (insertAudit messageSid event none)) :
      App Unit).run (settled db log) = _ := run_write _
  cases haudit : insertAudit messageSid event none db with
  | ok done =>
      rw [haudit] at hwrite
      rw [writeAudit, Program.run_bind_of_ok hwrite, rejected, haudit]
      rfl
  | error e =>
      rw [haudit] at hwrite
      rw [writeAudit, Program.run_bind_of_error hwrite, rejected, haudit]

theorem run_auditing_of_error {error : AppError} {messageSid : String} {event : AuditEvent}
    {body : App α} {w : AppWorld}
    (h : body.run w = (.error (.raised (.app error)), settled db log)) :
    (auditing error messageSid event body).run w =
      (.error (.raised (rejected error messageSid event db log).1),
        (rejected error messageSid event db log).2) := by
  rw [auditing, Program.run_attempt_of_caught h (if_pos rfl), run_rejecting]

theorem run_auditing_of_other {error : AppError} {messageSid : String} {event : AuditEvent}
    {body : App α} {w w' : AppWorld} {e : AppExn} (he : e ≠ .app error)
    (h : body.run w = (.error (.raised e), w')) :
    (auditing error messageSid event body).run w = (.error (.raised e), w') :=
  Program.run_attempt_of_missed h (if_neg he)

theorem run_validate_of_passed (h : Passed cfg req payload) (w : AppWorld) :
    (validateTwilioRequest cfg req).run w = (.ok payload, w) := by
  obtain ⟨hparse, hsigned⟩ := h
  unfold validateTwilioRequest
  rw [hparse]
  rcases hsigned with hoff | ⟨url, hurl, hvalid⟩
  · dsimp only
    rw [if_pos hoff]
    rfl
  · dsimp only
    split_ifs
    · rfl
    · rw [hurl]
      dsimp only
      rw [if_pos hvalid]
      rfl

/-- The first gate takes no step: its result depends on the request alone. -/
theorem run_validate (cfg : Config) (req : Request) :
    ∃ r, ∀ w, (validateTwilioRequest cfg req).run w = (r, w) := by
  unfold validateTwilioRequest
  split
  · exact ⟨_, fun _ => rfl⟩
  · split_ifs
    · exact ⟨_, fun _ => rfl⟩
    · split
      · exact ⟨_, fun _ => rfl⟩
      · split_ifs
        · exact ⟨_, fun _ => rfl⟩
        · exact ⟨_, fun _ => rfl⟩

theorem passed_of_validate {w w' : AppWorld}
    (h : (validateTwilioRequest cfg req).run w = (.ok payload, w')) : Passed cfg req payload := by
  unfold validateTwilioRequest at h
  split at h
  case h_1 => cases h
  case h_2 payload' hparse =>
    split_ifs at h with hoff
    · cases h
      exact ⟨hparse, .inl hoff⟩
    · split at h
      case h_1 => cases h
      case h_2 url hurl =>
        split_ifs at h with hvalid
        · cases h
          exact ⟨hparse, .inr ⟨url, hurl, hvalid⟩⟩
        · cases h

theorem run_checkIdempotency_of_unfit (h : isText payload.messageSid.1 = false) :
    (Webhook.checkIdempotency payload).run (settled db log) =
      (.error (.raised (.infra .data)), settled db log) := by
  have hgate : (SmsRepositories.checkIdempotency payload.messageSid.1).run (settled db log) =
      (.error (.raised (.infra .data)), settled db log) :=
    Program.run_bind_of_error (run_bindParameters_of_unfit rfl h)
  exact run_auditing_of_other (by simp) (Program.run_transaction_of_error hgate)

theorem run_checkIdempotency (db : Database) (log : List (Event Database Effect))
    {payload : TwilioWebhookPayload} (hsid : isText payload.messageSid.1 = true) :
    (Webhook.checkIdempotency payload).run (settled db log) =
      if payload.messageSid.1 ∈ sids db then
        (.error (.raised (.app .duplicateMessageSid)),
          settled (audited payload.messageSid.1 .duplicate none db)
            (log ++ [.committed (audited payload.messageSid.1 .duplicate none db)]))
      else (.ok (), settled db (log ++ [.committed db])) := by
  have hquery : (Program.query fun db : Database => db.messages.any fun m =>
      decide (m.messageSid = payload.messageSid.1) : App Bool).run (settled db log) =
        (.ok (db.messages.any fun m => decide (m.messageSid = payload.messageSid.1)),
          settled db log) := Program.run_query_of_calm rfl
  have hseen : (db.messages.any fun m => decide (m.messageSid = payload.messageSid.1)) = true ↔
      payload.messageSid.1 ∈ sids db := by
    simp [sids]
  split_ifs with hmem
  · have hgate : (SmsRepositories.checkIdempotency payload.messageSid.1).run (settled db log) =
        (.error (.raised (.app .duplicateMessageSid)), settled db log) := by
      rw [SmsRepositories.checkIdempotency, bindParameters_of_fits hsid, pure_bind,
        Program.run_bind_of_ok hquery, if_pos (hseen.mpr hmem)]
      rfl
    have haudited : (Webhook.checkIdempotency payload).run (settled db log) = _ :=
      run_auditing_of_error (Program.run_transaction_of_error hgate)
    rwa [rejected_of_text hsid] at haudited
  · have hgate : (SmsRepositories.checkIdempotency payload.messageSid.1).run (settled db log) =
        (.ok (), settled db log) := by
      rw [SmsRepositories.checkIdempotency, bindParameters_of_fits hsid, pure_bind,
        Program.run_bind_of_ok hquery, if_neg (mt hseen.mp hmem)]
      rfl
    exact auditing_ok.mpr (Program.run_transaction_of_calm rfl hgate)

theorem run_getOrCreateUser_of_unfit (h : isText payload.fromNumber.1 = false) :
    (getOrCreateUser cfg payload).run (settled db log) =
      (.error (.raised (.infra .data)), settled db log) := by
  have hhash := run_hashPhone cfg.hmac (BoundedStr.isEmpty_eq_false payload.fromNumber)
    (settled db log)
  have hupsert : (Program.transaction (getOrCreate (cfg.hmac payload.fromNumber.1)
      (some payload.fromNumber.1))).run (settled db log) =
        (.error (.raised (.infra .data)), settled db log) :=
    Program.run_transaction_of_error
      (Program.run_bind_of_error (run_bindParameters_of_unfit rfl h))
  rw [getOrCreateUser, Program.run_bind_of_ok hhash, Program.run_bind_of_error hupsert]

theorem run_getOrCreateUser (payload : TwilioWebhookPayload) {user : User}
    (hnumber : isText payload.fromNumber.1 = true)
    (h : upsertUser (cfg.hmac payload.fromNumber.1) (some payload.fromNumber.1) db = (user, d)) :
    (getOrCreateUser cfg payload).run (settled db log) =
      (.ok ⟨payload, user⟩, settled d (log ++ [.committed d])) := by
  have hhash := run_hashPhone cfg.hmac (BoundedStr.isEmpty_eq_false payload.fromNumber)
    (settled db log)
  rw [getOrCreateUser, Program.run_bind_of_ok hhash]
  have hupsert : (Program.transaction (getOrCreate (cfg.hmac payload.fromNumber.1)
      (some payload.fromNumber.1))).run (settled db log) =
        (.ok user, settled d (log ++ [.committed d])) := by
    rw [getOrCreate, bindParameters_of_fits (show (some payload.fromNumber.1).all isText = true
      from hnumber), pure_bind, run_write, h]
  rw [Program.run_bind_of_ok hupsert]
  rfl

theorem insertRateLimit_eq_limited {userId : ℕ} (clock : Readings)
    (huser : ∃ u ∈ db.users, u.id = userId) :
    insertRateLimit userId clock.createdAt db = .ok ((), limited clock userId db) :=
  insertRateLimit_of_mem huser

theorem run_limited {userId : ℕ} (clock : Readings) (log : List (Event Database Effect))
    (huser : ∃ u ∈ db.users, u.id = userId) :
    (Program.transaction (.statement (insertRateLimit userId clock.createdAt)) : App Unit).run
        (settled db log) =
      (.ok (), settled (limited clock userId db)
        (log ++ [.committed (limited clock userId db)])) := by
  rw [run_write, insertRateLimit_eq_limited clock huser]

/-- The count of the limiter takes in the row which it has just inserted. -/
theorem run_limiter {window : Datetime} (log : List (Event Database Effect))
    (huser : ∃ u ∈ db.users, u.id = inbound.sender.id)
    (hwindow : windowStart req.clock.windowAt cfg.rateLimitWindowSeconds = some window) :
    (SmsRepositories.enforceRateLimit inbound.sender.id cfg.rateLimitMax
        cfg.rateLimitWindowSeconds req.clock).run (settled db log) =
      (if cfg.rateLimitMax < countSince inbound.sender.id window.instant
          (limited req.clock inbound.sender.id db).rateLimits then
          .error (.raised (.app .rateLimitExceeded))
        else .ok (countSince inbound.sender.id window.instant
          (limited req.clock inbound.sender.id db).rateLimits),
        ⟨⟨db, limited req.clock inbound.sender.id db, log⟩, []⟩) := by
  have hinsert := insertRateLimit_eq_limited req.clock huser
  have hstatement : (Program.statement (insertRateLimit inbound.sender.id req.clock.createdAt) :
      App Unit).run (settled db log) =
        (.ok (), ⟨⟨db, limited req.clock inbound.sender.id db, log⟩, []⟩) :=
    Program.run_statement_ok rfl hinsert
  simp only [SmsRepositories.enforceRateLimit, hwindow]
  rw [Program.run_bind_of_ok hstatement,
    Program.run_bind_of_ok (Program.run_query_of_calm rfl)]
  split_ifs <;> rfl

/-- The gate adds one row, or the audit row of its rejection, or nothing. -/
theorem run_enforceRateLimit (cfg : Config) (req : Request) (log : List (Event Database Effect))
    (huser : ∃ u ∈ db.users, u.id = inbound.sender.id) :
    (Webhook.enforceRateLimit cfg req.clock inbound).run (settled db log) =
      match windowStart req.clock.windowAt cfg.rateLimitWindowSeconds with
      | none => (.error (.raised (.app .overflow)), settled db log)
      | some window =>
          if cfg.rateLimitMax < countSince inbound.sender.id window.instant
              (limited req.clock inbound.sender.id db).rateLimits then
            (.error (.raised
                (rejected .rateLimitExceeded inbound.messageSid .rateLimited db log).1),
              (rejected .rateLimitExceeded inbound.messageSid .rateLimited db log).2)
          else (.ok inbound, settled (limited req.clock inbound.sender.id db)
            (log ++ [.committed (limited req.clock inbound.sender.id db)])) := by
  cases hwindow : windowStart req.clock.windowAt cfg.rateLimitWindowSeconds with
  | none =>
      have hlimiter : (SmsRepositories.enforceRateLimit inbound.sender.id cfg.rateLimitMax
          cfg.rateLimitWindowSeconds req.clock).run (settled db log) =
            (.error (.raised (.app .overflow)), settled db log) := by
        simp only [SmsRepositories.enforceRateLimit, hwindow]
        rfl
      have hgate : (auditing .rateLimitExceeded inbound.messageSid .rateLimited
          (recordAndCount cfg req.clock inbound)).run (settled db log) =
            (.error (.raised (.app .overflow)), settled db log) :=
        run_auditing_of_other (by simp) (Program.run_transaction_of_error hlimiter)
      rw [Webhook.enforceRateLimit, Program.run_bind_of_error hgate]
  | some window =>
      have hlimiter := run_limiter log huser hwindow
      dsimp only
      split_ifs at hlimiter ⊢ with hover
      · have hgate : (auditing .rateLimitExceeded inbound.messageSid .rateLimited
            (recordAndCount cfg req.clock inbound)).run (settled db log) = _ :=
          run_auditing_of_error (Program.run_transaction_of_error hlimiter)
        rw [Webhook.enforceRateLimit, Program.run_bind_of_error hgate]
      · have hgate := Program.run_transaction_of_calm rfl hlimiter
        rw [Webhook.enforceRateLimit, recordAndCount,
          Program.run_bind_of_ok (auditing_ok.mpr hgate)]
        rfl

theorem storeMessage_parts {message : Message} (h : storeMessage inbound db = .ok (message, d)) :
    ∃ d₁, insertMessage inbound.messageSid inbound.sender.id inbound.payload.body.1 db =
        .ok (message, d₁) ∧
      insertAudit inbound.messageSid .received (some message.id) d₁ = .ok ((), d) := by
  unfold storeMessage at h
  cases hinsert : insertMessage inbound.messageSid inbound.sender.id inbound.payload.body.1 db with
  | error e =>
      rw [hinsert] at h
      cases h
  | ok done =>
      simp only [hinsert, bind, Except.bind] at h
      split at h
      · cases h
      · rename_i haudit
        cases h
        exact ⟨_, rfl, haudit⟩

/-- The message belongs to the sender, and its audit row points to it. -/
theorem storeMessage_ok {message : Message} (h : storeMessage inbound db = .ok (message, d)) :
    inbound.messageSid ∉ sids db ∧ message.messageSid = inbound.messageSid ∧
      message.userId = inbound.sender.id ∧ message.id = nextId (db.messages.map Message.id) ∧
      d = audited inbound.messageSid .received (some message.id)
        { db with messages := db.messages ++ [message] } := by
  obtain ⟨d₁, hinsert, haudit⟩ := storeMessage_parts h
  have htext := (insertMessage_fits hinsert).1
  obtain ⟨hfresh, hsid, huser, _, hid, rfl⟩ := insertMessage_ok hinsert
  refine ⟨?_, hsid, huser, hid, ?_⟩
  · intro hmem
    obtain ⟨n, hn, hsid'⟩ := List.mem_map.mp hmem
    exact hfresh n hn hsid'
  · rw [insertAudit_of_known htext] at haudit
    · cases haudit
      rfl
    · intro j hj
      cases hj
      exact ⟨message, List.mem_append_right _ (List.mem_singleton_self _), rfl⟩

theorem storeMessage_of_fresh (hsid : isText inbound.messageSid = true)
    (hbody : isText inbound.payload.body.1 = true) (hfresh : inbound.messageSid ∉ sids d)
    (huser : ∃ u ∈ d.users, u.id = inbound.sender.id) :
    ∃ m d', storeMessage inbound d = .ok (m, d') := by
  have hrow : ∀ m ∈ d.messages, m.messageSid ≠ inbound.messageSid :=
    fun m hm heq => hfresh (List.mem_map.mpr ⟨m, hm, heq⟩)
  unfold storeMessage
  rw [insertMessage_of_fresh hsid hbody hrow huser]
  simp only [bind, Except.bind]
  rw [insertAudit_of_known hsid]
  · exact ⟨_, _, rfl⟩
  · intro j hj
    cases hj
    exact ⟨_, List.mem_append_right _ (List.mem_singleton_self _), rfl⟩

theorem run_persistMessage {message : Message} (h : storeMessage inbound db = .ok (message, d)) :
    (persistMessage inbound).run (settled db log) =
      (.ok (), settled d (log ++ [.committed d])) := by
  obtain ⟨d₁, hinsert, haudit⟩ := storeMessage_parts h
  have hcreate : (createMessage inbound.messageSid inbound.sender.id inbound.payload.body.1).run
      (settled db log) = (.ok message, ⟨⟨db, d₁, log⟩, []⟩) :=
    Program.run_statement_ok rfl hinsert
  have hwrite : (writeAudit inbound.messageSid .received (some message.id)).run
      ⟨⟨db, d₁, log⟩, []⟩ = (.ok (), ⟨⟨db, d, log⟩, []⟩) :=
    Program.run_statement_ok rfl haudit
  have hbody : (messageRows inbound).run (settled db log) = (.ok (), ⟨⟨db, d, log⟩, []⟩) :=
    (Program.run_bind_of_ok hcreate).trans hwrite
  exact Program.run_transaction_of_calm rfl hbody

theorem insertMessage_of_unfit (h : isText inbound.payload.body.1 = false) :
    insertMessage inbound.messageSid inbound.sender.id inbound.payload.body.1 db =
      .error (.infra .data) := by
  rw [insertMessage, h, Bool.and_false, Bool.not_false, if_pos rfl]

theorem run_persistMessage_of_error {e : AppExn}
    (h : insertMessage inbound.messageSid inbound.sender.id inbound.payload.body.1 db = .error e) :
    (persistMessage inbound).run (settled db log) = (.error (.raised e), settled db log) := by
  have hcreate : (createMessage inbound.messageSid inbound.sender.id inbound.payload.body.1).run
      (settled db log) = (.error (.raised e), settled db log) :=
    Program.run_statement_error rfl h
  exact Program.run_transaction_of_error (Program.run_bind_of_error hcreate)

/-- What the two statements refuse the transaction does not commit. -/
theorem run_persistMessage_of_refused {e : AppExn} (h : storeMessage inbound db = .error e) :
    (persistMessage inbound).run (settled db log) = (.error (.raised e), settled db log) := by
  cases hinsert : insertMessage inbound.messageSid inbound.sender.id inbound.payload.body.1 db with
  | error e' =>
      simp only [storeMessage, hinsert, bind, Except.bind] at h
      cases h
      exact run_persistMessage_of_error hinsert
  | ok done =>
      have hcreate : (createMessage inbound.messageSid inbound.sender.id
          inbound.payload.body.1).run (settled db log) = (.ok done.1, ⟨⟨db, done.2, log⟩, []⟩) :=
        Program.run_statement_ok rfl hinsert
      cases haudit : insertAudit inbound.messageSid .received (some done.1.id) done.2 with
      | ok row => simp [storeMessage, hinsert, haudit, bind, Except.bind, pure, Except.pure] at h
      | error e' =>
          simp only [storeMessage, hinsert, haudit, bind, Except.bind] at h
          cases h
          have hwrite : (writeAudit inbound.messageSid .received (some done.1.id)).run
              ⟨⟨db, done.2, log⟩, []⟩ = (.error (.raised e), ⟨⟨db, done.2, log⟩, []⟩) :=
            Program.run_statement_error rfl haudit
          have hbody : (messageRows inbound).run (settled db log) =
              (.error (.raised e), ⟨⟨db, done.2, log⟩, []⟩) :=
            (Program.run_bind_of_ok hcreate).trans hwrite
          exact Program.run_transaction_of_error hbody

theorem run_start (inbound : InboundSms) :
    (startProcessMessageWorkflow inbound).run (settled db log) =
      (.ok (), settled db (log ++ [.effect (.workflowStarted inbound.payload.messageSid.1
        inbound.payload.fromNumber.1 inbound.payload.body.1)])) := rfl

end

def effectOf : Event Database Effect → Option Effect
  | .effect e => some e
  | .committed _ => none

/-- What a delivery may do to the outside world and to the database, by its answer. -/
def Footprint (cfg : Config) (req : Request) (db d : Database) (effects : List Effect) :
    Except AppStop Unit → Prop
  | .error (.raised (.app (.invalidPayload _))) | .error (.raised (.app .twilioSignatureInvalid))
  | .error (.raised (.app .valueError)) => ¬Genuine cfg req ∧ d = db ∧ effects = []
  | .error (.raised (.app .duplicateMessageSid)) => ∃ payload, Passed cfg req payload ∧
      payload.messageSid.1 ∈ sids db ∧
      d = audited payload.messageSid.1 .duplicate none db ∧ effects = []
  | .error (.raised (.app .rateLimitExceeded)) => ∃ payload user d₁, Passed cfg req payload ∧
      payload.messageSid.1 ∉ sids db ∧
      upsertUser (cfg.hmac payload.fromNumber.1) (some payload.fromNumber.1) db = (user, d₁) ∧
      (windowStart req.clock.windowAt cfg.rateLimitWindowSeconds).isSome ∧
      ¬WithinLimit cfg req.clock db.rateLimits user.id ∧
      d = audited payload.messageSid.1 .rateLimited none d₁ ∧ effects = []
  | .error (.raised (.app .overflow)) => ∃ payload user, Passed cfg req payload ∧
      payload.messageSid.1 ∉ sids db ∧
      windowStart req.clock.windowAt cfg.rateLimitWindowSeconds = none ∧
      upsertUser (cfg.hmac payload.fromNumber.1) (some payload.fromNumber.1) db = (user, d) ∧
      effects = []
  | .ok () => ∃ payload user d₁ message, Passed cfg req payload ∧
      payload.messageSid.1 ∉ sids db ∧
      upsertUser (cfg.hmac payload.fromNumber.1) (some payload.fromNumber.1) db = (user, d₁) ∧
      WithinLimit cfg req.clock db.rateLimits user.id ∧
      message.messageSid = payload.messageSid.1 ∧ message.userId = user.id ∧
      d = audited payload.messageSid.1 .received (some message.id)
        { limited req.clock user.id d₁ with messages := d₁.messages ++ [message] } ∧
      effects = [.workflowStarted payload.messageSid.1 payload.fromNumber.1 payload.body.1]
  | .error (.raised (.infra .data)) => ∃ payload, Passed cfg req payload ∧ effects = [] ∧
      (isText payload.messageSid.1 = false ∧ d = db ∨
        isText payload.messageSid.1 = true ∧ payload.messageSid.1 ∉ sids db ∧
          (isText payload.fromNumber.1 = false ∧ d = db ∨
            isText payload.fromNumber.1 = true ∧ isText payload.body.1 = false ∧
              ∃ user d₁, upsertUser (cfg.hmac payload.fromNumber.1)
                  (some payload.fromNumber.1) db = (user, d₁) ∧
                WithinLimit cfg req.clock db.rateLimits user.id ∧
                d = limited req.clock user.id d₁))
  | _ => False

section
variable {cfg : Config} {req : Request} {db d : Database} {payload : TwilioWebhookPayload}

/-- The first gate has no effect, and only a request which is not genuine fails it. -/
theorem validate_error {w w' : AppWorld} {stop : AppStop}
    (h : (validateTwilioRequest cfg req).run w = (.error stop, w')) :
    w' = w ∧ ∀ effects, (¬Genuine cfg req ∧ d = db ∧ effects = []) →
      Footprint cfg req db d effects (.error stop) := by
  unfold validateTwilioRequest at h
  split at h
  case h_1 =>
    cases h
    exact ⟨rfl, fun _ hf => hf⟩
  case h_2 payload _ =>
    split_ifs at h
    · cases h
    · split at h
      case h_1 =>
        cases h
        exact ⟨rfl, fun _ hf => hf⟩
      case h_2 =>
        split_ifs at h
        · cases h
        · cases h
          exact ⟨rfl, fun _ hf => hf⟩

theorem withinLimit_iff_count {clock : Readings} {window : Datetime} (d : Database) (userId : ℕ)
    (hwindow : windowStart clock.windowAt cfg.rateLimitWindowSeconds = some window) :
    WithinLimit cfg clock d.rateLimits userId ↔
      ¬cfg.rateLimitMax < countSince userId window.instant (limited clock userId d).rateLimits := by
  rw [limited, countSince_append, not_lt, WithinLimit]
  simp only [hwindow, Option.some.injEq, exists_eq_left']

theorem deliver_eq (cfg : Config) (db : Database) (req : Request) :
    deliver cfg db ⟨req, []⟩ = (do
      let payload ← validateTwilioRequest cfg req
      Webhook.checkIdempotency payload
      let inbound ← getOrCreateUser cfg payload
      let inbound ← Webhook.enforceRateLimit cfg req.clock inbound
      persistMessage inbound
      startProcessMessageWorkflow inbound : App Unit).run (settled db []) := by
  rw [deliver, receiveSms_eq, identify]
  simp only [bind_assoc]
  rfl

/-- What follows the gate of the limiter. -/
theorem route_footprint {user : User} {d₁ : Database} (log : List (Event Database Effect))
    (hlog : log.filterMap effectOf = []) (hpassed : Passed cfg req payload)
    (hsid : isText payload.messageSid.1 = true) (hnumber : isText payload.fromNumber.1 = true)
    (hseen : payload.messageSid.1 ∉ sids db)
    (hupsert : upsertUser (cfg.hmac payload.fromNumber.1) (some payload.fromNumber.1) db =
      (user, d₁)) (hlimit : WithinLimit cfg req.clock db.rateLimits user.id) :
    ∃ answer w, (do
        persistMessage ⟨payload, user⟩
        startProcessMessageWorkflow ⟨payload, user⟩ : App Unit).run
          (settled (limited req.clock user.id d₁) log) = (answer, w) ∧
      Footprint cfg req db w.store.committed (w.store.log.filterMap effectOf) answer := by
  cases hbody : isText payload.body.1 with
  | false =>
      have hrefused : (persistMessage ⟨payload, user⟩).run
          (settled (limited req.clock user.id d₁) log) =
            (.error (.raised (.infra .data)), settled (limited req.clock user.id d₁) log) :=
        run_persistMessage_of_error (insertMessage_of_unfit hbody)
      exact ⟨_, _, Program.run_bind_of_error hrefused, payload, hpassed, hlog,
        .inr ⟨hsid, hseen, .inr ⟨hnumber, hbody, user, d₁, hupsert, hlimit, rfl⟩⟩⟩
  | true =>
      obtain ⟨huser, _, users, rfl⟩ := upsertUser_ok hupsert
      obtain ⟨m, d, hstore⟩ : ∃ m d, storeMessage ⟨payload, user⟩
          (limited req.clock user.id { db with users := users }) = .ok (m, d) :=
        storeMessage_of_fresh hsid hbody hseen ⟨user, huser, rfl⟩
      obtain ⟨_, hown, howner, _, rfl⟩ := storeMessage_ok hstore
      refine ⟨_, _, (Program.run_bind_of_ok (run_persistMessage hstore)).trans (run_start _), ?_⟩
      refine ⟨payload, user, _, m, hpassed, hseen, hupsert, hlimit, hown, howner, rfl, ?_⟩
      simp only [settled, List.filterMap_append, hlog]
      rfl

/-- What follows the upsert of the sender. -/
theorem sender_footprint {user : User} {d₁ : Database} (log : List (Event Database Effect))
    (hlog : log.filterMap effectOf = []) (hpassed : Passed cfg req payload)
    (hsid : isText payload.messageSid.1 = true) (hnumber : isText payload.fromNumber.1 = true)
    (hseen : payload.messageSid.1 ∉ sids db)
    (hupsert : upsertUser (cfg.hmac payload.fromNumber.1) (some payload.fromNumber.1) db =
      (user, d₁)) :
    ∃ answer w, (do
        let inbound ← Webhook.enforceRateLimit cfg req.clock ⟨payload, user⟩
        persistMessage inbound
        startProcessMessageWorkflow inbound : App Unit).run (settled d₁ log) = (answer, w) ∧
      Footprint cfg req db w.store.committed (w.store.log.filterMap effectOf) answer := by
  have hquiet (d : Database) :
      (log ++ [Event.committed d] : List (Event Database Effect)).filterMap effectOf = [] := by
    rw [List.filterMap_append, hlog]
    rfl
  obtain ⟨huser, _, users, hframe⟩ := upsertUser_ok hupsert
  have hrates : d₁.rateLimits = db.rateLimits := by rw [hframe]
  have hsender : ∃ u ∈ d₁.users, u.id = (InboundSms.mk payload user).sender.id := ⟨user, huser, rfl⟩
  have hgate := run_enforceRateLimit cfg req log hsender
  cases hwindow : windowStart req.clock.windowAt cfg.rateLimitWindowSeconds with
  | none =>
      rw [hwindow] at hgate
      exact ⟨_, _, Program.run_bind_of_error hgate, payload, user, hpassed, hseen, hwindow, hupsert,
        hlog⟩
  | some window =>
      have hwithin := withinLimit_iff_count d₁ user.id hwindow
      rw [hrates] at hwithin
      rw [hwindow] at hgate
      dsimp only at hgate
      split_ifs at hgate with hover
      · rw [rejected_of_text hsid] at hgate
        exact ⟨_, _, Program.run_bind_of_error hgate, payload, user, d₁, hpassed, hseen, hupsert,
          by rw [hwindow]; rfl, fun hlimit => hwithin.mp hlimit hover, rfl, hquiet _⟩
      · obtain ⟨answer, w, hroute, hfootprint⟩ := route_footprint _ (hquiet _) hpassed hsid hnumber
          hseen hupsert (hwithin.mpr hover)
        exact ⟨answer, w, (Program.run_bind_of_ok hgate).trans hroute, hfootprint⟩

/-- Every answer of an undisturbed delivery tells what it has left behind. -/
theorem deliver_footprint (cfg : Config) (db : Database) (req : Request) :
    Footprint cfg req db (deliver cfg db ⟨req, []⟩).2.store.committed
      ((deliver cfg db ⟨req, []⟩).2.store.log.filterMap effectOf)
      (deliver cfg db ⟨req, []⟩).1 := by
  rw [deliver_eq]
  rcases hvalid : (validateTwilioRequest cfg req).run (settled db []) with ⟨stop | payload, w⟩
  · obtain ⟨rfl, hfootprint⟩ := validate_error hvalid
    rw [Program.run_bind_of_error hvalid]
    refine hfootprint _ ⟨?_, rfl, rfl⟩
    rintro ⟨payload, hpassed⟩
    rw [run_validate_of_passed hpassed] at hvalid
    cases hvalid
  · have hpassed := passed_of_validate hvalid
    obtain rfl : settled db [] = w := by
      rw [run_validate_of_passed hpassed] at hvalid
      cases hvalid
      rfl
    rw [Program.run_bind_of_ok hvalid]
    rcases hsid : isText payload.messageSid.1 with _ | _
    · rw [Program.run_bind_of_error (run_checkIdempotency_of_unfit hsid)]
      exact ⟨payload, hpassed, rfl, .inl ⟨hsid, rfl⟩⟩
    have hcheck := run_checkIdempotency db [] hsid
    split_ifs at hcheck with hseen
    · rw [Program.run_bind_of_error hcheck]
      exact ⟨payload, hpassed, hseen, rfl, rfl⟩
    · rw [Program.run_bind_of_ok hcheck]
      rcases hnumber : isText payload.fromNumber.1 with _ | _
      · rw [Program.run_bind_of_error (run_getOrCreateUser_of_unfit hnumber)]
        exact ⟨payload, hpassed, rfl, .inr ⟨hsid, hseen, .inl ⟨hnumber, rfl⟩⟩⟩
      rcases hupsert : upsertUser (cfg.hmac payload.fromNumber.1) (some payload.fromNumber.1) db
        with ⟨user, d₁⟩
      rw [Program.run_bind_of_ok (run_getOrCreateUser payload hnumber hupsert)]
      obtain ⟨answer, w, hrun, hfootprint⟩ := sender_footprint
        ([] ++ [Event.committed db] ++ [Event.committed d₁]) rfl hpassed hsid hnumber hseen hupsert
      rw [hrun]
      exact hfootprint

end

/-- A window which reaches back beyond the calendar: the limiter overflows after the
sender has been stored, and neither a row of its own nor an audit row is left. -/
theorem overflow_leaves_sender :
    Genuine (unsignedConfig 5 1000000000000) hello ∧
      (deliver (unsignedConfig 5 1000000000000) .empty ⟨hello, []⟩).1 =
        .error (.raised (.app .overflow)) ∧
      (deliver (unsignedConfig 5 1000000000000) .empty ⟨hello, []⟩).2.store.committed =
        { Database.empty with users := [⟨1, "+1", some "+1"⟩] } :=
  ⟨⟨⟨⟨"SM1", by decide⟩, ⟨"+1", by decide⟩, ⟨"hi", by decide⟩, ⟨"AC1", by decide⟩⟩, rfl, .inl rfl⟩,
    rfl, rfl⟩

end Vici.DeliveryFootprints
