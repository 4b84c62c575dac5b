import Vici.SmsRepositories

/-!
# The inbound webhook

A delivery passes four gates, each with a transaction of its own: the payload
and its signature, the duplicate check, the upsert of the sender, and the rate
limiter. The route then commits the message together with its audit row, and
starts the workflow after that commit. Signature checking and the keyed hash
are parameters, as is the base of the public URL which the settings determine.
-/
namespace Vici.Webhook
open Models AppPrograms SessionPrograms SmsRepositories
open Program (Triple Keeps Holds Allowed)

/-- A part of the posted form. -/
inductive FormValue where
  | text (s : String)
  | upload
  deriving DecidableEq

structure Request where
  form : List (String × FormValue)
  path : String
  query : String
  signature : Option String
  clock : Readings

/-- The settings and the third-party functions which the gates consult. -/
structure Config where
  rateLimitMax : ℤ
  rateLimitWindowSeconds : ℤ
  disableTwilioSignatureValidation : Bool
  /-- `none` when the configured URL lacks its scheme or its host. -/
  canonicalBaseUrl : Option String
  validate : String → List (String × String) → String → Bool
  hmac : String → String

structure TwilioWebhookPayload where
  messageSid : BoundedStr 1 64
  fromNumber : BoundedStr 1 20
  body : BoundedStr 0 1600
  accountSid : BoundedStr 1 64
  deriving DecidableEq

/-- The payload, or the names of the fields which are missing or out of bounds. -/
def TwilioWebhookPayload.parse (data : List (String × String)) :
    Except (List String) TwilioWebhookPayload :=
  match BoundedStr.validate 1 64 (dictGet data "MessageSid"),
    BoundedStr.validate 1 20 (dictGet data "From"),
    BoundedStr.validate 0 1600 (dictGet data "Body"),
    BoundedStr.validate 1 64 (dictGet data "AccountSid") with
  | some messageSid, some fromNumber, some body, some accountSid =>
      .ok ⟨messageSid, fromNumber, body, accountSid⟩
  | messageSid, fromNumber, body, accountSid =>
      .error <| [("MessageSid", messageSid.isNone), ("From", fromNumber.isNone),
        ("Body", body.isNone), ("AccountSid", accountSid.isNone)].filterMap
        fun field => if field.2 then some field.1 else none

/-- The text parts of a form; the last part of a name counts. -/
def formData (form : List (String × FormValue)) : List (String × String) :=
  (form.map Prod.fst).eraseDups.filterMap fun name =>
    match dictGet form name with
    | some (.text value) => some (name, value)
    | _ => none

/-- The exact URL which was signed. -/
def publicRequestUrl (cfg : Config) (req : Request) : Option String :=
  cfg.canonicalBaseUrl.map fun base =>
    base ++ req.path ++ if req.query.isEmpty then "" else "?" ++ req.query

def validateTwilioRequest (cfg : Config) (req : Request) : App TwilioWebhookPayload :=
  match TwilioWebhookPayload.parse (formData req.form) with
  | .error missing =>
      .raise (.invalidPayload ("Invalid Twilio payload: " ++ ", ".intercalate missing))
  | .ok payload =>
      if cfg.disableTwilioSignatureValidation then pure payload
      else
        match publicRequestUrl cfg req with
        | none => .raise .valueError
        | some url =>
            if cfg.validate url (formData req.form) (req.signature.getD "") then pure payload
            else .raise .twilioSignatureInvalid

/-- `except error: write the audit row in a transaction of its own; raise` -/
def auditing {α : Type} (error : AppError) (messageSid : String) (event : AuditEvent)
    (body : App α) : App α :=
  .attempt body fun e =>
    if e = .app error then some (do
      .transaction (writeAudit messageSid event none)
      .raise error)
    else none

def checkIdempotency (payload : TwilioWebhookPayload) : App Unit :=
  auditing .duplicateMessageSid payload.messageSid.1 .duplicate
    (.transaction (SmsRepositories.checkIdempotency payload.messageSid.1))

structure InboundSms where
  payload : TwilioWebhookPayload
  sender : User
  deriving DecidableEq

abbrev InboundSms.messageSid (inbound : InboundSms) : String := inbound.payload.messageSid.1

def getOrCreateUser (cfg : Config) (payload : TwilioWebhookPayload) : App InboundSms := do
  let phoneHash ← hashPhone cfg.hmac payload.fromNumber.1
  let user ← .transaction (getOrCreate phoneHash (some payload.fromNumber.1))
  pure ⟨payload, user⟩

/-- The transaction of the fourth gate. -/
def recordAndCount (cfg : Config) (clock : Readings) (inbound : InboundSms) : App ℕ :=
  .transaction (SmsRepositories.enforceRateLimit inbound.sender.id cfg.rateLimitMax
    cfg.rateLimitWindowSeconds clock)

def enforceRateLimit (cfg : Config) (clock : Readings) (inbound : InboundSms) : App InboundSms := do
  let _ ← auditing .rateLimitExceeded inbound.payload.messageSid.1 .rateLimited
    (recordAndCount cfg clock inbound)
  pure inbound

/-- What precedes the limiter. -/
def identify (cfg : Config) (req : Request) : App InboundSms := do
  let payload ← validateTwilioRequest cfg req
  checkIdempotency payload
  getOrCreateUser cfg payload

/-- The message and its audit row. -/
def messageRows (inbound : InboundSms) : App Unit := do
  let message ← createMessage inbound.payload.messageSid.1 inbound.sender.id
    inbound.payload.body.1
  writeAudit inbound.payload.messageSid.1 .received (some message.id)

/-- The transaction of the route. -/
def persistMessage (inbound : InboundSms) : App Unit := .transaction (messageRows inbound)

/-- A delivery up to the commit of its message. -/
def accept (cfg : Config) (req : Request) : App InboundSms := do
  let inbound ← identify cfg req
  let inbound ← enforceRateLimit cfg req.clock inbound
  persistMessage inbound
  pure inbound

def startProcessMessageWorkflow (inbound : InboundSms) : App Unit :=
  .external (.workflowStarted inbound.payload.messageSid.1 inbound.payload.fromNumber.1
    inbound.payload.body.1)

def receiveSms (cfg : Config) (req : Request) : App Unit := do
  let inbound ← accept cfg req
  startProcessMessageWorkflow inbound

theorem receiveSms_eq (cfg : Config) (req : Request) : receiveSms cfg req = (do
    let inbound ← identify cfg req
    let inbound ← enforceRateLimit cfg req.clock inbound
    persistMessage inbound
    startProcessMessageWorkflow inbound) := by
  simp only [receiveSms, accept, bind_assoc, pure_bind]

structure Response where
  status : ℕ
  mediaType : String
  content : String
  deriving DecidableEq

def emptyTwiml : String := "<?xml version=\"1.0\" encoding=\"UTF-8\"?><Response/>"

/-- The answer after which Twilio does not try again. -/
def emptyResponse : Response := ⟨200, "text/xml", emptyTwiml⟩

def detailResponse (status : ℕ) (detail : String) : Response :=
  ⟨status, "application/json", "\x7b\"detail\":\"" ++ detail ++ "\"\x7d"⟩

/-- What the route and the exception handlers answer; a lost process answers nothing. -/
def responseOf : Except AppStop Unit → Option Response
  | .ok () => some emptyResponse
  | .error (.raised (.app .duplicateMessageSid)) => some emptyResponse
  | .error (.raised (.app .rateLimitExceeded)) => some emptyResponse
  | .error (.raised (.app .twilioSignatureInvalid)) =>
      some (detailResponse 403 "Invalid Twilio signature")
  | .error (.raised (.app (.invalidPayload detail))) => some (detailResponse 400 detail)
  | .error (.raised _) => some ⟨500, "text/plain", "Internal Server Error"⟩
  | .error .crashed => none

/-- One delivery of a request, with what the environment does to its steps. -/
structure Delivery where
  request : Request
  faults : List (Option AppFault)

def deliver (cfg : Config) (db : Database) (d : Delivery) : Except AppStop Unit × AppWorld :=
  (receiveSms cfg d.request).run (.opened db d.faults)

def unsignedConfig (rateLimitMax rateLimitWindowSeconds : ℤ) : Config where
  rateLimitMax := rateLimitMax
  rateLimitWindowSeconds := rateLimitWindowSeconds
  disableTwilioSignatureValidation := true
  canonicalBaseUrl := none
  validate _ _ _ := false
  hmac number := number

def hello : Request where
  form := [("MessageSid", .text "SM1"), ("From", .text "+1"), ("Body", .text "hi"),
    ("AccountSid", .text "AC1")]
  path := "/webhook/sms"
  query := ""
  signature := none
  clock := ⟨3600000000, 3600000000⟩

example : (deliver (unsignedConfig 5 60) .empty ⟨hello, []⟩).2.store.committed.rateLimits =
    [⟨1, 1, 3600000000⟩] := by rfl

section
variable {cfg : Config} {req : Request} {I : Database → Prop} {R : AppError → Prop} {α : Type}

/-- A payload which passes the first gate is the one which the form holds. -/
theorem validateTwilioRequest_triple {P : Program.Assertion Database Effect}
    (hR : ∀ e, e ≠ .duplicateMessageSid → R e) :
    Triple P (validateTwilioRequest cfg req)
      (fun payload s => P s ∧ TwilioWebhookPayload.parse (formData req.form) = .ok payload)
      (fun e s => P s ∧ Allowed R e) := by
  have hraise {e : AppError} (he : e ≠ .duplicateMessageSid) :
      Triple P (.raise e : App TwilioWebhookPayload)
        (fun payload s => P s ∧ TwilioWebhookPayload.parse (formData req.form) = .ok payload)
        (fun e s => P s ∧ Allowed R e) := by
    refine .raise fun s hs => ⟨hs, ?_⟩
    intro a ha
    cases ha
    exact hR _ he
  unfold validateTwilioRequest
  split
  case h_1 => exact hraise (by simp)
  case h_2 payload hparse =>
    split_ifs
    · exact .pure fun s hs => ⟨hs, hparse⟩
    · split
      · exact hraise (by simp)
      · split_ifs
        · exact .pure fun s hs => ⟨hs, hparse⟩
        · exact hraise (by simp)

/-- An invariant of the database which says nothing about the audit log. -/
theorem holds_auditLogs (hlogs : ∀ d logs, I d → I { d with auditLogs := logs }) :
    ∀ (s : AppStore) (logs : List AuditLog), Holds I s →
      Holds I { s with session := { s.session with auditLogs := logs } } :=
  fun s logs hs => ⟨hs.1, hlogs s.session logs hs.2⟩

theorem keeps_auditing (hlogs : ∀ d logs, I d → I { d with auditLogs := logs })
    {error : AppError} {messageSid : String} {event : AuditEvent} {body : App α}
    (hbody : Keeps (Holds I) R body) :
    Keeps (Holds I) R (auditing error messageSid event body) := by
  refine .attempt hbody (fun e handler hhandler hallowed => ?_) fun _ _ ha => ha
  split_ifs at hhandler with he
  cases hhandler
  refine .bind (Holds.transaction (keeps_writeAudit (holds_auditLogs hlogs) _ _ _)) fun _ =>
    .raise ?_
  exact hallowed error (by rw [he])

/-- The duplicate gate complains only of a MessageSid which is stored. -/
theorem keeps_checkIdempotency (hlogs : ∀ d logs, I d → I { d with auditLogs := logs })
    {payload : TwilioWebhookPayload}
    (hdup : ∀ d, I d → (∃ m ∈ d.messages, m.messageSid = payload.messageSid.1) →
      R .duplicateMessageSid) :
    Keeps (Holds I) R (checkIdempotency payload) := by
  refine keeps_auditing hlogs (Holds.transaction (.bind keeps_bindParameters fun _ =>
    .query_bind fun s hs => ?_))
  split_ifs with hseen
  · obtain ⟨m, hm, hsid⟩ := List.any_eq_true.mp hseen
    exact .raise (hdup s.session hs.2 ⟨m, hm, of_decide_eq_true hsid⟩)
  · exact .pure _

theorem keeps_getOrCreateUser (husers : ∀ d users, I d → I { d with users := users })
    (hR : ∀ e, e ≠ .duplicateMessageSid → R e) (payload : TwilioWebhookPayload) :
    Keeps (Holds I) R (getOrCreateUser cfg payload) := by
  refine .bind ?_ fun phoneHash => .bind (Holds.transaction (.bind keeps_bindParameters
    fun _ => Holds.statement (fun d user d' hd hok => ?_) ?_)) fun user => .pure _
  · exact keeps_hashPhone (hR _ (by simp)) _ _
  · have hrow : (upsertUser phoneHash (some payload.fromNumber.1) d).2 = d' :=
      congrArg Prod.snd (Except.ok.inj hok)
    obtain ⟨users, hframe⟩ := upsertUser_frame (d := d) (h := phoneHash)
      (some payload.fromNumber.1)
    rw [← hrow, hframe]
    exact husers d users hd
  · intro d e _ heq
    cases heq

theorem keeps_identify (hlogs : ∀ d logs, I d → I { d with auditLogs := logs })
    (husers : ∀ d users, I d → I { d with users := users })
    (hR : ∀ e, e ≠ .duplicateMessageSid → R e)
    (hdup : ∀ payload d, TwilioWebhookPayload.parse (formData req.form) = .ok payload → I d →
      (∃ m ∈ d.messages, m.messageSid = payload.messageSid.1) → R .duplicateMessageSid) :
    Keeps (Holds I) R (identify cfg req) := by
  refine Triple.bind (validateTwilioRequest_triple hR) fun payload => ?_
  rintro w ⟨hw, hparse⟩
  have hrest : Keeps (Holds I) R (do
      checkIdempotency payload
      getOrCreateUser cfg payload) :=
    .bind (keeps_checkIdempotency hlogs fun d => hdup payload d hparse) fun _ =>
      keeps_getOrCreateUser husers hR payload
  exact hrest w hw

theorem keeps_persistMessage (hlogs : ∀ d logs, I d → I { d with auditLogs := logs })
    (hmessages : ∀ d messages, I d → I { d with messages := messages }) (inbound : InboundSms) :
    Keeps (Holds I) R (persistMessage inbound) := by
  refine Holds.transaction (.bind (Holds.statement (fun d m d' hd hok => ?_)
    fun d e _ herror => ?_) fun message => keeps_writeAudit (holds_auditLogs hlogs) _ _ _)
  · obtain ⟨_, _, _, _, _, rfl⟩ := insertMessage_ok hok
    exact hmessages d _ hd
  · exact absurd herror (insertMessage_ne_app e)

/-- The handler of `auditing` never returns. -/
theorem auditing_ok {error : AppError} {messageSid : String} {event : AuditEvent}
    {body : App α} {w w' : AppWorld} {a : α} :
    (auditing error messageSid event body).run w = (.ok a, w') ↔ body.run w = (.ok a, w') := by
  rcases hrun : body.run w with ⟨(e | _) | b, w₁⟩
  · simp only [auditing, Program.attempt, hrun]
    split_ifs
    · simp only [Program.run_bind]
      split <;> simp [Program.raise]
    · simp
  · simp [auditing, Program.attempt, hrun]
  · simp [auditing, Program.attempt, hrun]

theorem enforceRateLimit_ok {clock : Readings} {inbound inbound' : InboundSms}
    {w w' : AppWorld} (h : (enforceRateLimit cfg clock inbound).run w = (.ok inbound', w')) :
    inbound' = inbound ∧ ∃ count, (recordAndCount cfg clock inbound).run w = (.ok count, w') := by
  obtain ⟨count, w₁, haudit, h⟩ := Program.run_bind_ok h
  cases h
  exact ⟨rfl, count, auditing_ok.mp haudit⟩

theorem getOrCreateUser_ok {payload : TwilioWebhookPayload} {inbound : InboundSms}
    {w w' : AppWorld} (h : (getOrCreateUser cfg payload).run w = (.ok inbound, w')) :
    inbound.payload = payload := by
  obtain ⟨_, _, _, h⟩ := Program.run_bind_ok h
  obtain ⟨_, _, _, h⟩ := Program.run_bind_ok h
  cases h
  rfl

/-- What the gates let through is the payload of the form. -/
theorem identify_ok {inbound : InboundSms} {w w' : AppWorld}
    (h : (identify cfg req).run w = (.ok inbound, w')) :
    TwilioWebhookPayload.parse (formData req.form) = .ok inbound.payload := by
  obtain ⟨payload, w₁, hvalid, h⟩ := Program.run_bind_ok h
  obtain ⟨_, w₂, _, h⟩ := Program.run_bind_ok h
  rw [getOrCreateUser_ok h]
  exact ((validateTwilioRequest_triple (P := fun _ => True) (R := fun _ => True)
    fun _ _ => True.intro).ok True.intro hvalid).2

/-- The sender whom the gates have identified is a stored user. -/
theorem identify_sender : Triple (fun _ => True) (identify cfg req)
    (fun inbound s => ∃ u ∈ s.session.users, u.id = inbound.sender.id) (fun _ _ => True) := by
  refine .bind (.trivial _) fun payload => .bind (.trivial _) fun _ =>
    .bind (.trivial _) fun phoneHash => ?_
  refine .bind (Q := fun user s => user ∈ s.session.users) ?_ fun user =>
    .pure fun s hs => ⟨user, hs, rfl⟩
  refine .transaction (.bind (.trivial _) fun _ =>
    .statement (fun _ _ _ _ => True.intro) (fun _ _ _ _ => True.intro) ?_)
  intro s user d _ hok
  have hrow := Except.ok.inj hok
  have hmem := upsertUser_mem (d := s.session) (h := phoneHash) (some payload.fromNumber.1)
  rw [hrow] at hmem
  exact ⟨hmem, fun _ _ => ⟨True.intro, True.intro⟩⟩

end

end Vici.Webhook
