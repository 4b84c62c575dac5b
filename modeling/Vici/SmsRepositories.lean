import Vici.AppPrograms

/-!
# Statements of the webhook and of the audit trail

The repositories only flush; their caller owns the transaction. A statement
binds its parameters, and an insert checks the unique keys and the foreign keys
of its table. The hash of a number consists of digits, so that it can always be
bound; so can the JSON of a response. Clock readings are
arguments: a rate-limit row is stamped with another reading than the one from
which its window is computed.
-/
namespace Vici.SmsRepositories
open Models Datetimes AppPrograms SessionPrograms

/-- Raise if this MessageSid has already been processed. -/
def checkIdempotency (messageSid : String) : App Unit := do
  bindParameters (isText messageSid)
  let seen ← .query fun db => db.messages.any fun m => decide (m.messageSid = messageSid)
  if seen then .raise .duplicateMessageSid else pure ()

def insertMessage (messageSid : String) (userId : ℕ) (body : String) (db : Database) :
    Except AppExn (Message × Database) :=
  if !(isText messageSid && isText body) then .error (.infra .data)
  else if db.messages.any fun m => decide (m.messageSid = messageSid) then
    .error (.infra .integrity)
  else if db.users.all fun u => decide (u.id ≠ userId) then .error (.infra .integrity)
  else
    let message := ⟨nextId (db.messages.map Message.id), messageSid, userId, body, none, none⟩
    .ok (message, { db with messages := db.messages ++ [message] })

/-- `MessageRepository.create` -/
def createMessage (messageSid : String) (userId : ℕ) (body : String) : App Message :=
  .statement (insertMessage messageSid userId body)

def classifyRow (messageId : ℕ) (messageType : MessageType) (rawGptResponse : String)
    (m : Message) : Message :=
  if m.id = messageId then
    { m with messageType := some messageType, rawGptResponse := some rawGptResponse }
  else m

/-- A later classification overwrites an earlier one. -/
def recordClassification (messageId : ℕ) (messageType : MessageType) (rawGptResponse : String) :
    App Unit :=
  .statement fun db => .ok ((), { db with
    messages := db.messages.map (classifyRow messageId messageType rawGptResponse) })

/-- The two readings of the clock which one pass of the limiter takes. -/
structure Readings where
  windowAt : ℤ
  createdAt : ℤ
  deriving DecidableEq

/-- `now - timedelta(seconds=…)`; out of the calendar it overflows. -/
def windowStart (windowAt windowSeconds : ℤ) : Option Datetime :=
  Datetime.ofInstant (windowAt - windowSeconds * second)

def insertRateLimit (userId : ℕ) (now : ℤ) (db : Database) : Except AppExn (Unit × Database) :=
  if db.users.all fun u => decide (u.id ≠ userId) then .error (.infra .integrity)
  else .ok ((), { db with rateLimits :=
    db.rateLimits ++ [⟨nextId (db.rateLimits.map RateLimit.id), userId, now⟩] })

def countSince (userId : ℕ) (window : ℤ) (rows : List RateLimit) : ℕ :=
  rows.countP fun r => decide (r.userId = userId ∧ window ≤ r.createdAt)

/-- Record this message, then count the user's messages in the rolling window. -/
def enforceRateLimit (userId : ℕ) (maxMessages windowSeconds : ℤ) (clock : Readings) : App ℕ :=
  match windowStart clock.windowAt windowSeconds with
  | none => .raise .overflow
  | some window => do
      .statement (insertRateLimit userId clock.createdAt)
      let count ← .query fun db => countSince userId window.instant db.rateLimits
      if maxMessages < count then .raise .rateLimitExceeded else pure count

/-- An empty number is refused; the others are hashed with the configured key. -/
def hashPhone (hmac : String → String) (number : String) : App String :=
  if number.isEmpty then .raise .valueError else pure (hmac number)

/-- A stored number is kept; a missing one is filled in. -/
def backfillPhone (phoneHash : String) (phoneE164 : Option String) (u : User) : User :=
  if u.phoneHash = phoneHash then { u with phoneE164 := u.phoneE164.or phoneE164 } else u

/-- `INSERT … ON CONFLICT (phone_hash) DO UPDATE … RETURNING` -/
def upsertUser (phoneHash : String) (phoneE164 : Option String) (db : Database) :
    User × Database :=
  match db.users.find? fun u => decide (u.phoneHash = phoneHash) with
  | some u => (backfillPhone phoneHash phoneE164 u,
      { db with users := db.users.map (backfillPhone phoneHash phoneE164) })
  | none =>
      let user := ⟨nextId (db.users.map User.id), phoneHash, phoneE164⟩
      (user, { db with users := db.users ++ [user] })

/-- `UserRepository.get_or_create` -/
def getOrCreate (phoneHash : String) (phoneE164 : Option String) : App User := do
  bindParameters (phoneE164.all isText)
  .statement fun db => .ok (upsertUser phoneHash phoneE164 db)

def insertAudit (messageSid : String) (event : AuditEvent) (messageId : Option ℕ)
    (db : Database) : Except AppExn (Unit × Database) :=
  if !isText messageSid then .error (.infra .data)
  else if messageId.any fun i => db.messages.all fun m => decide (m.id ≠ i) then
    .error (.infra .integrity)
  else .ok ((), { db with auditLogs := db.auditLogs ++
    [⟨nextId (db.auditLogs.map AuditLog.id), messageSid, messageId, event⟩] })

/-- `AuditLogRepository.write` -/
def writeAudit (messageSid : String) (event : AuditEvent) (messageId : Option ℕ) : App Unit :=
  .statement (insertAudit messageSid event messageId)

section
variable {db d : Database} {messageSid body phoneHash : String} {userId : ℕ}

@[simp] theorem classifyRow_id (messageId : ℕ) (t : MessageType) (raw : String) (m : Message) :
    (classifyRow messageId t raw m).id = m.id := by
  unfold classifyRow
  split_ifs <;> rfl

@[simp] theorem classifyRow_messageSid (messageId : ℕ) (t : MessageType) (raw : String)
    (m : Message) :
    (classifyRow messageId t raw m).messageSid = m.messageSid := by
  unfold classifyRow
  split_ifs <;> rfl

@[simp] theorem classifyRow_userId (messageId : ℕ) (t : MessageType) (raw : String) (m : Message) :
    (classifyRow messageId t raw m).userId = m.userId := by
  unfold classifyRow
  split_ifs <;> rfl

theorem map_id_classifyRow (messages : List Message) (messageId : ℕ) (t : MessageType)
    (raw : String) :
    (messages.map (classifyRow messageId t raw)).map Message.id = messages.map Message.id := by
  simp

theorem map_messageSid_classifyRow (messages : List Message) (messageId : ℕ) (t : MessageType)
    (raw : String) :
    (messages.map (classifyRow messageId t raw)).map Message.messageSid =
      messages.map Message.messageSid := by
  simp

/-- Looked up by its MessageSid, a message is found where it was. -/
theorem find?_map_classifyRow (messages : List Message) (messageId : ℕ) (t : MessageType)
    (raw messageSid : String) :
    (messages.map (classifyRow messageId t raw)).find?
        (fun m => decide (m.messageSid = messageSid)) =
      (messages.find? fun m => decide (m.messageSid = messageSid)).map
        (classifyRow messageId t raw) := by
  rw [List.find?_map]
  congr 2
  funext m
  simp

theorem insertMessage_ok {m : Message} (h : insertMessage messageSid userId body db = .ok (m, d)) :
    (∀ n ∈ db.messages, n.messageSid ≠ messageSid) ∧ m.messageSid = messageSid ∧
      m.userId = userId ∧ m.messageType = none ∧ m.id = nextId (db.messages.map Message.id) ∧
      d = { db with messages := db.messages ++ [m] } := by
  unfold insertMessage at h
  split_ifs at h with _ hseen huser
  cases h
  refine ⟨fun n hn hsid => hseen ?_, rfl, rfl, rfl, rfl, rfl⟩
  exact List.any_eq_true.mpr ⟨n, hn, decide_eq_true hsid⟩

/-- The foreign key of a message leads to a stored user. -/
theorem insertMessage_user {m : Message}
    (h : insertMessage messageSid userId body db = .ok (m, d)) : userId ∈ db.users.map User.id := by
  unfold insertMessage at h
  split_ifs at h with _ _ hknown
  simpa using hknown

/-- What is stored can be bound. -/
theorem insertMessage_fits {m : Message}
    (h : insertMessage messageSid userId body db = .ok (m, d)) :
    isText messageSid = true ∧ isText body = true := by
  unfold insertMessage at h
  split_ifs at h with hfits
  simpa using hfits

theorem insertAudit_ok {event : AuditEvent} {messageId : Option ℕ}
    (h : insertAudit messageSid event messageId db = .ok ((), d)) :
    ∃ row : AuditLog, row.messageSid = messageSid ∧ row.event = event ∧
      d = { db with auditLogs := db.auditLogs ++ [row] } := by
  unfold insertAudit at h
  split_ifs at h
  cases h
  exact ⟨_, rfl, rfl, rfl⟩

theorem insertRateLimit_ok {now : ℤ} (h : insertRateLimit userId now db = .ok ((), d)) :
    ∃ i, d = { db with rateLimits := db.rateLimits ++ [⟨i, userId, now⟩] } := by
  unfold insertRateLimit at h
  split_ifs at h
  cases h
  exact ⟨_, rfl⟩

/-- What an insert refuses it refuses as an infrastructure error. -/
theorem insertMessage_ne_app (e : AppError) :
    insertMessage messageSid userId body db ≠ .error (.app e) := by
  unfold insertMessage
  split_ifs <;> simp

theorem insertAudit_ne_app {event : AuditEvent} {messageId : Option ℕ} (e : AppError) :
    insertAudit messageSid event messageId db ≠ .error (.app e) := by
  unfold insertAudit
  split_ifs <;> simp

theorem insertRateLimit_ne_app {now : ℤ} (e : AppError) :
    insertRateLimit userId now db ≠ .error (.app e) := by
  unfold insertRateLimit
  split_ifs <;> simp

/-- An audit row changes the session's audit log and nothing else. -/
theorem keeps_writeAudit {P : Program.Assertion Database Effect} {R : AppError → Prop}
    (hlogs : ∀ s logs, P s → P { s with session := { s.session with auditLogs := logs } })
    (messageSid : String) (event : AuditEvent) (messageId : Option ℕ) :
    Program.Keeps P R (writeAudit messageSid event messageId) := by
  refine .statement (fun s _ d hs hok => ?_) fun s e _ herror => ?_
  · obtain ⟨row, _, _, rfl⟩ := insertAudit_ok hok
    exact hlogs s _ hs
  · exact absurd herror (insertAudit_ne_app e)

/-- Hashing takes no step of the database: it refuses an empty number and else returns. -/
theorem hashPhone_triple (hmac : String → String) (number : String)
    (P : Program.Assertion Database Effect) : Program.Triple P (hashPhone hmac number)
      (fun phoneHash s => P s ∧ phoneHash = hmac number) (fun _ => P) := by
  unfold hashPhone
  split_ifs
  · exact .raise fun _ hs => hs
  · exact .pure fun _ hs => ⟨hs, rfl⟩

theorem keeps_hashPhone {P : Program.Assertion Database Effect} {R : AppError → Prop}
    (hR : R .valueError) (hmac : String → String) (number : String) :
    Program.Keeps P R (hashPhone hmac number) := by
  unfold hashPhone
  split_ifs
  · exact .raise hR
  · exact .pure _

theorem run_hashPhone (hmac : String → String) {number : String} (h : number.isEmpty = false)
    (w : AppWorld) : (hashPhone hmac number).run w = (.ok (hmac number), w) := by
  rw [hashPhone, h]
  rfl

theorem run_hashPhone_ok {hmac : String → String} {number : String} {w w' : AppWorld}
    (h : (hashPhone hmac number).run w = (.ok phoneHash, w')) :
    number.isEmpty = false ∧ phoneHash = hmac number ∧ w' = w := by
  unfold hashPhone at h
  split_ifs at h with hempty
  · cases h
  · cases h
    exact ⟨by simpa using hempty, rfl, rfl⟩

/-- For a user who exists the insert cannot fail. -/
theorem insertRateLimit_of_mem {now : ℤ} (h : ∃ u ∈ db.users, u.id = userId) :
    insertRateLimit userId now db = .ok ((), { db with rateLimits :=
      db.rateLimits ++ [⟨nextId (db.rateLimits.map RateLimit.id), userId, now⟩] }) := by
  have hknown : (db.users.all fun u => decide (u.id ≠ userId)) = false := all_key_ne_eq_false h
  simp only [insertRateLimit, hknown, Bool.false_eq_true, if_false]

/-- A message under a new MessageSid of a user who exists is inserted. -/
theorem insertMessage_of_fresh (hsid : isText messageSid = true) (hbody : isText body = true)
    (hfresh : ∀ m ∈ db.messages, m.messageSid ≠ messageSid)
    (huser : ∃ u ∈ db.users, u.id = userId) :
    insertMessage messageSid userId body db =
      .ok (⟨nextId (db.messages.map Message.id), messageSid, userId, body, none, none⟩,
        { db with messages := db.messages ++
          [⟨nextId (db.messages.map Message.id), messageSid, userId, body, none, none⟩] }) := by
  have hseen : (db.messages.any fun m => decide (m.messageSid = messageSid)) = false :=
    any_key_eq_false hfresh
  have hknown : (db.users.all fun u => decide (u.id ≠ userId)) = false :=
    all_key_ne_eq_false huser
  simp only [insertMessage, hsid, hbody, hseen, hknown, Bool.and_self, Bool.not_true,
    Bool.false_eq_true, if_false]

theorem insertAudit_of_known {event : AuditEvent} {messageId : Option ℕ}
    (hsid : isText messageSid = true) (h : ∀ i ∈ messageId, ∃ m ∈ db.messages, m.id = i) :
    insertAudit messageSid event messageId db = .ok ((), { db with auditLogs := db.auditLogs ++
      [⟨nextId (db.auditLogs.map AuditLog.id), messageSid, messageId, event⟩] }) := by
  have hknown : (messageId.any fun i => db.messages.all fun m => decide (m.id ≠ i)) = false := by
    cases messageId with
    | none => rfl
    | some i => exact all_key_ne_eq_false (h i rfl)
  simp only [insertAudit, hsid, hknown, Bool.not_true, Bool.false_eq_true, if_false]

/-- For a message which is stored the row cannot be refused. -/
theorem insertAudit_of_mem (hsid : isText messageSid = true) (event : AuditEvent) {messageId : ℕ}
    (h : messageId ∈ db.messages.map Message.id) :
    ∃ row : AuditLog, insertAudit messageSid event (some messageId) db =
      .ok ((), { db with auditLogs := db.auditLogs ++ [row] }) := by
  refine ⟨_, insertAudit_of_known hsid ?_⟩
  rintro i ⟨⟩
  exact List.mem_map.mp h

theorem insertAudit_of_none {event : AuditEvent} (hsid : isText messageSid = true) :
    insertAudit messageSid event none db = .ok ((), { db with auditLogs := db.auditLogs ++
      [⟨nextId (db.auditLogs.map AuditLog.id), messageSid, none, event⟩] }) :=
  insertAudit_of_known hsid fun _ h => by cases h

/-- The row which the upsert returns is in the table it leaves. -/
theorem upsertUser_mem {d : Database} {h : String} (phoneE164 : Option String) :
    (upsertUser h phoneE164 d).1 ∈ (upsertUser h phoneE164 d).2.users := by
  unfold upsertUser
  split
  case h_1 u hu => exact List.mem_map_of_mem (List.mem_of_find?_eq_some hu)
  case h_2 => exact List.mem_append_right _ (List.mem_singleton_self _)

/-- No user leaves the table. -/
theorem upsertUser_keeps_id {d : Database} {h : String} (phoneE164 : Option String) {id : ℕ}
    (hid : ∃ u ∈ d.users, u.id = id) : ∃ u ∈ (upsertUser h phoneE164 d).2.users, u.id = id := by
  obtain ⟨u, hu, rfl⟩ := hid
  unfold upsertUser
  split
  · refine ⟨_, List.mem_map_of_mem hu, ?_⟩
    unfold backfillPhone
    split_ifs <;> rfl
  · exact ⟨u, List.mem_append_left _ hu, rfl⟩

/-- The upsert touches no other table. -/
theorem upsertUser_frame {d : Database} {h : String} (phoneE164 : Option String) :
    ∃ users, (upsertUser h phoneE164 d).2 = { d with users := users } := by
  unfold upsertUser
  split
  · exact ⟨_, rfl⟩
  · exact ⟨_, rfl⟩

theorem upsertUser_ok {user : User} {phoneE164 : Option String}
    (h : upsertUser phoneHash phoneE164 db = (user, d)) :
    user ∈ d.users ∧
      (∀ id, (∃ u ∈ db.users, u.id = id) → ∃ u ∈ d.users, u.id = id) ∧
      ∃ users, d = { db with users := users } := by
  have hd : (upsertUser phoneHash phoneE164 db).2 = d := by rw [h]
  have hmem := upsertUser_mem (d := db) (h := phoneHash) phoneE164
  rw [h] at hmem
  refine ⟨hmem, fun id hid => hd ▸ upsertUser_keeps_id phoneE164 hid, ?_⟩
  exact hd ▸ upsertUser_frame phoneE164

end

end Vici.SmsRepositories
