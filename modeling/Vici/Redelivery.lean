import Vici.Webhook
import Vici.ActionRuns

/-!
# Redelivery of a message

The sender of a message delivers it until it is answered. The message row is
committed before the workflow is started, and the duplicate gate looks at the
row alone. So an answer vouches for the workflow only as long as every start
which follows a commit takes place; one start which is refused, or cut off by a
crash, leaves a row whose later deliveries are all answered as duplicates. A
commit of which the route does not hear is followed by no start at all.
-/
namespace Vici.Redelivery
open Models AppPrograms SessionPrograms SmsRepositories Webhook ActionRuns
open Program (Triple Keeps Holds Allowed)

/-- What the deliveries so far have left behind. -/
structure Inbox where
  database : Database
  log : List (Event Database Effect)

def Inbox.deliver (cfg : Config) (x : Inbox) (d : Delivery) : Inbox :=
  let s := (Webhook.deliver cfg x.database d).2.store
  ⟨s.committed, x.log ++ s.log⟩

def step (cfg : Config) (x : Inbox) (d : Delivery) : Option Inbox := some (x.deliver cfg d)

def Inbox.Stored (x : Inbox) (messageSid : String) : Prop :=
  ∃ m ∈ x.database.messages, m.messageSid = messageSid

def Inbox.Started (x : Inbox) (messageSid : String) : Prop :=
  ∃ fromNumber body, .effect (.workflowStarted messageSid fromNumber body) ∈ x.log

def startsWorkflow (messageSid : String) : Event Database Effect → Bool
  | .effect (.workflowStarted sid _ _) => decide (sid = messageSid)
  | _ => false

theorem Inbox.started_iff {x : Inbox} {messageSid : String} :
    x.log.any (startsWorkflow messageSid) = true ↔ x.Started messageSid := by
  rw [List.any_eq_true]
  constructor
  · rintro ⟨e, he, hstarts⟩
    unfold startsWorkflow at hstarts
    split at hstarts
    · obtain rfl := of_decide_eq_true hstarts
      exact ⟨_, _, he⟩
    · cases hstarts
  · rintro ⟨fromNumber, body, hmem⟩
    exact ⟨_, hmem, decide_eq_true rfl⟩

instance (x : Inbox) (messageSid : String) : Decidable (x.Started messageSid) :=
  decidable_of_iff _ Inbox.started_iff

def Carries (d : Delivery) (messageSid : String) : Prop :=
  ∃ payload, TwilioWebhookPayload.parse (formData d.request.form) = .ok payload ∧
    payload.messageSid.1 = messageSid

/-- Answered 200 because accepted, or because recognised as a duplicate. -/
def Acknowledged (answer : Except AppStop Unit) : Prop :=
  answer = .ok () ∨ answer = .error (.raised (.app .duplicateMessageSid))

/-- The four gates. -/
def passGates (cfg : Config) (req : Request) : App InboundSms := do
  let inbound ← identify cfg req
  enforceRateLimit cfg req.clock inbound

theorem accept_eq (cfg : Config) (req : Request) : accept cfg req = (do
    let inbound ← passGates cfg req
    persistMessage inbound
    pure inbound) := by
  simp only [accept, passGates, bind_assoc]

/-- The route is told when its message has been committed, and the call which starts the
workflow is then neither refused nor cut off. The answer of the call may be lost. -/
def StartTakesPlace (cfg : Config) (x : Inbox) (d : Delivery) : Prop :=
  (∀ inbound w w₁, (passGates cfg d.request).run (.opened x.database d.faults) = (.ok inbound, w) →
    (messageRows inbound).run w = (.ok (), w₁) → ∀ e, w₁.next.1 ≠ some (.loses e)) ∧
  ∀ inbound w, (accept cfg d.request).run (.opened x.database d.faults) = (.ok inbound, w) →
    w.applies = true

section
variable {cfg : Config} {req : Request} {rows : List Message}

/-- A complaint about a duplicate is about a stored MessageSid. -/
def Complains (req : Request) (rows : List Message) (e : AppError) : Prop :=
  e = .duplicateMessageSid → ∃ payload,
    TwilioWebhookPayload.parse (formData req.form) = .ok payload ∧
      ∃ m ∈ rows, m.messageSid = payload.messageSid.1

theorem complains_of_ne {e : AppError} (h : e ≠ .duplicateMessageSid) :
    Complains req rows e := fun he => (h he).elim

theorem keeps_enforceRateLimit (clock : Readings) (inbound : InboundSms) :
    Keeps (Holds fun d => d.messages = rows) (Complains req rows)
      (enforceRateLimit cfg clock inbound) := by
  refine .bind (keeps_auditing (fun _ _ h => h) (Holds.transaction ?_)) fun _ => .pure _
  unfold SmsRepositories.enforceRateLimit
  split
  · exact .raise (complains_of_ne (by simp))
  · refine .bind (Holds.statement (fun d _ d' hd hok => ?_) fun d e _ herror => ?_) fun _ =>
      .bind (.query _) fun count => ?_
    · obtain ⟨_, rfl⟩ := insertRateLimit_ok hok
      exact hd
    · exact absurd herror (insertRateLimit_ne_app e)
    · split_ifs
      · exact .raise (complains_of_ne (by simp))
      · exact .pure _

/-- The route adds the one message, and nothing of it before the commit. -/
theorem messageRows_triple (inbound : InboundSms) :
    Triple (Holds fun d => d.messages = rows) (messageRows inbound)
      (fun _ s => s.committed.messages = rows ∧ ∀ m ∈ s.session.messages,
        m ∈ rows ∨ m.messageSid = inbound.payload.messageSid.1)
      (fun e s => s.committed.messages = rows ∧ Allowed (Complains req rows) e) := by
  refine .bind (Q := fun m s => s.committed.messages = rows ∧
    s.session.messages = rows ++ [m] ∧ m.messageSid = inbound.payload.messageSid.1) ?_
      fun message => ?_
  · refine .statement (fun e s he hs => ⟨hs.1, Program.allowed_of_fromOutside he⟩) ?_ ?_
    · intro s e hs herror
      refine ⟨hs.1, ?_⟩
      intro a ha
      cases ha
      exact absurd herror (insertMessage_ne_app a)
    · intro s m d hs hok
      obtain ⟨_, hsid, _, _, _, rfl⟩ := insertMessage_ok hok
      exact ⟨hs.1, by rw [hs.2], hsid⟩
  · refine .statement (fun e s he hs => ⟨hs.1, Program.allowed_of_fromOutside he⟩) ?_ ?_
    · intro s e hs herror
      refine ⟨hs.1, ?_⟩
      intro a ha
      cases ha
      exact absurd herror (insertAudit_ne_app a)
    · rintro s _ d ⟨hcommitted, hsession, hsid⟩ hok
      obtain ⟨row, _, _, rfl⟩ := insertAudit_ok hok
      refine ⟨hcommitted, fun m hm => ?_⟩
      rw [hsession] at hm
      rcases List.mem_append.mp hm with hm | hm
      · exact .inl hm
      · rw [List.mem_singleton.mp hm]
        exact .inr hsid

theorem keeps_passGates (rows : List Message) :
    Keeps (Holds fun d => d.messages = rows) (Complains req rows) (passGates cfg req) := by
  refine .bind ?_ fun inbound => keeps_enforceRateLimit req.clock inbound
  refine keeps_identify (fun _ _ h => h) (fun _ _ h => h) (fun _ => complains_of_ne) ?_
  rintro payload d hparse rfl hseen _
  exact ⟨payload, hparse, hseen⟩

theorem accept_messages (rows : List Message) :
    Triple (Holds fun d => d.messages = rows) (accept cfg req)
      (fun inbound s => ∀ m ∈ s.committed.messages,
        m ∈ rows ∨ m.messageSid = inbound.payload.messageSid.1) (fun _ _ => True) := by
  rw [accept_eq]
  refine .bind ((keeps_passGates rows).consequence (fun _ h => h) (fun _ _ h => h)
    fun _ _ _ => trivial) fun inbound => .bind (.transaction ?_) fun _ => .pure fun _ h => h
  have hrows : Triple (Holds fun d => d.messages = rows) (messageRows inbound) _
      (fun e s => s.committed.messages = rows ∧ Allowed (Complains req rows) e) :=
    messageRows_triple inbound
  exact hrows.consequence (fun _ h => h)
    (fun _ _ h => ⟨h.2, fun _ _ => ⟨trivial, trivial⟩⟩) fun _ _ _ => trivial

/-- A delivery which stops and has heard of its commit, if there was one, stores nothing. -/
theorem accept_error {e : AppStop} {w w' : AppWorld}
    (hw : w.store.committed.messages = rows ∧ w.store.session.messages = rows)
    (hheard : ∀ inbound w₁ w₂, (passGates cfg req).run w = (.ok inbound, w₁) →
      (messageRows inbound).run w₁ = (.ok (), w₂) → ∀ x, w₂.next.1 ≠ some (.loses x))
    (h : (accept cfg req).run w = (.error e, w')) :
    w'.store.committed.messages = rows ∧ Allowed (Complains req rows) e := by
  rcases hpass : (passGates cfg req).run w with ⟨s | inbound, w₁⟩
  · rw [accept_eq, Program.run_bind_of_error hpass] at h
    cases h
    have hkept := (keeps_passGates rows).error hw hpass
    exact ⟨hkept.1.1, hkept.2⟩
  · have hw₁ := (keeps_passGates rows).ok hw hpass
    rcases hpersist : (persistMessage inbound).run w₁ with ⟨s | _, w₂⟩
    · rw [accept_eq, Program.run_bind_of_ok hpass, Program.run_bind_of_error hpersist] at h
      cases h
      have hrows : Triple (Holds fun d => d.messages = rows) (messageRows inbound) _
          (fun e s => s.committed.messages = rows ∧ Allowed (Complains req rows) e) :=
        messageRows_triple inbound
      rcases Program.run_transaction_error hpersist with ⟨w₃, hbody, hback⟩ |
        ⟨_, w₃, hbody, houtside, hback | ⟨x, hlost, _, _⟩⟩
      · rw [hback]
        exact hrows.error hw₁ hbody
      · rw [hback]
        exact ⟨(hrows.ok hw₁ hbody).1, Program.allowed_of_fromOutside houtside⟩
      · exact absurd hlost (hheard inbound w₁ w₃ hpass hbody x)
    · rw [accept_eq, Program.run_bind_of_ok hpass, Program.run_bind_of_ok hpersist] at h
      cases h

theorem accept_ok {inbound : InboundSms} {w w' : AppWorld}
    (h : (accept cfg req).run w = (.ok inbound, w')) :
    TwilioWebhookPayload.parse (formData req.form) = .ok inbound.payload := by
  obtain ⟨inbound₁, w₁, hidentify, h⟩ := Program.run_bind_ok h
  obtain ⟨inbound₂, w₂, hlimit, h⟩ := Program.run_bind_ok h
  obtain ⟨_, w₃, _, h⟩ := Program.run_bind_ok h
  cases h
  rw [(enforceRateLimit_ok hlimit).1]
  exact identify_ok hidentify

end

section
variable {cfg : Config} {x : Inbox} {d : Delivery} {messageSid : String}

theorem Inbox.Started.deliver (h : x.Started messageSid) :
    (x.deliver cfg d).Started messageSid := by
  obtain ⟨fromNumber, body, hmem⟩ := h
  exact ⟨fromNumber, body, List.mem_append_left _ hmem⟩

/-- A delivery which stops before its start call stores nothing, and calls a duplicate
only what is stored. -/
theorem deliver_of_rejected (hstart : StartTakesPlace cfg x d) {e : AppStop} {w : AppWorld}
    (h : (accept cfg d.request).run (.opened x.database d.faults) = (.error e, w)) :
    (Webhook.deliver cfg x.database d).1 = .error e ∧
      (x.deliver cfg d).database.messages = x.database.messages ∧
      Allowed (Complains d.request x.database.messages) e := by
  have hrun : Webhook.deliver cfg x.database d = (.error e, w) := by
    rw [Webhook.deliver, receiveSms, Program.run_bind, h]
  have haccept := accept_error ⟨rfl, rfl⟩ hstart.1 h
  refine ⟨by rw [hrun], ?_, haccept.2⟩
  rw [Inbox.deliver, hrun]
  exact haccept.1

/-- A delivery which commits its message starts the workflow when the start takes place. -/
theorem deliver_of_accepted (hstart : StartTakesPlace cfg x d) {inbound : InboundSms}
    {w : AppWorld}
    (h : (accept cfg d.request).run (.opened x.database d.faults) = (.ok inbound, w)) :
    (x.deliver cfg d).Started inbound.payload.messageSid.1 ∧
      ∀ m ∈ (x.deliver cfg d).database.messages,
        m ∈ x.database.messages ∨ m.messageSid = inbound.payload.messageSid.1 := by
  have hstore : (Webhook.deliver cfg x.database d).2.store =
      Program.logged (.workflowStarted inbound.payload.messageSid.1
        inbound.payload.fromNumber.1 inbound.payload.body.1) w.store := by
    rw [Webhook.deliver, receiveSms, Program.run_bind, h]
    dsimp only
    rw [startProcessMessageWorkflow, Program.external, Program.run_call_store,
      if_pos (hstart.2 inbound w h)]
  have haccept := (accept_messages x.database.messages).ok ⟨rfl, rfl⟩ h
  rw [Inbox.deliver, hstore]
  refine ⟨⟨inbound.payload.fromNumber.1, inbound.payload.body.1, ?_⟩, haccept⟩
  exact List.mem_append_right _ (List.mem_append_right _ (List.mem_singleton_self _))

/-- What is stored has been started, as long as every start takes place. -/
theorem started_of_stored_deliver (hstart : StartTakesPlace cfg x d)
    (hinv : x.Stored messageSid → x.Started messageSid) :
    (x.deliver cfg d).Stored messageSid → (x.deliver cfg d).Started messageSid := by
  rintro ⟨m, hm, hsid⟩
  rcases hrun : (accept cfg d.request).run (.opened x.database d.faults) with ⟨e | inbound, w⟩
  · have hmessages := (deliver_of_rejected hstart hrun).2.1
    exact (hinv ⟨m, hmessages ▸ hm, hsid⟩).deliver
  · obtain ⟨hstarted, hrows⟩ := deliver_of_accepted hstart hrun
    rcases hrows m hm with hold | hnew
    · exact (hinv ⟨m, hold, hsid⟩).deliver
    · rwa [← hsid, hnew]

theorem started_of_acknowledged_deliver (hstart : StartTakesPlace cfg x d)
    (hinv : x.Stored messageSid → x.Started messageSid) (hcarries : Carries d messageSid)
    (hack : Acknowledged (Webhook.deliver cfg x.database d).1) :
    (x.deliver cfg d).Started messageSid := by
  obtain ⟨payload, hparse, hsid⟩ := hcarries
  rcases hrun : (accept cfg d.request).run (.opened x.database d.faults) with ⟨e | inbound, w⟩
  · obtain ⟨hanswer, _, hallowed⟩ := deliver_of_rejected hstart hrun
    rw [hanswer] at hack
    have he : e = .raised (.app .duplicateMessageSid) := by
      rcases hack with hok | hdup
      · cases hok
      · exact Except.error.inj hdup
    obtain ⟨payload', hparse', m, hm, hm'⟩ := hallowed _ he rfl
    obtain rfl : payload = payload' := Except.ok.inj (hparse.symm.trans hparse')
    exact (hinv ⟨m, hm, hm'.trans hsid⟩).deliver
  · have hpayload : inbound.payload = payload := by
      exact Except.ok.inj ((accept_ok hrun).symm.trans hparse)
    rw [← hsid, ← hpayload]
    exact (deliver_of_accepted hstart hrun).1

theorem startTakesPlace_of_calm (h : d.faults = []) : StartTakesPlace cfg x d := by
  constructor
  · intro inbound w w₁ hpass hrows e
    have hcalm : w₁.faults = [] := Program.calm_run (Program.calm_run h hpass) hrows
    rw [World.next_of_calm hcalm]
    rintro ⟨⟩
  · intro inbound w hrun
    have hcalm : w.faults = [] := Program.calm_run h hrun
    exact World.applies_of_calm hcalm

/-- As long as every start takes place, an acknowledged message has been started. -/
theorem started_of_acknowledged {db : Database} {before : List Delivery}
    (hfresh : ∀ m ∈ db.messages, m.messageSid ≠ messageSid)
    (hstarts : Along (step cfg) (StartTakesPlace cfg) ⟨db, []⟩ (before ++ [d]))
    (hrun : exec (step cfg) ⟨db, []⟩ before = some x) (hcarries : Carries d messageSid)
    (hack : Acknowledged (Webhook.deliver cfg x.database d).1) :
    (x.deliver cfg d).Started messageSid := by
  have hinv : x.Stored messageSid → x.Started messageSid := by
    refine exec_invariant (fun y => y.Stored messageSid → y.Started messageSid)
      (fun y e z hok hy hz => ?_) hstarts.append.1 ?_ hrun
    · obtain rfl : y.deliver cfg e = z := Option.some.inj hz
      exact started_of_stored_deliver hok hy
    · rintro ⟨m, hm, hsid⟩
      exact (hfresh m hm hsid).elim
  exact started_of_acknowledged_deliver (hstarts.last hrun) hinv hcarries hack

end

theorem carries_hello : Carries ⟨hello, []⟩ "SM1" :=
  ⟨⟨⟨"SM1", by decide⟩, ⟨"+1", by decide⟩, ⟨"hi", by decide⟩, ⟨"AC1", by decide⟩⟩, rfl, rfl⟩

theorem started_of_acknowledged_hello :
    ((Inbox.deliver (unsignedConfig 5 60) ⟨.empty, []⟩ ⟨hello, []⟩).deliver
      (unsignedConfig 5 60) ⟨hello, []⟩).Started "SM1" := by
  have hstarts : Along (step (unsignedConfig 5 60)) (StartTakesPlace (unsignedConfig 5 60))
      ⟨.empty, []⟩ ([⟨hello, []⟩] ++ [⟨hello, []⟩]) :=
    ⟨startTakesPlace_of_calm rfl, fun _ _ => ⟨startTakesPlace_of_calm rfl, fun _ _ => trivial⟩⟩
  have hfresh : ∀ m ∈ Database.empty.messages, m.messageSid ≠ "SM1" := fun _ hm => nomatch hm
  exact started_of_acknowledged hfresh hstarts rfl carries_hello (.inr rfl)

/-- Ten statements and commits succeed; the call that follows them is refused. -/
def startRefused : Delivery :=
  ⟨hello, List.replicate 10 none ++ [some (.refuses (.unavailable "temporal"))]⟩

/-- The first delivery stores the message and fails; the second is answered as a
duplicate, and no workflow has been started. -/
theorem acknowledged_without_workflow :
    Acknowledged (Webhook.deliver (unsignedConfig 5 60)
        (Inbox.deliver (unsignedConfig 5 60) ⟨.empty, []⟩ startRefused).database ⟨hello, []⟩).1 ∧
      Carries ⟨hello, []⟩ "SM1" ∧
      ¬((Inbox.deliver (unsignedConfig 5 60) ⟨.empty, []⟩ startRefused).deliver
        (unsignedConfig 5 60) ⟨hello, []⟩).Started "SM1" :=
  ⟨.inr rfl, carries_hello, by decide⟩

end Vici.Redelivery
