import Vici.TableIntegrity

/-!
# From the webhook to the workflow

A delivery stores the text which it was sent and then starts the workflow of the
message with the arguments of its own request. A redelivery may carry another text
under the same MessageSid, but it neither overwrites the row nor starts a workflow.
So the text which a workflow works on is the one on record, and each message on
record has its workflow, unless its start is still to come or has been lost.
-/
namespace Vici.HandedOver
open Models AppPrograms SessionPrograms Attempts ActionRuns KeyedRows Webhook
open DeliveryFootprints SmsRepositories SyncQueueRepository RateLimitPurge
open ServiceRuns TableIntegrity
open DeliveryRaces (Phase Change deliveries_move)
open EmbeddingDocuments (startedWorkflow)
open PosterPhones (Registered)

/-- The request of the delivery has the payload. -/
def Sent (requests : ℕ → Request) (i : ℕ) (payload : TwilioWebhookPayload) : Prop :=
  TwilioWebhookPayload.parse (formData (requests i).form) = .ok payload

/-- The arguments of the workflow. -/
def inputOf (payload : TwilioWebhookPayload) : ProcessMessageInput :=
  ⟨payload.messageSid.1, payload.fromNumber.1, payload.body.1⟩

/-- The row says what the payload said, and points to its sender. -/
structure Carries (hmac : String → String) (d : Database) (m : Message)
    (payload : TwilioWebhookPayload) : Prop where
  messageSid : m.messageSid = payload.messageSid.1
  body : m.body = payload.body.1
  sender : Registered d.users m.userId (hmac payload.fromNumber.1)

/-- What has become of the start: it is still to come, it has taken place, or the delivery
has ended with an error. -/
def Ends (s : EmbeddingDocuments.State) (i : ℕ) (payload : TwilioWebhookPayload) : Prop :=
  (∃ inbound, s.races.deliveries i = .stored inbound ∧ inbound.payload = payload) ∨
    (s.races.deliveries i = .answered (.ok ()) ∧ inputOf payload ∈ s.workflows) ∨
    ∃ stop, s.races.deliveries i = .answered (.error stop)

/-- The row was made from the request of the delivery. -/
def MadeBy (hmac : String → String) (requests : ℕ → Request) (s : EmbeddingDocuments.State)
    (m : Message) (i : ℕ) : Prop :=
  ∃ payload, Sent requests i payload ∧ Carries hmac s.database m payload ∧ Ends s i payload

structure Handing (cfg : Config) (requests : ℕ → Request) (d : Database)
    (s : EmbeddingDocuments.State) : Prop where
  grown : Follows d s.database
  payloads : ∀ i payload, (s.races.deliveries i).payload = some payload →
    Sent requests i payload
  senders : ∀ i inbound, (s.races.deliveries i).inbound = some inbound →
    Registered s.database.users inbound.sender.id (cfg.hmac inbound.payload.fromNumber.1)
  rows : ∀ m ∈ s.database.messages, m.messageSid ∈ sids d ∨ ∃ i, MadeBy cfg.hmac requests s m i
  pending : ∀ i inbound, s.races.deliveries i = .stored inbound →
    ∃ m ∈ s.database.messages, MadeBy cfg.hmac requests s m i ∧
      m.messageSid = inbound.messageSid ∧ m.messageSid ∉ sids d ∧
      m.messageSid ∉ s.workflows.map ProcessMessageInput.messageSid
  alone : ∀ i j inbound inbound', s.races.deliveries i = .stored inbound →
    s.races.deliveries j = .stored inbound' → inbound.messageSid = inbound'.messageSid → i = j
  workflows : ∀ input ∈ s.workflows, ∃ m ∈ s.database.messages, ∃ payload,
    input = inputOf payload ∧ Carries cfg.hmac s.database m payload ∧ m.messageSid ∉ sids d
  once : (s.workflows.map ProcessMessageInput.messageSid).Nodup

section
variable {cfg : Config} {requests : ℕ → Request}
variable {hmac : String → String} {d d' : Database} {m n : Message} {i : ℕ}
variable {payload : TwilioWebhookPayload} {s t : EmbeddingDocuments.State}

theorem handing_initial (d : Database) :
    Handing cfg requests d (EmbeddingDocuments.initial d) where
  grown := .refl d
  payloads := by simp [EmbeddingDocuments.initial, DeliveryRaces.initial, Phase.payload]
  senders := by simp [EmbeddingDocuments.initial, DeliveryRaces.initial, Phase.inbound]
  rows m hm := .inl (List.mem_map_of_mem hm)
  pending := by simp [EmbeddingDocuments.initial, DeliveryRaces.initial]
  alone := by simp [EmbeddingDocuments.initial, DeliveryRaces.initial]
  workflows := by simp [EmbeddingDocuments.initial]
  once := List.nodup_nil

theorem registered_of_follows {id : ℕ} {phoneHash : String} (h : Registered d.users id phoneHash)
    (hfollows : Follows d d') : Registered d'.users id phoneHash := by
  obtain ⟨u, hu, rfl, rfl⟩ := h
  obtain ⟨v, hv, hid, hhash, _⟩ := hfollows.users.mem hu
  exact ⟨v, hv, hid, hhash⟩

theorem Carries.follows (h : Carries hmac d m payload) (hfollows : Follows d d')
    (hretyped : Retyped m n) : Carries hmac d' n payload := by
  obtain ⟨hsame, _⟩ := hretyped
  rw [hsame]
  exact ⟨h.messageSid, h.body, registered_of_follows h.sender hfollows⟩

/-- A step which moves no delivery and starts no workflow keeps what has become of a start. -/
theorem Ends.same (h : Ends s i payload) (hdeliveries : t.races.deliveries = s.races.deliveries)
    (hworkflows : t.workflows = s.workflows) : Ends t i payload := by
  simpa only [Ends, hdeliveries, hworkflows] using h

end

section
variable {cfg : Config} {requests : ℕ → Request} {s t : DeliveryRaces.State}
variable {a : DeliveryRaces.Action} {i j : ℕ} {inbound : InboundSms}
variable {input : ProcessMessageInput} {answer : Except AppStop Unit}

theorem answered_of_step (h : DeliveryRaces.step cfg requests s a = some t)
    (hi : s.deliveries i = .answered answer) : t.deliveries i = .answered answer := by
  cases a with
  | advance j =>
      by_cases hj : i = j
      · subst hj
        simp [DeliveryRaces.step, DeliveryRaces.advance, hi] at h
      · rw [(DeliveryRaces.advance_cases h).others hj, hi]
  | abort j stop =>
      simp only [DeliveryRaces.step] at h
      split at h
      case h_3 hidle hopen =>
        cases h
        have hj : i ≠ j := fun hj => hopen answer (hj ▸ hi)
        exact (deliveries_move s j i _).trans ((if_neg hj).trans hi)
      all_goals cases h
  | loseStart j stop | refuseStart j stop =>
      simp only [DeliveryRaces.step] at h
      split at h
      case h_1 inbound hphase =>
        cases h
        have hj : i ≠ j := by
          rintro rfl
          rw [hi] at hphase
          cases hphase
        exact (deliveries_move s j i _).trans ((if_neg hj).trans hi)
      case h_2 => cases h

/-- A delivery whose start is to come starts its workflow or ends with an error. -/
theorem stored_of_step (h : DeliveryRaces.step cfg requests s a = some t)
    (hi : s.deliveries i = .stored inbound) :
    t.deliveries i = .stored inbound ∨
      (t.deliveries i = .answered (.ok ()) ∧
        startedWorkflow s a = some (inputOf inbound.payload)) ∨
      ∃ stop, t.deliveries i = .answered (.error stop) := by
  cases a with
  | advance j =>
      by_cases hj : i = j
      · subst hj
        simp only [DeliveryRaces.step, DeliveryRaces.advance, hi] at h
        cases h
        refine .inr (.inl ⟨(deliveries_move s i i _).trans (if_pos rfl), ?_⟩)
        simp only [startedWorkflow, hi]
        rfl
      · exact .inl (((DeliveryRaces.advance_cases h).others hj).trans hi)
  | abort j stop =>
      simp only [DeliveryRaces.step] at h
      split at h
      case h_3 =>
        cases h
        by_cases hj : i = j
        · exact .inr (.inr ⟨stop, (deliveries_move s j i _).trans (if_pos hj)⟩)
        · exact .inl ((deliveries_move s j i _).trans ((if_neg hj).trans hi))
      all_goals cases h
  | loseStart j stop | refuseStart j stop =>
      simp only [DeliveryRaces.step] at h
      split at h
      case h_1 =>
        cases h
        by_cases hj : i = j
        · exact .inr (.inr ⟨stop, (deliveries_move s j i _).trans (if_pos hj)⟩)
        · exact .inl ((deliveries_move s j i _).trans ((if_neg hj).trans hi))
      case h_2 => cases h

/-- The delivery which starts a workflow has stored the message, and is done with it. -/
theorem of_startedWorkflow (h : DeliveryRaces.step cfg requests s a = some t)
    (hstarted : startedWorkflow s a = some input) :
    ∃ i inbound, s.deliveries i = .stored inbound ∧ input = inputOf inbound.payload ∧
      ∀ other, t.deliveries i ≠ .stored other := by
  have hdone {j : ℕ} {answer : Except AppStop Unit}
      (hdeliveries : t.deliveries = (s.move j (.answered answer)).deliveries) (other : InboundSms) :
      t.deliveries j ≠ .stored other := by
    rw [hdeliveries, deliveries_move, if_pos rfl]
    simp
  unfold startedWorkflow at hstarted
  split at hstarted
  case h_3 => cases hstarted
  case h_4 => cases hstarted
  case h_1 j =>
    split at hstarted
    · rename_i inbound hphase
      cases hstarted
      simp only [DeliveryRaces.step, DeliveryRaces.advance, hphase] at h
      cases h
      exact ⟨j, inbound, hphase, rfl, hdone rfl⟩
    · cases hstarted
  case h_2 j stop =>
    split at hstarted
    · rename_i inbound hphase
      cases hstarted
      simp only [DeliveryRaces.step, hphase] at h
      cases h
      exact ⟨j, inbound, hphase, rfl, hdone rfl⟩
    · cases hstarted

/-- A step stores one message, or none and leaves the starts which are to come. -/
theorem stores_or_not (h : Change cfg requests s i t) :
    (t.database.messages = s.database.messages ∧
        ∀ j inbound, t.deliveries j = .stored inbound → s.deliveries j = .stored inbound) ∨
      ∃ inbound message, s.deliveries i = .inserted inbound ∧
        storeMessage inbound s.database = .ok (message, t.database) ∧
        t.deliveries = (s.move i (.stored inbound)).deliveries := by
  have hkept {p : Phase} (hp : p.starting = none) (j : ℕ) (inbound : InboundSms)
      (hj : (s.move i p).deliveries j = .stored inbound) : s.deliveries j = .stored inbound := by
    rw [deliveries_move] at hj
    split_ifs at hj
    · rw [hj] at hp
      cases hp
    · exact hj
  cases h with
  | aside hp hd =>
      obtain ⟨_, _, _, rfl⟩ := hd
      exact .inl ⟨rfl, hkept hp.starting⟩
  | upserted _ hupsert =>
      obtain ⟨_, _, _, rfl⟩ := upsertUser_ok hupsert
      exact .inl ⟨rfl, hkept rfl⟩
  | inserted => exact .inl ⟨rfl, hkept rfl⟩
  | stored hphase hstore => exact .inr ⟨_, _, hphase, hstore, rfl⟩
  | dropped => exact .inl ⟨rfl, hkept rfl⟩
  | started => exact .inl ⟨rfl, hkept rfl⟩

/-- A delivery works on the payload of its own request. -/
theorem payloads_change (h : Change cfg requests s i t)
    (hs : ∀ j payload, (s.deliveries j).payload = some payload → Sent requests j payload) (j : ℕ)
    (payload : TwilioWebhookPayload) (hj : (t.deliveries j).payload = some payload) :
    Sent requests j payload := by
  by_cases hne : j = i
  · subst hne
    have hself (p : Phase) : (s.move j p).deliveries j = p :=
      (deliveries_move s j j p).trans (if_pos rfl)
    cases h with
    | aside hp _ =>
        rw [hself] at hj
        exact (hp.payload _ hj).elim (hs j payload) fun hparse => hparse
    | upserted hphase _ =>
        rw [hself] at hj
        exact hs j payload (hphase ▸ hj)
    | inserted hphase _ _ =>
        rw [hself] at hj
        exact hs j payload (hphase ▸ hj)
    | stored hphase _ =>
        rw [hself] at hj
        exact hs j payload (hphase ▸ hj)
    | dropped =>
        rw [hself] at hj
        cases hj
    | started _ =>
        rw [hself] at hj
        cases hj
  · exact hs j payload (by rwa [h.others hne] at hj)

/-- The sender of an admitted message is the user of its number. -/
theorem senders_change (h : Change cfg requests s i t) (hfollows : Follows s.database t.database)
    (hs : ∀ j inbound, (s.deliveries j).inbound = some inbound →
      Registered s.database.users inbound.sender.id (cfg.hmac inbound.payload.fromNumber.1))
    (j : ℕ) (inbound : InboundSms) (hj : (t.deliveries j).inbound = some inbound) :
    Registered t.database.users inbound.sender.id (cfg.hmac inbound.payload.fromNumber.1) := by
  by_cases hne : j = i
  · subst hne
    have hself (p : Phase) : (s.move j p).deliveries j = p :=
      (deliveries_move s j j p).trans (if_pos rfl)
    have hold (hin : (s.deliveries j).inbound = some inbound) :
        Registered t.database.users inbound.sender.id (cfg.hmac inbound.payload.fromNumber.1) :=
      registered_of_follows (hs j inbound hin) hfollows
    cases h with
    | aside hp _ =>
        rw [hself] at hj
        exact hold (hp.inbound _ hj)
    | upserted _ hupsert =>
        rw [hself] at hj
        cases hj
        have hhash := congrArg (fun r => r.1.phoneHash) hupsert
        rw [PosterPhones.upsertUser_phoneHash] at hhash
        exact ⟨_, (upsertUser_ok hupsert).1, rfl, hhash.symm⟩
    | inserted hphase _ _ =>
        rw [hself] at hj
        exact hold (hphase ▸ hj)
    | stored hphase _ =>
        rw [hself] at hj
        exact hold (hphase ▸ hj)
    | dropped =>
        rw [hself] at hj
        cases hj
    | started _ =>
        rw [hself] at hj
        cases hj
  · exact registered_of_follows (hs j inbound (by rwa [h.others hne] at hj)) hfollows

/-- The stored row is what the payload says. -/
theorem storeMessage_body {d d' : Database} {message : Message}
    (h : storeMessage inbound d = .ok (message, d')) : message.body = inbound.payload.body.1 := by
  obtain ⟨_, hinsert, _⟩ := storeMessage_parts h
  unfold insertMessage at hinsert
  split_ifs at hinsert
  cases hinsert
  rfl

end

section
variable {cfg : Config} {requests : ℕ → Request}
variable {fromisoformat : String → Option Datetimes.Datetime} {d d' : Database}
variable {s t : EmbeddingDocuments.State} {r : DeliveryRaces.State} {a : DeliveryRaces.Action}
variable {i : ℕ} {payload payload' : TwilioWebhookPayload} {input : ProcessMessageInput}

theorem Sent.unique (h : Sent requests i payload) (h' : Sent requests i payload') :
    payload = payload' := Except.ok.inj (h.symm.trans h')

theorem sids_of_follows (h : Follows d d') : sids d ⊆ sids d' := by
  intro messageSid hmem
  obtain ⟨m, hm, rfl⟩ := List.mem_map.mp hmem
  obtain ⟨n, hn, hsame, _⟩ := h.messages.mem hm
  refine List.mem_map.mpr ⟨n, hn, ?_⟩
  rw [hsame]

theorem Handing.sid_mem (hs : Handing cfg requests d s)
    (hinput : input.messageSid ∈ s.workflows.map ProcessMessageInput.messageSid) :
    input.messageSid ∈ sids s.database := by
  obtain ⟨input', hinput', hsid⟩ := List.mem_map.mp hinput
  obtain ⟨m, hm, payload, rfl, hcarries, _⟩ := hs.workflows input' hinput'
  exact List.mem_map.mpr ⟨m, hm, hcarries.messageSid.trans hsid⟩

/-- The workflow which a step starts is that of a stored message which had none. -/
theorem Handing.started (hs : Handing cfg requests d s)
    (h : DeliveryRaces.step cfg requests s.races a = some r)
    (hstarted : startedWorkflow s.races a = some input) :
    ∃ i inbound, s.races.deliveries i = .stored inbound ∧ input = inputOf inbound.payload ∧
      (∀ other, r.deliveries i ≠ .stored other) ∧
      ∃ m ∈ s.database.messages, Carries cfg.hmac s.database m inbound.payload ∧
        m.messageSid ∉ sids d ∧
        input.messageSid ∉ s.workflows.map ProcessMessageInput.messageSid := by
  obtain ⟨i, inbound, hphase, rfl, hdone⟩ := of_startedWorkflow h hstarted
  obtain ⟨m, hm, ⟨payload, hsent, hcarries, _⟩, hsid, hnew, hfree⟩ := hs.pending i inbound hphase
  obtain rfl := hsent.unique (hs.payloads i inbound.payload (by rw [hphase]; rfl))
  refine ⟨i, inbound, hphase, rfl, hdone, m, hm, hcarries, hnew, ?_⟩
  exact fun hmem => hfree (hsid ▸ hmem)

/-- The state which a step of a delivery leaves. -/
def delivered (s : EmbeddingDocuments.State) (r : DeliveryRaces.State)
    (a : DeliveryRaces.Action) : EmbeddingDocuments.State :=
  { s with races := r, workflows := s.workflows ++ (startedWorkflow s.races a).toList }

theorem mem_delivered : input ∈ (delivered s r a).workflows ↔
    input ∈ s.workflows ∨ startedWorkflow s.races a = some input := by
  simp [delivered]

theorem Ends.deliver (h : DeliveryRaces.step cfg requests s.races a = some r)
    (hends : Ends s i payload) : Ends (delivered s r a) i payload := by
  rcases hends with ⟨inbound, hstored, rfl⟩ | ⟨hanswered, hinput⟩ | ⟨stop, hanswered⟩
  · rcases stored_of_step h hstored with hstill | ⟨hanswered, hstarted⟩ | hlost
    · exact .inl ⟨inbound, hstill, rfl⟩
    · exact .inr (.inl ⟨hanswered, mem_delivered.mpr (.inr hstarted)⟩)
    · exact .inr (.inr hlost)
  · exact .inr (.inl ⟨answered_of_step h hanswered, mem_delivered.mpr (.inl hinput)⟩)
  · exact .inr (.inr ⟨stop, answered_of_step h hanswered⟩)

theorem MadeBy.deliver {m n : Message} (h : DeliveryRaces.step cfg requests s.races a = some r)
    (hfollows : Follows s.database r.database) (hm : MadeBy cfg.hmac requests s m i)
    (hretyped : Retyped m n) : MadeBy cfg.hmac requests (delivered s r a) n i := by
  obtain ⟨payload, hsent, hcarries, hends⟩ := hm
  exact ⟨payload, hsent, hcarries.follows hfollows hretyped, hends.deliver h⟩

/-- The workflows of a step were started by it or before, and their messages are stored. -/
theorem Handing.sid_mem_delivered (hs : Handing cfg requests d s)
    (h : DeliveryRaces.step cfg requests s.races a = some r) {messageSid : String}
    (hmem : messageSid ∈ (delivered s r a).workflows.map ProcessMessageInput.messageSid) :
    messageSid ∈ sids s.database := by
  obtain ⟨input, hinput, rfl⟩ := List.mem_map.mp hmem
  rcases mem_delivered.mp hinput with hinput | hstarted
  · exact hs.sid_mem (List.mem_map_of_mem hinput)
  · obtain ⟨_, inbound, _, rfl, _, m, hm, hcarries, _⟩ := hs.started h hstarted
    exact List.mem_map.mpr ⟨m, hm, hcarries.messageSid⟩

theorem Handing.workflows_delivered (hs : Handing cfg requests d s)
    (h : DeliveryRaces.step cfg requests s.races a = some r)
    (hfollows : Follows s.database r.database) (hinput : input ∈ (delivered s r a).workflows) :
    ∃ m ∈ r.database.messages, ∃ payload, input = inputOf payload ∧
      Carries cfg.hmac r.database m payload ∧ m.messageSid ∉ sids d := by
  obtain ⟨m, hm, payload, rfl, hcarries, hnew⟩ : ∃ m ∈ s.database.messages, ∃ payload,
      input = inputOf payload ∧ Carries cfg.hmac s.database m payload ∧
        m.messageSid ∉ sids d := by
    rcases mem_delivered.mp hinput with hinput | hstarted
    · exact hs.workflows input hinput
    · obtain ⟨_, inbound, _, rfl, _, m, hm, hcarries, hnew, _⟩ := hs.started h hstarted
      exact ⟨m, hm, inbound.payload, rfl, hcarries, hnew⟩
  obtain ⟨n, hn, hretyped⟩ := hfollows.messages.mem hm
  refine ⟨n, hn, payload, rfl, hcarries.follows hfollows hretyped, ?_⟩
  rwa [hretyped.1]

theorem Handing.once_delivered (hs : Handing cfg requests d s)
    (h : DeliveryRaces.step cfg requests s.races a = some r) :
    ((delivered s r a).workflows.map ProcessMessageInput.messageSid).Nodup := by
  rw [delivered, List.map_append]
  refine List.nodup_append.mpr ⟨hs.once, ?_, ?_⟩
  · cases startedWorkflow s.races a <;> simp
  · intro messageSid hmem messageSid' hmem' heq
    obtain ⟨input, hinput, rfl⟩ := List.mem_map.mp hmem'
    obtain ⟨_, _, _, _, _, _, _, _, _, hnone⟩ := hs.started h (Option.mem_toList.mp hinput)
    exact hnone (heq ▸ hmem)

/-- A start which is still to come has not taken place in the step. -/
theorem Handing.pending_delivered {inbound : InboundSms} (hs : Handing cfg requests d s)
    (h : DeliveryRaces.step cfg requests s.races a = some r)
    (hfollows : Follows s.database r.database)
    (hphase : s.races.deliveries i = .stored inbound)
    (hstill : r.deliveries i = .stored inbound) :
    ∃ m ∈ r.database.messages, MadeBy cfg.hmac requests (delivered s r a) m i ∧
      m.messageSid = inbound.messageSid ∧ m.messageSid ∉ sids d ∧
      m.messageSid ∉ (delivered s r a).workflows.map ProcessMessageInput.messageSid := by
  obtain ⟨m, hm, hmade, hsid, hnew, hfree⟩ := hs.pending i inbound hphase
  obtain ⟨n, hn, hretyped⟩ := hfollows.messages.mem hm
  have hsame : n.messageSid = m.messageSid := by rw [hretyped.1]
  refine ⟨n, hn, hmade.deliver h hfollows hretyped, hsame.trans hsid, hsame ▸ hnew, ?_⟩
  rw [hsame]
  intro hmem
  obtain ⟨input, hinput, heq⟩ := List.mem_map.mp hmem
  rcases mem_delivered.mp hinput with hinput | hstarted
  · exact hfree (heq ▸ List.mem_map_of_mem hinput)
  · obtain ⟨k, inbound', hphase', rfl, hdone, _⟩ := hs.started h hstarted
    obtain rfl := hs.alone k i inbound' inbound hphase' hphase (heq.trans hsid)
    exact hdone inbound hstill

theorem handing_deliver (hs : Handing cfg requests d s)
    (h : DeliveryRaces.step cfg requests s.races a = some r)
    (hfollows : Follows s.database r.database) :
    Handing cfg requests d (delivered s r a) := by
  obtain ⟨i, hchange⟩ := DeliveryRaces.step_cases h
  have hpayloads := payloads_change hchange hs.payloads
  have hsenders := senders_change hchange hfollows hs.senders
  rcases stores_or_not hchange with ⟨hmessages, hold⟩ |
    ⟨inbound, message, hphase, hstore, hdeliveries⟩
  · refine ⟨hs.grown.trans hfollows, hpayloads, hsenders, fun m hm => ?_,
      fun j inbound hj => hs.pending_delivered h hfollows (hold j inbound hj) hj,
      fun j k inbound inbound' hj hk => hs.alone j k _ _ (hold j _ hj) (hold k _ hk),
      fun input hinput => hs.workflows_delivered h hfollows hinput, hs.once_delivered h⟩
    have hm' : m ∈ s.database.messages := hmessages ▸ hm
    refine (hs.rows m hm').imp_right fun hmade => ?_
    obtain ⟨j, hmade⟩ := hmade
    exact ⟨j, hmade.deliver h hfollows (.refl m)⟩
  · obtain ⟨hfresh, hsid, huser, _, hdatabase⟩ := storeMessage_ok hstore
    have hmessages : r.database.messages = s.database.messages ++ [message] := by
      rw [hdatabase]
      rfl
    have hself : r.deliveries i = .stored inbound := by
      rw [hdeliveries, deliveries_move, if_pos rfl]
    have hothers {j : ℕ} {other : InboundSms} (hj : r.deliveries j = .stored other) :
        (j = i ∧ other = inbound) ∨ s.races.deliveries j = .stored other := by
      rw [hdeliveries, deliveries_move] at hj
      split_ifs at hj with heq
      · exact .inl ⟨heq, (Phase.stored.inj hj).symm⟩
      · exact .inr hj
    have hmade : MadeBy cfg.hmac requests (delivered s r a) message i := by
      refine ⟨inbound.payload, hpayloads i _ (by rw [hself]; rfl), ⟨hsid, ?_, ?_⟩,
        .inl ⟨inbound, hself, rfl⟩⟩
      · exact storeMessage_body hstore
      · rw [huser]
        exact hsenders i inbound (by rw [hself]; rfl)
    have holdSid {j : ℕ} {other : InboundSms} (hj : s.races.deliveries j = .stored other) :
        other.messageSid ≠ inbound.messageSid := by
      obtain ⟨m, hm, _, hof, _⟩ := hs.pending j other hj
      rintro heq
      exact hfresh (heq ▸ List.mem_map.mpr ⟨m, hm, hof⟩)
    refine ⟨hs.grown.trans hfollows, hpayloads, hsenders, fun m hm => ?_,
      fun j other hj => ?_, fun j k other other' hj hk heq => ?_,
      fun input hinput => hs.workflows_delivered h hfollows hinput, hs.once_delivered h⟩
    · rw [show (delivered s r a).database.messages = _ from hmessages] at hm
      rcases List.mem_append.mp hm with hm | hm
      · refine (hs.rows m hm).imp_right fun hmade => ?_
        obtain ⟨j, hmade⟩ := hmade
        exact ⟨j, hmade.deliver h hfollows (.refl m)⟩
      · obtain rfl := List.mem_singleton.mp hm
        exact .inr ⟨i, hmade⟩
    · rcases hothers hj with ⟨rfl, rfl⟩ | hold
      · refine ⟨message, ?_, hmade, hsid, ?_, ?_⟩
        · rw [show (delivered s r a).database.messages = _ from hmessages]
          exact List.mem_concat_self
        · rw [hsid]
          exact fun hmem => hfresh (sids_of_follows hs.grown hmem)
        · rw [hsid]
          exact fun hmem => hfresh (hs.sid_mem_delivered h hmem)
      · exact hs.pending_delivered h hfollows hold hj
    · rcases hothers hj with ⟨rfl, rfl⟩ | hj <;> rcases hothers hk with ⟨rfl, rfl⟩ | hk
      · rfl
      · exact absurd heq.symm (holdSid hk)
      · exact absurd heq (holdSid hj)
      · exact hs.alone j k other other' hj hk heq

/-- A step which moves no delivery and stores no message keeps the hand-over. -/
theorem handing_aside (hs : Handing cfg requests d s)
    (hdeliveries : t.races.deliveries = s.races.deliveries)
    (hworkflows : t.workflows = s.workflows) (hfollows : Follows s.database t.database)
    (hmessages : ∀ n ∈ t.database.messages, ∃ m ∈ s.database.messages, Retyped m n) :
    Handing cfg requests d t := by
  have hmade {m n : Message} {i : ℕ} (hm : MadeBy cfg.hmac requests s m i)
      (hretyped : Retyped m n) : MadeBy cfg.hmac requests t n i := by
    obtain ⟨payload, hsent, hcarries, hends⟩ := hm
    exact ⟨payload, hsent, hcarries.follows hfollows hretyped, hends.same hdeliveries hworkflows⟩
  constructor
  · exact hs.grown.trans hfollows
  · rw [hdeliveries]
    exact hs.payloads
  · rw [hdeliveries]
    exact fun i inbound hi => registered_of_follows (hs.senders i inbound hi) hfollows
  · intro n hn
    obtain ⟨m, hm, hretyped⟩ := hmessages n hn
    rw [hretyped.1]
    refine (hs.rows m hm).imp_right fun hof => ?_
    obtain ⟨i, hof⟩ := hof
    exact ⟨i, hmade hof (hretyped.1 ▸ hretyped)⟩
  · rw [hdeliveries, hworkflows]
    intro i inbound hi
    obtain ⟨m, hm, hof, hsid, hnew⟩ := hs.pending i inbound hi
    obtain ⟨n, hn, hretyped⟩ := hfollows.messages.mem hm
    have hsame : n.messageSid = m.messageSid := by rw [hretyped.1]
    exact ⟨n, hn, hmade hof hretyped, hsame.trans hsid, hsame ▸ hnew⟩
  · rw [hdeliveries]
    exact hs.alone
  · rw [hworkflows]
    intro input hinput
    obtain ⟨m, hm, payload, rfl, hcarries, hnew⟩ := hs.workflows input hinput
    obtain ⟨n, hn, hretyped⟩ := hfollows.messages.mem hm
    refine ⟨n, hn, payload, rfl, hcarries.follows hfollows hretyped, ?_⟩
    rwa [hretyped.1]
  · rw [hworkflows]
    exact hs.once

end

section
variable {cfg : Config} {requests : ℕ → Request}
variable {fromisoformat : String → Option Datetimes.Datetime} {d : Database}
variable {s t : State} {a : Action} {run : List Action}

theorem handing_step (hs : Sane s ∧ Handing cfg requests d s.base)
    (h : step cfg fromisoformat requests s a = some t) :
    Sane t ∧ Handing cfg requests d t.base := by
  obtain ⟨hsane, hs⟩ := hs
  have hfollows : Follows s.database t.database := follows_of_writes (hsane.writes h)
  refine ⟨sane_step hsane h, ?_⟩
  have hunchanged (hmessages : t.database.messages = s.database.messages) :
      ∀ n ∈ t.database.messages, ∃ m ∈ s.database.messages, Retyped m n :=
    fun n hn => ⟨n, hmessages ▸ hn, .refl n⟩
  cases a with
  | purge now faults =>
      cases h
      refine handing_aside hs rfl rfl hfollows (hunchanged ?_)
      change (purged s.database now faults).messages = _
      rcases purged_eq s.database now faults with heq | heq <;> rw [heq]
  | base a =>
      obtain ⟨x, hx, rfl⟩ := Option.map_eq_some_iff.mp h
      cases a with
      | deliver a =>
          obtain ⟨r, hr, rfl⟩ := Option.map_eq_some_iff.mp hx
          exact handing_deliver hs hr hfollows
      | process searcher workflow attempt =>
          obtain ⟨input, _, rfl⟩ := Option.map_eq_some_iff.mp hx
          refine handing_aside hs rfl rfl hfollows ?_
          change ∀ n ∈ ((commitMessage cfg.hmac (Orchestrator.production fromisoformat searcher)
            attempt.gpt input).run (.opened s.database attempt.faults)).2.store.committed.messages,
              ∃ m ∈ s.database.messages, Retyped m n
          rcases hrun : (commitMessage cfg.hmac (Orchestrator.production fromisoformat searcher)
            attempt.gpt input).run (.opened s.database attempt.faults) with ⟨r, w⟩
          obtain ⟨_, ⟨_, hback, _⟩ | ⟨actions, _, _, hcommits, _⟩⟩ := commitMessage_cases hrun
          · rw [hback]
            exact fun n hn => ⟨n, hn, .refl n⟩
          · obtain ⟨m, type, raw, _, hmessages⟩ := hcommits.messages
            intro n hn
            rw [hmessages] at hn
            obtain ⟨m', hm', rfl⟩ := List.mem_map.mp hn
            exact ⟨m', hm', retyped_classifyRow _ _ _ _⟩
      | await action faults =>
          obtain ⟨b, _, rfl⟩ := Option.map_eq_some_iff.mp hx
          refine handing_aside hs rfl rfl hfollows (hunchanged ?_)
          have hawaited := (runAction_awaited b).store (w := .opened s.database faults) rfl
          change ((Orchestrator.runAction b).run
            (.opened s.database faults)).2.store.committed.messages = _
          rcases hawaited.1 with heq | ⟨_, _, _, _, _, hinsert⟩
          · rw [heq]
          · rw [(insertEntry_ok hinsert).2]
      | sweep locked str faults =>
          cases hx
          refine handing_aside hs rfl rfl hfollows (hunchanged ?_)
          have hswept : Swept s.database locked ((SweepActivity.syncPineconeQueueActivity locked
              str).run (.opened s.database faults)).2.store :=
            (sync_swept str hsane.intact.queueIds).store (w := .opened s.database faults) rfl
          obtain ⟨_, hmarks, _⟩ := hswept.1.1
          change ((SweepActivity.syncPineconeQueueActivity locked str).run
            (.opened s.database faults)).2.store.committed.messages = _
          rw [hmarks]

/-- In every reachable state each new message is the text of one request, under the user of
its sender, and has its workflow unless the start is to come or the delivery has failed; and
the workflows are those of distinct new messages, with what their rows say. -/
theorem handed_over (hd : Intact d)
    (hrun : exec (step cfg fromisoformat requests) (initial d) run = some s) :
    (∀ m ∈ s.database.messages, m.messageSid ∈ sids d ∨
        ∃ i, MadeBy cfg.hmac requests s.base m i) ∧
      (∀ input ∈ s.base.workflows, ∃ m ∈ s.database.messages, m.messageSid ∉ sids d ∧
        m.messageSid = input.messageSid ∧ m.body = input.body ∧
          Registered s.database.users m.userId (cfg.hmac input.fromNumber)) ∧
      (s.base.workflows.map ProcessMessageInput.messageSid).Nodup := by
  have hs : Handing cfg requests d s.base := (exec_invariant
    (fun x => Sane x ∧ Handing cfg requests d x.base) (fun _ _ _ _ hs h => handing_step hs h)
    (along_true _ run) ⟨sane_initial hd, handing_initial d⟩ hrun).2
  refine ⟨hs.rows, fun input hinput => ?_, hs.once⟩
  obtain ⟨m, hm, payload, rfl, hcarries, hnew⟩ := hs.workflows input hinput
  exact ⟨m, hm, hnew, hcarries.messageSid, hcarries.body, hcarries.sender⟩

end

def twoTexts : ℕ → Request
  | 0 => hello
  | _ => { hello with form := [("MessageSid", .text "SM1"), ("From", .text "+1"),
      ("Body", .text "hi there"), ("AccountSid", .text "AC1")] }

/-- Both deliveries pass the gates, and the first one stores its text. -/
theorem handed_over_two_texts :
    ∃ s, exec (step (unsignedConfig 5 60) (fun _ => none) twoTexts) (initial .empty)
        (DeliveryRaces.overlapping.map fun a => .base (.deliver a)) = some s ∧
      s.base.workflows.map (fun input => (input.messageSid, input.body)) = [("SM1", "hi")] ∧
      ∃ m ∈ s.database.messages, m.messageSid = "SM1" ∧ m.body = "hi" := by
  have hworkflows : (exec (step (unsignedConfig 5 60) (fun _ => none) twoTexts)
      (initial .empty) (DeliveryRaces.overlapping.map fun a => .base (.deliver a))).map
        (fun s => s.base.workflows.map fun input => (input.messageSid, input.body)) =
          some [("SM1", "hi")] := by
    decide +kernel
  obtain ⟨s, hrun, hworkflows⟩ := Option.map_eq_some_iff.mp hworkflows
  have hmem : ("SM1", "hi") ∈ s.base.workflows.map
      fun input => (input.messageSid, input.body) := by
    rw [hworkflows]
    exact List.mem_singleton_self _
  obtain ⟨input, hinput, heq⟩ := List.mem_map.mp hmem
  obtain ⟨m, hm, _, hsid, hbody, _⟩ := (handed_over intact_empty hrun).2.1 input hinput
  obtain ⟨hsid', hbody'⟩ := Prod.mk.inj heq
  exact ⟨s, hrun, hworkflows, m, hm, hsid.trans hsid', hbody.trans hbody'⟩

end Vici.HandedOver
