import Vici.Models
import Vici.SessionPrograms

/-!
# Exceptions and effects of the application

The programs of the application run over its database. Infrastructure errors
come from the environment or from a constraint which an insert breaks; the
others are raised by the application's own code.
-/
namespace Vici.AppPrograms
open Models SessionPrograms

inductive InfraError where
  | integrity
  | data
  | unavailable (detail : String)
  deriving DecidableEq

inductive AppError where
  | duplicateMessageSid
  | rateLimitExceeded
  | twilioSignatureInvalid
  | invalidPayload (detail : String)
  | messageNotFound
  | valueError
  | validation
  | extractionParse
  | assertion
  | overflow
  | memory
  deriving DecidableEq

/-- A deferred side effect, with the plain values its closure has captured. -/
inductive PostCommitAction where
  | upsertEmbedding (jobId : ℕ) (description phoneHash : String)
  | sendMatchReply (toNumber body : String)
  | sendUnknownReply (toNumber : String)
  deriving DecidableEq

/-- What the outside world observes; `ran` marks an action which was awaited. -/
inductive Effect where
  | workflowStarted (messageSid fromNumber body : String)
  | vectorUpserted (jobId : ℕ) (description phoneHash : String)
  | smsSent (toNumber body : String)
  | ran (action : PostCommitAction)
  deriving DecidableEq

/-- What the outside world has observed. -/
def outward (log : List (Event Database Effect)) : List Effect :=
  log.filterMap fun
    | .effect (.ran _) => none
    | .effect e => some e
    | .committed _ => none

theorem outward_append (log log' : List (Event Database Effect)) :
    outward (log ++ log') = outward log ++ outward log' := List.filterMap_append

abbrev AppExn := Exn InfraError AppError
abbrev AppStop := Stop InfraError AppError
abbrev AppFault := Fault InfraError
abbrev AppStore := Store Database Effect
abbrev AppWorld := World Database Effect InfraError
abbrev App (α : Type) := Program Database Effect InfraError AppError α

/-- The parameters of a statement are bound before it runs; what cannot be bound is refused. -/
def bindParameters (fits : Bool) : App Unit :=
  if fits then pure () else .statement fun _ => .error (.infra .data)

section
variable {fits : Bool} {P : Program.Assertion Database Effect} {R : AppError → Prop}

theorem bindParameters_of_fits (h : fits = true) : bindParameters fits = pure () := by
  rw [bindParameters, if_pos h]

theorem bindParameters_triple {stop : AppStop → Program.Assertion Database Effect}
    (hstop : ∀ e s, e.FromOutside → P s → stop e s) :
    Program.Triple P (bindParameters fits) (fun _ s => P s ∧ fits = true) stop := by
  unfold bindParameters
  split_ifs with h
  · exact .pure fun s hs => ⟨hs, h⟩
  · refine .statement hstop (fun s e hs he => ?_) fun _ _ _ _ hok => by cases hok
    cases he
    exact hstop _ s trivial hs

theorem keeps_bindParameters : Program.Keeps P R (bindParameters fits) :=
  (bindParameters_triple fun _ => Program.stopped).consequence (fun _ hs => hs)
    (fun _ _ hs => hs.1) fun _ _ hs => hs

theorem run_bindParameters_ok {w w' : AppWorld}
    (h : (bindParameters fits).run w = (.ok (), w')) : fits = true ∧ w' = w := by
  unfold bindParameters at h
  split_ifs at h with hfits
  · cases h
    exact ⟨hfits, rfl⟩
  · obtain ⟨d, hd⟩ := Program.run_statement_inv h
    cases hd

/-- Undisturbed, a refusal leaves the world as it was. -/
theorem run_bindParameters_of_unfit {w : AppWorld} (hcalm : w.faults = []) (h : fits = false) :
    (bindParameters fits).run w = (.error (.raised (.infra .data)), w) := by
  subst h
  exact Program.run_statement_error hcalm rfl

end

/-- A dictionary built from pairs: the last entry of a key wins. -/
def dictGet {κ ν : Type} [DecidableEq κ] (entries : List (κ × ν)) (k : κ) : Option ν :=
  (entries.reverse.find? fun e => e.1 = k).map Prod.snd

section
variable {κ ν : Type} [DecidableEq κ] {entries : List (κ × ν)} {k : κ} {v : ν}

theorem mem_of_dictGet (h : dictGet entries k = some v) : (k, v) ∈ entries := by
  obtain ⟨e, he, rfl⟩ := Option.map_eq_some_iff.mp h
  have hkey : e.1 = k := by simpa using List.find?_some he
  rw [← hkey]
  exact List.mem_reverse.mp (List.mem_of_find?_eq_some he)

theorem dictGet_isSome : (dictGet entries k).isSome ↔ k ∈ entries.map Prod.fst := by
  simp [dictGet]

/-- Under distinct keys an entry is found under its own. -/
theorem dictGet_of_mem (hkeys : (entries.map Prod.fst).Nodup) (h : (k, v) ∈ entries) :
    dictGet entries k = some v := by
  obtain ⟨u, hu⟩ := Option.isSome_iff_exists.mp
    (dictGet_isSome.mpr (List.mem_map_of_mem (f := Prod.fst) h))
  have heq := List.inj_on_of_nodup_map hkeys (mem_of_dictGet hu) h rfl
  rw [hu, (Prod.mk.inj heq).2]

end

/-- A string whose length a schema has checked. -/
abbrev BoundedStr (lo hi : ℕ) := {s : String // lo ≤ s.length ∧ s.length ≤ hi}

def BoundedStr.validate (lo hi : ℕ) (value : Option String) : Option (BoundedStr lo hi) :=
  value.bind fun s => if h : lo ≤ s.length ∧ s.length ≤ hi then some ⟨s, h⟩ else none

theorem BoundedStr.isEmpty_eq_false {hi : ℕ} (s : BoundedStr 1 hi) : s.1.isEmpty = false := by
  rw [String.isEmpty_eq_false_iff]
  intro hempty
  have hlength := s.2.1
  rw [hempty] at hlength
  cases hlength

end Vici.AppPrograms
