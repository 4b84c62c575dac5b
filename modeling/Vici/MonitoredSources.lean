import Mathlib

/-!
# Sources which are read again and again

A reading of a source is a value or an error. A monitor shows the value of the
last good reading; once more than a given number of errors have followed on it
without a value in between, the monitor shows a sentinel in its place.
-/
namespace Vici.MonitoredSources
variable {ε α β : Type*}

/-- The errors since the last value, or since the start. -/
def failuresSince (history : List (Except ε α)) : ℕ :=
  (history.reverse.takeWhile fun r => !r.isOk).length

/-- The last value, or else the initial one. -/
def lastReading (initial : α) (history : List (Except ε α)) : α :=
  (history.filterMap Except.toOption).getLastD initial

@[simp] theorem failuresSince_nil : failuresSince ([] : List (Except ε α)) = 0 := rfl

@[simp] theorem failuresSince_concat_ok (history : List (Except ε α)) (v : α) :
    failuresSince (history ++ [.ok v]) = 0 := by
  simp [failuresSince, Except.isOk, Except.toBool]

@[simp] theorem failuresSince_concat_error (history : List (Except ε α)) (e : ε) :
    failuresSince (history ++ [.error e]) = failuresSince history + 1 := by
  simp [failuresSince, Except.isOk, Except.toBool]

@[simp] theorem lastReading_nil (initial : α) :
    lastReading initial ([] : List (Except ε α)) = initial := rfl

@[simp] theorem lastReading_concat_ok (initial : α) (history : List (Except ε α)) (v : α) :
    lastReading initial (history ++ [.ok v]) = v := by
  simp [lastReading, Except.toOption]

@[simp] theorem lastReading_concat_error (initial : α) (history : List (Except ε α)) (e : ε) :
    lastReading initial (history ++ [.error e]) = lastReading initial history := by
  simp [lastReading, Except.toOption]

/-- What is shown, and the errors which have followed on one another. -/
structure Monitor (β : Type*) where
  shown : β
  failures : ℕ

namespace Monitor

def observe (limit : ℕ) (sentinel : β) (display : α → β) (m : Monitor β) :
    Except ε α → Monitor β
  | .ok v => ⟨display v, 0⟩
  | .error _ => ⟨if limit < m.failures + 1 then sentinel else m.shown, m.failures + 1⟩

variable {limit : ℕ} {sentinel : β} {display : α → β}

/-- After any history the monitor knows its errors and shows what they leave to show. -/
theorem foldl_observe (initial : α) (history : List (Except ε α)) :
    history.foldl (observe limit sentinel display) ⟨display initial, 0⟩ =
      ⟨if limit < failuresSince history then sentinel else display (lastReading initial history),
        failuresSince history⟩ := by
  induction history using List.reverseRecOn with
  | nil => simp
  | append_singleton history r ih =>
      rw [List.foldl_append, List.foldl_cons, List.foldl_nil, ih]
      cases r with
      | ok v => simp [observe]
      | error e =>
          simp only [observe, failuresSince_concat_error, lastReading_concat_error]
          split_ifs with hover hbefore
          · rfl
          · omega
          · rfl

end Monitor

end Vici.MonitoredSources
