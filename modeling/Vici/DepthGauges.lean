import Vici.SyncQueueRepository
import Vici.MonitoredSources

/-!
# The depth gauges

The gauge updater polls two sources, the pending rows of the sync queue and the
backlog of the Temporal task queue, and shows each on a gauge of its own. What
a poll meets is a parameter of the poll: the queue is read or the read fails,
its session may fail on closing after the gauge is set, and the task queue is
described or the call fails. Errors are their texts.
-/
namespace Vici.DepthGauges
open Models SyncQueueRepository MonitoredSources

def gaugeMaxConsecutiveFailures : ℕ := 5

/-- `_GaugeHealth`: the failures in a row, one count for each gauge. -/
structure GaugeHealth where
  dbFailures : ℕ
  temporalFailures : ℕ
  deriving DecidableEq, Repr

inductive LogLine where
  | critical (event : String) (consecutiveFailures : ℕ) (error : String)
  | warning (event : String) (error : String)
  deriving DecidableEq, Repr

/-- The gauges of the process with what the updater keeps and has logged. -/
structure Gauges where
  pineconeSyncQueueDepth : ℤ
  temporalQueueDepth : ℤ
  health : GaugeHealth
  lines : List LogLine
  deriving DecidableEq, Repr

/-- The updater starts with fresh counts over gauges which show some depths. -/
def start (queueDepth backlog : ℕ) : Gauges := ⟨queueDepth, backlog, ⟨0, 0⟩, []⟩

/-- The value which `_record_gauge_failure` leaves on the gauge, and its log line. -/
def recordGaugeFailure (gaugeName : String) (consecutiveFailures : ℕ) (exc : String)
    (gauge : ℤ) : ℤ × LogLine :=
  if gaugeMaxConsecutiveFailures < consecutiveFailures then
    (-1, .critical ("gauge_updater: repeated " ++ gaugeName ++ " failures, metric unreliable")
      consecutiveFailures exc)
  else
    (gauge, .warning ("gauge_updater: " ++ gaugeName ++ " depth read failed — metric stale") exc)

/-- The backlog counts of a description, by build id and by task-queue type. -/
def getTaskQueueBacklog (versionsInfo : List (List ℕ)) : ℕ :=
  (versionsInfo.map List.sum).sum

structure Poll where
  snapshot : Except String Database
  closing : Option String
  description : Except String (List (List ℕ))

def setQueueDepth (depth : ℕ) (g : Gauges) : Gauges :=
  { g with pineconeSyncQueueDepth := depth, health := { g.health with dbFailures := 0 } }

def failQueueDepth (exc : String) (g : Gauges) : Gauges :=
  let failures := g.health.dbFailures + 1
  let recorded := recordGaugeFailure "pinecone_sync_queue" failures exc g.pineconeSyncQueueDepth
  { g with
    pineconeSyncQueueDepth := recorded.1
    health := { g.health with dbFailures := failures }
    lines := g.lines ++ [recorded.2] }

def setBacklog (backlog : ℕ) (g : Gauges) : Gauges :=
  { g with temporalQueueDepth := backlog, health := { g.health with temporalFailures := 0 } }

def failBacklog (exc : String) (g : Gauges) : Gauges :=
  let failures := g.health.temporalFailures + 1
  let recorded := recordGaugeFailure "temporal_task_queue" failures exc g.temporalQueueDepth
  { g with
    temporalQueueDepth := recorded.1
    health := { g.health with temporalFailures := failures }
    lines := g.lines ++ [recorded.2] }

/-- The first half of a poll. An error on closing the session comes after the
gauge is set, and takes the place of an error of the read. -/
def pollSyncQueue (poll : Poll) (g : Gauges) : Gauges :=
  match poll.snapshot, poll.closing with
  | .ok db, none => setQueueDepth (countPending db) g
  | .ok db, some exc => failQueueDepth exc (setQueueDepth (countPending db) g)
  | .error exc, none => failQueueDepth exc g
  | .error _, some exc => failQueueDepth exc g

def pollTaskQueue (poll : Poll) (g : Gauges) : Gauges :=
  match poll.description with
  | .ok versionsInfo => setBacklog (getTaskQueueBacklog versionsInfo) g
  | .error exc => failBacklog exc g

def pollGaugesOnce (poll : Poll) (g : Gauges) : Gauges :=
  pollTaskQueue poll (pollSyncQueue poll g)

/-- The loop of `_update_gauges` over the polls it has made so far. -/
def updateGauges (polls : List Poll) (g : Gauges) : Gauges :=
  polls.foldl (fun g poll => pollGaugesOnce poll g) g

/-- A count whose session fails on closing is a value followed by an error. -/
def queueReadings (poll : Poll) : List (Except String ℕ) :=
  match poll.snapshot, poll.closing with
  | .ok db, none => [.ok (countPending db)]
  | .ok db, some exc => [.ok (countPending db), .error exc]
  | .error exc, none => [.error exc]
  | .error _, some exc => [.error exc]

def backlogReading (poll : Poll) : Except String ℕ :=
  poll.description.map getTaskQueueBacklog

def queueHistory (polls : List Poll) : List (Except String ℕ) := polls.flatMap queueReadings

def backlogHistory (polls : List Poll) : List (Except String ℕ) := polls.map backlogReading

def queueMonitor (g : Gauges) : Monitor ℤ := ⟨g.pineconeSyncQueueDepth, g.health.dbFailures⟩

def backlogMonitor (g : Gauges) : Monitor ℤ := ⟨g.temporalQueueDepth, g.health.temporalFailures⟩

/-- One reading of either source, as its gauge takes it. -/
def observe : Monitor ℤ → Except String ℕ → Monitor ℤ :=
  Monitor.observe gaugeMaxConsecutiveFailures (-1) fun depth : ℕ => (depth : ℤ)

theorem recordGaugeFailure_fst (gaugeName : String) (failures : ℕ) (exc : String) (gauge : ℤ) :
    (recordGaugeFailure gaugeName failures exc gauge).1 =
      if gaugeMaxConsecutiveFailures < failures then -1 else gauge := by
  unfold recordGaugeFailure
  split_ifs
  · rfl
  · rfl

section
variable (g : Gauges) (exc : String) (depth : ℕ)

@[simp] theorem queueMonitor_setQueueDepth :
    queueMonitor (setQueueDepth depth g) = observe (queueMonitor g) (.ok depth) := rfl

@[simp] theorem queueMonitor_failQueueDepth :
    queueMonitor (failQueueDepth exc g) = observe (queueMonitor g) (.error exc) := by
  simp only [queueMonitor, failQueueDepth, recordGaugeFailure_fst]
  rfl

@[simp] theorem queueMonitor_pollTaskQueue (poll : Poll) :
    queueMonitor (pollTaskQueue poll g) = queueMonitor g := by
  unfold pollTaskQueue
  split
  · rfl
  · rfl

@[simp] theorem backlogMonitor_setBacklog :
    backlogMonitor (setBacklog depth g) = observe (backlogMonitor g) (.ok depth) := rfl

@[simp] theorem backlogMonitor_failBacklog :
    backlogMonitor (failBacklog exc g) = observe (backlogMonitor g) (.error exc) := by
  simp only [backlogMonitor, failBacklog, recordGaugeFailure_fst]
  rfl

@[simp] theorem backlogMonitor_pollSyncQueue (poll : Poll) :
    backlogMonitor (pollSyncQueue poll g) = backlogMonitor g := by
  unfold pollSyncQueue
  split
  · rfl
  · rfl
  · rfl
  · rfl

end

theorem queueMonitor_pollGaugesOnce (poll : Poll) (g : Gauges) :
    queueMonitor (pollGaugesOnce poll g) = (queueReadings poll).foldl observe (queueMonitor g) := by
  obtain ⟨snapshot, closing, description⟩ := poll
  rw [pollGaugesOnce, queueMonitor_pollTaskQueue]
  cases snapshot with
  | ok db => cases closing <;> simp [pollSyncQueue, queueReadings]
  | error exc => cases closing <;> simp [pollSyncQueue, queueReadings]

theorem backlogMonitor_pollGaugesOnce (poll : Poll) (g : Gauges) :
    backlogMonitor (pollGaugesOnce poll g) = observe (backlogMonitor g) (backlogReading poll) := by
  obtain ⟨snapshot, closing, description⟩ := poll
  rw [← backlogMonitor_pollSyncQueue g ⟨snapshot, closing, description⟩, pollGaugesOnce]
  cases description with
  | ok versionsInfo => simp [pollTaskQueue, backlogReading, Except.map]
  | error exc => simp [pollTaskQueue, backlogReading, Except.map]

theorem queueMonitor_updateGauges (polls : List Poll) (g : Gauges) :
    queueMonitor (updateGauges polls g) =
      (queueHistory polls).foldl observe (queueMonitor g) := by
  induction polls generalizing g with
  | nil => rfl
  | cons poll polls ih =>
      rw [queueHistory, List.flatMap_cons, List.foldl_append, ← queueMonitor_pollGaugesOnce]
      exact ih _

theorem backlogMonitor_updateGauges (polls : List Poll) (g : Gauges) :
    backlogMonitor (updateGauges polls g) =
      (backlogHistory polls).foldl observe (backlogMonitor g) := by
  induction polls generalizing g with
  | nil => rfl
  | cons poll polls ih =>
      rw [backlogHistory, List.map_cons, List.foldl_cons, ← backlogMonitor_pollGaugesOnce]
      exact ih _

/-- What a gauge shows after a history of its source. -/
def depthShown (initial : ℕ) (history : List (Except String ℕ)) : ℤ :=
  if gaugeMaxConsecutiveFailures < failuresSince history then -1
  else ↑(lastReading initial history)

theorem queueDepth_updateGauges (queueDepth backlog : ℕ) (polls : List Poll) :
    (updateGauges polls (start queueDepth backlog)).pineconeSyncQueueDepth =
      depthShown queueDepth (queueHistory polls) := by
  have hmonitor := queueMonitor_updateGauges polls (start queueDepth backlog)
  exact congrArg Monitor.shown
    (hmonitor.trans (Monitor.foldl_observe queueDepth (queueHistory polls)))

theorem backlog_updateGauges (queueDepth backlog : ℕ) (polls : List Poll) :
    (updateGauges polls (start queueDepth backlog)).temporalQueueDepth =
      depthShown backlog (backlogHistory polls) := by
  have hmonitor := backlogMonitor_updateGauges polls (start queueDepth backlog)
  exact congrArg Monitor.shown
    (hmonitor.trans (Monitor.foldl_observe backlog (backlogHistory polls)))

/-- A depth is not negative, so the sentinel cannot be mistaken for one. -/
theorem depthShown_eq_neg_one_iff (initial : ℕ) (history : List (Except String ℕ)) :
    depthShown initial history = -1 ↔ gaugeMaxConsecutiveFailures < failuresSince history := by
  by_cases hover : gaugeMaxConsecutiveFailures < failuresSince history
  · exact iff_of_true (if_pos hover) hover
  · rw [depthShown, if_neg hover]
    exact iff_of_false (by omega) hover

theorem depthShown_of_le {initial : ℕ} {history : List (Except String ℕ)}
    (h : failuresSince history ≤ gaugeMaxConsecutiveFailures) :
    depthShown initial history = ↑(lastReading initial history) := if_neg h.not_gt

/-- After any polls each gauge tells the truth about its own source, and polls
which the other source answers in another way leave it as it is. -/
theorem gauges_truthful (queueDepth backlog : ℕ) (polls : List Poll) :
    let after := updateGauges polls (start queueDepth backlog)
    (after.pineconeSyncQueueDepth = -1 ↔
        gaugeMaxConsecutiveFailures < failuresSince (queueHistory polls)) ∧
      (after.pineconeSyncQueueDepth ≠ -1 →
        after.pineconeSyncQueueDepth = ↑(lastReading queueDepth (queueHistory polls))) ∧
      (after.temporalQueueDepth = -1 ↔
        gaugeMaxConsecutiveFailures < failuresSince (backlogHistory polls)) ∧
      (after.temporalQueueDepth ≠ -1 →
        after.temporalQueueDepth = ↑(lastReading backlog (backlogHistory polls))) ∧
      ∀ (others : List Poll) (queueDepth' backlog' : ℕ),
        (queueHistory others = queueHistory polls →
          (updateGauges others (start queueDepth backlog')).pineconeSyncQueueDepth =
            after.pineconeSyncQueueDepth) ∧
        (backlogHistory others = backlogHistory polls →
          (updateGauges others (start queueDepth' backlog)).temporalQueueDepth =
            after.temporalQueueDepth) := by
  simp only [queueDepth_updateGauges, backlog_updateGauges, depthShown_eq_neg_one_iff, ne_eq,
    true_and]
  refine ⟨?_, ?_, ?_⟩
  · intro hbelow
    exact depthShown_of_le (not_lt.mp hbelow)
  · intro hbelow
    exact depthShown_of_le (not_lt.mp hbelow)
  · intro others queueDepth' backlog'
    constructor
    · intro hsame
      rw [hsame]
    · intro hsame
      rw [hsame]

/-- Six failures in a row hide the last count, the fifth does not, and a count shows again. -/
example :
    let ok := Poll.mk (.ok .empty) none (.ok [[2, 1], [4]])
    let down := Poll.mk (.error "down") none (.ok [[3]])
    (updateGauges (ok :: .replicate 5 down) (start 9 9)).pineconeSyncQueueDepth = 0 ∧
      (updateGauges (ok :: .replicate 6 down) (start 9 9)).pineconeSyncQueueDepth = -1 ∧
      (updateGauges (ok :: .replicate 6 down ++ [ok]) (start 9 9)).pineconeSyncQueueDepth = 0 ∧
      (updateGauges (ok :: .replicate 6 down) (start 9 9)).temporalQueueDepth = 3 := by
  decide

end Vici.DepthGauges
