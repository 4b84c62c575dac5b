import Vici.CandidateRetrieval

/-!
# Deadlines as the extractor writes them

The extractor writes a date-time as text, with or without a UTC offset. Text
which does not parse becomes no date-time and a naive value is labelled UTC;
an aware value keeps its offset until the query converts it. So the rule of the
query compares instants, and the conversion is the step which can still fail:
next to either end of the calendar a written time has no UTC instant.
-/
namespace Vici.DeadlineRule
open Models Datetimes AppPrograms JobRepository CandidateRetrieval

variable {fromisoformat : String → Option Datetime} {value : Option String} {d : Datetime}

@[simp] theorem instant_labelUTC (d : Datetime) : d.labelUTC.instant = d.instant := rfl

theorem coerceLlmDatetime_of_parsed {text : String} (h : fromisoformat text = some d) :
    Datetime.coerceLlmDatetime fromisoformat (some text) = some d.labelUTC := by
  simp [Datetime.coerceLlmDatetime, h]

/-- The instant of the value lies in the calendar. -/
def InCalendar (d : Datetime) : Prop := 0 ≤ d.instant ∧ d.instant < calendarEnd

instance (d : Datetime) : Decidable (InCalendar d) :=
  inferInstanceAs (Decidable (0 ≤ d.instant ∧ d.instant < calendarEnd))

theorem isSome_astimezoneUTC_iff : d.astimezoneUTC.isSome ↔ InCalendar d :=
  Datetime.isSome_ofInstant_iff

/-- The query can be built unless the deadline has no UTC instant. -/
theorem eligibilityStmt_ok_iff (deadline : Option Datetime) :
    (∃ eligible, eligibilityStmt deadline = .ok eligible) ↔ ∀ d ∈ deadline, InCalendar d := by
  cases deadline with
  | none => simp [eligibilityStmt]
  | some d =>
      simp only [Option.mem_some_iff, forall_eq', ← isSome_astimezoneUTC_iff]
      cases hutc : d.astimezoneUTC with
      | none => simp [eligibilityStmt, hutc]
      | some utc => simp [eligibilityStmt, hutc]

/-- A written time whose offset does not lead out of the calendar: one ahead of
UTC leaves it at the beginning, one behind UTC at the end. -/
def WithinReach (d : Datetime) : Prop :=
  ∀ offset ∈ d.utcoffset, (0 ≤ offset → offset ≤ d.wall) ∧
    (offset < 0 → d.wall < calendarEnd + offset)

theorem inCalendar_iff_withinReach : InCalendar d ↔ WithinReach d := by
  have hwall := d.wall_mem
  unfold InCalendar WithinReach Datetime.instant
  cases hoffset : d.utcoffset with
  | none => simpa using hwall
  | some offset =>
      simp only [Option.getD_some, Option.mem_some_iff, forall_eq']
      omega

/-- Only the first and the last day of the calendar are ever out of reach. -/
theorem withinReach_of_inner (hfirst : day ≤ d.wall) (hlast : d.wall ≤ calendarEnd - day) :
    WithinReach d := by
  intro offset hoffset
  have := d.utcoffset_mem offset hoffset
  omega

/-- What coercion promises: no value, or an aware one with a UTC instant, on
which the query of the jobs can be built. -/
def CoercesSafely (fromisoformat : String → Option Datetime) (value : Option String) : Prop :=
  (∀ d ∈ Datetime.coerceLlmDatetime fromisoformat value, d.utcoffset.isSome ∧ InCalendar d) ∧
    ∃ eligible, eligibilityStmt (Datetime.coerceLlmDatetime fromisoformat value) = .ok eligible

theorem inCalendar_coerced_iff :
    (∀ d ∈ Datetime.coerceLlmDatetime fromisoformat value, InCalendar d) ↔
      ∀ parsed ∈ value.bind fromisoformat, WithinReach parsed := by
  unfold Datetime.coerceLlmDatetime
  cases value.bind fromisoformat with
  | none => simp
  | some parsed =>
      simp only [Option.map_some, Option.mem_some_iff, forall_eq', ← inCalendar_iff_withinReach]
      rfl

/-- The query can be built on what coercion has kept. -/
theorem eligibilityStmt_coerced_iff :
    (∃ eligible, eligibilityStmt (Datetime.coerceLlmDatetime fromisoformat value) = .ok eligible) ↔
      ∀ parsed ∈ value.bind fromisoformat, WithinReach parsed := by
  rw [eligibilityStmt_ok_iff, inCalendar_coerced_iff]

/-- Coercion is safe exactly when what the parser accepts is within reach. -/
theorem coercesSafely_iff (fromisoformat : String → Option Datetime) (value : Option String) :
    CoercesSafely fromisoformat value ↔
      ∀ parsed ∈ value.bind fromisoformat, WithinReach parsed := by
  constructor
  · intro h
    exact eligibilityStmt_coerced_iff.mp h.2
  · intro h
    refine ⟨fun d hd => ⟨?_, inCalendar_coerced_iff.mpr h d hd⟩, eligibilityStmt_coerced_iff.mpr h⟩
    obtain ⟨parsed, _, rfl⟩ := Option.map_eq_some_iff.mp hd
    rfl

/-- One second before the end of the year 9999, twelve hours behind UTC. -/
def lastSecondBehind : Datetime where
  wall := calendarEnd - second
  utcoffset := some (-12 * 3600 * second)
  wall_mem := by decide
  utcoffset_mem := by
    intro o ho
    cases ho
    decide

/-- The parser on that text. -/
def parsesLastSecond (text : String) : Option Datetime :=
  if text = "9999-12-31T23:59:59-12:00" then some lastSecondBehind else none

/-- The text parses, is kept as a deadline, and breaks the query of the jobs. -/
theorem last_second_not_coerced_safely :
    ¬CoercesSafely parsesLastSecond (some "9999-12-31T23:59:59-12:00") ∧
      Datetime.coerceLlmDatetime parsesLastSecond (some "9999-12-31T23:59:59-12:00") =
        some lastSecondBehind ∧
      (eligibilityStmt (some lastSecondBehind)).toOption.isNone := by
  refine ⟨?_, by decide, by decide⟩
  intro h
  have hend := (h.1 lastSecondBehind (by decide)).2.2
  exact absurd hend (by decide)

/-- A job which is offered if it is in time: available, of a known pay type,
dated by the given text and not flexible. -/
structure DatedBy (fromisoformat : String → Option Datetime) (text : String) (job : Job) :
    Prop where
  available : job.status = .available
  known : job.payType ≠ .unknown
  rigid : job.datetimeFlexible ≠ some true
  dated : job.idealDatetime = Datetime.coerceLlmDatetime fromisoformat (some text)

/-- The deadline rule is decided by the written times alone. -/
def WallClockConsistent (fromisoformat : String → Option Datetime) (jobText goalText : String) :
    Prop :=
  ∀ ideal ∈ fromisoformat jobText, ∀ target ∈ fromisoformat goalText, ∀ job,
    DatedBy fromisoformat jobText job → ∀ eligible,
      eligibilityStmt (Datetime.coerceLlmDatetime fromisoformat (some goalText)) = .ok eligible →
        (eligible job = true ↔ ideal.wall ≤ target.wall)

/-- The conversions leave the instants of both sides as they were written. -/
theorem eligible_dated_iff {jobText goalText : String} {ideal target : Datetime} {job : Job}
    {eligible : Job → Bool} (hideal : fromisoformat jobText = some ideal)
    (htarget : fromisoformat goalText = some target) (hjob : DatedBy fromisoformat jobText job)
    (hstmt : eligibilityStmt (Datetime.coerceLlmDatetime fromisoformat (some goalText)) =
      .ok eligible) : eligible job = true ↔ ideal.instant ≤ target.instant := by
  have hdated := hjob.dated
  rw [coerceLlmDatetime_of_parsed hideal] at hdated
  rw [coerceLlmDatetime_of_parsed htarget] at hstmt
  rw [eligibilityStmt_iff hstmt job]
  simp [InTime, hjob.available, hjob.known, hjob.rigid, hdated]

/-- The rule compares instants: a missing offset counts as UTC. Where both
times are written with the same offset, and so where neither has one, this is
the comparison of the written times. -/
theorem eligible_iff_instant_le {jobText goalText : String} {ideal target : Datetime} {job : Job}
    {eligible : Job → Bool} (hideal : fromisoformat jobText = some ideal)
    (htarget : fromisoformat goalText = some target) (hjob : DatedBy fromisoformat jobText job)
    (hstmt : eligibilityStmt (Datetime.coerceLlmDatetime fromisoformat (some goalText)) =
      .ok eligible) :
    (eligible job = true ↔
      ideal.wall - ideal.utcoffset.getD 0 ≤ target.wall - target.utcoffset.getD 0) ∧
    (ideal.utcoffset.getD 0 = target.utcoffset.getD 0 →
      (eligible job = true ↔ ideal.wall ≤ target.wall)) := by
  have hrule := eligible_dated_iff hideal htarget hjob hstmt
  refine ⟨hrule, ?_⟩
  intro hsame
  rw [hrule, Datetime.instant, Datetime.instant]
  omega

/-- Noon of 2026-03-08 without an offset. -/
def noon : Datetime := ⟨739682 * day + 12 * 3600 * second, none, by decide, by simp⟩

/-- Ten o'clock of that day, five hours behind UTC. -/
def tenBehind : Datetime where
  wall := 739682 * day + 10 * 3600 * second
  utcoffset := some (-5 * 3600 * second)
  wall_mem := by decide
  utcoffset_mem := by
    intro o ho
    cases ho
    decide

/-- The parser on the two texts. -/
def parsesMarch (text : String) : Option Datetime :=
  if text = "2026-03-08T12:00:00" then some noon
  else if text = "2026-03-08T10:00:00-05:00" then some tenBehind
  else none

def tenBehindJob : Job :=
  { flatCentJob 1 with idealDatetime := some tenBehind, datetimeFlexible := some false }

theorem dated_tenBehindJob : DatedBy parsesMarch "2026-03-08T10:00:00-05:00" tenBehindJob :=
  ⟨rfl, by decide, by decide, by decide⟩

theorem eligible_iff_instant_le_march :
    ∃ eligible, eligibilityStmt
        (Datetime.coerceLlmDatetime parsesMarch (some "2026-03-08T12:00:00")) = .ok eligible ∧
      (eligible tenBehindJob = true ↔
        tenBehind.wall - tenBehind.utcoffset.getD 0 ≤ noon.wall - noon.utcoffset.getD 0) ∧
      (tenBehind.utcoffset.getD 0 = noon.utcoffset.getD 0 →
        (eligible tenBehindJob = true ↔ tenBehind.wall ≤ noon.wall)) := by
  obtain ⟨eligible, hstmt⟩ := (eligibilityStmt_ok_iff
    (Datetime.coerceLlmDatetime parsesMarch (some "2026-03-08T12:00:00"))).mpr (by decide)
  exact ⟨eligible, hstmt,
    eligible_iff_instant_le (by decide) (by decide) dated_tenBehindJob hstmt⟩

/-- Ten o'clock is before noon, but not when it is written five hours behind UTC. -/
theorem march_not_wallClockConsistent :
    ¬WallClockConsistent parsesMarch "2026-03-08T10:00:00-05:00" "2026-03-08T12:00:00" := by
  intro h
  obtain ⟨eligible, hstmt⟩ := (eligibilityStmt_ok_iff
    (Datetime.coerceLlmDatetime parsesMarch (some "2026-03-08T12:00:00"))).mpr (by decide)
  have hten : parsesMarch "2026-03-08T10:00:00-05:00" = some tenBehind := by decide
  have hnoon : parsesMarch "2026-03-08T12:00:00" = some noon := by decide
  have hwall := h tenBehind hten noon hnoon _ dated_tenBehindJob _ hstmt
  rw [eligible_dated_iff hten hnoon dated_tenBehindJob hstmt] at hwall
  exact absurd hwall (by decide)

end Vici.DeadlineRule
