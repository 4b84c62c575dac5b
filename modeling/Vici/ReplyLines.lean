import Vici.MatchFormatter

/-!
# The lines of a match reply

The reply is one line a job and a summary line, joined at newlines. The texts
of the posters are cut to a length but otherwise taken over as they are, and a
newline in them is a separator like the others. So the reply has the lines it
was built from exactly when the pieces which are shown hold no newline.
-/
namespace Vici.ReplyLines
open Models MatchSelection MatchService MatchFormatter

section
variable {α : Type*} [DecidableEq α] {a : α} {ls : List (List α)}

/-- Splitting what was joined splits every piece. -/
theorem splitOn_intercalate_eq_flatMap (hls : ls ≠ []) :
    ([a].intercalate ls).splitOn a = ls.flatMap (List.splitOn a) := by
  induction ls with
  | nil => exact absurd rfl hls
  | cons l ls ih =>
      cases ls with
      | nil => simp
      | cons l' ls =>
          rw [List.intercalate_cons_cons, List.append_assoc, List.singleton_append,
            List.splitOn_append_cons_self, ih (List.cons_ne_nil l' ls)]
          rfl

theorem length_splitOn_pos (xs : List α) : 0 < (xs.splitOn a).length :=
  List.length_pos_of_ne_nil (List.splitOn_ne_nil a xs)

theorem length_splitOn_eq_one_iff {xs : List α} : (xs.splitOn a).length = 1 ↔ a ∉ xs := by
  constructor
  · intro h hmem
    obtain ⟨s, t, rfl⟩ := List.append_of_mem hmem
    rw [List.splitOn_append_cons_self, List.length_append] at h
    have hs := length_splitOn_pos (a := a) s
    have ht := length_splitOn_pos (a := a) t
    omega
  · intro h
    rw [List.splitOn_eq_singleton h, List.length_singleton]

theorem length_le_sum_length_splitOn (ls : List (List α)) :
    ls.length ≤ (ls.map fun l => (l.splitOn a).length).sum := by
  induction ls with
  | nil => exact le_rfl
  | cons l ls ih =>
      have hl := length_splitOn_pos (a := a) l
      rw [List.length_cons, List.map_cons, List.sum_cons]
      omega

/-- The number of pieces survives the joining exactly when no piece holds a separator. -/
theorem length_splitOn_intercalate_iff (hls : ls ≠ []) :
    (([a].intercalate ls).splitOn a).length = ls.length ↔ ∀ l ∈ ls, a ∉ l := by
  rw [splitOn_intercalate_eq_flatMap hls, List.length_flatMap]
  clear hls
  induction ls with
  | nil => simp
  | cons l ls ih =>
      have hl := length_splitOn_pos (a := a) l
      have hrest := length_le_sum_length_splitOn (a := a) ls
      rw [List.map_cons, List.sum_cons, List.length_cons, List.forall_mem_cons,
        ← length_splitOn_eq_one_iff]
      constructor
      · intro h
        exact ⟨by omega, ih.mp (by omega)⟩
      · intro h
        rw [h.1, ih.mpr h.2, add_comm]

end

@[simp] theorem newline_notMem_toDigits (n : ℕ) : '\n' ∉ Nat.toDigits 10 n := by
  intro h
  have hdigit : Char.isDigit '\n' :=
    Nat.isDigit_of_mem_toDigits (by decide) (by decide) h
  exact absurd hdigit (by decide)

theorem newline_notMem_toString_int {z : ℤ} (hz : 0 ≤ z) : '\n' ∉ (toString z).toList := by
  obtain ⟨n, rfl⟩ := Int.eq_ofNat_of_zero_le hz
  have hdigits : '\n' ∉ (toString n).toList := by simp
  exact hdigits

theorem newline_notMem_wholeDollars (cents : ℕ) : '\n' ∉ (wholeDollars cents).toList :=
  newline_notMem_toString_int (Money.round_nonneg (by positivity))

theorem newline_notMem_tenths (hours : ℚ) : '\n' ∉ (tenths hours).toList := by
  simp [tenths]

/-- The phone at the end of a job's line. -/
def shownPhone (cand : JobCandidate) : String :=
  if (cand.posterPhone.getD "").isEmpty then "N/A" else cand.posterPhone.getD ""

/-- The pieces of a job which its line shows hold no newline. -/
structure SingleLine (cand : JobCandidate) : Prop where
  description : ∀ d ∈ cand.job.description, '\n' ∉ d.toList.take 30
  location : ∀ l ∈ cand.job.location, '\n' ∉ l.toList.take 20
  phone : ∀ p ∈ cand.posterPhone, '\n' ∉ p.toList

theorem newline_notMem_truncated_iff {value : Option String} {limit : ℕ} (default : String)
    (hdefault : '\n' ∉ default.toList) :
    '\n' ∉ (truncated value default limit).toList ↔
      ∀ text ∈ value, '\n' ∉ text.toList.take limit := by
  cases value with
  | none =>
      have hcut : '\n' ∉ default.toList.take limit := fun h => hdefault (List.mem_of_mem_take h)
      simpa [truncated] using hcut
  | some text =>
      simp only [truncated, Option.getD_some, Option.mem_some_iff, forall_eq',
        String.toList_ofList]
      split_ifs with hempty
      · rw [String.isEmpty_iff] at hempty
        have hcut : '\n' ∉ default.toList.take limit := fun h => hdefault (List.mem_of_mem_take h)
        simpa [hempty] using hcut
      · rfl

theorem newline_notMem_shownPhone_iff {cand : JobCandidate} :
    '\n' ∉ (shownPhone cand).toList ↔ ∀ p ∈ cand.posterPhone, '\n' ∉ p.toList := by
  unfold shownPhone
  cases cand.posterPhone with
  | none => simp
  | some phone =>
      simp only [Option.getD_some, Option.mem_some_iff, forall_eq']
      split_ifs with hempty
      · rw [String.isEmpty_iff] at hempty
        simp [hempty]
      · rfl

/-- A job's line ends with the phone, and everything before it starts with the rank. -/
theorem formatJobLine_eq (rank : ℕ) (cand : JobCandidate) :
    ∃ middle, (formatJobLine rank cand).toList =
        (toString rank ++ ". ").toList ++ middle ++ (shownPhone cand).toList ∧
      ('\n' ∉ middle ↔
        (∀ d ∈ cand.job.description, '\n' ∉ d.toList.take 30) ∧
          ∀ l ∈ cand.job.location, '\n' ∉ l.toList.take 20) := by
  refine ⟨(truncated cand.job.description "Job" 30 ++ " @ " ++ truncated cand.job.location "?" 20 ++
    " | $" ++ wholeDollars cand.earnings ++ "/" ++
      (if cand.duration = 0 then "flat" else tenths cand.duration ++ "h") ++ " | ").toList, ?_, ?_⟩
  · simp only [← String.toList_append]
    simp only [formatJobLine, shownPhone, String.append_assoc]
  · have hduration : '\n' ∉
        (if cand.duration = 0 then "flat" else tenths cand.duration ++ "h").toList := by
      split_ifs
      · decide
      · simp [newline_notMem_tenths]
    rw [← newline_notMem_truncated_iff "Job" (by decide),
      ← newline_notMem_truncated_iff "?" (by decide)]
    simp [newline_notMem_wholeDollars, hduration]

theorem newline_notMem_formatJobLine_iff {rank : ℕ} {cand : JobCandidate} :
    '\n' ∉ (formatJobLine rank cand).toList ↔ SingleLine cand := by
  obtain ⟨middle, heq, hmiddle⟩ := formatJobLine_eq rank cand
  have hsplit : '\n' ∉ (formatJobLine rank cand).toList ↔
      '\n' ∉ middle ∧ '\n' ∉ (shownPhone cand).toList := by
    simp [heq]
  rw [hsplit, hmiddle, newline_notMem_shownPhone_iff]
  constructor
  · intro h
    exact ⟨h.1.1, h.1.2, h.2⟩
  · intro h
    exact ⟨⟨h.description, h.location⟩, h.phone⟩

/-- The text split at its newlines. -/
def splitLines (text : String) : List (List Char) := text.toList.splitOn '\n'

/-- The lines which the formatter joins. -/
def builtLines (result : MatchResult) : List String :=
  (((result.jobs.take maxJobsInSms).zipIdx 1).map fun p => formatJobLine p.2 p.1) ++
    if result.isPartial then
      ["Best available: $" ++ wholeDollars result.totalEarnings ++ " of $" ++
        wholeDollars result.workGoal.targetEarnings ++ " goal"] else []

theorem formatMatchSms_eq {result : MatchResult} (hjobs : result.isEmpty = false) :
    formatMatchSms result = "\n".intercalate (builtLines result) := by
  simp [formatMatchSms, builtLines, hjobs]

theorem length_builtLines (result : MatchResult) :
    (builtLines result).length =
      min maxJobsInSms result.jobs.length + if result.isPartial then 1 else 0 := by
  rw [builtLines, List.length_append, List.length_map, List.length_zipIdx, List.length_take]
  split_ifs <;> rfl

theorem getElem?_builtLines {result : MatchResult} {k : ℕ} {cand : JobCandidate}
    (h : (result.jobs.take maxJobsInSms)[k]? = some cand) :
    (builtLines result)[k]? = some (formatJobLine (k + 1) cand) := by
  have hk := (List.getElem?_eq_some_iff.mp h).1
  rw [builtLines, List.getElem?_append_left (by simpa using hk), List.getElem?_map,
    List.getElem?_zipIdx, h]
  simp [add_comm]

theorem newline_notMem_builtLines_iff (result : MatchResult) :
    (∀ line ∈ builtLines result, '\n' ∉ line.toList) ↔
      ∀ cand ∈ result.jobs.take maxJobsInSms, SingleLine cand := by
  constructor
  · intro h cand hcand
    obtain ⟨k, hk⟩ := List.mem_iff_getElem?.mp hcand
    exact newline_notMem_formatJobLine_iff.mp
      (h _ (List.mem_iff_getElem?.mpr ⟨k, getElem?_builtLines hk⟩))
  · intro h line hline
    rcases List.mem_append.mp hline with hjob | hsummary
    · obtain ⟨p, hp, rfl⟩ := List.mem_map.mp hjob
      exact newline_notMem_formatJobLine_iff.mpr (h p.1 (List.fst_mem_of_mem_zipIdx hp))
    · split_ifs at hsummary
      · rw [List.mem_singleton] at hsummary
        simp [hsummary, newline_notMem_wholeDollars]
      · cases hsummary

/-- The reply has a line for each listed job, which starts with its rank and
ends with its phone, and a summary line when the result is partial. -/
structure Unforged (result : MatchResult) : Prop where
  count : (splitLines (formatMatchSms result)).length =
    min maxJobsInSms result.jobs.length + if result.isPartial then 1 else 0
  lines : ∀ k cand, (result.jobs.take maxJobsInSms)[k]? = some cand →
    ∃ line, (splitLines (formatMatchSms result))[k]? = some line ∧
      (toString (k + 1) ++ ". ").toList <+: line ∧ (shownPhone cand).toList <:+ line

theorem splitLines_intercalate (lines : List String) :
    splitLines ("\n".intercalate lines) =
      (['\n'].intercalate (lines.map String.toList)).splitOn '\n' := by
  rw [splitLines, String.toList_intercalate]
  rfl

theorem builtLines_ne_nil {result : MatchResult} (hjobs : result.isEmpty = false) :
    (builtLines result).map String.toList ≠ [] := by
  have hpos : 0 < result.jobs.length := by
    rw [List.length_pos_iff]
    exact List.isEmpty_eq_false_iff.mp hjobs
  apply List.ne_nil_of_length_pos
  rw [List.length_map, length_builtLines, maxJobsInSms]
  omega

/-- Each built line starts with its rank and ends with its phone. -/
theorem formatJobLine_ends (rank : ℕ) (cand : JobCandidate) :
    (toString rank ++ ". ").toList <+: (formatJobLine rank cand).toList ∧
      (shownPhone cand).toList <:+ (formatJobLine rank cand).toList := by
  obtain ⟨middle, heq, _⟩ := formatJobLine_eq rank cand
  rw [heq]
  constructor
  · rw [List.append_assoc]
    exact List.prefix_append _ _
  · exact List.suffix_append _ _

/-- The reply keeps its lines exactly when the shown pieces of the listed jobs
hold no newline. -/
theorem unforged_iff {result : MatchResult} (hjobs : result.isEmpty = false) :
    Unforged result ↔ ∀ cand ∈ result.jobs.take maxJobsInSms, SingleLine cand := by
  have hne := builtLines_ne_nil hjobs
  have htext : splitLines (formatMatchSms result) =
      (['\n'].intercalate ((builtLines result).map String.toList)).splitOn '\n' := by
    rw [formatMatchSms_eq hjobs, splitLines_intercalate]
  have hclean : (∀ line ∈ (builtLines result).map String.toList, '\n' ∉ line) ↔
      ∀ cand ∈ result.jobs.take maxJobsInSms, SingleLine cand := by
    rw [← newline_notMem_builtLines_iff]
    exact List.forall_mem_map
  rw [← hclean]
  constructor
  · intro h
    rw [← length_splitOn_intercalate_iff hne, ← htext, h.count, List.length_map,
      length_builtLines]
  · intro h
    rw [List.splitOn_intercalate '\n' h hne] at htext
    refine ⟨?_, ?_⟩
    · rw [htext, List.length_map, length_builtLines]
    · intro k cand hk
      refine ⟨(formatJobLine (k + 1) cand).toList, ?_, formatJobLine_ends (k + 1) cand⟩
      rw [htext, List.getElem?_map, getElem?_builtLines hk]
      rfl

theorem unforged_varied :
    ∃ r w', variedMatch 30 (by decide) = (.ok r, w') ∧ r.jobs.length = 5 ∧
      (Unforged r ↔ ∀ cand ∈ r.jobs.take maxJobsInSms, SingleLine cand) := by
  have hanswer : (variedMatch 30 (by decide)).1.toOption.any (fun r =>
      !r.isEmpty && decide (r.jobs.length = 5)) = true := by decide +kernel
  obtain ⟨r, w', hrun, hr⟩ := exists_of_answer hanswer
  obtain ⟨hsome, hlength⟩ := Bool.and_eq_true_iff.mp hr
  exact ⟨r, w', hrun, of_decide_eq_true hlength, unforged_iff (by simpa using hsome)⟩

/-- A description with a second line that looks like another poster's job. -/
def forger : JobCandidate :=
  { threeCents with
    job := { threeCentJob with description := some "Nanny\n2. Cash now @ 5 Elm | $900" }
    posterPhone := some "+15550001" }

/-- One job, two lines: the second one carries a rank and the phone of the poster. -/
theorem forged_second_line :
    ¬Unforged ⟨[forger], fiveCentGoal, 3, false⟩ ∧
      formatMatchSms ⟨[forger], fiveCentGoal, 3, false⟩ =
        "1. Nanny\n2. Cash now @ 5 Elm | $9 @ ? | $0/flat | +15550001" := by
  have htext : formatMatchSms ⟨[forger], fiveCentGoal, 3, false⟩ =
      "1. Nanny\n2. Cash now @ 5 Elm | $9 @ ? | $0/flat | +15550001" := by decide +kernel
  refine ⟨?_, htext⟩
  intro h
  have hcount := h.count
  rw [htext] at hcount
  exact absurd hcount (by decide)

end Vici.ReplyLines
