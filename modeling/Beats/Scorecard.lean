import Beats.Api.Decision
import Beats.Lib.Counter

/-!
# Scorecards

`Grade` of `internal/scorecard` grades a result a line, and keeps the same count several times: in
all, by scenario, by run index and by reason.  The counts agree on every input that can be read,
and the order of its lines shows in the order of the misses only (`grade_conserves`).
-/

namespace Beats.Scorecard

open Lib List

/-! ## Rows -/

/-- The fields of a result that are graded. -/
structure Row where
  scenarioName : String := ""
  expectedContract : String := ""
  expectedVerdict : String := ""
  actualVerdict : String := ""
  actualContract : String := ""
  actualResult : Outcome.Result := .other ""
  runID : String := ""
  runIndex : Int := 0
  err : String := ""

/-- How a row is graded. -/
inductive Reason where
  | hit
  | refusedWrongBeat
  | noDetection
  | wrongContract
  | wrongVerdict
  | nonConverging
  | restoreFailure
  | harnessError
  | harnessLivenessFailure
deriving DecidableEq

def Reason.text : Reason → String
  | .hit => ""
  | .refusedWrongBeat => "refused at wrong beat"
  | .noDetection => "no detection / settle timeout"
  | .wrongContract => "wrong contract"
  | .wrongVerdict => "wrong verdict"
  | .nonConverging => "non-converging"
  | .restoreFailure => "restore failure"
  | .harnessError => "harness error"
  | .harnessLivenessFailure => "harness fault: NATS unreachable before fault injection"

/-- `strings.Contains`. -/
def Contains (msg sub : String) : Prop := sub.toList <:+: msg.toList

instance (msg sub : String) : Decidable (Contains msg sub) :=
  inferInstanceAs (Decidable (sub.toList <:+: msg.toList))

/-- Why a run failed, by its message. -/
def failedReason (msg : String) : Reason :=
  if Contains msg "restore" then .restoreFailure
  else if Contains msg "broker unreachable" then .harnessLivenessFailure
  else if Contains msg "settle window elapsed" then .noDetection
  else .harnessError

/-- `grade` of one row. -/
def Row.grade (r : Row) : Reason :=
  if r.err ≠ "" then failedReason r.err
  else if r.actualVerdict = "refused" ∧ r.expectedVerdict ≠ "refused" then .refusedWrongBeat
  else if r.expectedVerdict = "refused" ∧ r.actualVerdict ≠ "refused" then .refusedWrongBeat
  else if r.actualVerdict ≠ r.expectedVerdict then .wrongVerdict
  else if r.expectedVerdict = "refused" then .hit
  else if r.actualContract ≠ r.expectedContract then .wrongContract
  else if r.expectedVerdict = "approved" ∧ r.actualResult ≠ .success then .nonConverging
  else .hit

/-! ## Reports -/

/-- Hits, out of how many. -/
structure Tally where
  hits : Nat := 0
  n : Nat := 0

structure Miss where
  scenarioName : String
  runIndex : Int
  runID : String
  reason : String

/-- `scorecard.Report`, whose maps are lists of entries. -/
structure Report where
  n : Nat := 0
  hits : Nat := 0
  byScenario : List (String × Tally) := []
  byRunIndex : List (Int × Tally) := []
  reasons : List (Reason × Nat) := []
  misses : List Miss := []
  harnessExcluded : Nat := 0

def Row.miss (r : Row) : Miss := ⟨r.scenarioName, r.runIndex, r.runID, r.grade.text⟩

def Row.tally (r : Row) (t : Tally) : Tally := ⟨t.hits + if r.grade = .hit then 1 else 0, t.n + 1⟩

/-- The body of the loop of `Grade`. -/
def Report.add (rpt : Report) (r : Row) : Report :=
  if r.grade = .harnessLivenessFailure then
    { rpt with
      harnessExcluded := rpt.harnessExcluded + 1
      reasons := bump 0 r.grade (· + 1) rpt.reasons
      misses := rpt.misses ++ [r.miss] }
  else
    let rpt := { rpt with
      n := rpt.n + 1
      byScenario := bump {} r.scenarioName r.tally rpt.byScenario
      byRunIndex := bump {} r.runIndex r.tally rpt.byRunIndex }
    if r.grade = .hit then { rpt with hits := rpt.hits + 1 }
    else
      { rpt with
        reasons := bump 0 r.grade (· + 1) rpt.reasons
        misses := rpt.misses ++ [r.miss] }

/-- `unicode.IsSpace`. -/
def isSpace (c : Char) : Bool :=
  c.toNat ∈ [9, 10, 11, 12, 13, 32, 0x85, 0xA0, 0x1680, 0x2028, 0x2029, 0x202F, 0x205F, 0x3000] ∨
    (0x2000 ≤ c.toNat ∧ c.toNat ≤ 0x200A)

def trimSpace (line : String) : String :=
  String.ofList ((line.toList.dropWhile isSpace).reverse.dropWhile isSpace).reverse

/-- The line is empty or space. -/
def Blank (line : String) : Prop := trimSpace line = ""

instance : DecidablePred Blank := fun line => inferInstanceAs (Decidable (trimSpace line = ""))

section

variable (unmarshal : String → Except String Row)

/-- One line, with `json.Unmarshal`. -/
def Report.scan (rpt : Report) (line : String) : Except String Report :=
  if Blank line then .ok rpt
  else
    match unmarshal (trimSpace line) with
    | .error err => .error ("scorecard: decode result: " ++ err)
    | .ok r => .ok (rpt.add r)

/-- `Grade` of the lines that were scanned, with the scanner's error. -/
def grade (lines : List String) (scanErr : Option String) : Except String Report := do
  let rpt ← lines.foldlM (Report.scan unmarshal) {}
  match scanErr with
  | some err => .error ("scorecard: read results: " ++ err)
  | none => return rpt

end

/-! ## The counts -/

/-- What a report says of the rows. -/
def report (rows : List Row) : Report :=
  let counted := rows.filter fun r => r.grade ≠ .harnessLivenessFailure
  let missed := rows.filter fun r => r.grade ≠ .hit
  { n := counted.length
    hits := rows.countP fun r => r.grade = .hit
    byScenario := bumps {} Row.scenarioName Row.tally counted
    byRunIndex := bumps {} Row.runIndex Row.tally counted
    reasons := bumps 0 Row.grade (fun _ => (· + 1)) missed
    misses := missed.map Row.miss
    harnessExcluded := rows.countP fun r => r.grade = .harnessLivenessFailure }

theorem report_concat (rows : List Row) (r : Row) : report (rows ++ [r]) = (report rows).add r := by
  unfold Report.add
  split
  next h => simp [report, h, bumps_concat]
  next h =>
    split
    next hhit => simp [report, hhit, bumps_concat]
    next hmiss => simp [report, h, hmiss, bumps_concat]

theorem foldl_add (rows : List Row) : rows.foldl Report.add {} = report rows := by
  induction rows using reverseRecOn with
  | nil => rfl
  | append_singleton rows r ih => rw [foldl_append, ih, report_concat]; rfl

/-- A sum over the values of a map. -/
def total {K V : Type} (w : V → Nat) (m : List (K × V)) : Nat := (m.map fun e => w e.2).sum

/-- The counts of a report of `lines` lines agree. -/
structure Report.Conserved (rpt : Report) (lines : Nat) : Prop where
  lines : rpt.n + rpt.harnessExcluded = lines
  n : total Tally.n rpt.byScenario = rpt.n ∧ total Tally.n rpt.byRunIndex = rpt.n
  hits : total Tally.hits rpt.byScenario = rpt.hits ∧ total Tally.hits rpt.byRunIndex = rpt.hits
  reasons : total id rpt.reasons = rpt.n - rpt.hits + rpt.harnessExcluded
  misses : total id rpt.reasons = rpt.misses.length
  hits_le : rpt.hits ≤ rpt.n
  keys : (rpt.byScenario.map Prod.fst).Nodup ∧ (rpt.byRunIndex.map Prod.fst).Nodup ∧
    (rpt.reasons.map Prod.fst).Nodup

/-- Two reports that differ in the order of the misses only. -/
structure Report.Same (rpt rpt' : Report) : Prop where
  n : rpt.n = rpt'.n
  hits : rpt.hits = rpt'.hits
  harnessExcluded : rpt.harnessExcluded = rpt'.harnessExcluded
  byScenario : ∀ k, valueAt k rpt.byScenario = valueAt k rpt'.byScenario
  byRunIndex : ∀ k, valueAt k rpt.byRunIndex = valueAt k rpt'.byRunIndex
  reasons : ∀ k, valueAt k rpt.reasons = valueAt k rpt'.reasons
  misses : rpt.misses.Perm rpt'.misses

theorem total_n {K : Type} [DecidableEq K] (key : Row → K) (rows : List Row) :
    total Tally.n (bumps {} key Row.tally rows) = rows.length :=
  sum_bumps_length rfl fun _ _ => rfl

theorem total_hits {K : Type} [DecidableEq K] (key : Row → K) (rows : List Row) :
    total Tally.hits (bumps {} key Row.tally rows) = rows.countP fun r => r.grade = .hit :=
  sum_bumps rfl fun _ _ => by simp [Row.tally]

theorem report_conserved (rows : List Row) : (report rows).Conserved rows.length := by
  have hlines : (report rows).n + (report rows).harnessExcluded = rows.length := by
    have hsplit := rows.length_eq_countP_add_countP fun r => r.grade = .harnessLivenessFailure
    simpa [report, ← countP_eq_length_filter, Nat.add_comm] using hsplit.symm
  have hmissed : (report rows).misses.length + (report rows).hits = rows.length := by
    have hsplit := rows.length_eq_countP_add_countP fun r => r.grade = .hit
    simpa [report, ← countP_eq_length_filter, Nat.add_comm] using hsplit.symm
  have hhit : ((rows.filter fun r => r.grade ≠ .harnessLivenessFailure).countP fun r =>
      r.grade = .hit) = (report rows).hits := by
    rw [countP_filter]
    exact countP_congr fun r _ => by simp +contextual
  have hle : (report rows).hits ≤ (report rows).n := hhit ▸ countP_le_length
  have hreasons : total id (report rows).reasons = (report rows).misses.length  := by
    refine Eq.trans ?_ (length_map _).symm
    exact sum_bumps_length rfl fun _ _ => rfl
  exact
    { lines := hlines
      n := ⟨total_n _ _, total_n _ _⟩
      hits := ⟨(total_hits _ _).trans hhit, (total_hits _ _).trans hhit⟩
      reasons := by omega
      misses := hreasons
      hits_le := hle
      keys := ⟨nodup_bumps, nodup_bumps, nodup_bumps⟩ }

theorem report_perm {rows rows' : List Row} (h : rows.Perm rows') :
    (report rows).Same (report rows') := by
  have htally : ∀ (r r' : Row) t, r.tally (r'.tally t) = r'.tally (r.tally t) := fun r r' t => by
    simp only [Row.tally, Nat.add_right_comm]
  have hcounted := h.filter fun r => r.grade ≠ .harnessLivenessFailure
  have hmissed := h.filter fun r => r.grade ≠ .hit
  exact
    { n := hcounted.length_eq
      hits := h.countP_eq _
      harnessExcluded := h.countP_eq _
      byScenario := fun k => valueAt_bumps_perm htally hcounted
      byRunIndex := fun k => valueAt_bumps_perm htally hcounted
      reasons := fun k => valueAt_bumps_perm (fun _ _ _ => rfl) hmissed
      misses := hmissed.map _ }

/-! ## The lines -/

section

variable (unmarshal : String → Except String Row)

/-- Every line that is not blank is a result. -/
def WellFormed (lines : List String) : Prop :=
  ∀ line ∈ lines, ¬Blank line → ∃ r, unmarshal (trimSpace line) = .ok r

/-- The rows of the lines that are not blank. -/
def rowsOf (lines : List String) : List Row :=
  (lines.filter fun line => ¬Blank line).filterMap fun line =>
    (unmarshal (trimSpace line)).toOption

variable {unmarshal} {lines : List String}

theorem rowsOf_blank {line : String} (hb : Blank line) :
    rowsOf unmarshal (line :: lines) = rowsOf unmarshal lines := by
  simp [rowsOf, hb]

theorem rowsOf_cons {line : String} {r : Row} (hb : ¬Blank line)
    (hr : unmarshal (trimSpace line) = .ok r) :
    rowsOf unmarshal (line :: lines) = r :: rowsOf unmarshal lines := by
  simp [rowsOf, hb, hr, Except.toOption]

theorem length_rowsOf (h : WellFormed unmarshal lines) :
    (rowsOf unmarshal lines).length = lines.countP fun line => ¬Blank line := by
  induction lines with
  | nil => rfl
  | cons line lines ih =>
    obtain ⟨hline, hlines⟩ := forall_mem_cons.mp h
    by_cases hb : Blank line
    · simp [rowsOf_blank hb, ih hlines, hb]
    · obtain ⟨r, hr⟩ := hline hb
      simp [rowsOf_cons hb hr, ih hlines, hb]

theorem foldlM_scan (h : WellFormed unmarshal lines) (rpt : Report) :
    lines.foldlM (Report.scan unmarshal) rpt =
      .ok ((rowsOf unmarshal lines).foldl Report.add rpt) := by
  induction lines generalizing rpt with
  | nil => rfl
  | cons line lines ih =>
    obtain ⟨hline, hlines⟩ := forall_mem_cons.mp h
    rw [foldlM_cons, Report.scan]
    by_cases hb : Blank line
    · rw [if_pos hb, rowsOf_blank hb]
      exact ih hlines rpt
    · obtain ⟨r, hr⟩ := hline hb
      rw [if_neg hb, hr, rowsOf_cons hb hr]
      exact ih hlines (rpt.add r)

theorem grade_eq (h : WellFormed unmarshal lines) :
    grade unmarshal lines none = .ok (report (rowsOf unmarshal lines)) := by
  rw [grade, foldlM_scan h, foldl_add]
  rfl

end

theorem grade_conserves (unmarshal : String → Except String Row) (lines : List String)
    (h : WellFormed unmarshal lines) :
    ∃ rpt, grade unmarshal lines none = .ok rpt ∧
      rpt.Conserved (lines.countP fun line => ¬Blank line) ∧
      ∀ lines', lines.Perm lines' →
        ∃ rpt', grade unmarshal lines' none = .ok rpt' ∧ rpt.Same rpt' := by
  refine ⟨_, grade_eq h, length_rowsOf h ▸ report_conserved _, fun lines' hperm => ?_⟩
  have h' : WellFormed unmarshal lines' := fun line hl => h line (hperm.mem_iff.mpr hl)
  exact ⟨_, grade_eq h', report_perm ((hperm.filter _).filterMap _)⟩

/-- A codec of two results: a trial that hits, and one whose broker was dead. -/
def twoResults (line : String) : Except String Row :=
  if line = "hit" then .ok {} else .ok { err := "broker unreachable" }

theorem twoResults_conserve :
    WellFormed twoResults ["hit", "", "dead", "hit"] ∧
      ∃ rpt, grade twoResults ["hit", "", "dead", "hit"] none = .ok rpt ∧ rpt.Conserved 3 := by
  have h : WellFormed twoResults ["hit", "", "dead", "hit"] := fun line _ _ => by
    unfold twoResults
    split <;> exact ⟨_, rfl⟩
  obtain ⟨rpt, hrpt, hc, -⟩ := grade_conserves twoResults _ h
  exact ⟨h, rpt, hrpt, hc⟩

end Beats.Scorecard
