import Beats.Api.Decision

/-!
# The governor

`Authority.Evaluate` of `internal/hiss`: one decision on one set, a function of the set, the
policy and the time.  A set that did not pass its gate, or whose recommendation names no
candidate, is rejected.  Otherwise the vetoes of the first stage each add their reason and
any of them escalates.  A candidate without a reason is eligible, and the second stage holds
it if its risk outranks what the tier grants unattended.

`Judged` says what each verdict rests on, and `evaluate_judged` that every decision is so
judged.  Every decision has what an audit asks of it (`evaluate_auditable`).
-/

namespace Beats.Hiss

open Proposal Decision

/-! ## Policy -/

/-- `Window`: a named freeze, half-open. -/
structure Window where
  name : String := ""
  start : Time := Time.zero
  stop : Time := Time.zero
deriving DecidableEq

/-- `Policy`.  The maps of the source are association lists. -/
structure Policy where
  version : String := ""
  confidenceGate : String := ""
  floors : List (String × List (FailureClass × Rat)) := []
  maxBand : List (String × Band) := []
  autoBand : List (String × Band) := []
  freezeWindows : List Window := []
  requireReversal : Bool := false
deriving DecidableEq

namespace Policy

def floor (pol : Policy) (tier : String) (cls : FailureClass) : Rat :=
  (((pol.floors.lookup tier).getD []).lookup cls).getD 0

/-- The ceiling of a tier.  A missing tier has the empty band. -/
def maxBandOf (pol : Policy) (tier : String) : Band := (pol.maxBand.lookup tier).getD (.other "")

/-- What a tier grants unattended.  A missing tier has the empty band. -/
def autoBandOf (pol : Policy) (tier : String) : Band := (pol.autoBand.lookup tier).getD (.other "")

end Policy

/-! ## Bands -/

/-- `bandRank`.  A band that is not known ranks above all others. -/
def bandRank : Band → Nat
  | .observe => 0
  | .actReversible => 1
  | .actDisruptive => 2
  | .other _ => 3

def riskBand (reversible automatic : Bool) (blast : BlastTier) : Band :=
  if !reversible then .actDisruptive
  else if !automatic then .actDisruptive
  else if blast = .high then .actDisruptive
  else .actReversible

/-- The engine can finish the undo of the candidate itself. -/
def automaticUndo (c : Candidate) : Bool :=
  match c.reversalPath with
  | some path => path.automatic
  | none => false

def candidateRisk (c : Candidate) : Band :=
  riskBand c.reversalPath.isSome (automaticUndo c) c.blastTier

/-- The candidate's own confidence counts too. -/
def selfReportBinds (c : Candidate) : Bool :=
  bandRank .actReversible < bandRank (candidateRisk c)

/-- What was computed, or reported where nothing was computed. -/
def effectiveComputedConfidence (c : Candidate) : Rat :=
  if c.computedConfidence = 0 ∧ 0 < c.confidence then c.confidence else c.computedConfidence

/-- `requestedBand`.  Absence is never privilege. -/
def requestedBand (c : Candidate) : Band :=
  match c.governanceLevel with
  | none => .observe
  | some level => Band.ofText level.band

/-- `recommended`: the first candidate with the recommended ID. -/
def recommended (ps : Proposal.Set) : Option Candidate :=
  ps.proposals.find? fun c => c.id == ps.recommended

/-! ## Evaluate -/

/-- Why the confidence does not do. -/
def confidenceReasons (pol : Policy) (rec : Candidate) (floor : Rat) : List String :=
  if pol.confidenceGate = "split" then
    (if effectiveComputedConfidence rec < floor then ["grounding_floor"] else [])
      ++ (if selfReportBinds rec && rec.confidence < floor then ["confidence_floor"] else [])
  else if rec.confidence < floor then ["confidence_floor"] else []

def freezeReasons (pol : Policy) (now : Time) : List String :=
  (pol.freezeWindows.filter fun w => decide (w.start ≤ now) && decide (now < w.stop)).map
    fun w => "freeze_window" ++ ":" ++ w.name

/-- The vetoes of the first stage. -/
def vetoes (ps : Proposal.Set) (pol : Policy) (now : Time) (rec : Candidate) : List String :=
  confidenceReasons pol rec (pol.floor ps.serviceTier ps.failureClass)
    ++ (if bandRank (pol.maxBandOf ps.serviceTier) < bandRank (requestedBand rec)
        then ["authority_ceiling"] else [])
    ++ (if pol.requireReversal && rec.reversalPath.isNone then ["irreversible"] else [])
    ++ freezeReasons pol now

namespace Authority

def stamped (ps : Proposal.Set) (pol : Policy) (now : Time) : Decision where
  id := "dec:" ++ ps.signalRef ++ ":" ++ toString now.unix
  proposalRef := ps.name
  signalRef := ps.signalRef
  sloRef := ps.sloRef
  candidateRef := ps.recommended
  policyVersion := pol.version
  evaluatedAt := now

/-- The two stages, for a gated set with its recommended candidate. -/
def judge (ps : Proposal.Set) (pol : Policy) (now : Time) (rec : Candidate) : Decision :=
  let d := { stamped ps pol now with
    requestedBand := requestedBand rec
    floorApplied := pol.floor ps.serviceTier ps.failureClass
    reasons := vetoes ps pol now rec }
  if d.reasons ≠ [] then { d with verdict := .escalate }
  else
    let d := { d with riskBand := candidateRisk rec }
    if bandRank (pol.autoBandOf ps.serviceTier) < bandRank d.riskBand then
      { d with reasons := ["risk_ceiling"], verdict := .hold }
    else { d with verdict := .approved, grantedBand := d.requestedBand }

def evaluate (ps : Proposal.Set) (pol : Policy) (now : Time) : Decision :=
  match recommended ps with
  | some rec =>
    if ps.gatePassed then judge ps pol now rec
    else { stamped ps pol now with verdict := .rejected, reasons := ["ungated_input"] }
  | none => { stamped ps pol now with verdict := .rejected, reasons := ["ungated_input"] }

/-! ## What a decision says -/

variable {ps : Set} {pol : Policy} {now : Time} {rec : Candidate}

/-- The decision is the stamp of the set with a verdict, in one of four ways. -/
inductive Judged (ps : Proposal.Set) (pol : Policy) (now : Time) (d : Decision) : Prop where
  | rejected (verdict : d.verdict = .rejected) (reasons : d.reasons ≠ [])
  | escalated (verdict : d.verdict = .escalate) (reasons : d.reasons ≠ [])
  | held (verdict : d.verdict = .hold) (reasons : d.reasons ≠ [])
  | approved (verdict : d.verdict = .approved) (rec : Candidate)
      (found : recommended ps = some rec) (gate : ps.gatePassed = true)
      (eligible : vetoes ps pol now rec = [])
      (risk : bandRank (candidateRisk rec) ≤ bandRank (pol.autoBandOf ps.serviceTier))
      (granted : d.grantedBand = requestedBand rec)

theorem judge_judged (hrec : recommended ps = some rec) (hg : ps.gatePassed = true) :
    Judged ps pol now (judge ps pol now rec) := by
  unfold judge
  by_cases hv : vetoes ps pol now rec = []
  · by_cases hr : bandRank (pol.autoBandOf ps.serviceTier) < bandRank (candidateRisk rec)
    · simp only [hv, ne_eq, not_true_eq_false, if_false, hr, if_true]
      exact .held rfl (by simp)
    · simp only [hv, ne_eq, not_true_eq_false, if_false, hr]
      exact .approved rfl rec hrec hg hv (Nat.le_of_not_lt hr) rfl
  · simp only [ne_eq, hv, not_false_eq_true, if_true]
    exact .escalated rfl hv

theorem evaluate_judged (ps : Set) (pol : Policy) (now : Time) :
    Judged ps pol now (evaluate ps pol now) := by
  unfold evaluate
  cases hrec : recommended ps with
  | none => exact .rejected rfl (by simp)
  | some rec =>
    by_cases hg : ps.gatePassed = true
    · simp only [hg, if_true]
      exact judge_judged hrec hg
    · simp only [hg]
      exact .rejected rfl (by simp)

/-- A set is eligible, and then approved or held, exactly if its recommendation has no veto. -/
theorem evaluate_eligible_iff : (evaluate ps pol now).verdict = .approved ∨
      (evaluate ps pol now).verdict = .hold ↔
    ∃ rec, recommended ps = some rec ∧ ps.gatePassed = true ∧ vetoes ps pol now rec = [] := by
  unfold evaluate
  cases hrec : recommended ps with
  | none => simp
  | some rec =>
    cases hg : ps.gatePassed with
    | false => simp
    | true =>
      simp only [judge, if_true, Option.some.injEq, true_and, exists_eq_left']
      by_cases hv : vetoes ps pol now rec = []
      · simp only [hv, ne_eq, not_true_eq_false, if_false]
        split <;> simp
      · simp [hv]

/-- A set is rejected exactly if its gate did not pass or its recommendation names nothing. -/
theorem evaluate_rejected_iff : (evaluate ps pol now).verdict = .rejected ↔
    recommended ps = none ∨ ps.gatePassed = false := by
  unfold evaluate
  cases recommended ps with
  | none => simp
  | some rec =>
    cases ps.gatePassed with
    | false => simp
    | true =>
      simp only [judge, if_true]
      split
      · simp
      · split <;> simp

/-- An eligible set is approved exactly if its risk is one that the tier grants unattended. -/
theorem evaluate_approved_iff : (evaluate ps pol now).verdict = .approved ↔
    ∃ rec, recommended ps = some rec ∧ ps.gatePassed = true ∧ vetoes ps pol now rec = [] ∧
      bandRank (candidateRisk rec) ≤ bandRank (pol.autoBandOf ps.serviceTier) := by
  constructor
  · intro hv
    cases evaluate_judged ps pol now with
    | rejected h => exact absurd (hv.symm.trans h) nofun
    | escalated h => exact absurd (hv.symm.trans h) nofun
    | held h => exact absurd (hv.symm.trans h) nofun
    | approved _ rec hrec hg hveto hrisk _ => exact ⟨rec, hrec, hg, hveto, hrisk⟩
  · rintro ⟨rec, hrec, hg, hveto, hrisk⟩
    simp only [evaluate, hrec, hg, if_true, judge, hveto, ne_eq, not_true_eq_false, if_false,
      Nat.not_lt.mpr hrisk]

theorem evaluate_stamped (ps : Set) (pol : Policy) (now : Time) :
    (evaluate ps pol now).id = (stamped ps pol now).id ∧
    (evaluate ps pol now).signalRef = ps.signalRef ∧
    (evaluate ps pol now).proposalRef = ps.name ∧
    (evaluate ps pol now).candidateRef = ps.recommended ∧
    (evaluate ps pol now).policyVersion = pol.version ∧
    (evaluate ps pol now).evaluatedAt = now := by
  unfold evaluate
  cases recommended ps with
  | none => exact ⟨rfl, rfl, rfl, rfl, rfl, rfl⟩
  | some rec =>
    by_cases hg : ps.gatePassed = true
    · simp only [hg, if_true, judge]
      split
      · exact ⟨rfl, rfl, rfl, rfl, rfl, rfl⟩
      · split <;> exact ⟨rfl, rfl, rfl, rfl, rfl, rfl⟩
    · simp only [hg]
      exact ⟨rfl, rfl, rfl, rfl, rfl, rfl⟩

theorem Judged.reasons_ne_nil {d : Decision} (h : Judged ps pol now d)
    (hv : d.verdict ≠ .approved) : d.reasons ≠ [] := by
  cases h with
  | rejected _ hr => exact hr
  | escalated _ hr => exact hr
  | held _ hr => exact hr
  | approved ha => exact absurd ha hv

theorem evaluate_auditable (hpol : pol.version ≠ "") (hnow : now.isZero = false) :
    (evaluate ps pol now).auditable = .ok () := by
  obtain ⟨-, -, -, -, hversion, hat⟩ := evaluate_stamped ps pol now
  have hreasons :
      ¬ ((evaluate ps pol now).verdict ≠ .approved ∧ (evaluate ps pol now).reasons = []) :=
    fun h => (evaluate_judged ps pol now).reasons_ne_nil h.1 h.2
  simp [auditable, hversion, hat, hpol, hnow, hreasons]

end Authority

end Beats.Hiss
