import Beats.Api.Proposal

/-!
# The vocabulary of governance and action

The boundary objects of `api/v1/decision`, `api/v1/outcome` and `api/v1/approval`: the
decision that governs one set, the outcome of acting on it, and the ack of a human.
Each is born auditable, and `auditable` is the check its consumers repeat.
-/

namespace Beats

/-! ## Decisions -/

namespace Decision

/-- The judgment on a set. -/
inductive Verdict where
  | approved
  | escalate
  | rejected
  | hold
  | other (s : String)
deriving DecidableEq

def Verdict.text : Verdict → String
  | .approved => "approved"
  | .escalate => "escalate"
  | .rejected => "rejected"
  | .hold => "hold"
  | .other s => s

/-- `Verdict.AwaitsApproval`: a human ack is still needed. -/
def Verdict.awaitsApproval (v : Verdict) : Bool := v == .escalate || v == .hold

/-- How much latitude is asked for or granted. -/
inductive Band where
  | observe
  | actReversible
  | actDisruptive
  | other (s : String)
deriving DecidableEq

def Band.text : Band → String
  | .observe => "observe"
  | .actReversible => "act_reversible"
  | .actDisruptive => "act_disruptive"
  | .other s => s

/-- `decision.Band(s)`: the band a string converts to. -/
def Band.ofText (s : String) : Band :=
  if s = "observe" then .observe
  else if s = "act_reversible" then .actReversible
  else if s = "act_disruptive" then .actDisruptive
  else .other s

end Decision

open Decision in
/-- `decision.Decision`: one verdict on one set. -/
structure Decision where
  id : String := ""
  proposalRef : String := ""
  signalRef : String := ""
  sloRef : String := ""
  candidateRef : String := ""
  verdict : Verdict := .other ""
  reasons : List String := []
  requestedBand : Band := .other ""
  grantedBand : Band := .other ""
  riskBand : Band := .other ""
  floorApplied : Rat := 0
  policyVersion : String := ""
  evaluatedAt : Time := Time.zero
  forced : Bool := false
  operator : String := ""
  approver : String := ""
deriving DecidableEq

namespace Decision

/-- `Decision.Auditable`: the error text, if the decision is not. -/
def auditable (d : Decision) : Except String Unit :=
  if d.policyVersion = "" then .error "decision missing policy version"
  else if d.evaluatedAt.isZero then .error "decision missing evaluation time"
  else if d.verdict ≠ .approved ∧ d.reasons = [] then
    .error (d.verdict.text ++ " decision with no reasons is not accepted")
  else .ok ()

/-- `decision.Governed`: a decision with the set it judged. -/
structure Governed where
  decision : Decision := {}
  set : Proposal.Set := {}
deriving DecidableEq

theorem auditable_approved {d : Decision} (h : d.verdict = .approved) :
    d.auditable = .ok () ↔ d.policyVersion ≠ "" ∧ d.evaluatedAt.isZero = false := by
  unfold auditable
  by_cases hp : d.policyVersion = ""
  · simp [hp]
  · cases hz : Time.isZero d.evaluatedAt <;> simp [hp, h]

end Decision

/-! ## Outcomes -/

namespace Outcome

/-- Rehearsed or executed. -/
inductive Mode where
  | dryRun
  | live
  | other (s : String)
deriving DecidableEq

def Mode.text : Mode → String
  | .dryRun => "dry_run"
  | .live => "live"
  | .other s => s

/-- The state an outcome reached. -/
inductive Result where
  | rendered
  | applied
  | proposed
  | success
  | failure
  | unknown
  | blocked
  | partialNonConverging
  | other (s : String)
deriving DecidableEq

def Result.text : Result → String
  | .rendered => "rendered"
  | .applied => "applied"
  | .proposed => "proposed"
  | .success => "success"
  | .failure => "failure"
  | .unknown => "unknown"
  | .blocked => "blocked"
  | .partialNonConverging => "partial_non_converging"
  | .other s => s

end Outcome

open Outcome in
/-- `outcome.Outcome`: what happened when a decision was acted on. -/
structure Outcome where
  id : String := ""
  decisionRef : String := ""
  signalRef : String := ""
  contractRef : String := ""
  mode : Mode := .other ""
  result : Result := .other ""
  error : String := ""
  executedAt : Time := Time.zero
  observedSeverity : Option Rat := none
deriving DecidableEq

namespace Outcome

/-- `Outcome.Auditable`: the error text, if the outcome is not. -/
def auditable (o : Outcome) : Except String Unit :=
  if o.decisionRef = "" then .error "outcome missing decision ref - an act answers to a grant"
  else if o.executedAt.isZero then .error "outcome missing execution time"
  else if o.mode = .other "" then
    .error "outcome missing mode - rehearsal and reality must be distinguishable"
  else if o.result = .other "" then .error "outcome missing result"
  else if (o.result = .failure ∨ o.result = .partialNonConverging) ∧ o.error = "" then
    .error (o.result.text ++ " outcome with no error text is silence, not accountability")
  else .ok ()

end Outcome

/-! ## Approvals -/

/-- `approval.Approval`: one human ack of one held fingerprint. -/
structure Approval where
  signalRef : String := ""
  approver : String := ""
  approvedAt : Time := Time.zero
  capBand : String := ""
deriving DecidableEq

end Beats
