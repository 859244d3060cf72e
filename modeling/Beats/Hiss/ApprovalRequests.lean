import Beats.Hiss.Transport

/-!
# Approval requests

`ApprovalRequestController` of `internal/hiss`.  A hold has a custom resource that a human
reads and patches.  The controller is handed a copy of a resource, at every change of it and
at every resync of its informer.  It turns a decided one into an approval and then marks it
processed.  A processed resource stays for a while and is swept.

The resources are the cluster's.  Their name is a digest of the fingerprint, which is left
open here.
-/

namespace Beats.Hiss

open Proposal Decision

/-! ## The resource -/

/-- `ApprovalRequestSpec`.  A human writes only `decision`. -/
structure ApprovalRequestSpec where
  signalRef : String := ""
  action : String := ""
  band : String := ""
  reasons : List String := []
  decision : String := ""
deriving DecidableEq

/-- `ApprovalRequestStatus`, which the controller writes. -/
structure ApprovalRequestStatus where
  phase : String := ""
  decidedAt : Time := Time.zero
deriving DecidableEq

/-- An `ApprovalRequest` resource.  The cluster writes the approver from the authenticated
user of a patch. -/
structure ApprovalRequest where
  name : String := ""
  spec : ApprovalRequestSpec := {}
  status : ApprovalRequestStatus := {}
  approvedBy : String := ""
deriving DecidableEq

/-- What a request shows of a hold. -/
def newApprovalRequestSpec (held : Governed) : ApprovalRequestSpec where
  signalRef := held.decision.signalRef
  action := held.set.contractRefFor held.decision.candidateRef
  band := held.decision.requestedBand.text
  reasons := held.decision.reasons

/-- `translateDecision`.  There is no approval where no human has acted. -/
def translateDecision (spec : ApprovalRequestSpec) (approvedBy : String) (now : Time) :
    Except String (Option Approval) :=
  if spec.decision = "" then .ok none
  else if spec.decision = "approve" then
    .ok (some { signalRef := spec.signalRef, approver := approvedBy, approvedAt := now })
  else .error ("hiss: unrecognized ApprovalRequest decision " ++ Lib.Fmt.quote spec.decision)

/-! ## The controller -/

namespace ApprovalRequest

/-- A human has decided and the controller has not marked it. -/
def outstanding (u : ApprovalRequest) : Bool :=
  u.status.phase != "Processed" && u.spec.decision != ""

def defaultRetention : Duration := 86400000000000

/-- `sweep`: the resource is to be deleted. -/
def sweep (u : ApprovalRequest) (retention : Duration) (now : Time) : Bool :=
  u.status.phase == "Processed" && !u.status.decidedAt.isZero &&
    decide ((if retention ≤ 0 then defaultRetention else retention) ≤ now - u.status.decidedAt)

/-- The approval of a resource, where there is something new.  A decision without an
authenticated approver is refused. -/
def ack (u : ApprovalRequest) (now : Time) : Except String (Option Approval) :=
  if u.status.phase = "Processed" ∨ u.spec.decision = "" then .ok none
  else if u.approvedBy = "" then .ok none
  else translateDecision u.spec u.approvedBy now

/-- The time of day as the status has it, in whole seconds. -/
def decidedAt (now : Time) : Time := now.unix * 1000000000

/-- The resource as `markProcessed` patches it. -/
def processed (u : ApprovalRequest) (now : Time) : ApprovalRequest :=
  { u with status := { phase := "Processed", decidedAt := decidedAt now } }

/-- What `reconcile` does: the approval it published, whether it went on to mark the
resource, and what it returned. -/
structure Reconciled where
  approval : Option Approval
  marked : Bool
  result : Except String Unit

/-- `reconcile`, with the answers of the publisher and of the cluster. -/
def reconcile (u : ApprovalRequest) (now : Time) (publish patch : Except String Unit) :
    Reconciled :=
  match u.ack now with
  | .error err => { approval := none, marked := false, result := .error err }
  | .ok none => { approval := none, marked := false, result := .ok () }
  | .ok (some a) =>
    match publish with
    | .error err =>
      { approval := none, marked := false
        result := .error ("publish approval for " ++ u.spec.signalRef ++ ": " ++ err) }
    | .ok () =>
      match patch with
      | .error err =>
        { approval := some a, marked := false
          result := .error ("patch " ++ u.name ++ " status: " ++ err) }
      | .ok () => { approval := some a, marked := true, result := .ok () }

/-- An approval comes from a resource that is decided and not marked, and is of its
fingerprint. -/
theorem ack_approval {u : ApprovalRequest} {now : Time} {a : Approval}
    (h : u.ack now = .ok (some a)) : u.outstanding = true ∧ a.signalRef = u.spec.signalRef := by
  unfold ack at h
  by_cases hdone : u.status.phase = "Processed" ∨ u.spec.decision = ""
  · rw [if_pos hdone] at h
    cases h
  · rw [if_neg hdone] at h
    by_cases hby : u.approvedBy = ""
    · rw [if_pos hby] at h
      cases h
    · rw [if_neg hby, translateDecision] at h
      obtain ⟨hphase, hdecision⟩ := not_or.mp hdone
      refine ⟨by simp [outstanding, hphase, hdecision], ?_⟩
      rw [if_neg hdecision] at h
      by_cases happrove : u.spec.decision = "approve"
      · rw [if_pos happrove] at h
        cases h
        rfl
      · rw [if_neg happrove] at h
        cases h

end ApprovalRequest

end Beats.Hiss
