import Beats.Hiss.Authority
import Mathlib.Logic.Function.Basic

/-!
# Holding and releasing

`Transport` and `PendingHolds` of `internal/hiss`.  A set whose decision awaits a human is held
under its fingerprint, and the decision is published in any case.  An approval takes the hold and
publishes its decision again, approved.

What the handlers keep and send is their state, a `Desk`.  What they do not decide, the readings of
the clock and whether a call fails, is the `Weather` of one message.

An approval takes the hold before the steps that can fail.  So a failed approval has lost it
(`approveHandler_keeps_hold_iff`), and the approval that the broker delivers again finds nothing
(`lostApproval_drops_hold`).
-/

namespace Beats.Hiss

open Proposal Decision

/-! ## Pending holds -/

/-- `PendingHolds`: what is held, by fingerprint. -/
structure PendingHolds where
  holds : String → Option Governed := fun _ => none

namespace PendingHolds

/-- `PendingHolds.Record`.  A second hold of a fingerprint overwrites the first. -/
def record (h : PendingHolds) (g : Governed) : PendingHolds where
  holds := Function.update h.holds g.decision.signalRef (some g)

/-- The hold of a signal, and the holds without it. -/
def take (h : PendingHolds) (fingerprint : String) : Option Governed × PendingHolds :=
  (h.holds fingerprint, { holds := Function.update h.holds fingerprint none })

@[simp] theorem holds_record_self (h : PendingHolds) (g : Governed) :
    (h.record g).holds g.decision.signalRef = some g := by
  simp [record]

theorem holds_record_of_ne {h : PendingHolds} {g : Governed} {fingerprint : String}
    (hne : fingerprint ≠ g.decision.signalRef) :
    (h.record g).holds fingerprint = h.holds fingerprint := by
  simp [record, hne]

@[simp] theorem holds_take_self (h : PendingHolds) (fingerprint : String) :
    (h.take fingerprint).2.holds fingerprint = none := by
  simp [take]

theorem holds_take_of_ne {h : PendingHolds} {f fingerprint : String} (hne : f ≠ fingerprint) :
    (h.take fingerprint).2.holds f = h.holds f := by
  simp [take, hne]

end PendingHolds

/-! ## Handlers -/

/-- What the handlers keep and what they have sent. -/
structure Desk where
  holds : PendingHolds := {}
  log : List Decision := []
  /-- The decisions published on `thump.decisions`. -/
  decisions : List Governed := []

/-- What a handler meets: its readings of the clock, and the answers of the approval
requests and of the publisher. -/
structure Weather where
  /-- The first reading. -/
  now : Time := Time.zero
  /-- The second reading of `approveHandler`. -/
  later : Time := Time.zero
  create : Except String Unit := .ok ()
  publish : Except String Unit := .ok ()

/-- `Transport`.  The two flags say whether holds and approval requests are wired. -/
structure Transport where
  policy : Policy := {}
  holds : Bool := true
  approvals : Bool := true

namespace Transport

def publish (g : Governed) (w : Weather) (s : Desk) (wrap : String → String) :
    Desk × Except String Unit :=
  match w.publish with
  | .error err => (s, .error (wrap err))
  | .ok () => ({ s with decisions := s.decisions ++ [g] }, .ok ())

/-- A set is decided on, and the decision held or sent. -/
def handle (tr : Transport) (ps : Proposal.Set) (w : Weather) (s : Desk) :
    Desk × Except String Unit :=
  let d := Authority.evaluate ps tr.policy w.now
  let g : Governed := { decision := d, set := ps }
  if d.verdict.awaitsApproval && tr.holds then
    let s := { s with holds := s.holds.record g }
    match tr.approvals, w.create with
    | true, .error err =>
      (s, .error ("hiss: create approvalrequest for " ++ d.signalRef ++ ": " ++ err))
    | _, _ => publish g w { s with log := s.log ++ [d] } id
  else publish g w { s with log := s.log ++ [d] } id

/-- A set with the decision on it. -/
def judged (tr : Transport) (ps : Proposal.Set) (w : Weather) : Governed where
  decision := Authority.evaluate ps tr.policy w.now
  set := ps

/-- The set is held for a human. -/
def awaits (tr : Transport) (ps : Proposal.Set) (w : Weather) : Bool :=
  (tr.judged ps w).decision.verdict.awaitsApproval && tr.holds

@[simp] theorem judged_signalRef (tr : Transport) (ps : Proposal.Set) (w : Weather) :
    (tr.judged ps w).decision.signalRef = ps.signalRef :=
  (Authority.evaluate_stamped ps tr.policy w.now).2.1

/-- The decision as the approval makes it. -/
def reissue (tr : Transport) (held : Governed) (a : Approval) (w : Weather) : Decision :=
  { held.decision with
    id := "dec:" ++ held.decision.signalRef ++ ":" ++ toString w.now.unix
    verdict := .approved
    grantedBand := held.decision.requestedBand
    reasons := []
    approver := a.approver
    policyVersion := tr.policy.version
    evaluatedAt := w.later }

/-- A held decision is re-stamped, checked and sent. -/
def release (tr : Transport) (held : Governed) (a : Approval) (w : Weather) (s : Desk) :
    Desk × Except String Unit :=
  match (tr.reissue held a w).auditable with
  | .error why => (s, .error ("hiss: re-stamped decision not auditable: " ++ why))
  | .ok () =>
    match publish { decision := tr.reissue held a w, set := held.set } w s
        (fun err => "hiss: publish re-issued decision for " ++ a.signalRef ++ ": " ++ err) with
    | (s, .error err) => (s, .error err)
    | (s, .ok ()) => ({ s with log := s.log ++ [tr.reissue held a w] }, .ok ())

/-- `Transport.approveHandler`.  An approval of what is not held does nothing. -/
def approveHandler (tr : Transport) (a : Approval) (w : Weather) (s : Desk) :
    Desk × Except String Unit :=
  match s.holds.take a.signalRef with
  | (none, _) => (s, .ok ())
  | (some held, holds) => tr.release held a w { s with holds := holds }

/-! ## What becomes of a hold -/

section

variable {tr : Transport} {held : Governed} {a : Approval} {w : Weather} {s : Desk}

theorem approveHandler_of_unheld (h : s.holds.holds a.signalRef = none) :
    tr.approveHandler a w s = (s, .ok ()) := by
  simp [approveHandler, PendingHolds.take, h]

theorem approveHandler_of_held (h : s.holds.holds a.signalRef = some held) :
    tr.approveHandler a w s =
      tr.release held a w { s with holds := (s.holds.take a.signalRef).2 } := by
  simp [approveHandler, PendingHolds.take, h]

@[simp] theorem publish_holds (g : Governed) (w : Weather) (s : Desk) (wrap : String → String) :
    (publish g w s wrap).1.holds = s.holds := by
  unfold publish
  cases w.publish <;> rfl

/-- `handle` ends where the approval request cannot be made, and publishes otherwise. -/
theorem handle_cases (tr : Transport) (ps : Set) (w : Weather) (s : Desk) :
    let holds := if tr.awaits ps w then s.holds.record (tr.judged ps w) else s.holds
    ((tr.awaits ps w && tr.approvals && !w.create.isOk) = true ∧
      (tr.handle ps w s).1 = { s with holds := holds }) ∨
    ((tr.awaits ps w && tr.approvals && !w.create.isOk) = false ∧
      tr.handle ps w s = publish (tr.judged ps w) w
        { s with holds := holds, log := s.log ++ [(tr.judged ps w).decision] } id) := by
  intro holds
  have hhandle : tr.handle ps w s = if tr.awaits ps w then _ else _ := rfl
  cases ha : tr.awaits ps w with
  | false => exact .inr ⟨rfl, by rw [hhandle]; simp [holds, ha, judged]⟩
  | true =>
    cases happrovals : tr.approvals with
    | false => exact .inr ⟨rfl, by rw [hhandle]; simp [holds, ha, happrovals, judged]⟩
    | true =>
      cases hcreate : w.create with
      | ok _ => exact .inr ⟨rfl, by rw [hhandle]; simp [holds, ha, hcreate, judged]⟩
      | error err =>
        exact .inl ⟨rfl, by rw [hhandle]; simp [holds, ha, happrovals, hcreate, judged]⟩

theorem handle_holds (tr : Transport) (ps : Set) (w : Weather) (s : Desk) :
    (tr.handle ps w s).1.holds =
      if tr.awaits ps w then s.holds.record (tr.judged ps w) else s.holds := by
  rcases handle_cases tr ps w s with ⟨-, he⟩ | ⟨-, he⟩
  · rw [he]
  · rw [he, publish_holds]

theorem publish_decisions (g : Governed) (w : Weather) (s : Desk) (wrap : String → String) :
    (publish g w s wrap).1.decisions = s.decisions ∨
      (publish g w s wrap).1.decisions = s.decisions ++ [g] := by
  unfold publish
  cases w.publish with
  | error err => exact .inl rfl
  | ok _ => exact .inr rfl

theorem handle_decisions (tr : Transport) (ps : Set) (w : Weather) (s : Desk) :
    (tr.handle ps w s).1.decisions = s.decisions ∨
      (tr.handle ps w s).1.decisions = s.decisions ++ [tr.judged ps w] := by
  rcases handle_cases tr ps w s with ⟨-, he⟩ | ⟨-, he⟩
  · exact .inl (by rw [he])
  · rw [he]
    exact publish_decisions _ w _ _

theorem release_cases (tr : Transport) (held : Governed) (a : Approval) (w : Weather) (s : Desk) :
    ((tr.release held a w s).2 = .ok () ∧ tr.policy.version ≠ "" ∧ w.later.isZero = false ∧
      w.publish = .ok () ∧ (tr.release held a w s).1 =
        { s with
          log := s.log ++ [tr.reissue held a w]
          decisions := s.decisions ++ [{ decision := tr.reissue held a w, set := held.set }] }) ∨
    ((∃ err, (tr.release held a w s).2 = .error err) ∧ (tr.release held a w s).1 = s ∧
      ¬ (tr.policy.version ≠ "" ∧ w.later.isZero = false ∧ w.publish = .ok ())) := by
  have haudit : (tr.reissue held a w).auditable = .ok () ↔
      tr.policy.version ≠ "" ∧ w.later.isZero = false := auditable_approved rfl
  unfold release
  cases hd : (tr.reissue held a w).auditable with
  | error why =>
    right
    refine ⟨⟨_, rfl⟩, rfl, ?_⟩
    rintro ⟨hversion, hlater, -⟩
    rw [haudit.mpr ⟨hversion, hlater⟩] at hd
    cases hd
  | ok _ =>
    obtain ⟨hversion, hlater⟩ := haudit.mp hd
    unfold publish
    cases hp : w.publish with
    | error err => exact .inr ⟨⟨_, rfl⟩, rfl, fun h => by cases h.2.2⟩
    | ok _ => exact .inl ⟨rfl, hversion, hlater, rfl, rfl⟩

theorem approveHandler_holds (tr : Transport) (a : Approval) (w : Weather) (s : Desk) :
    (tr.approveHandler a w s).1.holds = (s.holds.take a.signalRef).2 := by
  cases h : s.holds.holds a.signalRef with
  | none =>
    rw [approveHandler_of_unheld h, PendingHolds.take, ← h, Function.update_eq_self]
  | some held =>
    rw [approveHandler_of_held h]
    rcases release_cases tr held a w { s with holds := (s.holds.take a.signalRef).2 } with
      ⟨-, -, -, -, he⟩ | ⟨-, he, -⟩ <;> rw [he]

/-- An approval makes no hold, and where it publishes a decision its fingerprint was held. -/
theorem approveHandler_cases (tr : Transport) (a : Approval) (w : Weather) (s : Desk) :
    (∀ f, (tr.approveHandler a w s).1.holds.holds f ≠ none → s.holds.holds f ≠ none) ∧
      ((tr.approveHandler a w s).1.decisions ≠ s.decisions → s.holds.holds a.signalRef ≠ none) := by
  constructor
  · intro f hne
    rw [approveHandler_holds] at hne
    by_cases hf : f = a.signalRef
    · rw [hf, PendingHolds.holds_take_self] at hne
      exact absurd rfl hne
    · rwa [PendingHolds.holds_take_of_ne hf] at hne
  · intro hne hnone
    rw [approveHandler_of_unheld hnone] at hne
    exact hne rfl

/-- A failed approval leaves its hold pending exactly if there was no hold, or nothing to
fail: the policy has a version, the clock is set and the decision is published. -/
theorem approveHandler_keeps_hold_iff (tr : Transport) (a : Approval) (w : Weather) (s : Desk) :
    (∀ err, (tr.approveHandler a w s).2 = .error err →
      ∃ held, s.holds.holds a.signalRef = some held ∧
        (tr.approveHandler a w s).1.holds.holds a.signalRef = some held) ↔
      s.holds.holds a.signalRef = none ∨
        (tr.policy.version ≠ "" ∧ w.later.isZero = false ∧ w.publish = .ok ()) := by
  cases h : s.holds.holds a.signalRef with
  | none => simp [approveHandler_of_unheld h]
  | some held =>
    rw [approveHandler_of_held h]
    rcases release_cases tr held a w { s with holds := (s.holds.take a.signalRef).2 } with
      ⟨hok, hversion, hlater, hpub, -⟩ | ⟨⟨err, herr⟩, hsame, hno⟩
    · simp [hok, hversion, hlater, hpub]
    · constructor
      · intro hkeep
        -- The hold was taken, so it cannot be pending.
        obtain ⟨held', -, hpending⟩ := hkeep err herr
        rw [hsame, PendingHolds.holds_take_self] at hpending
        cases hpending
      · rintro (hnone | hyes)
        · cases hnone
        · exact absurd hyes hno

end

/-- A decision on `checkout` that awaits a human. -/
def checkoutHold : Governed where
  decision :=
    { id := "dec:checkout:0", signalRef := "checkout", verdict := .hold, reasons := ["risk_ceiling"]
      requestedBand := .actDisruptive, policyVersion := "v1" }

def holdingDesk : Desk where
  holds := PendingHolds.record {} checkoutHold

/-- The publisher fails under the approval, and the broker delivers the approval again. -/
theorem lostApproval_drops_hold :
    let tr : Transport := { policy := { version := "v1" } }
    let a : Approval := { signalRef := "checkout", approver := "operator" }
    let first := tr.approveHandler a { publish := .error "broker down", later := 0 } holdingDesk
    let second := tr.approveHandler a { later := 0 } first.1
    (∃ err, first.2 = .error err) ∧ holdingDesk.holds.holds "checkout" = some checkoutHold ∧
      first.1.holds.holds "checkout" = none ∧ second.2 = .ok () ∧ second.1.decisions = [] := by
  exact ⟨⟨_, rfl⟩, by decide, by decide, rfl, by decide⟩

end Transport

end Beats.Hiss
