import Mathlib.Logic.Basic
import Beats.Api.Decision
import Beats.Contract

/-!
# Rendering an order

`Actuator.Render` of `internal/thump`: a governed approval and the catalog give an order,
or a refusal.  The order invents nothing.  Each of its fields comes from the decision, from
the candidate the decision names, or from the contract that candidate names.

`Granted cat g c ct` says that the envelope `g` grants the candidate `c` under the contract
`ct`, and `Actuator.render_ok_iff` that the actuator renders exactly those, as `orderOf`.
-/

namespace Beats.Thump

open Proposal Contract Lib

/-! ## Orders -/

/-- A new action or the undo of one. -/
inductive OrderKind where
  | forward
  | reversal
deriving DecidableEq

/-- How to undo an order: the candidate's path with the contract's terms. -/
structure ReversalPlan where
  reversalPath : ReversalPath := {}
  fallback : String := ""
  restoreOnSuccess : Bool := false
  holdOnMiss : Bool := false
deriving DecidableEq

/-- `thump.Order`: a rendered action that is not yet executed. -/
structure Order where
  id : String := ""
  kind : OrderKind := .forward
  decisionRef : String := ""
  signalRef : String := ""
  sloRef : String := ""
  contractRef : String := ""
  grantedBand : Decision.Band := .other ""
  description : String := ""
  parameters : List (String × Rat) := []
  reversal : ReversalPlan := {}
  success : SuccessCriteria := {}
  renderedAt : Time := Time.zero
  notes : String := ""
deriving DecidableEq

/-! ## Notes -/

def candidateNote (recommended : String) (c : Candidate) : String :=
  (if c.id = recommended then "*" else " ") ++ " #" ++ toString c.rank ++ " "
    ++ Fmt.padRight 30 c.contractRef ++ " confidence=" ++ Fmt.fixed 2 c.confidence
    ++ (if c.confidenceCeilingBound then
          " (ceiling-bound, computed=" ++ Fmt.fixed 2 c.computedConfidence ++ ")" else "")
    ++ (if c.citations = [] then ""
        else " citations=[" ++ String.intercalate ", " c.citations ++ "]")
    ++ "\n"

/-- `renderNotes`: the whole ranked set, for the reader of the order. -/
def renderNotes (ps : Proposal.Set) : String :=
  "Recommended: " ++ ps.recommended ++ "\n"
    ++ (match ps.rankingRationale with
        | none => ""
        | some r => "Ranked by: " ++ r.dominantAxis
            ++ (if r.velocityWeight = "" then "" else " (velocity: " ++ r.velocityWeight ++ ")")
            ++ "\n")
    ++ (if ps.hypotheses = [] then ""
        else "\nHypotheses:\n" ++ String.join (ps.hypotheses.map fun h =>
          "  - " ++ h.name ++ " (weight " ++ Fmt.fixed 2 h.weight ++ ")\n"))
    ++ "\nCandidates:\n" ++ String.join (ps.proposals.map (candidateNote ps.recommended))
    ++ (if ps.evidence = [] then ""
        else "\nEvidence:\n" ++ String.join (ps.evidence.map fun e =>
          "  - [" ++ e.tool ++ "] " ++ e.query ++ ": " ++ e.summary ++ "\n"))

/-! ## Render -/

/-- The refusals of `Actuator.Render`. -/
inductive RenderError where
  | unauditable (why : String)
  | ungoverned (verdict : Decision.Verdict)
  | seamMismatch (decisionID setName : String)
  | outsideCatalog (contractRef : String)
deriving DecidableEq

def RenderError.text : RenderError → String
  | .unauditable why => "thump: decision fails its audit invariant: " ++ why
  | .ungoverned v => "thump: decision is not an approval: verdict " ++ Fmt.quote v.text
  | .seamMismatch d s =>
    "thump: decision and set do not describe each other: decision " ++ d ++ " vs set " ++ s
  | .outsideCatalog ref => "thump: granted contract not in catalog: " ++ Fmt.quote ref

/-- `candidate`: the first candidate of the set with the given ID. -/
def candidate (ps : Proposal.Set) (ref : String) : Option Candidate :=
  ps.proposals.find? fun c => c.id == ref

def orderOf (dec : Decision) (ps : Proposal.Set) (cand : Candidate) (ct : ActionContract)
    (now : Time) : Order where
  id := "ord:" ++ dec.signalRef ++ ":" ++ toString now.unix
  decisionRef := dec.id
  signalRef := dec.signalRef
  sloRef := dec.sloRef
  contractRef := cand.contractRef
  grantedBand := dec.grantedBand
  description := ct.action.description
  success := ct.successCriteria
  renderedAt := now
  notes := renderNotes ps
  parameters := ct.action.scopeParameters.map fun p => (p.1, p.2.default)
  reversal :=
    { reversalPath := cand.reversalPath.getD {}
      fallback := ct.reversal.fallback
      restoreOnSuccess := ct.reversal.restoreOnSuccess
      holdOnMiss := ct.reversal.holdOnMiss }

/-- A decision is checked, and its order written. -/
def Actuator.render (g : Decision.Governed) (cat : StaticCatalog) (now : Time) :
    Except RenderError Order :=
  let dec := g.decision
  let ps := g.set
  match dec.auditable with
  | .error why => .error (.unauditable why)
  | .ok () =>
    if dec.verdict ≠ .approved then .error (.ungoverned dec.verdict)
    else match candidate ps dec.candidateRef with
    | none => .error (.seamMismatch dec.id ps.name)
    | some cand =>
      if dec.proposalRef ≠ ps.name ∨ dec.signalRef ≠ ps.signalRef then
        .error (.seamMismatch dec.id ps.name)
      else match cat.byName cand.contractRef with
      | none => .error (.outsideCatalog cand.contractRef)
      | some ct => .ok (orderOf dec ps cand ct now)

/-- The envelope grants the candidate `c` under the contract `ct`. -/
structure Granted (cat : StaticCatalog) (g : Decision.Governed) (c : Candidate)
    (ct : ActionContract) : Prop where
  auditable : g.decision.auditable = .ok ()
  approved : g.decision.verdict = .approved
  proposalRef : g.decision.proposalRef = g.set.name
  signalRef : g.decision.signalRef = g.set.signalRef
  candidate : candidate g.set g.decision.candidateRef = some c
  contract : cat.byName c.contractRef = some ct

variable {g : Decision.Governed} {cat : StaticCatalog}

theorem Actuator.render_ok_iff {now : Time} {o : Order} : Actuator.render g cat now = .ok o ↔
      ∃ c ct, Granted cat g c ct ∧ o = orderOf g.decision g.set c ct now := by
  constructor
  · intro h
    simp only [Actuator.render] at h
    split at h
    · cases h
    · rename_i haud
      split at h
      · cases h
      · rename_i hv
        split at h
        · cases h
        · rename_i cand hc
          split at h
          · cases h
          · rename_i hrefs
            split at h
            · cases h
            · rename_i ct hct
              rw [not_or, not_not, not_not] at hrefs
              cases h
              exact ⟨cand, ct, ⟨haud, not_not.mp hv, hrefs.1, hrefs.2, hc, hct⟩, rfl⟩
  · rintro ⟨c, ct, hg, rfl⟩
    simp only [Actuator.render, hg.auditable, hg.approved, hg.candidate, hg.proposalRef,
      hg.signalRef, hg.contract, ne_eq, not_true_eq_false, or_self, if_false]

theorem Granted.render {c : Candidate} {ct : ActionContract} (h : Granted cat g c ct) (now : Time) :
    Actuator.render g cat now = .ok (orderOf g.decision g.set c ct now) :=
  Actuator.render_ok_iff.mpr ⟨c, ct, h, rfl⟩

end Beats.Thump
