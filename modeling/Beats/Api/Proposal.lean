import Beats.Lib.Fmt

/-!
# The vocabulary of the reasoning plane

The boundary objects of `api/v1/signal` and `api/v1/proposal`: the detection the
reasoning plane reads, the snapshot it reasons over and the set it emits.

A string type of the source with named constants is an inductive type with one
constructor per constant.  Anything may arrive on the wire, so each has a constructor
`other` for the strings that are no constant, the empty string among them.  A pointer
is an `Option`, a map is its list of entries, a `float64` is a rational, and a zero
value is a field default.
-/

namespace Beats

/-! ## Time -/

/-- An instant, in nanoseconds since the Unix epoch. -/
abbrev Time := Int

/-- A span of time, in nanoseconds. -/
abbrev Duration := Int

namespace Time

/-- The zero `time.Time`, the first instant of the year 1. -/
def zero : Time := -62135596800000000000

def isZero (t : Time) : Bool := t == zero

/-- `Time.Unix`, in whole seconds. -/
def unix (t : Time) : Int := t / 1000000000

def unixNano (t : Time) : Int := t

/-- `Time.Sub`, which stays in the range of a `time.Duration`. -/
def sub (t u : Time) : Duration := max (-9223372036854775808) (min 9223372036854775807 (t - u))

theorem sub_nonneg {t u : Time} : 0 ≤ sub t u ↔ u ≤ t := by
  have h (t u : Int) :
      0 ≤ max (-9223372036854775808) (min 9223372036854775807 (t - u)) ↔ u ≤ t := by omega
  exact h t u

end Time

/-! ## Detections -/

namespace Signal

/-- A service seen next to the detection. -/
structure ObservedNode where
  name : String := ""
  state : String := ""
deriving DecidableEq

/-- The dependency graph around the detection, as the signal plane saw it. -/
structure TopologyContext where
  upstream : List ObservedNode := []
  downstream : List ObservedNode := []
deriving DecidableEq

/-- How far the metric is off its baseline. -/
structure Divergence where
  metric : String := ""
  observed : Rat := 0
  confidence : Rat := 0
  trajectory : String := ""
deriving DecidableEq

/-- How bad the detection is. -/
structure Severity where
  degradationPct : Rat := 0
  trajectory : String := ""
deriving DecidableEq

/-- How far the detection reaches. -/
structure BlastRadius where
  affectedPct : Rat := 0
  velocity : String := ""
  downstreamConsumers : Int := 0
deriving DecidableEq

/-- The two axes of impact. -/
structure Impact where
  severity : Severity := {}
  blastRadius : BlastRadius := {}
deriving DecidableEq

/-- How much of the traffic is affected. -/
structure TrafficContext where
  affectedPct : Rat := 0
deriving DecidableEq

/-- `signal.Detection`: what the reasoning plane is asked about. -/
structure Detection where
  name : String := ""
  fingerprint : String := ""
  originService : String := ""
  serviceTier : String := ""
  detectorType : String := ""
  divergence : Divergence := {}
  topology : TopologyContext := {}
  traffic : TrafficContext := {}
  impact : Impact := {}
  contractRef : String := ""
  sloRef : String := ""
  detectedAt : Time := Time.zero
deriving DecidableEq

end Signal

namespace Proposal

/-! ## The snapshot -/

/-- One service at the time the snapshot was assembled. -/
structure NodeState where
  name : String := ""
  state : String := ""
  degradedSince : Duration := 0
  trafficShare : Rat := 0
deriving DecidableEq

/-- The dependency graph of the snapshot. -/
structure TopologySnapshot where
  upstream : List NodeState := []
  downstream : List NodeState := []
deriving DecidableEq

/-- One deploy, config, flag or rollback. -/
structure ChangeEvent where
  id : String := ""
  type : String := ""
  target : String := ""
  age : Duration := 0
  predictedSignals : List String := []
  historicalStaleness : Duration := 0
deriving DecidableEq

structure ChangeSnapshot where
  events : List ChangeEvent := []
deriving DecidableEq

/-- The copy of the detection's own readings. -/
structure SignalSnapshot where
  confidence : Rat := 0
  metric : String := ""
  severity : Signal.Severity := {}
  blastRadius : Signal.BlastRadius := {}
  originService : String := ""
deriving DecidableEq

/-- `proposal.SAO`: signal, topology and change, frozen before the loop starts. -/
structure SAO where
  version : Int := 0
  assembledAt : Time := Time.zero
  signal : SignalSnapshot := {}
  topology : TopologySnapshot := {}
  change : ChangeSnapshot := {}
deriving DecidableEq

/-! ## Enumerations -/

/-- The model's leading hypothesis. -/
inductive FailureClass where
  | dependencySaturation
  | trafficShift
  | resourceExhaustion
  | redundancyDegraded
  | serviceFailure
  | unknown
  | other (s : String)
deriving DecidableEq

def FailureClass.text : FailureClass → String
  | .dependencySaturation => "dependency_saturation"
  | .trafficShift => "traffic_shift"
  | .resourceExhaustion => "resource_exhaustion"
  | .redundancyDegraded => "redundancy_degraded"
  | .serviceFailure => "service_failure"
  | .unknown => "unknown"
  | .other s => s

/-- How wide an action reaches. -/
inductive BlastTier where
  | low
  | med
  | high
  | other (s : String)
deriving DecidableEq

def BlastTier.text : BlastTier → String
  | .low => "low"
  | .med => "med"
  | .high => "high"
  | .other s => s

/-- The lifecycle of a set. -/
inductive Phase where
  | proposed
  | acknowledge
  | acted
  | superseded
  | closed
  | noAction
  | budgetExhausted
  | declined
  | other (s : String)
deriving DecidableEq

/-! ## Sets -/

/-- The weights behind a computed confidence. -/
structure ConfidenceTerms where
  signalConfidence : Rat := 0
  corroborated : Nat := 0
  grounding : Rat := 0
  alignmentOK : Bool := false
  likelihoodOK : Bool := false
deriving DecidableEq

/-- What an action is forecast to do. -/
structure PredictedImpact where
  severityReductionPct : Rat := 0
  blastRadiusDelta : Rat := 0
  sloEffects : List (String × String) := []
deriving DecidableEq

/-- How an action is undone. -/
structure ReversalPath where
  method : String := ""
  watching : String := ""
  trigger : String := ""
  automatic : Bool := false
deriving DecidableEq

/-- The band a candidate asks for. -/
structure GovernanceLevel where
  band : String := ""
  thresholdApplied : Rat := 0
deriving DecidableEq

/-- One catalogued action the loop proposed. -/
structure Candidate where
  id : String := ""
  contractRef : String := ""
  confidence : Rat := 0
  computedConfidence : Rat := 0
  confidenceCeilingBound : Bool := false
  terms : ConfidenceTerms := {}
  predictedImpact : Option PredictedImpact := none
  blastTier : BlastTier := .other ""
  reversalPath : Option ReversalPath := none
  governanceLevel : Option GovernanceLevel := none
  rank : Nat := 0
  citations : List String := []
deriving DecidableEq

/-- One explanation, weighted against the others. -/
structure Hypothesis where
  name : String := ""
  weight : Rat := 0
deriving DecidableEq

/-- The digest of one read-only tool call. -/
structure EvidenceRef where
  tool : String := ""
  query : String := ""
  key : String := ""
  summary : String := ""
  ref : String := ""
  live : Bool := false
  subject : String := ""
deriving DecidableEq

/-- The likelihood that one change event is the cause. -/
structure CausalScore where
  eventID : String := ""
  inTopology : Bool := false
  temporal : Rat := 0
  topological : Rat := 0
  historical : Rat := 0
  liveCorroborated : Bool := false
  likelihood : Rat := 0
  rationale : List String := []
deriving DecidableEq

/-- The verdict of the readiness gate. -/
structure GateResult where
  budgetOK : Bool := false
  dedupeOK : Bool := false
  evidenceOK : Bool := false
  passed : Bool := false
  reason : String := ""
deriving DecidableEq

/-- Why the ranker ordered the candidates as it did. -/
structure RankingRationale where
  dominantAxis : String := ""
  velocityWeight : String := ""
deriving DecidableEq

/-- The lifecycle state of a set.  `outcome` is the text of the result that moved it. -/
structure Status where
  phase : Phase := .other ""
  reason : String := ""
  supersededBy : String := ""
  outcome : String := ""
  observedAt : Time := Time.zero
deriving DecidableEq

/-- `proposal.Set`: the audit unit of the reasoning plane. -/
structure Set where
  name : String := ""
  runID : String := ""
  signalRef : String := ""
  sloRef : String := ""
  saoSnapshot : Option SAO := none
  failureClass : FailureClass := .other ""
  causalScores : List CausalScore := []
  hypotheses : List Hypothesis := []
  evidence : List EvidenceRef := []
  serviceTier : String := ""
  gate : Option GateResult := none
  proposals : List Candidate := []
  recommended : String := ""
  rankingRationale : Option RankingRationale := none
  status : Option Status := none
deriving DecidableEq

namespace Set

/-- The first candidate with the given ID. -/
def candidate? (s : Set) (id : String) : Option Candidate :=
  s.proposals.find? fun c => c.id == id

def contractRefFor (s : Set) (candidateID : String) : String :=
  match s.candidate? candidateID with
  | some c => c.contractRef
  | none => ""

def phase? (s : Set) : Option Phase := s.status.map Status.phase

def gatePassed (s : Set) : Bool :=
  match s.gate with
  | some g => g.passed
  | none => false

end Set

end Proposal

end Beats
