import Mathlib.Algebra.Order.Ring.Unbundled.Rat
import Mathlib.Data.List.Dedup
import Mathlib.Data.List.Sort
import Beats.Api.Proposal

/-!
# Confidence, rank and gate

The three steps that the engine takes on a formed set before it decides what becomes of it.
`scoreConfidences` grades every candidate on its own citations, `Ranker.rank` orders them,
and `ReadinessGate.evaluate` says whether the set is worth emitting.

None of the three invents a candidate or touches what a candidate is: its ID, its contract,
its citations and what was stamped from the catalog.  `Same` is that relation, and the
candidates after scoring and ranking are the candidates before, up to their order
(`rank_same`, `scoreConfidences_same`).
-/

namespace Beats.Clank

open Proposal List

/-! ## Evidence -/

def inTopology (subject : String) : Option SAO → Bool
  | none => false
  | some sao => (sao.topology.upstream ++ sao.topology.downstream).any fun n => n.name == subject

/-- `coherentSubject`: the snapshot confirms what the evidence is about. -/
def coherentSubject (ref : EvidenceRef) : Option SAO → Bool
  | none => false
  | some sao =>
    ref.subject != "" &&
      (ref.subject == sao.signal.originService || inTopology ref.subject (some sao))

/-- Some evidence is live and about the incident. -/
def anyCoherentLive (refs : List EvidenceRef) (sao : Option SAO) : Bool :=
  refs.any fun ref => ref.live && coherentSubject ref sao

/-! ## Confidence -/

/-- `ScoringWeights`, as far as the confidence reads them.  The rest is the causal
scorer's. -/
structure ScoringWeights where
  groundingNone : Rat := 0
  groundingOne : Rat := 0
  groundingMany : Rat := 0
  causal : Rat := 0

structure ConfidenceInputs where
  signalConfidence : Rat
  corroborated : Nat
  alignment : Rat
  alignmentOK : Bool
  likelihood : Rat
  likelihoodOK : Bool

/-- `coherentLiveCitations`: the distinct backends behind a candidate's citations. -/
def coherentLiveCitations (cand : Candidate) (evidence : List EvidenceRef) (sao : Option SAO) :
    Nat :=
  ((evidence.filter fun ref =>
    cand.citations.contains ref.key && ref.live && coherentSubject ref sao).map
      EvidenceRef.tool).dedup.length

/-- What a number of backends is worth. -/
def groundingWeight (corroborated : Nat) (w : ScoringWeights) : Rat :=
  if 2 ≤ corroborated then w.groundingMany
  else if corroborated = 1 then w.groundingOne
  else w.groundingNone

/-- The product of the inputs, and the causal bonus. -/
def groundedConfidence (i : ConfidenceInputs) (w : ScoringWeights) : Rat :=
  let computed := i.signalConfidence * groundingWeight i.corroborated w
  let computed := if i.alignmentOK then computed * (1 / 2 + 1 / 2 * i.alignment) else computed
  if i.likelihoodOK then min 1 (computed * (1 + w.causal * i.likelihood)) else computed

def maxLikelihood (scores : List CausalScore) : Rat × Bool :=
  scores.foldl
    (fun acc cs => if cs.inTopology then (max acc.1 cs.likelihood, true) else acc) (0, false)

/-- What `scoreConfidences` does to one candidate of a set with the given snapshot. -/
def gradeCandidate (evidence : List EvidenceRef) (snapshot : Option SAO) (signalConfidence : Rat)
    (likelihood alignment : Rat × Bool) (w : ScoringWeights) (cand : Candidate) : Candidate :=
  let i : ConfidenceInputs :=
    { signalConfidence := signalConfidence
      corroborated := coherentLiveCitations cand evidence snapshot
      alignment := alignment.1
      alignmentOK := alignment.2
      likelihood := likelihood.1
      likelihoodOK := likelihood.2 }
  let computed := groundedConfidence i w
  { cand with
    computedConfidence := computed
    confidenceCeilingBound := decide (cand.confidence < computed)
    confidence := min computed cand.confidence
    terms :=
      { signalConfidence := i.signalConfidence
        corroborated := i.corroborated
        grounding := groundingWeight i.corroborated w
        alignmentOK := i.alignmentOK
        likelihoodOK := i.likelihoodOK } }

def scoreCandidate (evidence : List EvidenceRef) (sao : SAO) (likelihood alignment : Rat × Bool) :
    ScoringWeights → Candidate → Candidate :=
  gradeCandidate evidence (some sao) sao.signal.confidence likelihood alignment

/-- `scoreConfidences`, with what the prior answered. -/
def scoreConfidences (cands : List Candidate) (evidence : List EvidenceRef) (sao : SAO)
    (scores : List CausalScore) (alignment : Rat × Bool) (w : ScoringWeights) : List Candidate :=
  cands.map (scoreCandidate evidence sao (maxLikelihood scores) alignment w)

/-! ## Rank -/

/-- The number that a string starts with.  It is a 64-bit integer, and wraps. -/
def leadingNumber : List Char → Int → Int
  | [], n => n
  | c :: cs, n =>
    if c < '0' || '9' < c then n
    else leadingNumber cs ((n * 10 + (c.toNat - 48 : Nat)).bmod (2 ^ 64))

def timeToEffect (c : Candidate) : Int :=
  match c.predictedImpact with
  | none => 0
  | some p => leadingNumber ((p.sloEffects.lookup "time_to_effect").getD "").toList 0

def renumber : Nat → List Candidate → List Candidate
  | _, [] => []
  | n, c :: cs => { c with rank := n } :: renumber (n + 1) cs

/-- `Ranker.Rank`.  The sort is stable. -/
def Ranker.rank (cands : List Candidate) (velocity : String) :
    List Candidate × RankingRationale :=
  if velocity = "accelerating" then
    (renumber 1 (cands.insertionSort fun a b => timeToEffect a ≤ timeToEffect b),
      { dominantAxis := "time_to_effect", velocityWeight := velocity })
  else (renumber 1 cands, {})

/-! ## The gate -/

/-- `recommendedEvidence`.  Without candidates it is all evidence of the set. -/
def recommendedEvidence (ps : Proposal.Set) : List EvidenceRef :=
  if ps.recommended = "" ∧ ps.proposals = [] then ps.evidence
  else match ps.proposals.find? fun c => c.id == ps.recommended with
    | none => []
    | some c => ps.evidence.filter fun ref => c.citations.contains ref.key

/-- The gate's three questions and its answer. -/
def ReadinessGate.evaluate (ps : Proposal.Set) (openDupes : List Proposal.Set) : GateResult :=
  let budgetOK := true
  let dedupeOK := openDupes.isEmpty
  let evidenceOK := anyCoherentLive (recommendedEvidence ps) ps.saoSnapshot
  let passed := budgetOK && dedupeOK && evidenceOK
  { budgetOK, dedupeOK, evidenceOK, passed
    reason :=
      if passed then ""
      else if !evidenceOK then "evidence"
      else if !dedupeOK then "dedupe"
      else if !budgetOK then "budget"
      else "" }

theorem ReadinessGate.dedupe_of_passed {ps : Set} {openDupes : List Set}
    (h : (ReadinessGate.evaluate ps openDupes).passed = true) : openDupes = [] := by
  simp only [ReadinessGate.evaluate, Bool.true_and, Bool.and_eq_true] at h
  exact isEmpty_iff.mp h.1

/-- The evidence grounds the set: it is live, and about the origin or a node of the topology. -/
def Grounding (ps : Proposal.Set) (ref : EvidenceRef) : Prop :=
  ref.live = true ∧ ref.subject ≠ "" ∧ ∃ sao, ps.saoSnapshot = some sao ∧
    (ref.subject = sao.signal.originService ∨
      ∃ n ∈ sao.topology.upstream ++ sao.topology.downstream, n.name = ref.subject)

/-- The recommended candidate cites evidence that counts. -/
def RecommendationGrounded (ps : Proposal.Set) : Prop :=
  ∃ c, ps.candidate? ps.recommended = some c ∧
    ∃ ref ∈ ps.evidence, ref.key ∈ c.citations ∧ Grounding ps ref

/-- The two sets have one snapshot and one recommended candidate, and the evidence that it cites
is the same.  Nothing is said of other candidates and other evidence. -/
structure SameRecommendation (ps ps' : Proposal.Set) : Prop where
  saoSnapshot : ps'.saoSnapshot = ps.saoSnapshot
  recommended : ps'.candidate? ps'.recommended = ps.candidate? ps.recommended
  cited : ∀ c, ps.candidate? ps.recommended = some c → ∀ ref : EvidenceRef,
    ref.key ∈ c.citations → (ref ∈ ps'.evidence ↔ ref ∈ ps.evidence)

section

variable {ps ps' : Set}

theorem grounding_iff {ref : EvidenceRef} :
    (ref.live && coherentSubject ref ps.saoSnapshot) = true ↔ Grounding ps ref := by
  unfold Grounding
  cases hs : ps.saoSnapshot with
  | none => simp [coherentSubject]
  | some sao =>
    simp only [coherentSubject, inTopology, Bool.and_eq_true, Bool.or_eq_true, bne_iff_ne,
      beq_iff_eq, any_eq_true, Option.some.injEq, exists_eq_left']

theorem mem_recommendedEvidence (h : ps.proposals ≠ []) {ref : EvidenceRef} :
    ref ∈ recommendedEvidence ps ↔
      ∃ c, ps.candidate? ps.recommended = some c ∧ ref ∈ ps.evidence ∧ ref.key ∈ c.citations := by
  unfold recommendedEvidence Set.candidate?
  rw [if_neg fun hnone => h hnone.2]
  cases ps.proposals.find? fun c => c.id == ps.recommended with
  | none => simp
  | some c => simp

theorem anyCoherentLive_iff (h : ps.proposals ≠ []) :
    anyCoherentLive (recommendedEvidence ps) ps.saoSnapshot = true ↔
      RecommendationGrounded ps := by
  simp only [anyCoherentLive, any_eq_true, grounding_iff, mem_recommendedEvidence h]
  constructor
  · rintro ⟨ref, ⟨c, hc, hmem, hcite⟩, hg⟩
    exact ⟨c, hc, ref, hmem, hcite, hg⟩
  · rintro ⟨c, hc, ref, hmem, hcite, hg⟩
    exact ⟨ref, ⟨c, hc, hmem, hcite⟩, hg⟩

theorem SameRecommendation.grounded_iff (h : SameRecommendation ps ps') :
    RecommendationGrounded ps' ↔ RecommendationGrounded ps := by
  unfold RecommendationGrounded Grounding
  rw [h.recommended, h.saoSnapshot]
  refine exists_congr fun c => and_congr_right fun hc => exists_congr fun ref => ?_
  constructor
  · rintro ⟨hmem, hcite, hg⟩
    exact ⟨(h.cited c hc ref hcite).mp hmem, hcite, hg⟩
  · rintro ⟨hmem, hcite, hg⟩
    exact ⟨(h.cited c hc ref hcite).mpr hmem, hcite, hg⟩

theorem SameRecommendation.evaluate_eq (h : SameRecommendation ps ps') (hps : ps.proposals ≠ [])
    (hps' : ps'.proposals ≠ []) (openDupes : List Set) :
    ReadinessGate.evaluate ps' openDupes = ReadinessGate.evaluate ps openDupes := by
  have hsame : anyCoherentLive (recommendedEvidence ps') ps'.saoSnapshot =
      anyCoherentLive (recommendedEvidence ps) ps.saoSnapshot := by
    rw [Bool.eq_iff_iff, anyCoherentLive_iff hps, anyCoherentLive_iff hps', h.grounded_iff]
  simp only [ReadinessGate.evaluate, hsame]

end

/-- The gate passes a set with candidates exactly if nothing open answers the signal and the
recommended candidate cites evidence that grounds it.  Other candidates and evidence that it does
not cite have no part in the result. -/
theorem ReadinessGate.passed_iff_grounded (ps : Proposal.Set) (hps : ps.proposals ≠ [])
    (openDupes : List Proposal.Set) :
    ((ReadinessGate.evaluate ps openDupes).passed = true ↔
      openDupes = [] ∧ RecommendationGrounded ps) ∧
    ∀ ps' : Proposal.Set, ps'.proposals ≠ [] → SameRecommendation ps ps' →
      ReadinessGate.evaluate ps' openDupes = ReadinessGate.evaluate ps openDupes := by
  refine ⟨?_, fun ps' hps' h => h.evaluate_eq hps hps' openDupes⟩
  simp only [ReadinessGate.evaluate, Bool.true_and, Bool.and_eq_true, List.isEmpty_iff,
    anyCoherentLive_iff hps]

/-- A set whose recommendation cites a live reading of its origin. -/
def latencySet : Proposal.Set where
  saoSnapshot := some { signal := { originService := "checkout" } }
  evidence := [{ tool := "metrics", key := "latency", live := true, subject := "checkout" }]
  proposals := [{ id := "c1", citations := ["latency"] }]
  recommended := "c1"

theorem latencySet_passes : (ReadinessGate.evaluate latencySet []).passed = true := by
  refine (ReadinessGate.passed_iff_grounded latencySet (cons_ne_nil _ _) []).1.mpr
    ⟨rfl, _, rfl, _, mem_cons_self, mem_cons_self, rfl, by decide, _, rfl, .inl rfl⟩

/-! ## What scoring and ranking keep -/

/-- The two are one candidate, apart from its confidence and its rank. -/
structure Same (a b : Candidate) : Prop where
  id : a.id = b.id
  contractRef : a.contractRef = b.contractRef
  predictedImpact : a.predictedImpact = b.predictedImpact
  blastTier : a.blastTier = b.blastTier
  reversalPath : a.reversalPath = b.reversalPath
  governanceLevel : a.governanceLevel = b.governanceLevel
  citations : a.citations = b.citations

theorem renumber_same : ∀ (n : Nat) (cs : List Candidate), Forall₂ Same (renumber n cs) cs
  | _, [] => .nil
  | n, _ :: cs => .cons ⟨rfl, rfl, rfl, rfl, rfl, rfl, rfl⟩ (renumber_same (n + 1) cs)

theorem rank_same (cands : List Candidate) (velocity : String) :
    ∃ perm, perm.Perm cands ∧ Forall₂ Same (Ranker.rank cands velocity).1 perm := by
  unfold Ranker.rank
  split
  · exact ⟨_, perm_insertionSort _ _, renumber_same 1 _⟩
  · exact ⟨cands, .refl _, renumber_same 1 _⟩

/-- Candidates that all take effect at once keep their order, whatever the velocity is. -/
theorem rank_of_timeToEffect {cands : List Candidate} (h : ∀ c ∈ cands, timeToEffect c = 0)
    (velocity : String) : (Ranker.rank cands velocity).1 = renumber 1 cands := by
  unfold Ranker.rank
  split
  · have hsorted : cands.Pairwise fun a b => timeToEffect a ≤ timeToEffect b :=
      pairwise_of_forall_mem_list fun a ha b hb => by rw [h a ha, h b hb]
    rw [hsorted.insertionSort_eq]
  · rfl

theorem scoreConfidences_same (cands : List Candidate) (evidence : List EvidenceRef) (sao : SAO)
    (scores : List CausalScore) (alignment : Rat × Bool) (w : ScoringWeights) :
    Forall₂ Same (scoreConfidences cands evidence sao scores alignment w) cands := by
  induction cands with
  | nil => exact .nil
  | cons c cs ih => exact .cons ⟨rfl, rfl, rfl, rfl, rfl, rfl, rfl⟩ ih

end Beats.Clank
