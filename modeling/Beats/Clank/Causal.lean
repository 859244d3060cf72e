import Mathlib.Tactic.Ring
import Beats.Clank.Confidence

/-!
# The causal scorer

`CausalScorerImpl.Score` of `internal/clank`: for each change event the likelihood that it caused
the signal, with a rationale for the record.  The two decays of the source are floating-point powers
of two, and they are a parameter here.

The likelihood is a weighted sum.  It is capped where the target of the event is not seen degraded,
lowered for every predicted signal that no node shows, and clamped (`causal_laws`).

The line that a predicted signal is absent stands in the rationale for every predicted signal, and
the lines are right exactly where none is shown (`faithful_iff`).
-/

namespace Beats.Clank

open Proposal Lib List

/-! ## The scorer -/

/-- `ScoringWeights`, with what the scorer reads of them. -/
structure CausalWeights extends ScoringWeights where
  temporal : Rat := 0
  topological : Rat := 0
  historical : Rat := 0
  historicalHalfLife : Duration := 0
  recencyHalfLife : Duration := 0
  historicalAloneCap : Rat := 0
  caseBaseBaseline : Rat := 0
  negativeSignalPenalty : Rat := 0

/-- `math.Exp2(-x / halflife)`, of a span and a half-life. -/
abbrev Decay := Duration → Duration → Rat

/-- The nodes of a topology, in the order they are looked at. -/
def nodes (topo : TopologySnapshot) : List NodeState := topo.upstream ++ topo.downstream

def findNode (topo : TopologySnapshot) (name : String) : Option NodeState :=
  (nodes topo).find? fun n => n.name == name

def temporalScore (decay : Decay) (age halflife : Duration) : Rat := decay age halflife

def degraded (node : Option NodeState) : Bool := node.any fun n => n.state == "degraded"

def topologicalScore (node : Option NodeState) : Rat :=
  if degraded node then (node.map NodeState.trafficShare).getD 0 else 0

/-- What is left of a score that has grown stale. -/
def freshnessFactor (decay : Decay) (staleness halflife : Duration) : Rat :=
  if halflife ≤ 0 then 1 else decay staleness halflife

def signalObserved (topo : TopologySnapshot) (signal : String) : Bool :=
  (nodes topo).any fun n => n.state == signal

def clampUnit (x : Rat) : Rat := max 0 (min 1 x)

/-- What the rationale says of a signal that is absent. -/
def absentLine (w : CausalWeights) (signal : String) : String :=
  "defence 3: predicted " ++ (Fmt.quote signal ++ " absent -> "
    ++ Fmt.fixed 2 w.negativeSignalPenalty)

/-- The loop over the predicted signals, with the likelihood and the rationale so far.  The line is
written whether or not the signal is observed. -/
def weighSignals (topo : TopologySnapshot) (w : CausalWeights) :
    List String → Rat → List String → Rat × List String
  | [], likelihood, rationale => (likelihood, rationale)
  | signal :: signals, likelihood, rationale =>
    weighSignals topo w signals
      (if signalObserved topo signal then likelihood else likelihood - w.negativeSignalPenalty)
      (rationale ++ [absentLine w signal])

/-- The historical score before its decay, and whether the case base corroborates it. -/
def baseline (fingerprint : String) (w : CausalWeights) (prior : Prior) : Rat × Bool :=
  if (prior.reading fingerprint).2 then ((prior.reading fingerprint).1, true)
  else (w.caseBaseBaseline, false)

def historicalScore (decay : Decay) (fingerprint : String) (e : ChangeEvent) (w : CausalWeights)
    (prior : Prior) : Rat :=
  (baseline fingerprint w prior).1
    * freshnessFactor decay e.historicalStaleness w.historicalHalfLife

/-- The likelihood before the loop over the predicted signals. -/
def likelihoodBefore (decay : Decay) (fingerprint : String) (e : ChangeEvent)
    (topo : TopologySnapshot) (w : CausalWeights) (prior : Prior) : Rat :=
  let node := findNode topo e.target
  let likelihood := w.temporal * temporalScore decay e.age w.recencyHalfLife
    + w.topological * topologicalScore node
    + w.historical * historicalScore decay fingerprint e w prior
  if degraded node then likelihood else min likelihood w.historicalAloneCap

/-- The rationale before the loop over the predicted signals. -/
def rationaleBefore (decay : Decay) (fingerprint : String) (e : ChangeEvent)
    (topo : TopologySnapshot) (w : CausalWeights) (prior : Prior) : List String :=
  let node := findNode topo e.target
  let historical := historicalScore decay fingerprint e w prior
  let (base, corroborated) := baseline fingerprint w prior
  let priorNote :=
    if corroborated then
      "historical: corroborated case base, observed rate " ++ (Fmt.fixed 2 base ++ ", staleness "
        ++ Fmt.duration e.historicalStaleness ++ " -> " ++ Fmt.fixed 2 historical)
    else
      "historical: case-base prior, staleness " ++ (Fmt.duration e.historicalStaleness ++ " -> "
        ++ Fmt.fixed 2 historical)
  ["temporal: " ++ (Fmt.duration e.age ++ " old -> "
      ++ Fmt.fixed 2 (temporalScore decay e.age w.recencyHalfLife)),
    "topological: in-path=" ++ ((if node.isSome then "true" else "false") ++ " -> "
      ++ Fmt.fixed 2 (topologicalScore node)),
    priorNote]
    ++ (if degraded node then []
        else ["defence 1: uncorroborated -> capped at " ++ Fmt.fixed 2 w.historicalAloneCap])

/-- What the rationale says of a target that is not a neighbour. -/
def outsideLines (e : ChangeEvent) (topo : TopologySnapshot) : List String :=
  if (findNode topo e.target).isSome then []
  else ["target " ++ (Fmt.quote e.target
    ++ " is not in this signal's topology -> scored for audit, excluded from confidence")]

/-- The score of a change, with its rationale. -/
def scoreEvent (decay : Decay) (fingerprint : String) (e : ChangeEvent) (topo : TopologySnapshot)
    (w : CausalWeights) (prior : Prior) : CausalScore :=
  let node := findNode topo e.target
  let (likelihood, rationale) := weighSignals topo w e.predictedSignals
    (likelihoodBefore decay fingerprint e topo w prior)
    (rationaleBefore decay fingerprint e topo w prior)
  { eventID := e.id
    inTopology := node.isSome
    temporal := temporalScore decay e.age w.recencyHalfLife
    topological := topologicalScore node
    historical := historicalScore decay fingerprint e w prior
    liveCorroborated := degraded node
    likelihood := clampUnit likelihood
    rationale := rationale ++ outsideLines e topo }

/-- `CausalScorerImpl.Score`. -/
def score (decay : Decay) (fingerprint : String) (change : ChangeSnapshot)
    (topo : TopologySnapshot) (w : CausalWeights) (prior : Prior) : List CausalScore :=
  change.events.map fun e => scoreEvent decay fingerprint e topo w prior

/-! ## The loop over the predicted signals -/

/-- The predicted signals that the penalty is taken for. -/
def penalised (topo : TopologySnapshot) (signals : List String) : List String :=
  signals.filter fun signal => !signalObserved topo signal

section

variable {topo : TopologySnapshot} {w : CausalWeights}

/-- The loop takes the penalty once for each signal that no node shows. -/
theorem weighSignals_likelihood (signals : List String) (likelihood : Rat)
    (rationale : List String) :
    (weighSignals topo w signals likelihood rationale).1 =
      likelihood - (penalised topo signals).length * w.negativeSignalPenalty := by
  induction signals generalizing likelihood rationale with
  | nil => simp [weighSignals, penalised]
  | cons signal signals ih =>
    rw [weighSignals, ih]
    cases h : signalObserved topo signal with
    | true => simp [penalised, h]
    | false =>
      simp only [penalised, filter_cons, h, Bool.not_false, if_true, length_cons,
        Bool.false_eq_true, if_false]
      push_cast
      ring

theorem weighSignals_rationale (signals : List String) (likelihood : Rat)
    (rationale : List String) :
    (weighSignals topo w signals likelihood rationale).2 =
      rationale ++ signals.map (absentLine w) := by
  induction signals generalizing likelihood rationale with
  | nil => simp [weighSignals]
  | cons signal signals ih => simp [weighSignals, ih]

theorem signalObserved_iff {signal : String} :
    signalObserved topo signal = true ↔ ∃ n ∈ nodes topo, n.state = signal := by
  simp [signalObserved]

theorem penalised_append (signals : List String) (signal : String) :
    penalised topo (signals ++ [signal]) =
      penalised topo signals ++ (if signalObserved topo signal then [] else [signal]) := by
  unfold penalised
  cases h : signalObserved topo signal <;> simp [h]

end

/-! ## The likelihood -/

theorem clampUnit_mem (x : Rat) : 0 ≤ clampUnit x ∧ clampUnit x ≤ 1 :=
  ⟨le_max_left _ _, max_le zero_le_one (min_le_left _ _)⟩

theorem clampUnit_mono {x y : Rat} (h : x ≤ y) : clampUnit x ≤ clampUnit y :=
  max_le_max_left _ (min_le_min_left _ h)

theorem clampUnit_le {x b : Rat} (hb : 0 ≤ b) (h : x ≤ b) : clampUnit x ≤ b :=
  max_le hb ((min_le_right _ _).trans h)

def predicting (e : ChangeEvent) (signal : String) : ChangeEvent :=
  { e with predictedSignals := e.predictedSignals ++ [signal] }

section

variable {decay : Decay} {fingerprint : String} {e : ChangeEvent} {topo : TopologySnapshot}
  {w : CausalWeights} {prior : Prior}

theorem scoreEvent_likelihood : (scoreEvent decay fingerprint e topo w prior).likelihood =
    clampUnit (likelihoodBefore decay fingerprint e topo w prior
      - (penalised topo e.predictedSignals).length * w.negativeSignalPenalty) := by
  rw [← weighSignals_likelihood _ _ (rationaleBefore decay fingerprint e topo w prior)]
  rfl

theorem exists_of_degraded (h : degraded (findNode topo e.target) = true) :
    ∃ n ∈ nodes topo, n.name = e.target ∧ n.state = "degraded" := by
  cases hn : findNode topo e.target with
  | none => simp [degraded, hn] at h
  | some n =>
    refine ⟨n, mem_of_find?_eq_some hn, ?_, ?_⟩
    · simpa using find?_some hn
    · simpa [degraded, hn] using h

theorem likelihoodBefore_le (h : degraded (findNode topo e.target) = false) :
    likelihoodBefore decay fingerprint e topo w prior ≤ w.historicalAloneCap := by
  simp [likelihoodBefore, h]

theorem likelihood_predicting (hpenalty : 0 ≤ w.negativeSignalPenalty) (signal : String) :
    (scoreEvent decay fingerprint (predicting e signal) topo w prior).likelihood ≤
      (scoreEvent decay fingerprint e topo w prior).likelihood := by
  rw [scoreEvent_likelihood, scoreEvent_likelihood]
  refine clampUnit_mono (sub_le_sub_left (mul_le_mul_of_nonneg_right ?_ hpenalty) _)
  rw [predicting, penalised_append, length_append]
  exact_mod_cast Nat.le_add_right _ _

theorem likelihood_predicting_shown {signal : String} (h : signalObserved topo signal = true) :
    (scoreEvent decay fingerprint (predicting e signal) topo w prior).likelihood =
      (scoreEvent decay fingerprint e topo w prior).likelihood := by
  rw [scoreEvent_likelihood, scoreEvent_likelihood, predicting, penalised_append, if_pos h,
    append_nil]
  rfl

end

/-! ## Events somewhere else -/

def inside (topo : TopologySnapshot) (change : ChangeSnapshot) : List ChangeEvent :=
  change.events.filter fun e => (findNode topo e.target).isSome

theorem maxLikelihood_filter (scores : List CausalScore) :
    maxLikelihood (scores.filter CausalScore.inTopology) = maxLikelihood scores := by
  unfold maxLikelihood
  rw [foldl_filter]
  congr 1
  funext acc cs
  cases cs.inTopology <;> rfl

theorem score_filter (decay : Decay) (fingerprint : String) (change : ChangeSnapshot)
    (topo : TopologySnapshot) (w : CausalWeights) (prior : Prior) :
    (score decay fingerprint change topo w prior).filter CausalScore.inTopology =
      (inside topo change).map fun e => scoreEvent decay fingerprint e topo w prior :=
  filter_map

/-! ## The laws -/

/-- The laws of the likelihood, and that an event somewhere else has no part in a confidence. -/
structure CausalLaws (decay : Decay) (fingerprint : String) (topo : TopologySnapshot)
    (w : CausalWeights) (prior : Prior) : Prop where
  /-- A likelihood is a share. -/
  bounded : ∀ e, 0 ≤ (scoreEvent decay fingerprint e topo w prior).likelihood ∧
    (scoreEvent decay fingerprint e topo w prior).likelihood ≤ 1
  /-- Without a degraded target the likelihood is capped. -/
  capped : ∀ e, (¬ ∃ n ∈ nodes topo, n.name = e.target ∧ n.state = "degraded") →
    (scoreEvent decay fingerprint e topo w prior).likelihood ≤ w.historicalAloneCap
  /-- A predicted signal that no node shows raises nothing. -/
  absent : ∀ e signal, (∀ n ∈ nodes topo, n.state ≠ signal) →
    (scoreEvent decay fingerprint (predicting e signal) topo w prior).likelihood ≤
      (scoreEvent decay fingerprint e topo w prior).likelihood
  /-- A predicted signal that some node shows changes nothing. -/
  shown : ∀ e signal, (∃ n ∈ nodes topo, n.state = signal) →
    (scoreEvent decay fingerprint (predicting e signal) topo w prior).likelihood =
      (scoreEvent decay fingerprint e topo w prior).likelihood
  /-- Changes that agree on the events inside the topology give the same candidates. -/
  excluded : ∀ (set : Proposal.Set) (sao : SAO) (change change' : ChangeSnapshot),
    inside topo change = inside topo change' →
    (scoreSet { set with causalScores := score decay fingerprint change topo w prior } sao prior
      fingerprint w.toScoringWeights).proposals =
    (scoreSet { set with causalScores := score decay fingerprint change' topo w prior } sao prior
      fingerprint w.toScoringWeights).proposals

/-- The laws hold for every cap and penalty that is not negative. -/
theorem causal_laws (decay : Decay) (fingerprint : String) (topo : TopologySnapshot)
    (w : CausalWeights) (prior : Prior) (hcap : 0 ≤ w.historicalAloneCap)
    (hpenalty : 0 ≤ w.negativeSignalPenalty) : CausalLaws decay fingerprint topo w prior where
  bounded e := by
    exact clampUnit_mem _
  capped e hnone := by
    have hnot : degraded (findNode topo e.target) = false :=
      Bool.eq_false_iff.mpr fun h => hnone (exists_of_degraded h)
    rw [scoreEvent_likelihood]
    refine clampUnit_le hcap (le_trans (sub_le_self _ ?_) (likelihoodBefore_le hnot))
    exact mul_nonneg (Nat.cast_nonneg _) hpenalty
  absent e signal _ := likelihood_predicting hpenalty signal
  shown e signal h := likelihood_predicting_shown (signalObserved_iff.mpr h)
  excluded set sao change change' h := by
    have hsame : maxLikelihood (score decay fingerprint change topo w prior) =
        maxLikelihood (score decay fingerprint change' topo w prior) := by
      rw [← maxLikelihood_filter, ← maxLikelihood_filter (score _ _ change' _ _ _), score_filter,
        score_filter, h]
    simp only [scoreSet, gradeIn, hsame]

/-- The shipped weights, with those of the scorer. -/
def shippedCausalWeights : CausalWeights where
  toScoringWeights := shippedWeights
  temporal := 1 / 3
  topological := 1 / 3
  historical := 1 / 3
  historicalHalfLife := 2592000000000000
  recencyHalfLife := 1800000000000
  historicalAloneCap := 1 / 2
  caseBaseBaseline := 9 / 10
  negativeSignalPenalty := 1 / 5

def degradedUpstream : TopologySnapshot where
  upstream := [{ name := "payment-gateway", state := "degraded", trafficShare := 4 / 5 }]

theorem shippedCausalWeights_laws :
    CausalLaws (fun _ _ => 1 / 2) "checkout" degradedUpstream shippedCausalWeights none :=
  causal_laws _ _ _ _ _ (by decide +kernel) (by decide +kernel)

/-! ## The rationale -/

/-- The line states that a signal is absent. -/
def statesAbsence (line : String) : Bool := Fmt.leads "defence 3: predicted " line

/-- The rationale states the absence of exactly the predicted signals that the penalty is taken
for, one line for each and in their order. -/
def Faithful (e : ChangeEvent) (topo : TopologySnapshot) (w : CausalWeights) (s : CausalScore) :
    Prop :=
  s.rationale.filter statesAbsence = (penalised topo e.predictedSignals).map (absentLine w)

section

variable {decay : Decay} {fingerprint : String} {e : ChangeEvent} {topo : TopologySnapshot}
  {w : CausalWeights} {prior : Prior}

theorem statesAbsence_absentLine (signal : String) : statesAbsence (absentLine w signal) = true :=
  Fmt.leads_append _ _

theorem not_statesAbsence {head : String} (h₁ : Fmt.leads "defence 3: predicted " head = false)
    (h₂ : Fmt.leads head "defence 3: predicted " = false) (rest : String) :
    ¬ statesAbsence (head ++ rest) = true := by
  intro h
  rcases Fmt.leads_or_leads h with h | h
  · exact Bool.false_ne_true (h₁.symm.trans h)
  · exact Bool.false_ne_true (h₂.symm.trans h)

theorem filter_rationaleBefore :
    (rationaleBefore decay fingerprint e topo w prior).filter statesAbsence = [] := by
  rw [filter_eq_nil_iff]
  simp only [rationaleBefore, forall_mem_append, forall_mem_cons, not_mem_nil,
    false_implies, implies_true, and_true]
  refine ⟨⟨not_statesAbsence rfl rfl _, not_statesAbsence rfl rfl _, ?_⟩, ?_⟩
  · cases (baseline fingerprint w prior).2
    · exact not_statesAbsence rfl rfl _
    · exact not_statesAbsence rfl rfl _
  · cases degraded (findNode topo e.target) with
    | true => simp
    | false =>
      rw [if_neg Bool.false_ne_true, forall_mem_singleton]
      exact not_statesAbsence rfl rfl _

theorem filter_outsideLines : (outsideLines e topo).filter statesAbsence = [] := by
  unfold outsideLines
  split
  · rfl
  · rw [filter_eq_nil_iff, forall_mem_singleton]
    exact not_statesAbsence rfl rfl _

theorem filter_rationale :
    (scoreEvent decay fingerprint e topo w prior).rationale.filter statesAbsence =
      e.predictedSignals.map (absentLine w) := by
  have hloop : (e.predictedSignals.map (absentLine w)).filter statesAbsence =
      e.predictedSignals.map (absentLine w) := by
    rw [filter_eq_self, forall_mem_map]
    exact fun signal _ => statesAbsence_absentLine signal
  simp only [scoreEvent, weighSignals_rationale, filter_append, filter_rationaleBefore,
    filter_outsideLines, hloop, nil_append, append_nil]

end

/-- The rationale of an event is faithful exactly if no node shows a signal that it predicts. -/
theorem faithful_iff (decay : Decay) (fingerprint : String) (e : ChangeEvent)
    (topo : TopologySnapshot) (w : CausalWeights) (prior : Prior) :
    Faithful e topo w (scoreEvent decay fingerprint e topo w prior) ↔
      ∀ signal ∈ e.predictedSignals, ∀ n ∈ nodes topo, n.state ≠ signal := by
  have hnone (signal : String) : (!signalObserved topo signal) = true ↔
      ∀ n ∈ nodes topo, n.state ≠ signal := by
    simp [signalObserved]
  unfold Faithful
  rw [filter_rationale]
  constructor
  · -- A signal that is shown has a line and no penalty, so there are more lines.
    intro h
    have hlength := congrArg List.length h
    rw [length_map, length_map] at hlength
    intro signal hmem
    exact (hnone signal).mp (length_filter_eq_length_iff.mp hlength.symm signal hmem)
  · intro h
    rw [penalised, filter_eq_self.mpr fun signal hmem => (hnone signal).mpr (h signal hmem)]

/-- A deploy of a degraded node that predicts the degradation.  The signal is shown and nothing is
taken for it, and the rationale states it absent. -/
theorem shown_stated_absent :
    let e : ChangeEvent := { id := "deploy", target := "payment-gateway"
                             predictedSignals := ["degraded"] }
    let s := scoreEvent (fun _ _ => 1 / 2) "checkout" e degradedUpstream shippedCausalWeights none
    penalised degradedUpstream e.predictedSignals = [] ∧
    "defence 3: predicted \"degraded\" absent -> 0.20" ∈ s.rationale ∧
    ¬ Faithful e degradedUpstream shippedCausalWeights s := by
  refine ⟨by decide, by decide +kernel, fun h => ?_⟩
  rw [Faithful, filter_rationale] at h
  exact cons_ne_nil _ _ h

end Beats.Clank
