import Mathlib.Algebra.Order.Ring.Rat
import Mathlib.Data.Finset.Card
import Mathlib.Tactic.Linarith
import Beats.Clank.Gate

/-!
# The laws of the confidence

`scoreConfidences` of `internal/clank`, on the set that it writes to.  The snapshot that the set
carries says which evidence is coherent, and the one that is passed along how confident the signal
is.  The engine passes the snapshot of the set itself (`scoreSet_eq`).

The number is a product with a bonus on top.  What evidence adds to it goes through the set of
backends that a candidate's citations reach (`backends`), and what the changes add through their
strongest likelihood.  The laws (`confidence_laws`) come from `groundingWeight_mono` and
`bonus_mono`.
-/

namespace Beats.Clank

open Proposal List

/-! ## Scoring a set -/

/-- `Prior`: the alignment of a fingerprint, where a case base is wired. -/
abbrev Prior := Option (String → Rat × Bool)

/-- What the prior says of a signal. -/
def Prior.reading (prior : Prior) (fingerprint : String) : Rat × Bool :=
  match prior with
  | none => (0, false)
  | some alignment => alignment fingerprint

/-- A candidate as it is scored in its set. -/
def gradeIn (set : Proposal.Set) (sao : SAO) (prior : Prior) (fingerprint : String)
    (w : ScoringWeights) : Candidate → Candidate :=
  gradeCandidate set.evidence set.saoSnapshot sao.signal.confidence (maxLikelihood set.causalScores)
    (prior.reading fingerprint) w

/-- `scoreConfidences`. -/
def scoreSet (set : Proposal.Set) (sao : SAO) (prior : Prior) (fingerprint : String)
    (w : ScoringWeights) : Proposal.Set :=
  { set with proposals := set.proposals.map (gradeIn set sao prior fingerprint w) }

/-- On a set that carries the snapshot it is scored by, the candidates are those of the engine. -/
theorem scoreSet_eq {set : Set} {sao : SAO} (h : set.saoSnapshot = some sao)
    (prior : Prior) (fingerprint : String) (w : ScoringWeights) :
    (scoreSet set sao prior fingerprint w).proposals =
      scoreConfidences set.proposals set.evidence sao set.causalScores
        (prior.reading fingerprint) w := by
  unfold scoreSet gradeIn scoreConfidences
  rw [h]
  rfl

/-! ## The backends of a candidate -/

def backends (cand : Candidate) (evidence : List EvidenceRef) (snapshot : Option SAO) :
    Finset String :=
  ((evidence.filter fun ref =>
    cand.citations.contains ref.key && ref.live && coherentSubject ref snapshot).map
      EvidenceRef.tool).toFinset

section

variable {cand cand' : Candidate} {evidence evidence' : List EvidenceRef} {snapshot : Option SAO}

theorem coherentLiveCitations_eq :
    coherentLiveCitations cand evidence snapshot = (backends cand evidence snapshot).card :=
  (card_toFinset _).symm

theorem mem_backends {tool : String} : tool ∈ backends cand evidence snapshot ↔
    ∃ ref ∈ evidence, ref.key ∈ cand.citations ∧ ref.live = true ∧
      coherentSubject ref snapshot = true ∧ ref.tool = tool := by
  simp [backends, and_assoc]

theorem backends_mono (hc : cand.citations ⊆ cand'.citations) (he : evidence ⊆ evidence') :
    backends cand evidence snapshot ⊆ backends cand' evidence' snapshot := by
  intro tool h
  rw [mem_backends] at h ⊢
  obtain ⟨ref, hmem, hcite, hlive, hcoherent, htool⟩ := h
  exact ⟨ref, he hmem, hc hcite, hlive, hcoherent, htool⟩

theorem backends_of_counted (he : evidence ⊆ evidence')
    (hnew : ∀ ref ∈ evidence', ref ∈ evidence ∨ ref.tool ∈ backends cand evidence snapshot) :
    backends cand evidence' snapshot = backends cand evidence snapshot := by
  refine Finset.Subset.antisymm (fun tool h => ?_) (backends_mono (Subset.refl _) he)
  obtain ⟨ref, hmem, hcite, hlive, hcoherent, htool⟩ := mem_backends.mp h
  rcases hnew ref hmem with hold | hcounted
  · exact mem_backends.mpr ⟨ref, hold, hcite, hlive, hcoherent, htool⟩
  · rwa [htool] at hcounted

end

/-! ## The strongest likelihood -/

/-- One score more, in the loop over the scores. -/
def stronger (acc : Rat × Bool) (cs : CausalScore) : Rat × Bool :=
  if cs.inTopology then (max acc.1 cs.likelihood, true) else acc

theorem foldl_stronger_le_iff {b : Rat} (scores : List CausalScore) (acc : Rat × Bool) :
    (scores.foldl stronger acc).1 ≤ b ↔
      acc.1 ≤ b ∧ ∀ cs ∈ scores, cs.inTopology = true → cs.likelihood ≤ b := by
  induction scores generalizing acc with
  | nil => simp
  | cons cs scores ih =>
    rw [foldl_cons, ih, forall_mem_cons]
    cases h : cs.inTopology with
    | false => simp [stronger, h]
    | true => simp [stronger, h, and_assoc]

theorem foldl_stronger_snd (scores : List CausalScore) (acc : Rat × Bool) :
    (scores.foldl stronger acc).2 = (acc.2 || scores.any CausalScore.inTopology) := by
  induction scores generalizing acc with
  | nil => simp
  | cons cs scores ih =>
    rw [foldl_cons, ih, any_cons]
    cases h : cs.inTopology with
    | false | true => simp [stronger, h]

section

variable {scores scores' : List CausalScore}

/-- The strongest likelihood is the least bound of the likelihoods in the topology, and no less
than zero. -/
theorem maxLikelihood_le_iff {b : Rat} : (maxLikelihood scores).1 ≤ b ↔
    0 ≤ b ∧ ∀ cs ∈ scores, cs.inTopology = true → cs.likelihood ≤ b :=
  foldl_stronger_le_iff scores (0, false)

theorem maxLikelihood_snd : (maxLikelihood scores).2 = scores.any CausalScore.inTopology :=
  (foldl_stronger_snd scores (0, false)).trans (Bool.false_or _)

theorem maxLikelihood_nonneg : 0 ≤ (maxLikelihood scores).1 := (maxLikelihood_le_iff.mp le_rfl).1

theorem maxLikelihood_mono (h : scores ⊆ scores') :
    (maxLikelihood scores).1 ≤ (maxLikelihood scores').1 ∧
      ((maxLikelihood scores).2 = true → (maxLikelihood scores').2 = true) := by
  obtain ⟨hzero, hbound⟩ := maxLikelihood_le_iff.mp (le_refl (maxLikelihood scores').1)
  refine ⟨maxLikelihood_le_iff.mpr ⟨hzero, fun cs hcs => hbound cs (h hcs)⟩, ?_⟩
  rw [maxLikelihood_snd, maxLikelihood_snd, any_eq_true, any_eq_true]
  rintro ⟨cs, hcs, htop⟩
  exact ⟨cs, h hcs, htop⟩

end

/-! ## The number -/

/-- The weights are shares that grow with the grounding, and the causal one is not negative. -/
structure ScoringWeights.Ordered (w : ScoringWeights) : Prop where
  none : 0 ≤ w.groundingNone
  one : w.groundingNone ≤ w.groundingOne
  many : w.groundingOne ≤ w.groundingMany
  share : w.groundingMany ≤ 1
  causal : 0 ≤ w.causal

def priorFactor (alignment : Rat × Bool) : Rat :=
  if alignment.2 then 1 / 2 + 1 / 2 * alignment.1 else 1

/-- The bonus of the strongest change. -/
def bonus (w : ScoringWeights) (likelihood : Rat × Bool) (x : Rat) : Rat :=
  if likelihood.2 then min 1 (x * (1 + w.causal * likelihood.1)) else x

theorem groundedConfidence_eq (i : ConfidenceInputs) (w : ScoringWeights) :
    groundedConfidence i w = bonus w (i.likelihood, i.likelihoodOK)
      (i.signalConfidence * groundingWeight i.corroborated w
        * priorFactor (i.alignment, i.alignmentOK)) := by
  cases h : i.alignmentOK <;> simp [groundedConfidence, bonus, priorFactor, h]

section

variable {w : ScoringWeights} (hw : w.Ordered)

include hw

theorem groundingWeight_mono {m n : Nat} (h : m ≤ n) :
    groundingWeight m w ≤ groundingWeight n w := by
  obtain ⟨-, hone, hmany, -, -⟩ := hw
  unfold groundingWeight
  split
  · rw [if_pos (by omega)]
  · split
    · split
      · exact hmany
      · rw [if_pos (by omega)]
    · split
      · exact hone.trans hmany
      · split
        · exact hone
        · exact le_rfl

theorem groundingWeight_mem (n : Nat) : 0 ≤ groundingWeight n w ∧ groundingWeight n w ≤ 1 := by
  obtain ⟨hnone, hone, hmany, hshare, -⟩ := hw
  unfold groundingWeight
  split
  · exact ⟨hnone.trans (hone.trans hmany), hshare⟩
  · split
    · exact ⟨hnone.trans hone, hmany.trans hshare⟩
    · exact ⟨hnone, hone.trans (hmany.trans hshare)⟩

omit hw in
theorem priorFactor_mem {alignment : Rat × Bool} (h₀ : 0 ≤ alignment.1) (h₁ : alignment.1 ≤ 1) :
    0 ≤ priorFactor alignment ∧ priorFactor alignment ≤ 1 := by
  unfold priorFactor
  split
  · constructor <;> linarith
  · exact ⟨zero_le_one, le_rfl⟩

theorem le_bonus {likelihood : Rat × Bool} {x : Rat} (hl : 0 ≤ likelihood.1) (h₀ : 0 ≤ x)
    (h₁ : x ≤ 1) : x ≤ bonus w likelihood x := by
  unfold bonus
  split
  · refine le_min h₁ (le_mul_of_one_le_right h₀ ?_)
    have := mul_nonneg hw.causal hl
    linarith
  · exact le_rfl

theorem bonus_mem {likelihood : Rat × Bool} {x : Rat} (hl : 0 ≤ likelihood.1) (h₀ : 0 ≤ x)
    (h₁ : x ≤ 1) : 0 ≤ bonus w likelihood x ∧ bonus w likelihood x ≤ 1 := by
  refine ⟨h₀.trans (le_bonus hw hl h₀ h₁), ?_⟩
  unfold bonus
  split
  · exact min_le_left _ _
  · exact h₁

theorem bonus_mono {l l' : Rat × Bool} {x x' : Rat} (hl : 0 ≤ l.1) (hle : l.1 ≤ l'.1)
    (hok : l.2 = true → l'.2 = true) (h₀ : 0 ≤ x) (hx : x ≤ x') (h₁ : x' ≤ 1) :
    bonus w l x ≤ bonus w l' x' := by
  cases h : l.2 with
  | false =>
    have hnone : bonus w l x = x := by simp [bonus, h]
    rw [hnone]
    exact hx.trans (le_bonus hw (hl.trans hle) (h₀.trans hx) h₁)
  | true =>
    simp only [bonus, h, hok h, if_true]
    have hcausal := mul_le_mul_of_nonneg_left hle hw.causal
    have hpos := mul_nonneg hw.causal hl
    exact min_le_min_left _ (mul_le_mul hx (by linarith) (by linarith) (h₀.trans hx))

end

/-! ## The laws -/

/-- The confidence that is computed for a candidate. -/
def computedIn (set : Proposal.Set) (sao : SAO) (prior : Prior) (fingerprint : String)
    (w : ScoringWeights) (cand : Candidate) : Rat :=
  (gradeIn set sao prior fingerprint w cand).computedConfidence

theorem computedIn_eq (set : Set) (sao : SAO) (prior : Prior) (fingerprint : String)
    (w : ScoringWeights) (cand : Candidate) :
    computedIn set sao prior fingerprint w cand = bonus w (maxLikelihood set.causalScores)
        (sao.signal.confidence * groundingWeight (backends cand set.evidence set.saoSnapshot).card w
          * priorFactor (prior.reading fingerprint)) := by
  rw [← coherentLiveCitations_eq]
  exact groundedConfidence_eq _ w

/-- What is multiplied lies in the unit interval. -/
structure Shares (sao : SAO) (prior : Prior) (fingerprint : String) : Prop where
  signal_nonneg : 0 ≤ sao.signal.confidence
  signal_le_one : sao.signal.confidence ≤ 1
  alignment_nonneg : 0 ≤ (prior.reading fingerprint).1
  alignment_le_one : (prior.reading fingerprint).1 ≤ 1

/-- What the confidence of a set obeys. -/
structure ConfidenceLaws (sao : SAO) (prior : Prior) (fingerprint : String)
    (w : ScoringWeights) : Prop where
  /-- A computed confidence is a share. -/
  bounded : ∀ set, ∀ c ∈ (scoreSet set sao prior fingerprint w).proposals,
    0 ≤ c.computedConfidence ∧ c.computedConfidence ≤ 1
  /-- The confidence is the smaller of what is computed and what was reported, and the flag says
  that the report was the smaller. -/
  capped : ∀ set, List.Forall₂ (fun c c' => c'.confidence = min c'.computedConfidence c.confidence ∧
      (c'.confidenceCeilingBound = true ↔ c.confidence < c'.computedConfidence))
    set.proposals (scoreSet set sao prior fingerprint w).proposals
  /-- More citations and more evidence lower nothing. -/
  gathered : ∀ set set', set'.saoSnapshot = set.saoSnapshot →
    set'.causalScores = set.causalScores → set.evidence ⊆ set'.evidence →
    List.Forall₂ (fun c c' => c.citations ⊆ c'.citations) set.proposals set'.proposals →
    List.Forall₂ (fun c c' => c.computedConfidence ≤ c'.computedConfidence)
      (scoreSet set sao prior fingerprint w).proposals
      (scoreSet set' sao prior fingerprint w).proposals
  /-- Evidence of a backend that is counted for a candidate changes nothing of it. -/
  counted : ∀ set evidence, set.evidence ⊆ evidence → ∀ c ∈ set.proposals,
    (∀ ref ∈ evidence, ref ∈ set.evidence ∨
      ref.tool ∈ backends c set.evidence set.saoSnapshot) →
    computedIn { set with evidence := evidence } sao prior fingerprint w c =
      computedIn set sao prior fingerprint w c
  /-- More scored changes lower nothing. -/
  changed : ∀ set scores, set.causalScores ⊆ scores →
    List.Forall₂ (fun c c' => c.computedConfidence ≤ c'.computedConfidence)
      (scoreSet set sao prior fingerprint w).proposals
      (scoreSet { set with causalScores := scores } sao prior fingerprint w).proposals

section

variable {sao : SAO} {prior : Prior} {fingerprint : String} {w : ScoringWeights}

theorem product_mem (hw : w.Ordered) (h : Shares sao prior fingerprint) (n : Nat) :
    0 ≤ sao.signal.confidence * groundingWeight n w * priorFactor (prior.reading fingerprint) ∧
      sao.signal.confidence * groundingWeight n w *
        priorFactor (prior.reading fingerprint) ≤ 1 := by
  obtain ⟨hg₀, hg₁⟩ := groundingWeight_mem hw n
  obtain ⟨hp₀, hp₁⟩ := priorFactor_mem h.alignment_nonneg h.alignment_le_one
  have hsg₀ := mul_nonneg h.signal_nonneg hg₀
  have hsg₁ := mul_le_one₀ h.signal_le_one hg₀ hg₁
  exact ⟨mul_nonneg hsg₀ hp₀, mul_le_one₀ hsg₁ hp₀ hp₁⟩

theorem product_mono (hw : w.Ordered) (h : Shares sao prior fingerprint) {m n : Nat} (hmn : m ≤ n) :
    sao.signal.confidence * groundingWeight m w * priorFactor (prior.reading fingerprint) ≤
      sao.signal.confidence * groundingWeight n w * priorFactor (prior.reading fingerprint) := by
  obtain ⟨hp₀, -⟩ := priorFactor_mem h.alignment_nonneg h.alignment_le_one
  exact mul_le_mul_of_nonneg_right
    (mul_le_mul_of_nonneg_left (groundingWeight_mono hw hmn) h.signal_nonneg) hp₀

theorem computedIn_mono (hw : w.Ordered) (h : Shares sao prior fingerprint)
    {set set' : Set} {c c' : Candidate}
    (hb : backends c set.evidence set.saoSnapshot ⊆ backends c' set'.evidence set'.saoSnapshot)
    (hs : set.causalScores ⊆ set'.causalScores) :
    computedIn set sao prior fingerprint w c ≤ computedIn set' sao prior fingerprint w c' := by
  obtain ⟨hle, hok⟩ := maxLikelihood_mono hs
  rw [computedIn_eq, computedIn_eq]
  exact bonus_mono hw maxLikelihood_nonneg hle hok (product_mem hw h _).1
    (product_mono hw h (Finset.card_le_card hb)) (product_mem hw h _).2

end

/-- The laws hold for all weights that are in order and readings that are shares. -/
theorem confidence_laws (sao : SAO) (prior : Prior) (fingerprint : String) (w : ScoringWeights)
    (hw : w.Ordered) (h : Shares sao prior fingerprint) :
    ConfidenceLaws sao prior fingerprint w where
  bounded set c hc := by
    obtain ⟨c₀, -, rfl⟩ := mem_map.mp hc
    change 0 ≤ computedIn set sao prior fingerprint w c₀ ∧
      computedIn set sao prior fingerprint w c₀ ≤ 1
    obtain ⟨h₀, h₁⟩ := product_mem hw h (backends c₀ set.evidence set.saoSnapshot).card
    rw [computedIn_eq]
    exact bonus_mem hw maxLikelihood_nonneg h₀ h₁
  capped set := by
    refine forall₂_map_right_iff.mpr (forall₂_same.mpr fun c _ => ⟨rfl, ?_⟩)
    exact decide_eq_true_iff
  gathered set set' hsao hscores hevidence hcites := by
    refine forall₂_map_left_iff.mpr (forall₂_map_right_iff.mpr ?_)
    refine hcites.imp fun c c' hc => ?_
    refine computedIn_mono hw h ?_ (hscores ▸ List.Subset.refl _)
    rw [hsao]
    exact backends_mono hc hevidence
  counted set evidence hevidence c _ hnew := by
    rw [computedIn_eq, computedIn_eq, backends_of_counted hevidence hnew]
  changed set scores hscores := by
    refine forall₂_map_left_iff.mpr (forall₂_map_right_iff.mpr ?_)
    exact forall₂_same.mpr fun c _ => computedIn_mono hw h (Finset.Subset.refl _) hscores

def shippedWeights : ScoringWeights where
  groundingNone := 3 / 10
  groundingOne := 7 / 10
  groundingMany := 1
  causal := 1 / 2

theorem shippedWeights_laws :
    ConfidenceLaws { signal := { confidence := 8 / 10 } } (some fun _ => (2 / 3, true)) "checkout"
      shippedWeights :=
  confidence_laws _ _ _ _
    ⟨by decide +kernel, by decide +kernel, by decide +kernel, by decide +kernel, by decide +kernel⟩
    ⟨by decide +kernel, by decide +kernel, by decide +kernel, by decide +kernel⟩

end Beats.Clank
