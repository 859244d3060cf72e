import Mathlib.Data.List.Perm.Basic
import Beats.Clank.Engine

/-!
# What an emitted set rests on

The candidates of a set that passed both enforcement passes, after the catalog stamped
them and after they were scored and ranked.  Each names a contract that the catalog admits
for the set, each cites evidence of the run, and what the catalog says of a contract is what
the candidate carries (`scored_grounded`).  The model's hand is in the ID, the reference and
the citations only, and scoring and ranking keep the IDs (`scored_ids`).
-/

namespace Beats.Clank

open Proposal Contract List Engine

variable {c : Candidate}

/-! ## Enforcement -/

theorem enforceCatalog_none {e : Engine} {set : Set} {sao : SAO}
    (h : e.enforceCatalog set sao = none) (hc : c ∈ set.proposals) :
    ∃ ct ∈ e.catalog.applicable set.failureClass set.serviceTier sao, ct.name = c.contractRef := by
  have hall := find?_eq_none.mp (Option.map_eq_none_iff.mp h) c hc
  rw [Bool.not_eq_true, Bool.not_eq_false', contains_iff_mem] at hall
  obtain ⟨ct, hct, hname⟩ := mem_map.mp hall
  exact ⟨ct, hct, hname⟩

theorem citationFault_none {gathered : List String} (h : citationFault gathered c = none) :
    c.citations ≠ [] ∧ ∀ cite ∈ c.citations, cite ∈ gathered := by
  unfold citationFault at h
  split at h
  · cases h
  · rename_i hne
    refine ⟨hne, fun cite hcite => ?_⟩
    have hall := find?_eq_none.mp (Option.map_eq_none_iff.mp h) cite hcite
    rwa [Bool.not_eq_true, Bool.not_eq_false', contains_iff_mem] at hall

theorem enforceCitations_none {set : Set} (h : enforceCitations set = none)
    (hc : c ∈ set.proposals) :
    c.citations ≠ [] ∧ ∀ cite ∈ c.citations, ∃ ref ∈ set.evidence, ref.key = cite := by
  have hall := findSome?_eq_none_iff.mp (Option.map_eq_none_iff.mp h) c hc
  obtain ⟨hne, hcites⟩ := citationFault_none hall
  refine ⟨hne, fun cite hcite => ?_⟩
  obtain ⟨ref, href, hkey⟩ := mem_map.mp (mem_filter.mp (hcites cite hcite)).1
  exact ⟨ref, href, hkey⟩

/-! ## Stamps -/

/-- The candidate carries what the contract says, and nothing else. -/
structure Derived (ct : ActionContract) (c : Candidate) : Prop where
  blastTier : c.blastTier = ct.blastTier
  reversalPath : c.reversalPath =
    if ct.reversal.method ≠ "" then
      some { method := ct.reversal.method
             watching := ct.successCriteria.metric
             trigger := ct.successCriteria.target
             automatic := automaticReversal ct.execution.reverse }
    else none
  governanceLevel : c.governanceLevel =
    some { band := if ct.reversal.method ≠ "" then "act_reversible" else "act_disruptive" }
  predictedImpact : c.predictedImpact =
    if ct.successCriteria.severityReductionPct ≠ 0 then
      some { severityReductionPct := ct.successCriteria.severityReductionPct }
    else none

/-- The candidate is as the model authored it. -/
structure Unstamped (c : Candidate) : Prop where
  predictedImpact : c.predictedImpact = none
  reversalPath : c.reversalPath = none

theorem ProposeInput.unstamped {p : ProposeInput} (hc : c ∈ p.candidates) :
    Unstamped c := by
  obtain ⟨pc, -, rfl⟩ := mem_map.mp hc
  exact ⟨rfl, rfl⟩

theorem stamp_derived {ct : ActionContract} (hc : Unstamped c) :
    Derived ct (stamp ct c) := by
  refine ⟨rfl, ?_, rfl, ?_⟩
  · simp only [stamp, hc.reversalPath]
  · simp only [stamp, hc.predictedImpact, Option.getD_none]

theorem Derived.same {ct : ActionContract} {c' : Candidate} (hs : Same c c')
    (hd : Derived ct c') : Derived ct c :=
  ⟨hs.blastTier.trans hd.blastTier, hs.reversalPath.trans hd.reversalPath,
    hs.governanceLevel.trans hd.governanceLevel, hs.predictedImpact.trans hd.predictedImpact⟩

/-! ## Scoring and ranking -/

theorem enrich_id (cat : StaticCatalog) (cand : Candidate) :
    (enrich cat cand).id = cand.id := by
  unfold enrich
  split <;> rfl

theorem enrich_citations (cat : StaticCatalog) (cand : Candidate) :
    (enrich cat cand).citations = cand.citations := by
  unfold enrich
  split <;> rfl

theorem enrich_contractRef (cat : StaticCatalog) (cand : Candidate) :
    (enrich cat cand).contractRef = cand.contractRef := by
  unfold enrich
  split <;> rfl

theorem Same.trans {a b : Candidate} (hab : Same a b) (hbc : Same b c) : Same a c :=
  ⟨hab.id.trans hbc.id, hab.contractRef.trans hbc.contractRef,
    hab.predictedImpact.trans hbc.predictedImpact, hab.blastTier.trans hbc.blastTier,
    hab.reversalPath.trans hbc.reversalPath, hab.governanceLevel.trans hbc.governanceLevel,
    hab.citations.trans hbc.citations⟩

theorem forall₂_same_trans : ∀ {as bs cs : List Candidate}, Forall₂ Same as bs →
    Forall₂ Same bs cs → Forall₂ Same as cs
  | _, _, _, .nil, .nil => .nil
  | _, _, _, .cons hab has, .cons hbc hbs => .cons (hab.trans hbc) (forall₂_same_trans has hbs)

section

variable {e : Engine} {sig : Signal.Detection} {sao : SAO} {scores : List CausalScore}
  {alignment : Rat × Bool} {set : Set}

theorem scored_same (e : Engine) (sig : Signal.Detection) (sao : SAO) (scores : List CausalScore)
    (alignment : Rat × Bool) (set : Set) :
    ∃ perm, perm.Perm (set.proposals.map (enrich e.catalog)) ∧
      Forall₂ Same (e.scored sig sao scores alignment set).proposals perm := by
  have hgraded := scoreConfidences_same (enrichFromCatalog e.catalog set.proposals)
    set.evidence sao scores alignment e.weights
  obtain ⟨perm, hperm, hrank⟩ := rank_same
    (scoreConfidences (enrichFromCatalog e.catalog set.proposals) set.evidence sao scores
      alignment e.weights) sig.impact.blastRadius.velocity
  obtain ⟨perm', hsame, hperm'⟩ := perm_comp_forall₂ hperm hgraded
  exact ⟨perm', hperm', forall₂_same_trans hrank hsame⟩

theorem forall₂_same_ids : ∀ {as bs : List Candidate}, Forall₂ Same as bs →
    as.map Candidate.id = bs.map Candidate.id
  | _, _, .nil => rfl
  | _, _, .cons h hs => by rw [map_cons, map_cons, h.id, forall₂_same_ids hs]

theorem scored_ids : ((e.scored sig sao scores alignment set).proposals.map Candidate.id).Perm
    (set.proposals.map Candidate.id) := by
  obtain ⟨perm, hperm, hsame⟩ := scored_same e sig sao scores alignment set
  rw [forall₂_same_ids hsame]
  refine (hperm.map Candidate.id).trans (Perm.of_eq ?_)
  rw [map_map]
  exact map_congr_left fun c _ => enrich_id e.catalog c

theorem exists_same_of_mem : ∀ {as bs : List Candidate}, Forall₂ Same as bs →
    ∀ c ∈ as, ∃ c' ∈ bs, Same c c'
  | _, _, .nil, c, hc => by cases hc
  | _, _, .cons h hs, c, hc => by
    rcases mem_cons.mp hc with rfl | hc
    · exact ⟨_, mem_cons_self, h⟩
    · obtain ⟨c', hc', hs'⟩ := exists_same_of_mem hs c hc
      exact ⟨c', mem_cons_of_mem _ hc', hs'⟩

theorem mem_scored {c : Candidate} (hc : c ∈ (e.scored sig sao scores alignment set).proposals) :
    ∃ c₀ ∈ set.proposals, Same c (enrich e.catalog c₀) := by
  obtain ⟨perm, hperm, hsame⟩ := scored_same e sig sao scores alignment set
  obtain ⟨c', hc', hs⟩ := exists_same_of_mem hsame c hc
  obtain ⟨c₀, hc₀, rfl⟩ := mem_map.mp (hperm.mem_iff.mp hc')
  exact ⟨c₀, hc₀, hs⟩

/-! ## Grounded candidates -/

/-- The candidate names a contract that the catalog admits, carries what the contract says
and cites evidence that was gathered. -/
structure GroundedCandidate (cat : StaticCatalog) (cls : FailureClass) (tier : String)
    (sao : SAO) (gathered : List EvidenceRef) (c : Candidate) : Prop where
  contract : ∃ ct ∈ cat.applicable cls tier sao, ct.name = c.contractRef ∧ Derived ct c
  cites : c.citations ≠ []
  citations : ∀ cite ∈ c.citations, ∃ ref ∈ gathered, ref.key = cite

theorem scored_derived (hu : ∀ c ∈ set.proposals, Unstamped c)
    (hcat : e.enforceCatalog set sao = none) {c : Candidate}
    (hc : c ∈ (e.scored sig sao scores alignment set).proposals) :
    ∃ ct, e.catalog.byName c.contractRef = some ct ∧ Derived ct c := by
  obtain ⟨c₀, hc₀, hs⟩ := mem_scored hc
  obtain ⟨ct', hct', hname⟩ := enforceCatalog_none hcat hc₀
  -- The catalog has a contract of that name, so it has a first one.
  obtain ⟨ct, hby⟩ : ∃ ct, e.catalog.byName c₀.contractRef = some ct := by
    refine Option.isSome_iff_exists.mp (find?_isSome.mpr ⟨ct', ?_, ?_⟩)
    · exact StaticCatalog.mem_of_mem_applicable hct'
    · rw [hname]
      exact beq_self_eq_true _
  have hen : enrich e.catalog c₀ = stamp ct c₀ := by
    unfold enrich
    rw [hby]
  refine ⟨ct, ?_, Derived.same hs (hen ▸ stamp_derived (hu c₀ hc₀))⟩
  rw [hs.contractRef, enrich_contractRef, hby]

/-- The candidates of a set that both passes let through are grounded once they are scored,
where the names of the catalog are distinct. -/
theorem scored_grounded (hd : e.catalog.DistinctNames) (hu : ∀ c ∈ set.proposals, Unstamped c)
    (hcat : e.enforceCatalog set sao = none) (hcite : enforceCitations set = none)
    {c : Candidate} (hc : c ∈ (e.scored sig sao scores alignment set).proposals) :
    GroundedCandidate e.catalog set.failureClass set.serviceTier sao set.evidence c := by
  obtain ⟨ct, hby, hderived⟩ := scored_derived hu hcat hc
  obtain ⟨c₀, hc₀, hs⟩ := mem_scored hc
  obtain ⟨ct', hct', hname⟩ := enforceCatalog_none hcat hc₀
  obtain ⟨hne, hcites⟩ := enforceCitations_none hcite hc₀
  have href : ct'.name = c.contractRef := by rw [hs.contractRef, enrich_contractRef, hname]
  have hby' := StaticCatalog.byName_of_mem hd (StaticCatalog.mem_of_mem_applicable hct')
  rw [href, hby] at hby'
  cases hby'
  refine ⟨⟨ct, hct', href, hderived⟩, ?_, ?_⟩
  · rw [hs.citations, enrich_citations]
    exact hne
  · rw [hs.citations, enrich_citations]
    exact hcites

end

end Beats.Clank
