import Beats.Clank.Gate
import Beats.Hiss.Authority

/-!
# The vetoes of the governor

What `Authority.Evaluate` says, in terms of the vetoes that stand against a candidate.  A policy
asks its vetoes in a fixed order, the floors, the ceiling, the undo and then every freeze window
(`Veto.all`).  The decision is determined by those that fail (`evaluate_characterised`).

Two policies are then compared veto by veto.  One that is tighter lets no more sets through
(`evaluate_antitone`).  The split gate lets through all that the collapsed one does, and it differs
only for a candidate that the engine can undo itself (`evaluate_split`).
-/

namespace Beats.Hiss

open Proposal Decision Clank List

/-! ## Vetoes -/

/-- A reason not to let a candidate through. -/
inductive Veto where
  | groundingFloor
  | confidenceFloor
  | authorityCeiling
  | irreversible
  | freezeWindow (w : Window)
deriving DecidableEq

namespace Veto

/-- The reason that the decision gives. -/
def reason : Veto → String
  | .groundingFloor => "grounding_floor"
  | .confidenceFloor => "confidence_floor"
  | .authorityCeiling => "authority_ceiling"
  | .irreversible => "irreversible"
  | .freezeWindow w => "freeze_window" ++ ":" ++ w.name

/-- The veto stands against the candidate of the set.  The split gate asks for the grounding too,
and for the self-report only where that binds. -/
def Fails (ps : Proposal.Set) (pol : Policy) (now : Time) (rec : Candidate) : Veto → Prop
  | .groundingFloor => pol.confidenceGate = "split" ∧
      effectiveComputedConfidence rec < pol.floor ps.serviceTier ps.failureClass
  | .confidenceFloor => (pol.confidenceGate = "split" → selfReportBinds rec = true) ∧
      rec.confidence < pol.floor ps.serviceTier ps.failureClass
  | .authorityCeiling => bandRank (pol.maxBandOf ps.serviceTier) < bandRank (requestedBand rec)
  | .irreversible => pol.requireReversal = true ∧ rec.reversalPath = none
  | .freezeWindow w => w.start ≤ now ∧ now < w.stop

instance (ps : Proposal.Set) (pol : Policy) (now : Time) (rec : Candidate) :
    DecidablePred (Fails ps pol now rec)
  | .groundingFloor => inferInstanceAs (Decidable (_ ∧ _))
  | .confidenceFloor => inferInstanceAs (Decidable ((_ → _) ∧ _))
  | .authorityCeiling => inferInstanceAs (Decidable (_ < _))
  | .irreversible => inferInstanceAs (Decidable (_ ∧ _))
  | .freezeWindow _ => inferInstanceAs (Decidable (_ ∧ _))

/-- The vetoes of a policy, in the order it asks them. -/
def all (pol : Policy) : List Veto :=
  [.groundingFloor, .confidenceFloor, .authorityCeiling, .irreversible]
    ++ pol.freezeWindows.map .freezeWindow

def failing (ps : Proposal.Set) (pol : Policy) (now : Time) (rec : Candidate) : List Veto :=
  (all pol).filter fun v => Fails ps pol now rec v

end Veto

section

variable {ps : Set} {pol : Policy} {now : Time} {rec : Candidate}

theorem freezeReasons_eq : freezeReasons pol now =
    ((pol.freezeWindows.map Veto.freezeWindow).filter fun v =>
      Veto.Fails ps pol now rec v).map Veto.reason := by
  rw [filter_map, map_map, freezeReasons]
  have hfails (w : Window) : (decide (w.start ≤ now) && decide (now < w.stop)) =
      decide (Veto.Fails ps pol now rec (.freezeWindow w)) := (Bool.decide_and _ _).symm
  simp only [hfails]
  rfl

theorem reasons_single (v : Veto) {p : Prop} [Decidable p] (h : p ↔ v.Fails ps pol now rec) :
    (if p then [v.reason] else []) =
      ([v].filter fun v => Veto.Fails ps pol now rec v).map Veto.reason := by
  by_cases hp : p
  · simp [hp, h.mp hp]
  · simp [hp, mt h.mpr hp]

theorem confidenceReasons_eq :
    confidenceReasons pol rec (pol.floor ps.serviceTier ps.failureClass) =
    ([Veto.groundingFloor, Veto.confidenceFloor].filter fun v =>
      Veto.Fails ps pol now rec v).map Veto.reason := by
  have hpair : [Veto.groundingFloor, Veto.confidenceFloor] =
      [Veto.groundingFloor] ++ [Veto.confidenceFloor] := rfl
  rw [hpair, filter_append, map_append]
  unfold confidenceReasons
  by_cases hsplit : pol.confidenceGate = "split"
  · rw [if_pos hsplit]
    refine congrArg₂ (· ++ ·) (reasons_single .groundingFloor ?_)
      (reasons_single .confidenceFloor ?_)
    · exact (and_iff_right hsplit).symm
    · rw [Bool.and_eq_true, decide_eq_true_eq]
      exact and_congr_left' ⟨fun h _ => h, fun h => h hsplit⟩
  · have hnone : ¬ Veto.groundingFloor.Fails ps pol now rec := fun h => hsplit h.1
    rw [if_neg hsplit, filter_singleton, decide_eq_false hnone]
    exact reasons_single .confidenceFloor (and_iff_right fun hs => absurd hs hsplit).symm

theorem vetoes_eq : vetoes ps pol now rec = (Veto.failing ps pol now rec).map Veto.reason := by
  have hall : Veto.all pol = [.groundingFloor, .confidenceFloor] ++ [.authorityCeiling]
      ++ [.irreversible] ++ pol.freezeWindows.map .freezeWindow := rfl
  have hceiling : (if bandRank (pol.maxBandOf ps.serviceTier) < bandRank (requestedBand rec)
      then ["authority_ceiling"] else []) = ([Veto.authorityCeiling].filter fun v =>
        Veto.Fails ps pol now rec v).map Veto.reason := reasons_single .authorityCeiling Iff.rfl
  have hundo : (if pol.requireReversal && rec.reversalPath.isNone then ["irreversible"] else []) =
      ([Veto.irreversible].filter fun v => Veto.Fails ps pol now rec v).map Veto.reason := by
    refine reasons_single .irreversible ?_
    rw [Bool.and_eq_true, Option.isNone_iff_eq_none]
    rfl
  rw [Veto.failing, hall]
  simp only [filter_append, map_append]
  rw [← confidenceReasons_eq, ← hceiling, ← hundo, ← freezeReasons_eq, vetoes]

theorem vetoes_eq_nil : vetoes ps pol now rec = [] ↔
    ∀ v ∈ Veto.all pol, ¬ Veto.Fails ps pol now rec v := by
  rw [vetoes_eq, map_eq_nil_iff, Veto.failing, filter_eq_nil_iff]
  simp only [decide_eq_true_eq]

end

/-! ## The decision -/

/-- What the decision on a gated set says of its recommendation.  The vetoes that fail decide, and
after them the risk of the candidate. -/
structure Settled (ps : Proposal.Set) (pol : Policy) (now : Time) (rec : Candidate)
    (d : Decision) : Prop where
  reasons : d.reasons = (Veto.failing ps pol now rec).map Veto.reason
    ++ (if d.verdict = .hold then ["risk_ceiling"] else [])
  escalates : d.verdict = .escalate ↔ Veto.failing ps pol now rec ≠ []
  holds : Veto.failing ps pol now rec = [] →
    (d.verdict = .hold ↔ bandRank (pol.autoBandOf ps.serviceTier) < bandRank (candidateRisk rec))
  approves : Veto.failing ps pol now rec = [] → d.verdict ≠ .hold → d.verdict = .approved
  requests : d.requestedBand = requestedBand rec

/-- What the decision says of the set.  A set without a gate that passed, or whose recommendation
names nothing, is rejected for that. -/
structure Characterised (ps : Proposal.Set) (pol : Policy) (now : Time) (d : Decision) :
    Prop where
  ungated : ps.gatePassed = false ∨ recommended ps = none →
    d.verdict = .rejected ∧ d.reasons = ["ungated_input"]
  gated : ∀ rec, ps.gatePassed = true → recommended ps = some rec → Settled ps pol now rec d
  grants : d.grantedBand = if d.verdict = .approved then d.requestedBand else .other ""

namespace Authority

section

variable {ps : Set} {pol : Policy} {now : Time} {rec : Candidate}

theorem evaluate_of_ungated (h : ps.gatePassed = false ∨ recommended ps = none) :
    evaluate ps pol now =
      { stamped ps pol now with verdict := .rejected, reasons := ["ungated_input"] } := by
  unfold evaluate
  cases hrec : recommended ps with
  | none => rfl
  | some rec =>
    rw [hrec] at h
    rcases h with h | h
    · simp [h]
    · cases h

theorem evaluate_of_gated (hg : ps.gatePassed = true) (hrec : recommended ps = some rec) :
    evaluate ps pol now = judge ps pol now rec := by
  simp only [evaluate, hrec, hg, if_true]

theorem judge_cases (ps : Set) (pol : Policy) (now : Time) (rec : Candidate) :
    (vetoes ps pol now rec ≠ [] ∧ (judge ps pol now rec).verdict = .escalate ∧
      (judge ps pol now rec).reasons = vetoes ps pol now rec ∧
      (judge ps pol now rec).grantedBand = .other "") ∨
    (vetoes ps pol now rec = [] ∧
      bandRank (pol.autoBandOf ps.serviceTier) < bandRank (candidateRisk rec) ∧
      (judge ps pol now rec).verdict = .hold ∧
      (judge ps pol now rec).reasons = ["risk_ceiling"] ∧
      (judge ps pol now rec).grantedBand = .other "") ∨
    (vetoes ps pol now rec = [] ∧
      bandRank (candidateRisk rec) ≤ bandRank (pol.autoBandOf ps.serviceTier) ∧
      (judge ps pol now rec).verdict = .approved ∧ (judge ps pol now rec).reasons = [] ∧
      (judge ps pol now rec).grantedBand = (judge ps pol now rec).requestedBand) := by
  by_cases hv : vetoes ps pol now rec = []
  · by_cases hr : bandRank (pol.autoBandOf ps.serviceTier) < bandRank (candidateRisk rec)
    · exact .inr (.inl ⟨hv, hr, by simp [judge, hv, hr], by simp [judge, hv, hr],
        by simp [judge, hv, hr, stamped]⟩)
    · exact .inr (.inr ⟨hv, Nat.le_of_not_lt hr, by simp [judge, hv, hr], by simp [judge, hv, hr],
        by simp [judge, hv, hr]⟩)
  · exact .inl ⟨hv, by simp [judge, hv], by simp [judge, hv], by simp [judge, hv, stamped]⟩

theorem judge_requestedBand : (judge ps pol now rec).requestedBand = requestedBand rec := by
  unfold judge
  dsimp only
  split
  · rfl
  · split <;> rfl

theorem judge_settled : Settled ps pol now rec (judge ps pol now rec) := by
  have hnil : vetoes ps pol now rec = [] ↔ Veto.failing ps pol now rec = [] := by
    rw [vetoes_eq, map_eq_nil_iff]
  obtain ⟨hv, hd, hr, -⟩ | ⟨hv, hrisk, hd, hr, -⟩ | ⟨hv, hrisk, hd, hr, -⟩ :=
    judge_cases ps pol now rec
  · have hf := mt hnil.mpr hv
    exact
      { reasons := by rw [hr, hd, vetoes_eq]; simp
        escalates := iff_of_true hd hf
        holds := fun h => absurd h hf
        approves := fun h => absurd h hf
        requests := judge_requestedBand }
  · have hf := hnil.mp hv
    exact
      { reasons := by simp [hr, hd, hf]
        escalates := by simp [hd, hf]
        holds := fun _ => iff_of_true hd hrisk
        approves := fun _ h => absurd hd h
        requests := judge_requestedBand }
  · have hf := hnil.mp hv
    exact
      { reasons := by simp [hr, hd, hf]
        escalates := by simp [hd, hf]
        holds := fun _ => by simpa [hd] using hrisk
        approves := fun _ _ => hd
        requests := judge_requestedBand }

theorem judge_grants : (judge ps pol now rec).grantedBand =
    if (judge ps pol now rec).verdict = .approved then (judge ps pol now rec).requestedBand
    else .other "" := by
  obtain ⟨-, hd, -, hgrant⟩ | ⟨-, -, hd, -, hgrant⟩ | ⟨-, -, hd, -, hgrant⟩ :=
    judge_cases ps pol now rec
  · simp [hd, hgrant]
  · simp [hd, hgrant]
  · simp [hd, hgrant]

theorem gated_of_not (h : ¬ (ps.gatePassed = false ∨ recommended ps = none)) :
    ∃ rec, ps.gatePassed = true ∧ recommended ps = some rec := by
  rw [not_or, Bool.not_eq_false] at h
  obtain ⟨rec, hrec⟩ := Option.ne_none_iff_exists'.mp h.2
  exact ⟨rec, h.1, hrec⟩

theorem not_ungated (hg : ps.gatePassed = true) (hrec : recommended ps = some rec) :
    ¬ (ps.gatePassed = false ∨ recommended ps = none) := by
  simp [hg, hrec]

end

/-- Every decision is characterised by the vetoes that fail and by the risk. -/
theorem evaluate_characterised (ps : Proposal.Set) (pol : Policy) (now : Time) :
    Characterised ps pol now (evaluate ps pol now) := by
  by_cases hu : ps.gatePassed = false ∨ recommended ps = none
  · rw [evaluate_of_ungated hu]
    exact ⟨fun _ => ⟨rfl, rfl⟩, fun rec hg hrec => absurd hu (not_ungated hg hrec), rfl⟩
  · obtain ⟨rec, hg, hrec⟩ := gated_of_not hu
    rw [evaluate_of_gated hg hrec]
    refine ⟨fun h => absurd h hu, fun rec' _ hrec' => ?_, judge_grants⟩
    cases hrec.symm.trans hrec'
    exact judge_settled

end Authority

open Authority

/-- A gated set of `tier-1` that recommends a restart which a human has to undo. -/
def restartSet : Proposal.Set where
  name := "ps:checkout"
  signalRef := "checkout"
  serviceTier := "tier-1"
  failureClass := .serviceFailure
  gate := some { passed := true }
  proposals :=
    [{ id := "c1", contractRef := "restart", confidence := 9 / 10, computedConfidence := 9 / 10
       reversalPath := some { method := "revert" }
       governanceLevel := some { band := "act_reversible" } }]
  recommended := "c1"

/-- A policy that lets `tier-1` act reversibly. -/
def reversiblePolicy : Policy where
  version := "v1"
  floors := [("tier-1", [(.serviceFailure, 7 / 10)])]
  maxBand := [("tier-1", .actReversible)]
  autoBand := [("tier-1", .actReversible)]

/-- A set that is held has a reason, and it is that of no veto. -/
theorem restartSet_held : (evaluate restartSet reversiblePolicy 1).verdict = .hold ∧
    (evaluate restartSet reversiblePolicy 1).reasons = ["risk_ceiling"] ∧
    ∃ rec, recommended restartSet = some rec ∧
      Veto.failing restartSet reversiblePolicy 1 rec = [] := by
  refine ⟨by decide +kernel, by decide +kernel, _, rfl, by decide +kernel⟩

/-! ## Tighter policies -/

/-- The second policy is at least as tight for the tier.  A tier that is not listed has the empty
band, which outranks all others, so a policy does not get tighter by leaving a tier out. -/
structure Tightens (pol pol' : Policy) (tier : String) : Prop where
  confidenceGate : pol'.confidenceGate = pol.confidenceGate
  floors : ∀ cls, pol.floor tier cls ≤ pol'.floor tier cls
  maxBand : bandRank (pol'.maxBandOf tier) ≤ bandRank (pol.maxBandOf tier)
  autoBand : bandRank (pol'.autoBandOf tier) ≤ bandRank (pol.autoBandOf tier)
  requireReversal : pol.requireReversal = true → pol'.requireReversal = true
  freezeWindows : pol.freezeWindows ⊆ pol'.freezeWindows

variable {v : Veto} {cs cs' : List Candidate}

section

variable {ps : Set} {pol pol' : Policy} {now : Time} {rec : Candidate}

theorem Tightens.mem_all (h : Tightens pol pol' ps.serviceTier) (hv : v ∈ Veto.all pol) :
    v ∈ Veto.all pol' := by
  rcases mem_append.mp hv with hv | hv
  · exact mem_append_left _ hv
  · exact mem_append_right _ (map_subset _ h.freezeWindows hv)

/-- A veto that fails under a policy fails under one that is tighter. -/
theorem Tightens.fails (h : Tightens pol pol' ps.serviceTier) (hv : v.Fails ps pol now rec) :
    v.Fails ps pol' now rec := by
  cases v with
  | groundingFloor =>
    exact ⟨h.confidenceGate.trans hv.1, lt_of_lt_of_le hv.2 (h.floors _)⟩
  | confidenceFloor =>
    exact ⟨fun hs => hv.1 (h.confidenceGate.symm.trans hs), lt_of_lt_of_le hv.2 (h.floors _)⟩
  | authorityCeiling => exact Nat.lt_of_le_of_lt h.maxBand hv
  | irreversible => exact ⟨h.requireReversal hv.1, hv.2⟩
  | freezeWindow w => exact hv

theorem Tightens.vetoes_eq_nil (h : Tightens pol pol' ps.serviceTier)
    (hv : vetoes ps pol' now rec = []) : vetoes ps pol now rec = [] := by
  rw [Hiss.vetoes_eq_nil] at hv ⊢
  exact fun v hmem hfails => hv v (h.mem_all hmem) (h.fails hfails)

end

/-- What a tighter policy approves was approved, and what it lets through was let through. -/
theorem evaluate_antitone (ps : Proposal.Set) (pol pol' : Policy) (now : Time)
    (h : Tightens pol pol' ps.serviceTier) :
    ((evaluate ps pol' now).verdict = .approved → (evaluate ps pol now).verdict = .approved) ∧
    ((evaluate ps pol' now).verdict = .approved ∨ (evaluate ps pol' now).verdict = .hold →
      (evaluate ps pol now).verdict = .approved ∨ (evaluate ps pol now).verdict = .hold) := by
  constructor
  · intro hv
    obtain ⟨rec, hrec, hg, hveto, hrisk⟩ := evaluate_approved_iff.mp hv
    exact evaluate_approved_iff.mpr
      ⟨rec, hrec, hg, h.vetoes_eq_nil hveto, Nat.le_trans hrisk h.autoBand⟩
  · intro hv
    obtain ⟨rec, hrec, hg, hveto⟩ := evaluate_eligible_iff.mp hv
    exact evaluate_eligible_iff.mpr ⟨rec, hrec, hg, h.vetoes_eq_nil hveto⟩

/-- A gated set of `tier-1` that recommends an action which undoes itself. -/
def throttleSet : Proposal.Set where
  name := "ps:checkout"
  signalRef := "checkout"
  serviceTier := "tier-1"
  failureClass := .serviceFailure
  gate := some { passed := true }
  proposals :=
    [{ id := "c1", contractRef := "throttle", confidence := 8 / 10, computedConfidence := 9 / 10
       reversalPath := some { method := "unthrottle", automatic := true }
       governanceLevel := some { band := "act_reversible" } }]
  recommended := "c1"

/-- A policy with higher floors, which asks for an undo and freezes a day. -/
def strictPolicy : Policy where
  version := "v2"
  floors := [("tier-1", [(.serviceFailure, 8 / 10)])]
  maxBand := [("tier-1", .actReversible)]
  autoBand := [("tier-1", .actReversible)]
  freezeWindows := [{ name := "launch", start := 100, stop := 200 }]
  requireReversal := true

theorem strictPolicy_tightens : Tightens reversiblePolicy strictPolicy "tier-1" where
  confidenceGate := rfl
  floors cls := by
    by_cases h : cls = .serviceFailure
    · subst h
      decide +kernel
    · have hne : (cls == FailureClass.serviceFailure) = false := beq_false_of_ne h
      simp [Policy.floor, reversiblePolicy, strictPolicy, lookup_cons, hne]
  maxBand := by decide
  autoBand := by decide
  requireReversal := fun h => (Bool.false_ne_true h).elim
  freezeWindows := nil_subset _

theorem throttleSet_approved : (evaluate throttleSet strictPolicy 1).verdict = .approved ∧
    (evaluate throttleSet reversiblePolicy 1).verdict = .approved :=
  have h : (evaluate throttleSet strictPolicy 1).verdict = .approved := by decide +kernel
  ⟨h, (evaluate_antitone throttleSet reversiblePolicy strictPolicy 1 strictPolicy_tightens).1 h⟩

/-! ## The split gate -/

/-- The policy with the split gate. -/
def Policy.split (pol : Policy) : Policy := { pol with confidenceGate := "split" }

/-- The second candidate is the first with a confidence that is no higher, as far as the governor
reads it. -/
structure Lowered (c c' : Candidate) : Prop where
  id : c'.id = c.id
  confidence : c'.confidence ≤ c.confidence
  computedConfidence : c'.computedConfidence = c.computedConfidence
  reversalPath : c'.reversalPath = c.reversalPath
  blastTier : c'.blastTier = c.blastTier
  governanceLevel : c'.governanceLevel = c.governanceLevel

/-- The second set is the first with confidences that are no higher, as far as the governor reads
it. -/
structure LoweredSet (ps ps' : Proposal.Set) : Prop where
  gate : ps'.gatePassed = ps.gatePassed
  serviceTier : ps'.serviceTier = ps.serviceTier
  failureClass : ps'.failureClass = ps.failureClass
  recommended : ps'.recommended = ps.recommended
  proposals : List.Forall₂ Lowered ps.proposals ps'.proposals

section

variable {ps ps' : Set} {pol pol' : Policy} {now : Time} {rec rec' : Candidate}

theorem find?_lowered {id : String} (h : Forall₂ Lowered cs cs')
    (hrec : cs.find? (fun c => c.id == id) = some rec) :
    ∃ rec', cs'.find? (fun c => c.id == id) = some rec' ∧ Lowered rec rec' := by
  induction h with
  | nil => cases hrec
  | @cons c c' cs cs' hc _ ih =>
    rw [find?_cons] at hrec ⊢
    rw [hc.id]
    cases hid : c.id == id with
    | true =>
      rw [hid] at hrec
      cases hrec
      exact ⟨c', rfl, hc⟩
    | false =>
      rw [hid] at hrec
      exact ih hrec

theorem exists_lowered (h : LoweredSet ps ps') (hrec : recommended ps = some rec) :
    ∃ rec', recommended ps' = some rec' ∧ Lowered rec rec' := by
  unfold recommended
  rw [h.recommended]
  exact find?_lowered h.proposals hrec

theorem Lowered.candidateRisk (h : Lowered rec rec') : candidateRisk rec' = candidateRisk rec := by
  rw [Hiss.candidateRisk, Hiss.candidateRisk, automaticUndo, automaticUndo, h.reversalPath,
    h.blastTier]

theorem verdict_congr (hg : ps.gatePassed = true) (hg' : ps'.gatePassed = true)
    (hrec : recommended ps = some rec) (hrec' : recommended ps' = some rec')
    (hveto : vetoes ps pol now rec = [] ↔ vetoes ps' pol' now rec' = [])
    (hrisk : candidateRisk rec' = candidateRisk rec)
    (hauto : pol'.autoBandOf ps'.serviceTier = pol.autoBandOf ps.serviceTier) :
    (evaluate ps' pol' now).verdict = (evaluate ps pol now).verdict := by
  rw [evaluate_of_gated hg hrec, evaluate_of_gated hg' hrec']
  obtain ⟨hv, hd, -⟩ | ⟨hv, hr, hd, -⟩ | ⟨hv, hr, hd, -⟩ := judge_cases ps pol now rec <;>
    obtain ⟨hv', hd', -⟩ | ⟨hv', hr', hd', -⟩ | ⟨hv', hr', hd', -⟩ := judge_cases ps' pol' now rec'
  · rw [hd, hd']
  · exact absurd (hveto.mpr hv') hv
  · exact absurd (hveto.mpr hv') hv
  · exact absurd (hveto.mp hv) hv'
  · rw [hd, hd']
  · rw [hrisk, hauto] at hr'
    exact absurd hr (Nat.not_lt.mpr hr')
  · exact absurd (hveto.mp hv) hv'
  · rw [hrisk, hauto] at hr'
    exact absurd hr' (Nat.not_lt.mpr hr)
  · rw [hd, hd']

theorem le_effectiveComputedConfidence (h : rec.confidence ≤ rec.computedConfidence) :
    rec.confidence ≤ effectiveComputedConfidence rec := by
  unfold effectiveComputedConfidence
  split
  · exact le_rfl
  · exact h

theorem candidateRisk_cases (c : Candidate) :
    candidateRisk c = .actReversible ∨ candidateRisk c = .actDisruptive := by
  unfold candidateRisk riskBand
  split
  · exact .inr rfl
  · split
    · exact .inr rfl
    · split
      · exact .inr rfl
      · exact .inl rfl

theorem selfReportBinds_iff : selfReportBinds rec = true ↔ candidateRisk rec ≠ .actReversible := by
  unfold selfReportBinds
  rcases candidateRisk_cases rec with h | h
  · simp [h]
  · simp [h, bandRank]

/-- What fails under the split gate has a veto that fails under the collapsed one: a candidate
reports no more than it is grounded for. -/
theorem exists_fails_of_split (hpol : pol.confidenceGate ≠ "split")
    (hconf : rec.confidence ≤ rec.computedConfidence) (hmem : v ∈ Veto.all pol)
    (hv : v.Fails ps pol.split now rec) : ∃ v ∈ Veto.all pol, v.Fails ps pol now rec := by
  have hfloor (h : rec.confidence < pol.floor ps.serviceTier ps.failureClass) :
      ∃ v ∈ Veto.all pol, v.Fails ps pol now rec :=
    ⟨.confidenceFloor, by simp [Veto.all], fun hs => absurd hs hpol, h⟩
  cases v with
  | groundingFloor => exact hfloor (lt_of_le_of_lt (le_effectiveComputedConfidence hconf) hv.2)
  | confidenceFloor => exact hfloor hv.2
  | authorityCeiling | irreversible | freezeWindow _ => exact ⟨_, hmem, hv⟩

theorem vetoes_split_of_collapsed (hpol : pol.confidenceGate ≠ "split")
    (hconf : rec.confidence ≤ rec.computedConfidence) (hv : vetoes ps pol now rec = []) :
    vetoes ps pol.split now rec = [] := by
  rw [vetoes_eq_nil] at hv ⊢
  intro v hmem hfails
  obtain ⟨v', hmem', hfails'⟩ := exists_fails_of_split hpol hconf hmem hfails
  exact hv v' hmem' hfails'

theorem vetoes_collapsed_of_split (hpol : pol.confidenceGate ≠ "split")
    (hbinds : selfReportBinds rec = true) (hv : vetoes ps pol.split now rec = []) :
    vetoes ps pol now rec = [] := by
  rw [vetoes_eq_nil] at hv ⊢
  intro v hmem hfails
  refine hv v hmem ?_
  cases v with
  | groundingFloor => exact absurd hfails.1 hpol
  | confidenceFloor => exact ⟨fun _ => hbinds, hfails.2⟩
  | authorityCeiling | irreversible | freezeWindow _ => exact hfails

theorem effectiveComputedConfidence_of_pos (h : 0 < rec.computedConfidence) :
    effectiveComputedConfidence rec = rec.computedConfidence := by
  unfold effectiveComputedConfidence
  rw [if_neg]
  exact fun hzero => ne_of_gt h hzero.1

/-- Of a candidate that the engine can undo, and that is grounded, the split gate does not read the
confidence. -/
theorem fails_split_congr (hset : LoweredSet ps ps') (h : Lowered rec rec')
    (hrisk : candidateRisk rec = .actReversible) (hpos : 0 < rec.computedConfidence) (v : Veto) :
    v.Fails ps' pol.split now rec' ↔ v.Fails ps pol.split now rec := by
  have hpos' : 0 < rec'.computedConfidence := h.computedConfidence.symm ▸ hpos
  cases v with
  | groundingFloor =>
    simp only [Veto.Fails, effectiveComputedConfidence_of_pos hpos,
      effectiveComputedConfidence_of_pos hpos', h.computedConfidence, hset.serviceTier,
      hset.failureClass]
  | confidenceFloor =>
    have hrisk' := h.candidateRisk.trans hrisk
    simp only [Veto.Fails, selfReportBinds_iff, hrisk, hrisk', Policy.split, ne_eq,
      not_true_eq_false, imp_false, false_and]
  | authorityCeiling =>
    simp only [Veto.Fails, requestedBand, h.governanceLevel, hset.serviceTier]
  | irreversible => simp only [Veto.Fails, h.reversalPath]
  | freezeWindow w => exact Iff.rfl

end

/-- The split gate, for a set whose recommendation is not more confident than it is grounded.  It
approves what the collapsed gate approves.  It differs only where the risk is that of a reversible
action, and there no lower self-report changes its verdict, as long as there is a grounding. -/
theorem evaluate_split (ps : Proposal.Set) (pol : Policy) (now : Time)
    (hpol : pol.confidenceGate ≠ "split")
    (hconf : ∀ rec, recommended ps = some rec → rec.confidence ≤ rec.computedConfidence) :
    ((evaluate ps pol now).verdict = .approved →
      (evaluate ps pol.split now).verdict = .approved) ∧
    ((evaluate ps pol.split now).verdict ≠ (evaluate ps pol now).verdict →
      ∃ rec, recommended ps = some rec ∧ candidateRisk rec = .actReversible) ∧
    (∀ rec, recommended ps = some rec → candidateRisk rec = .actReversible →
      0 < rec.computedConfidence → ∀ ps', LoweredSet ps ps' →
        (evaluate ps' pol.split now).verdict = (evaluate ps pol.split now).verdict) := by
  refine ⟨fun hv => ?_, fun hne => ?_, fun rec hrec hrisk hpos ps' hset => ?_⟩
  · obtain ⟨rec, hrec, hg, hveto, hrisk⟩ := evaluate_approved_iff.mp hv
    exact evaluate_approved_iff.mpr
      ⟨rec, hrec, hg, vetoes_split_of_collapsed hpol (hconf rec hrec) hveto, hrisk⟩
  · by_contra hnone
    refine hne ?_
    by_cases hu : ps.gatePassed = false ∨ recommended ps = none
    · rw [evaluate_of_ungated hu, evaluate_of_ungated hu]
    · obtain ⟨rec, hg, hrec⟩ := gated_of_not hu
      have hbinds : selfReportBinds rec = true :=
        selfReportBinds_iff.mpr fun hrisk => hnone ⟨rec, hrec, hrisk⟩
      exact verdict_congr hg hg hrec hrec ⟨vetoes_split_of_collapsed hpol (hconf rec hrec),
        vetoes_collapsed_of_split hpol hbinds⟩ rfl rfl
  · obtain ⟨rec', hrec', hlow⟩ := exists_lowered hset hrec
    by_cases hg : ps.gatePassed = true
    · refine verdict_congr hg (hset.gate.trans hg) hrec hrec' ?_ hlow.candidateRisk
        (by rw [hset.serviceTier])
      rw [vetoes_eq_nil, vetoes_eq_nil]
      exact forall₂_congr fun v _ => not_congr (fails_split_congr hset hlow hrisk hpos v).symm
    · have hg : ps.gatePassed = false := Bool.eq_false_iff.mpr hg
      rw [evaluate_of_ungated (.inl hg), evaluate_of_ungated (.inl (hset.gate.trans hg))]

/-- The set with a recommendation that reports no more than `q`. -/
def throttleSetAt (q : Rat) : Proposal.Set :=
  { throttleSet with proposals := throttleSet.proposals.map fun c => { c with confidence := q } }

theorem throttleSetAt_lowered : LoweredSet (throttleSetAt (1 / 2)) (throttleSetAt 0) where
  gate := rfl
  serviceTier := rfl
  failureClass := rfl
  recommended := rfl
  proposals := .cons ⟨rfl, by decide +kernel, rfl, rfl, rfl, rfl⟩ .nil

/-- Under the collapsed gate a modest report escalates.  Under the split gate it is approved, and
so is none at all. -/
theorem throttleSetAt_split :
    (evaluate (throttleSetAt (1 / 2)) reversiblePolicy 1).verdict = .escalate ∧
    (evaluate (throttleSetAt (1 / 2)) reversiblePolicy.split 1).verdict = .approved ∧
    (evaluate (throttleSetAt 0) reversiblePolicy.split 1).verdict = .approved := by
  have hsplit :
      (evaluate (throttleSetAt (1 / 2)) reversiblePolicy.split 1).verdict = .approved := by
    decide +kernel
  have hconf (rec : Candidate) (hrec : recommended (throttleSetAt (1 / 2)) = some rec) :
      rec.confidence ≤ rec.computedConfidence := by
    cases hrec
    decide +kernel
  obtain ⟨-, -, hlower⟩ := evaluate_split (throttleSetAt (1 / 2)) reversiblePolicy 1
    (by decide) hconf
  refine ⟨by decide +kernel, hsplit, ?_⟩
  exact (hlower _ rfl (by decide) (by decide +kernel) _ throttleSetAt_lowered).trans hsplit

/-! ## The report of the model

What the governor reads as the confidence of a candidate is the smaller of what the scorer computed
and what the model reported.  So the scorer's candidates are never more confident than they are
grounded, and a lower report lowers them. -/

section

variable (evidence : List EvidenceRef) (sao : SAO) (likelihood alignment : Rat × Bool)
  (w : ScoringWeights)

theorem lowered_scoreCandidate (c : Candidate) {q : Rat} (h : q ≤ c.confidence) :
    Lowered (scoreCandidate evidence sao likelihood alignment w c)
      (scoreCandidate evidence sao likelihood alignment w { c with confidence := q }) where
  id := rfl
  confidence := min_le_min_left _ h
  computedConfidence := rfl
  reversalPath := rfl
  blastTier := rfl
  governanceLevel := rfl

/-- Reporting no more lowers a set that is scored, and its computed confidences stay. -/
theorem loweredSet_scored (ps : Set) (scores : List CausalScore)
    (h : Forall₂ (fun c c' => ∃ q ≤ c.confidence, c' = { c with confidence := q }) cs cs') :
    LoweredSet { ps with proposals := scoreConfidences cs evidence sao scores alignment w }
      { ps with proposals := scoreConfidences cs' evidence sao scores alignment w } where
  gate := rfl
  serviceTier := rfl
  failureClass := rfl
  recommended := rfl
  proposals := by
    induction h with
    | nil => exact .nil
    | cons hc _ ih =>
      obtain ⟨q, hq, rfl⟩ := hc
      exact .cons (lowered_scoreCandidate evidence sao _ alignment w _ hq) ih

end

end Beats.Hiss
