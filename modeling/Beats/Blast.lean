import Beats.Clank.Propose
import Beats.Hiss.Limits
import Beats.Validate

/-!
# The blast of an approved action

The blast tier of an action is authored in the catalog, stamped on its candidate by the engine and
read by the governor as risk.  `Load` does not look at it, and `RiskBand` tells `high` from the
rest.  So a tier that was forgotten or misspelt counts as a bounded one: under a policy that grants
reversible actions unattended, a published set is guarded exactly if the tier of its recommended
contract is one of the three, or the contract has no undo that the engine can finish itself
(`published_guarded_iff`).
-/

namespace Beats

open Proposal Contract Clank Lib List Hiss.Authority

variable {ct : ActionContract} {set : Set} {rec : Candidate}

/-- Under every policy that grants reversible actions of the tier unattended, the set is approved
only with a bounded blast, and without one it waits for a human. -/
def BlastGuarded (set : Proposal.Set) (ct : ActionContract) : Prop :=
  ∀ (pol : Hiss.Policy) (now : Time), pol.autoBandOf set.serviceTier = .actReversible →
    ((evaluate set pol now).verdict = .approved →
      ct.blastTier = .low ∨ ct.blastTier = .med) ∧
    (¬ (ct.blastTier = .low ∨ ct.blastTier = .med) →
      (evaluate set pol now).verdict.awaitsApproval = true)

/-- The contract has an undo that the engine can finish itself. -/
def UndoneByEngine (ct : ActionContract) : Prop :=
  ct.reversal.method ≠ "" ∧ Engine.automaticReversal ct.execution.reverse = true

theorem automaticUndo_iff {c : Candidate} (h : Derived ct c) :
    Hiss.automaticUndo c = true ↔ UndoneByEngine ct := by
  unfold Hiss.automaticUndo UndoneByEngine
  by_cases hm : ct.reversal.method = ""
  · have hpath : c.reversalPath = none := by rw [h.reversalPath, if_neg (not_not.mpr hm)]
    simp [hpath, hm]
  · simp only [h.reversalPath, ne_eq, hm, not_false_eq_true, if_true, true_and]

theorem candidateRisk_le_iff {c : Candidate} (h : Derived ct c) :
    Hiss.bandRank (Hiss.candidateRisk c) ≤ Hiss.bandRank .actReversible ↔
      UndoneByEngine ct ∧ ct.blastTier ≠ .high := by
  rw [← automaticUndo_iff h, ← h.blastTier]
  unfold Hiss.candidateRisk Hiss.riskBand Hiss.automaticUndo
  cases c.reversalPath with
  | none => simp [Hiss.bandRank]
  | some path =>
    by_cases hauto : path.automatic = true <;> by_cases hb : c.blastTier = .high <;>
      simp [Hiss.bandRank, hauto, hb]

theorem evaluate_resolved {pol : Hiss.Policy} {now : Time}
    (hg : set.gatePassed = true) (hrec : Hiss.recommended set = some rec) :
    (evaluate set pol now).verdict = .approved ∨
      (evaluate set pol now).verdict.awaitsApproval = true := by
  cases evaluate_judged set pol now with
  | rejected hv =>
    rcases evaluate_rejected_iff.mp hv with h | h
    · exact absurd (hrec.symm.trans h) nofun
    · exact absurd (hg.symm.trans h) nofun
  | escalated hv => exact .inr (by rw [hv]; rfl)
  | held hv => exact .inr (by rw [hv]; rfl)
  | approved hv => exact .inl hv

/-- A policy that grants reversible actions of the tier unattended and has no ceiling below
`act_disruptive`. -/
def openPolicy (tier : String) (cls : FailureClass) (floor : Rat) : Hiss.Policy where
  version := "v1"
  floors := [(tier, [(cls, floor)])]
  maxBand := [(tier, .actDisruptive)]
  autoBand := [(tier, .actReversible)]

theorem autoBandOf_openPolicy (tier : String) (cls : FailureClass) (floor : Rat) :
    (openPolicy tier cls floor).autoBandOf tier = .actReversible := by
  simp [openPolicy, Hiss.Policy.autoBandOf]

theorem vetoes_openPolicy (h : Derived ct rec) (now : Time) :
    Hiss.vetoes set (openPolicy set.serviceTier set.failureClass rec.confidence) now rec = [] := by
  refine Hiss.vetoes_eq_nil_iff.mpr ⟨?_, ?_, fun hundo => Bool.false_ne_true hundo.1, ?_⟩
  · simp [Hiss.BelowFloor, openPolicy, Hiss.Policy.floor]
  · have hceiling : (openPolicy set.serviceTier set.failureClass rec.confidence).maxBandOf
        set.serviceTier = .actDisruptive := by
      simp [openPolicy, Hiss.Policy.maxBandOf]
    rw [hceiling, Hiss.requestedBand, h.governanceLevel]
    dsimp only
    split <;> decide
  · rintro ⟨w, hw, -⟩
    cases hw

/-- A set is guarded exactly if the blast tier of its contract is one of the three, or the engine
cannot undo its action. -/
theorem guarded_iff
    (hg : set.gatePassed = true) (hrec : Hiss.recommended set = some rec) (h : Derived ct rec) :
    BlastGuarded set ct ↔ ct.blastTier ∈ Validate.canonicalBlastTiers ∨ ¬ UndoneByEngine ct := by
  constructor
  · intro hguard
    by_contra hno
    rw [not_or, not_not] at hno
    obtain ⟨hforeign, hundo⟩ := hno
    have hhigh : ct.blastTier ≠ .high := fun hb => hforeign (by rw [hb]; decide)
    have hauto := autoBandOf_openPolicy set.serviceTier set.failureClass rec.confidence
    have hrisk := (candidateRisk_le_iff h).mpr ⟨hundo, hhigh⟩
    have happroved := evaluate_approved_iff.mpr
      ⟨rec, hrec, hg, vetoes_openPolicy h 0, hauto ▸ hrisk⟩
    rcases (hguard _ 0 hauto).1 happroved with hb | hb
    · exact hforeign (by rw [hb]; decide)
    · exact hforeign (by rw [hb]; decide)
  · intro hcond pol now hauto
    have hbounded : (evaluate set pol now).verdict = .approved →
        ct.blastTier = .low ∨ ct.blastTier = .med := by
      intro happroved
      obtain ⟨rec', hrec', -, -, hrisk⟩ := evaluate_approved_iff.mp happroved
      cases hrec.symm.trans hrec'
      rw [hauto] at hrisk
      obtain ⟨hundo, hhigh⟩ := (candidateRisk_le_iff h).mp hrisk
      have hcanonical := hcond.resolve_right (not_not.mpr hundo)
      simpa [Validate.canonicalBlastTiers, hhigh] using hcanonical
    exact ⟨hbounded, fun hno => (evaluate_resolved hg hrec).resolve_left (mt hbounded hno)⟩

/-- Of every catalog that loads and every run that hands a set to the publisher: the set is guarded
exactly if the contract that it recommends was authored with one of the three blast tiers, or with
no undo that the engine can finish itself. -/
theorem published_guarded_iff {parse : String → Except String (List ActionContract)}
    {raw : String} {reg : PreconditionRegistry} {e : Engine} {sig : Signal.Detection}
    {t : List (Answered iface)} {q : Prog iface String Proposal.Set}
    (hload : Contract.load parse raw reg = .ok e.catalog) (h : (e.propose sig).Steps t q)
    {t₁ t₂ : List (Answered iface)} {subject : String} {set : Proposal.Set}
    {r : iface.Answer (.publish subject set)} (ht : t = t₁ ++ ⟨.publish subject set, r⟩ :: t₂)
    {rec : Candidate} (hrec : Hiss.recommended set = some rec) :
    ∃ doc ct, parse raw = .ok doc ∧ doc.find? (fun c => c.name == rec.contractRef) = some ct ∧
      (BlastGuarded set ct ↔
        ct.blastTier ∈ Validate.canonicalBlastTiers ∨ ¬ UndoneByEngine ct) := by
  have hpub : subject = "thump.proposals" ∧ MayPublish e (runLog t₁) set :=
    permitted_of_steps h ht
  obtain ⟨ct, hct, hderived⟩ := hpub.2.derived rec (mem_of_find?_eq_some hrec)
  obtain ⟨doc, authored, hdoc, hauthored, ps, rfl⟩ := byName_of_load hload hct
  -- Binding its preconditions leaves the blast tier and the undo of the contract alone.
  have hguarded := guarded_iff hpub.2.passed hrec hderived
  exact ⟨doc, authored, hdoc, hauthored, hguarded⟩

def throttleDoc (blast : BlastTier) : List ActionContract :=
  [{ name := "throttle", applicableFailureClasses := [.dependencySaturation]
     applicableTiers := ["tier1"], blastTier := blast, reversal := { method := "unthrottle" } }]

def blastEngine (blast : BlastTier) : Engine :=
  { throttleEngine [throttleCandidate] with catalog := { contracts := throttleDoc blast } }

/-- Its run, in which nothing fails. -/
def blastRun (blast : BlastTier) : Except String Proposal.Set × List (Answered iface) :=
  Prog.play (fun _ c => (fairScript c, ())) () ((blastEngine blast).propose checkoutDetection)

theorem blastRun_publishes (blast : BlastTier) : ∃ t₁ set r t₂ rec, (blastRun blast).2 =
    t₁ ++ (⟨.publish "thump.proposals" set, r⟩ : Answered iface) :: t₂ ∧
    Hiss.recommended set = some rec ∧ rec.contractRef = "throttle" :=
  ⟨(blastRun blast).2.take 14, _, _, (blastRun blast).2.drop 15, _, rfl, rfl, rfl⟩

theorem lowThrottle_guarded : ∃ t₁ set r t₂ ct, (blastRun .low).2 =
      t₁ ++ (⟨.publish "thump.proposals" set, r⟩ : Answered iface) :: t₂ ∧
    ct ∈ throttleDoc .low ∧ BlastGuarded set ct := by
  have hload : Contract.load (fun _ => .ok (throttleDoc .low)) "contracts" Preconditions =
      .ok (blastEngine .low).catalog := rfl
  obtain ⟨t₁, set, r, t₂, rec, ht, hrec, href⟩ := blastRun_publishes .low
  obtain ⟨doc, ct, hdoc, hct, hiff⟩ := published_guarded_iff hload (Prog.exits_play _ _ _) ht hrec
  cases hdoc
  have hmem := mem_of_find?_eq_some hct
  have hlow : ct.blastTier = .low := by rw [mem_singleton.mp hmem]
  exact ⟨t₁, set, r, t₂, ct, ht, hmem, hiff.mpr (.inl (by rw [hlow]; decide))⟩

/-- The catalog with a blank blast tier loads, and the set that recommends its contract is
approved. -/
theorem blankBlast_approved :
    Contract.load (fun _ => .ok (throttleDoc (.other ""))) "contracts" Preconditions =
      .ok (blastEngine (.other "")).catalog ∧
    ∃ t₁ set r t₂, (blastRun (.other "")).2 =
      t₁ ++ (⟨.publish "thump.proposals" set, r⟩ : Answered iface) :: t₂ ∧
    (Hiss.recommended set).map Candidate.contractRef = some "throttle" ∧
    (evaluate set (openPolicy "tier1" .dependencySaturation 0) 1).verdict =
      .approved ∧
    ∀ ct ∈ throttleDoc (.other ""), ¬ BlastGuarded set ct := by
  refine ⟨rfl, (blastRun (.other "")).2.take 14, _, _, (blastRun (.other "")).2.drop 15, rfl, rfl,
    by decide +kernel, ?_⟩
  intro ct hct hguard
  cases mem_singleton.mp hct
  have hbounded := (hguard (openPolicy "tier1" .dependencySaturation 0) 1 rfl).1 (by decide +kernel)
  exact absurd hbounded (by decide)

end Beats
