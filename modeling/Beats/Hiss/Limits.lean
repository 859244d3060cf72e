import Beats.Hiss.Transport
import Beats.Hiss.Vetoes
import Beats.Thump.Actuator

/-!
# What a policy and an approver allow

Three limits on what the governor lets through.  `LoadPolicy` of `internal/hiss` takes whatever the
parser makes of the file, and two of the limits are as good as the file is.

A tier that `MaxBand` does not list has the empty band for a ceiling, and `bandRank` puts what it
does not know above all bands, on either side of the comparison.  So a missing ceiling stops nothing
(`evaluate_failsClosed_iff`).

A policy without a version makes decisions that no consumer accepts (`loaded_actionable_iff`).

An approval may name the highest band its operator will grant, and `approveHandler` does not read it
(`capKept_iff`).
-/

namespace Beats.Hiss

open Proposal Decision List Authority Transport

/-! ## Loading -/

/-- `LoadPolicy`, with the file system and the YAML parser as parameters. -/
def loadPolicy (readFile : String → Except String String)
    (unmarshal : String → Except String Policy) (path : String) : Except String Policy :=
  if path = "" then .error "policy path is required"
  else match readFile path with
    | .error err => .error ("read policy file: " ++ err)
    | .ok raw =>
      match unmarshal raw with
      | .error err => .error ("parse policy file: " ++ err)
      | .ok pol => .ok pol

/-- `canonicalBands` of `internal/validate`. -/
def canonicalBands : List Band := [.observe, .actReversible, .actDisruptive]

theorem mem_canonicalBands {b : Band} : b ∈ canonicalBands ↔ bandRank b ≤ 2 := by
  cases b <;> simp [canonicalBands, bandRank]

theorem bandRank_le_of_foreign {b : Band} (h : b ∉ canonicalBands) (b' : Band) :
    bandRank b' ≤ bandRank b := by
  have hb : ¬ bandRank b ≤ 2 := mt mem_canonicalBands.mpr h
  have hmax : bandRank b' ≤ 3 := by cases b' <;> simp [bandRank]
  omega

/-! ## The ceiling -/

section

variable {ps : Set} {pol : Policy} {now : Time} {rec : Candidate}

def BelowFloor (pol : Policy) (rec : Candidate) (floor : Rat) : Prop :=
  if pol.confidenceGate = "split" then
    effectiveComputedConfidence rec < floor ∨ (selfReportBinds rec = true ∧ rec.confidence < floor)
  else rec.confidence < floor

def Frozen (pol : Policy) (now : Time) : Prop :=
  ∃ w ∈ pol.freezeWindows, w.start ≤ now ∧ now < w.stop

/-- A reversal is required and there is none. -/
def Irreversible (pol : Policy) (rec : Candidate) : Prop :=
  pol.requireReversal = true ∧ rec.reversalPath = none

/-- The set is not eligible, whatever the ceiling of its tier. -/
def Withheld (ps : Proposal.Set) (pol : Policy) (now : Time) : Prop :=
  ps.gatePassed = false ∨ ∀ rec, recommended ps = some rec →
    BelowFloor pol rec (pol.floor ps.serviceTier ps.failureClass) ∨ Irreversible pol rec ∨
      Frozen pol now

theorem belowFloor_iff (now : Time) :
    BelowFloor pol rec (pol.floor ps.serviceTier ps.failureClass) ↔
      Veto.groundingFloor.Fails ps pol now rec ∨ Veto.confidenceFloor.Fails ps pol now rec := by
  unfold BelowFloor
  by_cases hsplit : pol.confidenceGate = "split"
  · simp [Veto.Fails, hsplit]
  · simp [Veto.Fails, hsplit]

theorem frozen_iff (ps : Set) (rec : Candidate) : Frozen pol now ↔
    ∃ w ∈ pol.freezeWindows, (Veto.freezeWindow w).Fails ps pol now rec := Iff.rfl

theorem vetoes_eq_nil_iff : vetoes ps pol now rec = [] ↔
    ¬ BelowFloor pol rec (pol.floor ps.serviceTier ps.failureClass) ∧
    bandRank (requestedBand rec) ≤ bandRank (pol.maxBandOf ps.serviceTier) ∧
    ¬ Irreversible pol rec ∧ ¬ Frozen pol now := by
  have hceiling : bandRank (requestedBand rec) ≤ bandRank (pol.maxBandOf ps.serviceTier) ↔
      ¬ Veto.authorityCeiling.Fails ps pol now rec := Nat.not_lt.symm
  have hundo : Irreversible pol rec ↔ Veto.irreversible.Fails ps pol now rec := Iff.rfl
  rw [vetoes_eq_nil, belowFloor_iff now, hceiling, hundo, frozen_iff ps rec]
  simp [Veto.all, or_imp, forall_and, and_assoc]

/-- The tier has a ceiling, one of the bands. -/
def CeilingListed (pol : Policy) (tier : String) : Prop :=
  ∃ ceiling, pol.maxBand.lookup tier = some ceiling ∧ ceiling ∈ canonicalBands

/-- The recommendation asks for a real band, within a real band that the policy lists. -/
def WithinCeiling (ps : Proposal.Set) (pol : Policy) : Prop :=
  ∃ rec ceiling, recommended ps = some rec ∧
    pol.maxBand.lookup ps.serviceTier = some ceiling ∧ ceiling ∈ canonicalBands ∧
    requestedBand rec ∈ canonicalBands ∧ bandRank (requestedBand rec) ≤ bandRank ceiling

/-- Only what is within the ceiling is approved or held.  Of the rest, what is not rejected
escalates. -/
structure FailsClosed (ps : Proposal.Set) (pol : Policy) (now : Time) : Prop where
  eligible : (evaluate ps pol now).verdict = .approved ∨
    (evaluate ps pol now).verdict = .hold → WithinCeiling ps pol
  escalated : (evaluate ps pol now).verdict ≠ .rejected → ¬ WithinCeiling ps pol →
    (evaluate ps pol now).verdict = .escalate

theorem maxBandOf_eq {ceiling : Band} (h : pol.maxBand.lookup ps.serviceTier = some ceiling) :
    pol.maxBandOf ps.serviceTier = ceiling := by
  rw [Policy.maxBandOf, h, Option.getD_some]

theorem ceilingListed_iff {tier : String} :
    CeilingListed pol tier ↔ pol.maxBandOf tier ∈ canonicalBands := by
  unfold CeilingListed Policy.maxBandOf
  cases pol.maxBand.lookup tier with
  | none => simp [canonicalBands]
  | some ceiling => simp

theorem withinCeiling_of_listed (hlisted : CeilingListed pol ps.serviceTier)
    (hrec : recommended ps = some rec) (hveto : vetoes ps pol now rec = []) :
    WithinCeiling ps pol := by
  obtain ⟨ceiling, hlookup, hceiling⟩ := hlisted
  obtain ⟨-, hrank, -⟩ := vetoes_eq_nil_iff.mp hveto
  rw [maxBandOf_eq hlookup] at hrank
  have hreal : requestedBand rec ∈ canonicalBands :=
    mem_canonicalBands.mpr (Nat.le_trans hrank (mem_canonicalBands.mp hceiling))
  exact ⟨rec, ceiling, hrec, hlookup, hceiling, hreal, hrank⟩

theorem evaluate_ineligible (h : ¬ ((evaluate ps pol now).verdict = .approved ∨
      (evaluate ps pol now).verdict = .hold)) :
    (evaluate ps pol now).verdict = .escalate ∨
      (evaluate ps pol now).verdict = .rejected := by
  cases evaluate_judged ps pol now with
  | rejected hv => exact .inr hv
  | escalated hv => exact .inl hv
  | held hv => exact absurd (.inr hv) h
  | approved hv => exact absurd (.inl hv) h

theorem failsClosed_iff_eligible : FailsClosed ps pol now ↔
    ((evaluate ps pol now).verdict = .approved ∨
      (evaluate ps pol now).verdict = .hold → WithinCeiling ps pol) := by
  refine ⟨FailsClosed.eligible, fun h => ⟨h, fun hrejected hout => ?_⟩⟩
  exact (evaluate_ineligible (mt h hout)).resolve_right hrejected

/-- Where no ceiling is listed there is no veto but those of the confidence, the undo and the
freeze. -/
theorem vetoes_of_unlisted (hunlisted : ¬ CeilingListed pol ps.serviceTier) :
    vetoes ps pol now rec = [] ↔ ¬ BelowFloor pol rec (pol.floor ps.serviceTier ps.failureClass) ∧
      ¬ Irreversible pol rec ∧ ¬ Frozen pol now := by
  have hrank := bandRank_le_of_foreign (mt ceilingListed_iff.mpr hunlisted) (requestedBand rec)
  rw [vetoes_eq_nil_iff]
  exact and_congr_right fun _ => and_iff_right hrank

/-- Under a policy that was loaded, the ceiling fails closed for a set exactly if the policy lists
a real band for its tier, or the set is withheld for another reason. -/
theorem evaluate_failsClosed_iff (readFile : String → Except String String)
    (unmarshal : String → Except String Policy) (path : String) (pol : Policy) :
    loadPolicy readFile unmarshal path = .ok pol → ∀ ps now,
      (FailsClosed ps pol now ↔ CeilingListed pol ps.serviceTier ∨ Withheld ps pol now) := by
  intro _ ps now
  rw [failsClosed_iff_eligible, evaluate_eligible_iff]
  constructor
  · intro hclosed
    rw [or_iff_not_imp_left]
    intro hunlisted
    by_contra hfree
    rw [Withheld, not_or, Bool.not_eq_false, not_forall] at hfree
    obtain ⟨hgate, rec, hrec⟩ := hfree
    rw [Classical.not_imp, not_or, not_or] at hrec
    obtain ⟨hrec, hvetoes⟩ := hrec
    -- The set is eligible, so it is within a ceiling that is listed.
    obtain ⟨_, ceiling, _, hlookup, hceiling, _⟩ :=
      hclosed ⟨rec, hrec, hgate, (vetoes_of_unlisted hunlisted).mpr hvetoes⟩
    exact hunlisted ⟨ceiling, hlookup, hceiling⟩
  · rintro (hlisted | hungated | hwithheld) ⟨rec, hrec, hgate, hveto⟩
    · exact withinCeiling_of_listed hlisted hrec hveto
    · exact absurd (hgate.symm.trans hungated) nofun
    · obtain ⟨hfloor, -, hundo, hfreeze⟩ := vetoes_eq_nil_iff.mp hveto
      rcases hwithheld rec hrec with h | h | h
      · exact absurd h hfloor
      · exact absurd h hundo
      · exact absurd h hfreeze

end

def drainSet : Proposal.Set where
  name := "ps:checkout"
  signalRef := "checkout"
  serviceTier := "tier-1"
  gate := some { passed := true }
  proposals :=
    [{ id := "c1", contractRef := "drain", confidence := 1, computedConfidence := 1
       governanceLevel := some { band := "act_disruptive" } }]
  recommended := "c1"

def ceilingPolicy : Policy where
  version := "v1"
  maxBand := [("tier-1", .actReversible)]

theorem drainSet_failsClosed : FailsClosed drainSet ceilingPolicy 1 :=
  (evaluate_failsClosed_iff (fun _ => .ok "maxBand") (fun _ => .ok ceilingPolicy) "policy.yaml"
    ceilingPolicy rfl drainSet 1).mpr (.inl ⟨.actReversible, by decide, by decide⟩)

/-- A policy that says no more than its version is loaded, and approves what it has no ceiling
for. -/
theorem unlistedCeiling_approves :
    loadPolicy (fun _ => .ok "version: v1") (fun _ => .ok { version := "v1" }) "policy.yaml" =
      .ok { version := "v1" } ∧
    (evaluate drainSet { version := "v1" } 1).verdict = .approved ∧
    (evaluate drainSet { version := "v1" } 1).grantedBand = .actDisruptive ∧
    ¬ FailsClosed drainSet { version := "v1" } 1 := by
  refine ⟨rfl, by decide +kernel, by decide +kernel, fun h => ?_⟩
  obtain ⟨_, _, _, hlookup, _⟩ := h.eligible (by decide +kernel)
  cases hlookup

/-! ## The version -/

/-- The decision on the set can be acted on: it is auditable, the actuator does not refuse it as
one that is not, and where it awaits a human an approval of it is published again. -/
structure Actionable (ps : Proposal.Set) (pol : Policy) (now : Time) : Prop where
  audited : (evaluate ps pol now).auditable = .ok ()
  rendered : (evaluate ps pol now).verdict = .approved → ∀ cat at' why,
    Thump.Actuator.render { decision := evaluate ps pol now, set := ps } cat at' ≠
      .error (.unauditable why)
  released : (evaluate ps pol now).verdict.awaitsApproval = true →
    ∀ (tr : Transport) (a : Approval) (w : Weather) (s : Desk), tr.policy = pol →
      s.holds.holds a.signalRef =
        some { decision := evaluate ps pol now, set := ps } →
      w.later.isZero = false → w.publish = .ok () →
      (tr.approveHandler a w s).2 = .ok () ∧
      (tr.approveHandler a w s).1.decisions = s.decisions ++
        [{ decision := tr.reissue
            { decision := evaluate ps pol now, set := ps } a w, set := ps }]

theorem render_auditable {g : Governed} (h : g.decision.auditable = .ok ())
    (cat : Contract.StaticCatalog) (now : Time) (why : String) :
    Thump.Actuator.render g cat now ≠ .error (.unauditable why) := by
  simp only [Thump.Actuator.render, h]
  intro hr
  split at hr
  · cases hr
  · split at hr
    · cases hr
    · split at hr
      · cases hr
      · split at hr <;> cases hr

theorem approveHandler_ok {tr : Transport} {a : Approval} {w : Weather} {s : Desk}
    {held : Governed} (hheld : s.holds.holds a.signalRef = some held)
    (hversion : tr.policy.version ≠ "") (hlater : w.later.isZero = false)
    (hpublish : w.publish = .ok ()) :
    (tr.approveHandler a w s).2 = .ok () ∧ (tr.approveHandler a w s).1.decisions =
        s.decisions ++ [{ decision := tr.reissue held a w, set := held.set }] := by
  rw [approveHandler_of_held hheld]
  rcases release_cases tr held a w
    { s with holds := (s.holds.take a.signalRef).2 } with ⟨hok, -, -, -, hs⟩ | ⟨-, -, hno⟩
  · exact ⟨hok, by rw [hs]⟩
  · exact absurd ⟨hversion, hlater, hpublish⟩ hno

/-- Under a policy that was loaded, what is decided at a time that is set can be acted on exactly
if the policy has a version. -/
theorem loaded_actionable_iff (readFile : String → Except String String)
    (unmarshal : String → Except String Policy) (path : String) (pol : Policy) :
    loadPolicy readFile unmarshal path = .ok pol → ∀ ps now, now.isZero = false →
      (Actionable ps pol now ↔ pol.version ≠ "") := by
  intro _ ps now hnow
  constructor
  · intro hact hversion
    have haudit := hact.audited
    obtain ⟨-, -, -, -, hstamp, -⟩ := evaluate_stamped ps pol now
    rw [Decision.auditable, if_pos (hstamp.trans hversion)] at haudit
    cases haudit
  · intro hversion
    have haudit : (evaluate ps pol now).auditable = .ok () :=
      evaluate_auditable hversion hnow
    refine ⟨haudit, fun _ => render_auditable haudit, ?_⟩
    intro _ tr a w s htr hheld hlater hpublish
    exact approveHandler_ok hheld (htr ▸ hversion) hlater hpublish

theorem drainSet_actionable :
    Actionable drainSet ceilingPolicy 1 :=
  (loaded_actionable_iff (fun _ => .ok "version: v1") (fun _ => .ok ceilingPolicy) "policy.yaml"
    ceilingPolicy rfl drainSet 1 (by decide)).mpr (by decide)

/-- A file that says nothing is a policy without a version: what it approves is refused by the
actuator, and what it holds cannot be released. -/
theorem unversionedPolicy_refused :
    loadPolicy (fun _ => .ok "") (fun _ => .ok {}) "policy.yaml" = .ok {} ∧
    (evaluate drainSet {} 1).verdict = .approved ∧
    Thump.Actuator.render { decision := evaluate drainSet {} 1, set := drainSet }
      {} 1 = .error (.unauditable "decision missing policy version") ∧
    ({ policy := {} } : Transport).approveHandler { signalRef := "checkout", approver := "op" }
      { later := 1 } holdingDesk =
        ({ holdingDesk with holds := (holdingDesk.holds.take "checkout").2 },
          .error "hiss: re-stamped decision not auditable: decision missing policy version") ∧
    ¬ Actionable drainSet {} 1 := by
  refine ⟨rfl, by decide +kernel, rfl, rfl, fun h => ?_⟩
  cases h.audited

/-! ## The cap of an approval -/

/-- `bandRank` of the cap. -/
def capRank (a : Approval) : Nat := bandRank (Band.ofText a.capBand)

/-- Whatever the clock and the publisher do, what the approval adds to the decisions grants no
band above its cap. -/
def CapKept (tr : Transport) (a : Approval) (s : Desk) : Prop :=
  ∀ w new, (tr.approveHandler a w s).1.decisions = s.decisions ++ new →
    ∀ g ∈ new, bandRank g.decision.grantedBand ≤ capRank a

/-- An approval keeps to its cap exactly if the held request does not outrank it, or the policy
has no version and nothing is re-issued.  A cap that is no band, as the empty one, is outranked by
nothing. -/
theorem capKept_iff (tr : Transport) (held : Governed) {a : Approval} {s : Desk}
    (hheld : s.holds.holds a.signalRef = some held) :
    CapKept tr a s ↔
      bandRank held.decision.requestedBand ≤ capRank a ∨ tr.policy.version = "" := by
  constructor
  · intro hkept
    rw [or_iff_not_imp_right]
    intro hversion
    have hpub := (approveHandler_ok (w := { later := 1 }) hheld hversion rfl rfl).2
    exact hkept { later := 1 } _ hpub _ (mem_singleton_self _)
  · intro h w new hnew g hg
    rw [approveHandler_of_held hheld] at hnew
    rcases release_cases tr held a w
      { s with holds := (s.holds.take a.signalRef).2 } with ⟨-, hversion, -, -, hs⟩ | ⟨-, hs, -⟩
    · rw [hs] at hnew
      obtain rfl := append_cancel_left hnew
      cases mem_singleton.mp hg
      exact h.resolve_right hversion
    · rw [hs] at hnew
      obtain rfl := self_eq_append_right.mp hnew
      cases hg

/-- The operator allows a reversible action on `checkout`. -/
def reversibleOnly : Approval where
  signalRef := "checkout"
  approver := "operator"
  capBand := "act_reversible"

theorem disruptiveCap_kept :
    CapKept { policy := ceilingPolicy } { reversibleOnly with capBand := "act_disruptive" }
      holdingDesk :=
  (capKept_iff { policy := ceilingPolicy } checkoutHold rfl).mpr (.inl (by decide))

/-- What is held is disruptive.  It is approved again at the band it asked for, above the cap. -/
theorem reversibleOnly_outranked :
    Band.ofText reversibleOnly.capBand ∈ canonicalBands ∧
    holdingDesk.holds.holds "checkout" = some checkoutHold ∧
    ((({ policy := ceilingPolicy } : Transport).approveHandler reversibleOnly { later := 1 }
      holdingDesk).1.decisions.map fun g =>
        (g.decision.verdict, g.decision.grantedBand)) = [(.approved, .actDisruptive)] ∧
    ¬ CapKept { policy := ceilingPolicy } reversibleOnly holdingDesk := by
  refine ⟨by decide, by decide, by decide, fun h => ?_⟩
  exact absurd (h { later := 1 } _ rfl _ (mem_singleton_self _)) (by decide)

end Beats.Hiss
