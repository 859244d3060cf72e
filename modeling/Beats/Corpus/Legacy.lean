import Beats.Corpus.Merge
import Beats.Hiss.Transport
import Beats.Lib.Delimited
import Beats.Lib.Digits

/-!
# Legacy corpora

`migrateLegacy` of `internal/corpus`: a corpus of the layout before its fields were tagged has lost
the fingerprint of a case where that field was renamed.  It is read off the ID of the decision, as
what stands between the mark of a decision and the last colon.

hiss mints the ID of a decision in two places, of the fingerprint and the second, and both are
read back.  `calipers force` mints one of its own, with a word between the two, and the word is
read as a part of the fingerprint (`recovered_iff`).
-/

namespace Beats.Corpus

open Clank Lib Decision List

/-! ## The migration -/

/-- The signal that a decision's ID names. -/
def signalRefFromDecisionRef (ref : String) : String :=
  match ref.toList.dropPrefix? "dec:".toList with
  | none => ""
  | some rest => String.ofList ((beforeLast ':' rest).getD [])

/-- A case of the untagged layout. -/
structure LegacyCase where
  fingerprint : String := ""
  signalRef : String := ""
  decisionRef : String := ""
  outcomeRef : String := ""
  contractRef : String := ""
  failureClass : Proposal.FailureClass := .other ""
  confidence : Rat := 0
  mode : Outcome.Mode := .other ""
  result : Outcome.Result := .other ""
  observedAt : Time := Time.zero

/-- A corpus of the untagged layout. -/
structure LegacyCorpus where
  cases : List LegacyCase := []
  minedAt : Time := Time.zero
  segments : List String := []

/-- The fingerprint of a case, from whichever source still has it. -/
def LegacyCase.recoveredRef (lc : LegacyCase) : String :=
  let signalRef := if lc.signalRef = "" then lc.fingerprint else lc.signalRef
  if signalRef = "" then signalRefFromDecisionRef lc.decisionRef else signalRef

/-- The case in the layout of today. -/
def LegacyCase.migrate (lc : LegacyCase) : Case where
  signalRef := lc.recoveredRef
  decisionRef := lc.decisionRef
  outcomeRef := lc.outcomeRef
  contractRef := lc.contractRef
  failureClass := lc.failureClass
  confidence := lc.confidence
  mode := lc.mode
  result := lc.result
  observedAt := lc.observedAt

/-- `migrateLegacy`, where the artifact was decoded. -/
def migrateLegacy (legacy : LegacyCorpus) : Corpus where
  version := corpusVersion
  cases := legacy.cases.map LegacyCase.migrate
  minedAt := legacy.minedAt
  segments := legacy.segments

/-! ## The IDs of decisions -/

/-- `runForce` of `internal/calipers`, up to the publisher.  The decision that an incident is held
by is approved in the name of the operator. -/
def runForce (incident : Option Governed) (fp operator : String) (idAt evaluatedAt : Time) :
    Except String Governed :=
  let notHeld := "calipers: " ++ fp ++ " is not currently held — nothing to force\n"
  match incident with
  | none => .error notHeld
  | some g =>
    if !g.decision.verdict.awaitsApproval then .error notHeld
    else
      let d : Decision :=
        { g.decision with
          id := "dec:" ++ fp ++ ":force:" ++ toString idAt.unix
          verdict := .approved
          grantedBand := g.decision.requestedBand
          reasons := []
          forced := true
          operator := operator
          evaluatedAt := evaluatedAt }
      match d.auditable with
      | .error why => .error ("calipers: " ++ why ++ "\n")
      | .ok () => .ok { g with decision := d }

/-- What mints the ID of a decision. -/
inductive Minter where
  | evaluate
  | approve
  | force
deriving DecidableEq

/-- The decisions that the governor mints for a signal. -/
inductive Minted (fp : String) : Minter → Decision → Prop where
  | evaluate (ps : Proposal.Set) (pol : Hiss.Policy) (now : Time) (hps : ps.signalRef = fp) :
      Minted fp .evaluate (Hiss.Authority.evaluate ps pol now)
  | approve (tr : Hiss.Transport) {held : Governed} (a : Approval) (w : Hiss.Weather)
      (hheld : held.decision.signalRef = fp) : Minted fp .approve (tr.reissue held a w)
  | force {incident : Option Governed} {operator : String} {idAt evaluatedAt : Time} {g : Governed}
      (hforce : runForce incident fp operator idAt evaluatedAt = .ok g) :
      Minted fp .force g.decision

/-- The fingerprint is read off the ID, and every legacy case of the decision that did not keep
another one is migrated to it. -/
structure Recovered (fp : String) (d : Decision) : Prop where
  ref : signalRefFromDecisionRef d.id = fp
  migrated : ∀ lc : LegacyCase, lc.decisionRef = d.id → lc.signalRef = "" ∨ lc.signalRef = fp →
    lc.fingerprint = "" ∨ lc.fingerprint = fp → lc.migrate.signalRef = fp

/-! ## What is read back -/

theorem colon_notMem_decimal (z : Int) : ':' ∉ Digits.decimal z := by
  intro hmem
  rcases Digits.mem_decimal hmem with h | h
  · cases h
  · cases h

/-- What stands between the mark of a decision and its second is read off the ID. -/
theorem signalRefFromDecisionRef_mark (text : String) (second : Int) :
    signalRefFromDecisionRef ("dec:" ++ text ++ ":" ++ toString second) = text := by
  have hlist : ("dec:" ++ text ++ ":" ++ toString second).toList =
      "dec:".toList ++ (text.toList ++ ':' :: Digits.decimal second) := by
    rw [String.toList_append, String.toList_append, String.toList_append, Digits.toList_toString,
      append_assoc, append_assoc]
    rfl
  have hdrop := dropPrefix?_append_of_beq (text.toList ++ ':' :: Digits.decimal second)
    (beq_self_eq_true "dec:".toList)
  rw [signalRefFromDecisionRef, hlist, hdrop]
  show String.ofList ((beforeLast ':' (text.toList ++ ':' :: Digits.decimal second)).getD []) = text
  rw [beforeLast_append (colon_notMem_decimal second), Option.getD_some, String.ofList_toList]

/-- A forced decision was minted with a word behind the fingerprint. -/
theorem id_of_runForce {incident : Option Governed} {fp operator : String}
    {idAt evaluatedAt : Time} {g : Governed}
    (h : runForce incident fp operator idAt evaluatedAt = .ok g) :
    g.decision.id = "dec:" ++ (fp ++ ":force") ++ ":" ++ toString idAt.unix := by
  have hid : "dec:" ++ fp ++ ":force:" ++ toString idAt.unix =
      "dec:" ++ (fp ++ ":force") ++ ":" ++ toString idAt.unix := by
    have hword : ":force:" = ":force" ++ ":" := rfl
    rw [hword, ← String.append_assoc, ← String.append_assoc]
  unfold runForce at h
  split at h
  · cases h
  · split at h
    · cases h
    · simp only at h
      split at h
      · cases h
      · cases h
        exact hid

/-- What the IDs of a minter say of the fingerprint. -/
def Minter.wrote (fp : String) : Minter → String
  | .evaluate => fp
  | .approve => fp
  | .force => fp ++ ":force"

theorem wrote_eq_iff (fp : String) {m : Minter} : m.wrote fp = fp ↔ m ≠ .force := by
  cases m with
  | evaluate | approve => simp [Minter.wrote]
  | force =>
    have hne : fp ++ ":force" ≠ fp := by
      intro h
      have hlen := congrArg String.length h
      rw [String.length_append] at hlen
      have hword : ":force".length = 6 := rfl
      omega
    simp [Minter.wrote, hne]

theorem Minted.signalRefFromDecisionRef {fp : String} {m : Minter} {d : Decision}
    (h : Minted fp m d) : signalRefFromDecisionRef d.id = m.wrote fp := by
  cases h with
  | evaluate ps pol now hps =>
    rw [(Hiss.Authority.evaluate_stamped ps pol now).1, Hiss.Authority.stamped, hps]
    exact signalRefFromDecisionRef_mark ..
  | approve tr a w hheld =>
    rw [Hiss.Transport.reissue, hheld]
    exact signalRefFromDecisionRef_mark ..
  | force hforce =>
    rw [id_of_runForce hforce]
    exact signalRefFromDecisionRef_mark ..

theorem recoveredRef_eq {fp : String} {lc : LegacyCase}
    (href : signalRefFromDecisionRef lc.decisionRef = fp)
    (hsignal : lc.signalRef = "" ∨ lc.signalRef = fp)
    (hprint : lc.fingerprint = "" ∨ lc.fingerprint = fp) : lc.recoveredRef = fp := by
  unfold LegacyCase.recoveredRef
  rcases hsignal with hs | hs <;> rcases hprint with hp | hp <;> by_cases hfp : fp = "" <;>
    simp [hs, hp, hfp, href]

/-- A fingerprint is recovered from the ID of a decision exactly if it was not `calipers force`
that minted it. -/
theorem recovered_iff {fp : String} {m : Minter} {d : Decision} (h : Minted fp m d) :
    Recovered fp d ↔ m ≠ .force := by
  rw [← wrote_eq_iff fp, ← h.signalRefFromDecisionRef]
  constructor
  · intro hrec
    exact hrec.ref
  · intro href
    refine ⟨href, fun lc hlc hsignal hprint => ?_⟩
    exact recoveredRef_eq (hlc ▸ href) hsignal hprint

/-- A set on a fingerprint with a colon. -/
def cephSet : Proposal.Set where
  signalRef := "slo_burn:ceph-cluster"

/-- The fingerprint is recovered from what hiss decides of the set. -/
theorem cephSet_recovered :
    Recovered "slo_burn:ceph-cluster" (Hiss.Authority.evaluate cephSet { version := "v1" } 0) :=
  (recovered_iff (.evaluate cephSet { version := "v1" } 0 rfl)).mpr (by decide)

/-- The held decision on `checkout`, forced. -/
def checkoutForced : Except String Governed :=
  runForce (some Hiss.Transport.checkoutHold) "checkout" "operator" 0 0

/-- The forced decision is of `checkout`, and a legacy case of it that lost its fingerprint is
migrated to another one. -/
theorem checkoutForced_misread : ∃ g, checkoutForced = .ok g ∧
    g.decision.signalRef = "checkout" ∧ Minted "checkout" .force g.decision ∧
    signalRefFromDecisionRef g.decision.id = "checkout:force" ∧
    (migrateLegacy { cases := [{ decisionRef := g.decision.id }] }).cases.map Case.signalRef =
      ["checkout:force"] ∧ ¬ Recovered "checkout" g.decision := by
  obtain ⟨g, hg⟩ : ∃ g, checkoutForced = .ok g := ⟨_, rfl⟩
  have hread : signalRefFromDecisionRef g.decision.id = "checkout:force" :=
    (Minted.force hg).signalRefFromDecisionRef
  have hname : g.decision.signalRef = "checkout" := by cases hg; rfl
  refine ⟨g, hg, hname, .force hg, hread, ?_, fun hrec => ?_⟩
  · have hlost : LegacyCase.recoveredRef { decisionRef := g.decision.id } = "checkout:force" :=
      hread
    rw [migrateLegacy, map_singleton, map_singleton, LegacyCase.migrate, hlost]
  · have := hrec.ref.symm.trans hread
    exact absurd this (by decide)

end Beats.Corpus
