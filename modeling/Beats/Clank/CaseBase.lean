import Mathlib.Data.List.DropRight
import Beats.Clank.Ledger

/-!
# The learn edge

`Click` and `CaseBase` of `internal/clank`.  An outcome that is auditable and coherent moves the
newest open set of its fingerprint, and what happened is appended as a case.  The cases of a
fingerprint vote on the prior of its next scoring (`alignment`), in a window of those that were
appended (`remembers`).

The ledger moves before the case is appended, and an outcome that the case base refuses has moved it
nonetheless (`absorb_allOrNothing_iff`).  What a case votes with is a result that closes a set
(`closes_of_votes`).
-/

namespace Beats.Clank

open Proposal Outcome Lib List MemProposalLog

/-! ## Cases -/

/-- `Case`: one closed loop. -/
structure Case where
  runID : String := ""
  signalRef : String := ""
  decisionRef : String := ""
  outcomeRef : String := ""
  contractRef : String := ""
  failureClass : FailureClass := .other ""
  confidence : Rat := 0
  mode : Mode := .other ""
  result : Result := .other ""
  observedAt : Time := Time.zero
deriving DecidableEq

def Case.settled : Result → Bool
  | .success => true
  | .failure => true
  | .partialNonConverging => true
  | _ => false

/-- The case votes: it is live, and its result says whether the action worked. -/
def Case.votes (c : Case) : Bool := c.mode == .live && Case.settled c.result

/-- `CaseBase`.  A limit of zero or less stands for the default. -/
structure CaseBase where
  maxCases : Int := 0
  cases : List Case := []
deriving DecidableEq

namespace CaseBase

/-- How many cases are retained. -/
def limit (cb : CaseBase) : Int := if cb.maxCases ≤ 0 then 10000 else cb.maxCases

/-- The case can be traced back to a decision. -/
def provenanced (c : Case) : Bool :=
  c.signalRef != "" && c.outcomeRef != "" && c.decisionRef != "" && c.result != .other ""

/-- `CaseBase.Append`, which evicts the oldest case once the base is full.  It is `none`
where the case cannot be traced. -/
def append (cb : CaseBase) (c : Case) : Option CaseBase :=
  if provenanced c then
    some { cb with
      cases := (if cb.limit ≤ cb.cases.length then cb.cases.tail else cb.cases) ++ [c] }
  else none

/-- `CaseBase.Cases`. -/
def casesOf (cb : CaseBase) (fingerprint : String) : List Case :=
  cb.cases.filter fun c => c.signalRef == fingerprint

/-- The votes of a fingerprint and how many of them succeeded. -/
def tally (fingerprint : String) : List Case → Nat × Nat
  | [] => (0, 0)
  | c :: cs =>
    let (votes, successes) := tally fingerprint cs
    if c.signalRef ≠ fingerprint ∨ c.mode ≠ .live then (votes, successes)
    else match c.result with
      | .success => (votes + 1, successes + 1)
      | .failure => (votes + 1, successes)
      | .partialNonConverging => (votes + 1, successes)
      | _ => (votes, successes)

/-- How many votes make a prior. -/
def minCorroboration : Nat := 2

/-- The share of successes, once enough cases vote. -/
def alignment (cb : CaseBase) (fingerprint : String) : Rat × Bool :=
  let (votes, successes) := tally fingerprint cb.cases
  if votes < minCorroboration then (0, false) else ((successes : Rat) / votes, true)

theorem tally_eq (fingerprint : String) (cs : List Case) : tally fingerprint cs =
      (((cs.filter fun c => c.signalRef == fingerprint).filter Case.votes).length,
        ((cs.filter fun c => c.signalRef == fingerprint).filter Case.votes).countP fun c =>
          c.result == .success) := by
  induction cs with
  | nil => rfl
  | cons c cs ih =>
    rw [Prod.ext_iff] at ih ⊢
    by_cases hs : c.signalRef = fingerprint
    · by_cases hm : c.mode = .live
      · cases hr : c.result <;> simpa [tally, Case.votes, Case.settled, hs, hm, hr] using ih
      · simpa [tally, Case.votes, hs, hm] using ih
    · simpa [tally, hs] using ih

/-- There is a prior for a fingerprint exactly if enough of its cases vote, and it is the share of
them that succeeded. -/
theorem alignment_ok (cb : CaseBase) (fingerprint : String) : ((cb.alignment fingerprint).2 = true ↔
        minCorroboration ≤ ((cb.casesOf fingerprint).filter Case.votes).length) ∧
      ((cb.alignment fingerprint).2 = true → (cb.alignment fingerprint).1 =
        (((cb.casesOf fingerprint).filter Case.votes).countP fun c => c.result == .success : Nat) /
          ((cb.casesOf fingerprint).filter Case.votes).length) := by
  simp only [alignment, tally_eq, casesOf]
  split
  · exact ⟨iff_of_false nofun (by omega), nofun⟩
  · exact ⟨iff_of_true rfl (by omega), fun _ => rfl⟩

/-! ## The window -/

/-- `copy(dst, src)`. -/
def copied (dst src : List Case) : List Case := src.take dst.length ++ dst.drop src.length

/-- What `Append` does to a full slice: it shifts the cases in place and overwrites the last one. -/
def shifted (cs : List Case) (c : Case) : List Case := (copied cs cs.tail).set (cs.length - 1) c

theorem shifted_cons (x : Case) (cs : List Case) (c : Case) : shifted (x :: cs) c = cs ++ [c] := by
  obtain ⟨last, hlast⟩ : ∃ last, (x :: cs).drop cs.length = [last] := length_eq_one_iff.mp (by simp)
  rw [shifted, copied, tail_cons, hlast, take_of_length_le (by simp)]
  simp

theorem limit_pos (cb : CaseBase) : 0 < cb.limit := by
  unfold limit
  split <;> omega

/-- The eviction of a full base is the shift of the source. -/
theorem append_of_full {cb : CaseBase} {c : Case} (hp : provenanced c = true)
    (hfull : cb.limit ≤ cb.cases.length) :
    cb.append c = some { cb with cases := shifted cb.cases c } := by
  have hpos := cb.limit_pos
  rw [append, if_pos hp, if_pos hfull]
  cases hcs : cb.cases with
  | nil =>
    rw [hcs, length_nil] at hfull
    omega
  | cons x cs => rw [shifted_cons, tail_cons]

/-- Calls of `Append`, one after another.  A case that is refused leaves the base as it was. -/
def appendAll (cb : CaseBase) (cs : List Case) : CaseBase :=
  cs.foldl (fun cb c => (cb.append c).getD cb) cb

/-- The last cases that can be traced, as many as are retained. -/
def window (maxCases : Int) (cs : List Case) : List Case :=
  (cs.filter provenanced).rtake (limit { maxCases }).toNat

theorem rtake_concat {n : Nat} (hn : 0 < n) (l : List Case) (c : Case) : (l ++ [c]).rtake n =
      (if n ≤ (l.rtake n).length then (l.rtake n).tail else l.rtake n) ++ [c] := by
  simp only [rtake, length_append, length_singleton, length_drop, tail_drop]
  rw [drop_append_of_le_length (by omega)]
  split
  · congr 2
    omega
  · congr 2
    omega

theorem window_concat {maxCases : Int} {c : Case} (hp : provenanced c = true) (cs : List Case) :
    window maxCases (cs ++ [c]) =
      (if limit { maxCases } ≤ (window maxCases cs).length then (window maxCases cs).tail
        else window maxCases cs) ++ [c] := by
  have hpos := limit_pos { maxCases }
  have hle : limit { maxCases } ≤ (window maxCases cs).length ↔
      (limit { maxCases }).toNat ≤ (window maxCases cs).length := by omega
  rw [window, filter_append, filter_cons_of_pos hp, filter_nil, rtake_concat (by omega)]
  simp only [hle]
  rfl

theorem appendAll_eq (maxCases : Int) (cs : List Case) :
    appendAll { maxCases } cs = { maxCases, cases := window maxCases cs } := by
  induction cs using reverseRecOn with
  | nil => simp [appendAll, window, rtake]
  | append_singleton cs c ih =>
    rw [appendAll, foldl_concat, ← appendAll, ih, append]
    cases hp : provenanced c with
    | false => simp [window, hp]
    | true =>
      rw [window_concat hp]
      rfl

/-- The base holds the last cases that can be traced, as many as are retained, in the order they
were appended in.  There is a prior for a fingerprint exactly if two of its cases there vote, and it
is the share of the votes that succeeded. -/
theorem remembers (maxCases : Int) (cs : List Case) (fingerprint : String) :
    let cb := appendAll { maxCases } cs
    let votes := (cb.casesOf fingerprint).filter Case.votes
    cb.cases = window maxCases cs ∧
      ((cb.alignment fingerprint).2 = true ↔ 2 ≤ votes.length) ∧
      ((cb.alignment fingerprint).2 = true → (cb.alignment fingerprint).1 =
        (votes.countP fun c => c.result == .success : Nat) / votes.length) :=
  ⟨congrArg cases (appendAll_eq maxCases cs), alignment_ok _ fingerprint⟩

/-- A case that can be traced. -/
def tracedCase : Case :=
  { signalRef := "checkout", decisionRef := "dec:1", outcomeRef := "out:1", result := .success }

/-- A limit of zero does not empty the base. -/
theorem zero_retains : (appendAll { maxCases := 0 } [tracedCase]).cases = [tracedCase] ∧
    ([tracedCase].filter provenanced).rtake (0 : Int).toNat = [] := by
  decide

end CaseBase

/-! ## Click -/

/-- `Click`: the ledger and the case base. -/
structure Click where
  ledger : MemProposalLog := {}
  cases : CaseBase := {}

inductive AbsorbError where
  | unauditable (why : String)
  | incoherent (mode : Mode) (result : Result)
  | noOpenSet (signalRef : String)
  | unprovenanced (c : Case)

/-- The text of an error.  The dump of an untraced case is left out. -/
def AbsorbError.text : AbsorbError → String
  | .unauditable why => "click: outcome fails its audit invariant: " ++ why
  | .incoherent mode result =>
    "click: outcome mode and result disagree: mode " ++ Fmt.quote mode.text
      ++ " claims result " ++ Fmt.quote result.text
  | .noOpenSet ref => "click: no open proposal set answers to this outcome: " ++ ref
  | .unprovenanced _ => "click: a case that can't be traced is poison"

/-- `coherent`: a dry run renders, and nothing else does. -/
def coherent (o : Outcome) : Bool :=
  if o.mode = .dryRun then o.result == .rendered else o.result != .rendered

/-- The candidate that `newCase` takes the confidence of.  The loop of the source does not
stop at a match, so it is the last one with the recommended ID. -/
def recommendedCase (set : Proposal.Set) : Option Candidate :=
  set.proposals.foldl (fun found c => if c.id = set.recommended then some c else found) none

def newCase (set : Proposal.Set) (o : Outcome) : Case where
  runID := set.runID
  signalRef := o.signalRef
  decisionRef := o.decisionRef
  outcomeRef := o.id
  contractRef := o.contractRef
  failureClass := set.failureClass
  confidence := ((recommendedCase set).map Candidate.confidence).getD 0
  mode := o.mode
  result := o.result
  observedAt := o.executedAt

variable {o : Outcome} {set : Set} {l : MemProposalLog}

namespace Click

/-- An outcome is checked, attributed and learned from. -/
def absorb (c : Click) (o : Outcome) : Click × Except AbsorbError Unit :=
  match o.auditable with
  | .error why => (c, .error (.unauditable why))
  | .ok () =>
    if coherent o then
      match c.ledger.observe o with
      | none => (c, .error (.noOpenSet o.signalRef))
      | some (set, ledger) =>
        match c.cases.append (newCase set o) with
        | none => ({ c with ledger := ledger }, .error (.unprovenanced (newCase set o)))
        | some cases => ({ ledger := ledger, cases := cases }, .ok ())
    else (c, .error (.incoherent o.mode o.result))

/-- `learnHandler`: every outcome is acked, whatever `Absorb` says. -/
def learnHandler (c : Click) (o : Outcome) : Click := (c.absorb o).1

/-- `declineHandler`: every decline is acked, whatever `Decline` says. -/
def declineHandler (c : Click) (dec : Decision) : Click :=
  match c.ledger.decline dec.signalRef dec.evaluatedAt with
  | some (_, ledger) => { c with ledger := ledger }
  | none => c

/-! ## What an outcome does -/

def moved (c : Click) (o : Outcome) : Option (Proposal.Set × MemProposalLog) :=
  match o.auditable with
  | .error _ => none
  | .ok () => if coherent o then c.ledger.observe o else none

def learned (c : Click) (o : Outcome) : Option Case :=
  match c.moved o with
  | none => none
  | some (set, _) => if CaseBase.provenanced (newCase set o) then some (newCase set o) else none

theorem observe_of_moved {c : Click} {p : Set × MemProposalLog} (h : c.moved o = some p) :
    c.ledger.observe o = some p := by
  unfold moved at h
  cases ha : o.auditable with
  | error why => rw [ha] at h; cases h
  | ok _ =>
    rw [ha] at h
    cases hc : coherent o with
    | false => simp [hc] at h
    | true => simpa [hc] using h

theorem newCase_of_learned {c : Click} (h : (c.learned o).any Case.votes = true) :
    ∃ set, (newCase set o).votes = true := by
  unfold learned at h
  cases hm : c.moved o with
  | none => simp [hm] at h
  | some p =>
    obtain ⟨set, ledger⟩ := p
    cases hp : CaseBase.provenanced (newCase set o) with
    | false => simp [hm, hp] at h
    | true => exact ⟨set, by simpa [hm, hp] using h⟩

theorem absorb_fst (c : Click) (o : Outcome) : (c.absorb o).1 =
      { ledger := ((c.moved o).map Prod.snd).getD c.ledger
        cases := ((c.learned o).bind c.cases.append).getD c.cases } := by
  unfold absorb learned moved
  cases o.auditable with
  | error why => rfl
  | ok _ =>
    cases hc : coherent o with
    | false => rfl
    | true =>
      cases c.ledger.observe o with
      | none => rfl
      | some p =>
        obtain ⟨set, ledger⟩ := p
        cases hp : CaseBase.provenanced (newCase set o) <;> simp [CaseBase.append, hp]

theorem absorb_ledger (c : Click) (o : Outcome) :
    (c.absorb o).1.ledger = ((c.moved o).map Prod.snd).getD c.ledger := by
  rw [absorb_fst]

end Click

theorem closes_of_votes (h : (newCase set o).votes = true) (st : Status) :
    isOpen (transition st o).phase = false := by
  have hs : Case.settled o.result = true := by
    simp only [Case.votes, newCase, Bool.and_eq_true] at h
    exact h.2
  unfold transition
  cases hr : o.result <;> simp_all [Case.settled, isOpen]

/-! ## All or nothing -/

/-- An outcome that is not absorbed leaves the ledger and the case base as they were. -/
def Click.AllOrNothing (c : Click) (o : Outcome) : Prop :=
  ∀ err, (c.absorb o).2 = .error err → (c.absorb o).1 = c

/-- The outcome can be traced: it has an ID and a fingerprint. -/
def Traceable (o : Outcome) : Prop := o.id ≠ "" ∧ o.signalRef ≠ ""

/-- The newest open set of the fingerprint, if there is one, has the status that the outcome would
give it. -/
def MemProposalLog.Unmoved (l : MemProposalLog) (o : Outcome) : Prop :=
  ∀ r, (l.answering o.signalRef).getLast? = some r → r.update (fun st => transition st o) = r

/-- Of what the case base asks for, an auditable outcome can lack only its ID and fingerprint. -/
theorem provenanced_newCase (h : o.auditable = .ok ()) (set : Set) :
    CaseBase.provenanced (newCase set o) = true ↔ Traceable o := by
  have hdecision : o.decisionRef ≠ "" := by
    intro hd
    simp [auditable, hd] at h
  have hresult : o.result ≠ .other "" := by
    intro hr
    simp only [auditable, if_neg hdecision, hr, if_true] at h
    split at h
    · cases h
    · split at h <;> cases h
  simp [CaseBase.provenanced, newCase, Traceable, hdecision, hresult, and_comm]

/-- An outcome that moves a set leaves the ledger as it was exactly if the set stays as it is. -/
theorem observe_eq_self {l' : MemProposalLog} (h : l.observe o = some (set, l')) :
    l' = l ↔ l.Unmoved o := by
  obtain ⟨before, r, after, hsets, rfl, -, ha, hafter⟩ := move_split h
  have hnone : after.filter (Recorded.answers o.signalRef) = [] :=
    filter_eq_nil_iff.mpr fun r' hr' => Bool.eq_false_iff.mp (hafter r' hr')
  have hlast : (l.answering o.signalRef).getLast? = some r := by
    rw [answering, hsets, filter_append, filter_cons, ha, if_pos rfl,
      hnone, getLast?_concat]
  unfold Unmoved
  rw [hlast]
  constructor
  · intro hl r' hr'
    cases hr'
    have hsame := (congrArg sets hl).trans hsets
    exact (cons.inj (append_cancel_left hsame)).1
  · intro hr
    rw [hr r rfl, ← hsets]

theorem unmoved_of_observe_eq_none (h : l.observe o = none) : l.Unmoved o := by
  intro r hr
  have hnil : l.answering o.signalRef = [] :=
    updateNewest_eq_none (Option.map_eq_none_iff.mp h)
  rw [hnil] at hr
  cases hr

/-- Absorbing is all or nothing exactly for the outcomes that can be traced, for those that are
refused before the ledger is asked, and for those that move nothing. -/
theorem absorb_allOrNothing_iff (c : Click) (o : Outcome) :
    c.AllOrNothing o ↔
      Traceable o ∨ o.auditable ≠ .ok () ∨ coherent o = false ∨ c.ledger.Unmoved o := by
  unfold Click.AllOrNothing Click.absorb
  cases ha : o.auditable with
  | error why => simp
  | ok _ =>
    cases hc : coherent o with
    | false => simp
    | true =>
      cases ho : c.ledger.observe o with
      | none => simp [unmoved_of_observe_eq_none ho]
      | some p =>
        obtain ⟨set, ledger⟩ := p
        have htraced := provenanced_newCase ha set
        cases hp : CaseBase.provenanced (newCase set o) with
        | true => simp [CaseBase.append, hp, htraced.mp hp]
        | false =>
          have hnot : ¬ Traceable o := fun h => by simp [htraced.mpr h] at hp
          have hledger : { c with ledger := ledger } = c ↔ ledger = c.ledger :=
            ⟨fun h => congrArg Click.ledger h, fun h => by rw [h]⟩
          simp [CaseBase.append, hp, hnot, ← observe_eq_self ho, hledger]

def openCheckout : Recorded where
  set := { name := "ps:checkout", signalRef := "checkout", status := some { phase := .proposed } }
  recordedAt := 1

/-- A success that lacks its ID. -/
def anonymousSuccess : Outcome where
  decisionRef := "dec:checkout:1"
  signalRef := "checkout"
  mode := .live
  result := .success
  executedAt := 2

/-- The outcome is auditable and coherent and closes the set, and is then refused for its ID. -/
theorem anonymousSuccess_closes : anonymousSuccess.auditable = .ok () ∧
    coherent anonymousSuccess = true ∧
    (let c : Click := { ledger := { sets := [openCheckout] } }
    (∃ err, (c.absorb anonymousSuccess).2 = .error err) ∧
    (c.absorb anonymousSuccess).1.ledger.sets.map Recorded.closed = [true] ∧
    (c.absorb anonymousSuccess).1.cases.cases = [] ∧ ¬ c.AllOrNothing anonymousSuccess) := by
  refine ⟨rfl, rfl, ⟨_, rfl⟩, rfl, rfl, fun h => ?_⟩
  have hsame := congrArg (fun c => c.ledger.sets.map Recorded.closed) (h _ rfl)
  cases hsame

end Beats.Clank
