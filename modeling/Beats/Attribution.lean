import Beats.Clank.CaseBase
import Beats.Hiss.Transport
import Beats.Lib.Machine
import Beats.Lib.Mailbox
import Beats.Thump.Reports

/-!
# Which set an outcome answers

The three beats around one ledger.  The engine records a set and publishes it, the governor decides
on it, perhaps twice, the actuator acts on a decision and publishes outcomes for it, and the learn
edge absorbs the outcomes.  Sets, decisions and outcomes stay in the mail until they are settled,
and any of them can be delivered again until then.

An outcome names its decision, and through it one set.  The ledger does not look at that: it moves
the newest open set of the fingerprint.  So an outcome of an earlier decision moves a later set
(`lateUndo_moves_later`), unless a set is recorded open only where no earlier set of its fingerprint
is open and nothing of one is in the mail (`outcomes_attributed`).

Sets are told apart by their run IDs, which carry the time of the run in nanoseconds and are taken
to be different.
-/

namespace Beats

open Proposal Decision Clank Lib MemProposalLog Mailbox
open List hiding set

/-! ## The machine -/

/-- An outcome on `thump.outcomes`, and the run of the set that its decision is about. -/
structure Answer where
  outcome : Outcome
  run : String

/-- An outcome moved a set: the run it answers, and the run of the set it moved. -/
structure Move where
  answers : String
  moved : String
deriving DecidableEq

/-- The state of the three beats. -/
structure Circuit where
  click : Click := {}
  /-- The sets on `thump.proposals`. -/
  proposals : Mailbox Proposal.Set := []
  /-- The decisions on `thump.decisions`. -/
  grants : Mailbox Governed := []
  outcomes : Mailbox Answer := []
  /-- The run IDs used so far. -/
  runs : List String := []
  /-- How many voting cases the outcome at a place has become. -/
  votes : Nat → Nat := fun _ => 0
  moves : List Move := []

inductive CircuitEvent where
  /-- The engine records a set, and publishes it if its gate passed and nothing fails. -/
  | record (now : Time) (set : Proposal.Set) (published : Bool)
  /-- The governor decides on a set. -/
  | govern (k : Nat) (pol : Hiss.Policy) (now : Time)
  /-- The governor re-issues a decision that a human has approved. -/
  | approve (k : Nat) (tr : Hiss.Transport) (a : Approval) (w : Hiss.Weather)
  /-- The actuator publishes an outcome of a decision. -/
  | act (k : Nat) (o : Outcome)
  /-- An outcome is delivered. -/
  | absorb (k : Nat)
  /-- A decline is delivered. -/
  | decline (dec : Decision)
  | settleProposal (k : Nat)
  | settleGrant (k : Nat)
  | settleOutcome (k : Nat)

namespace Circuit

/-- The set is open once it is recorded. -/
def opens (set : Proposal.Set) : Bool :=
  Recorded.answers set.signalRef { set := set, recordedAt := Time.zero }

/-- The state after a set was recorded, and published if it says so. -/
def recorded (s : Circuit) (now : Time) (set : Proposal.Set) (published : Bool) : Circuit :=
  { s with
    click := { s.click with ledger := s.click.ledger.record now set }
    proposals := if published && set.gatePassed then s.proposals.post set else s.proposals
    runs := s.runs ++ [set.runID] }

/-- The state after an outcome was delivered. -/
def absorbed (s : Circuit) (k : Nat) (a : Answer) : Circuit :=
  { s with
    click := s.click.learnHandler a.outcome
    moves := match s.click.moved a.outcome with
      | some (set, _) => s.moves ++ [{ answers := a.run, moved := set.runID }]
      | none => s.moves
    votes :=
      if (s.click.learned a.outcome).any Case.votes then Function.update s.votes k (s.votes k + 1)
      else s.votes }

def step (s : Circuit) : CircuitEvent → Option Circuit
  | .record now set published =>
    if s.runs.contains set.runID then none else some (s.recorded now set published)
  | .govern k pol now =>
    (s.proposals.read k).map fun set =>
      let d := Hiss.Authority.evaluate set pol now
      { s with grants := s.grants.post { decision := d, set := set } }
  | .approve k tr a w =>
    (s.grants.read k).map fun g =>
      { s with grants := s.grants.post { decision := tr.reissue g a w, set := g.set } }
  | .act k o =>
    (s.grants.read k).bind fun g =>
      if o.decisionRef = g.decision.id ∧ o.signalRef = g.decision.signalRef then
        some { s with outcomes := s.outcomes.post { outcome := o, run := g.set.runID } }
      else none
  | .absorb k => (s.outcomes.read k).map fun a => s.absorbed k a
  | .decline dec => some { s with click := s.click.declineHandler dec }
  | .settleProposal k => some { s with proposals := s.proposals.settle k }
  | .settleGrant k => some { s with grants := s.grants.settle k }
  | .settleOutcome k => some { s with outcomes := s.outcomes.settle k }

/-- The machine of the three beats. -/
def machine : Machine Circuit CircuitEvent where
  step := step

/-- No set of the fingerprint is open, and nothing of one is in the mail. -/
def clear (s : Circuit) (fingerprint : String) : Bool :=
  (s.click.ledger.answering fingerprint).isEmpty &&
    s.proposals.allLive (fun p => p.signalRef != fingerprint) &&
    s.grants.allLive (fun g => g.set.signalRef != fingerprint) &&
    s.outcomes.allLive fun a => a.outcome.signalRef != fingerprint

/-- A set is opened only where its signal is clear. -/
def orderly (s : Circuit) : CircuitEvent → Bool
  | .record _ set published =>
    !(opens set || (published && set.gatePassed)) || s.clear set.signalRef
  | _ => true

/-! ## What the handlers do

Each handler's publishing is an event of the machine, with the message it publishes. -/

section

variable {s : Circuit} {k : Nat} {g held : Governed} {w : Hiss.Weather} {desk : Hiss.Desk}

theorem step_govern {set : Set} {tr : Hiss.Transport} (hk : s.proposals.read k = some set)
    (hpub : (tr.handle set w desk).1.decisions = desk.decisions ++ [g]) :
    s.step (.govern k tr.policy w.now) = some { s with grants := s.grants.post g } := by
  rcases tr.handle_decisions set w desk with hnone | hone
  · rw [hnone] at hpub
    exact absurd hpub (by simp)
  · obtain rfl : _ = g := by simpa using hone.symm.trans hpub
    simp [step, hk, Hiss.Transport.judged]

theorem step_approve {tr : Hiss.Transport} {a : Approval} (hk : s.grants.read k = some held)
    (hheld : desk.holds.holds a.signalRef = some held)
    (hpub : (tr.approveHandler a w desk).1.decisions = desk.decisions ++ [g]) :
    s.step (.approve k tr a w) = some { s with grants := s.grants.post g } := by
  rw [Hiss.Transport.approveHandler_of_held hheld] at hpub
  rcases tr.release_cases held a w { desk with holds := (desk.holds.take a.signalRef).2 } with
    ⟨-, -, -, -, hone⟩ | ⟨-, hnone, -⟩
  · rw [hone] at hpub
    obtain rfl : _ = g := by simpa using hpub
    simp [step, hk]
  · rw [hnone] at hpub
    exact absurd hpub (by simp)

/-- What the actuator publishes on a decision, at once or later, is posted by `act`. -/
theorem step_act {o : Outcome} {tr : Thump.Transport} (hk : s.grants.read k = some g)
    (hpub : Thump.Reports tr g o) :
    s.step (.act k o) =
      some { s with outcomes := s.outcomes.post { outcome := o, run := g.set.runID } } := by
  obtain ⟨hd, hs⟩ := hpub.names
  simp [step, hk, hd, hs]

end

/-! ## Attribution -/

/-- Something of a set with that fingerprint and that run is in the mail. -/
inductive InFlight (s : Circuit) (fingerprint run : String) : Prop where
  | proposal (p : Proposal.Set) (live : s.proposals.Live p) (sig : p.signalRef = fingerprint)
      (runID : p.runID = run)
  | grant (g : Governed) (live : s.grants.Live g) (sig : g.set.signalRef = fingerprint)
      (runID : g.set.runID = run)
  | outcome (a : Answer) (live : s.outcomes.Live a) (sig : a.outcome.signalRef = fingerprint)
      (runID : a.run = run)

/-- Every outcome that moved a set moved the one it answers, and none voted twice. -/
structure Attributed (s : Circuit) : Prop where
  moves : ∀ m ∈ s.moves, m.answers = m.moved
  votes : ∀ k, s.votes k ≤ 1

/-- What keeps a run attributed: a fingerprint with something in the mail has at most one open
row, which is of the same run, and none once an outcome in the mail has voted. -/
structure Invariant (s : Circuit) : Prop where
  attributed : s.Attributed
  coherent : ∀ g, s.grants.Live g → g.decision.signalRef = g.set.signalRef
  own : ∀ fingerprint run, s.InFlight fingerprint run →
    ∀ r ∈ s.click.ledger.answering fingerprint, r.set.runID = run
  one : ∀ fingerprint run, s.InFlight fingerprint run →
    (s.click.ledger.answering fingerprint).length ≤ 1
  spent : ∀ k a, s.outcomes.read k = some a → s.votes k ≠ 0 →
    s.click.ledger.answering a.outcome.signalRef = []
  unread : ∀ k, s.outcomes.length ≤ k → s.votes k = 0

section

variable {s s' : Circuit} {fingerprint run : String}

variable {set : Set} {k : Nat} {a : Answer}

/-! ### Mail -/

theorem InFlight.congr (h : s'.InFlight fingerprint run) (hp : s'.proposals = s.proposals)
    (hg : s'.grants = s.grants) (ho : s'.outcomes = s.outcomes) : s.InFlight fingerprint run := by
  cases h with
  | proposal p hl hs hr => exact .proposal p (hp ▸ hl) hs hr
  | grant g hl hs hr => exact .grant g (hg ▸ hl) hs hr
  | outcome a hl hs hr => exact .outcome a (ho ▸ hl) hs hr

/-- The events that only move mail, and put nothing in it that was not there under another
name. -/
theorem Invariant.of_mail (h : s.Invariant) (hclick : s'.click = s.click)
    (hvotes : s'.votes = s.votes) (hmoves : s'.moves = s.moves)
    (hflight : ∀ fingerprint run, s'.InFlight fingerprint run → s.InFlight fingerprint run)
    (hgrants : ∀ g, s'.grants.Live g → g.decision.signalRef = g.set.signalRef)
    (hread : ∀ k a, s'.outcomes.read k = some a → s.outcomes.read k = some a ∨ s.votes k = 0)
    (hlen : s.outcomes.length ≤ s'.outcomes.length) : s'.Invariant := by
  refine ⟨⟨hmoves ▸ h.attributed.moves, hvotes ▸ h.attributed.votes⟩, hgrants, ?_, ?_, ?_, ?_⟩
  · intro f r hf
    rw [hclick]
    exact h.own f r (hflight f r hf)
  · intro f r hf
    rw [hclick]
    exact h.one f r (hflight f r hf)
  · intro k a hk hv
    rw [hclick]
    rw [hvotes] at hv
    rcases hread k a hk with hk | hk
    · exact h.spent k a hk hv
    · exact absurd hk hv
  · intro k hk
    rw [hvotes]
    exact h.unread k (Nat.le_trans hlen hk)

theorem Invariant.settle (h : s.Invariant) (hclick : s'.click = s.click)
    (hvotes : s'.votes = s.votes) (hmoves : s'.moves = s.moves)
    (hp : ∀ p, s'.proposals.Live p → s.proposals.Live p)
    (hg : ∀ g, s'.grants.Live g → s.grants.Live g)
    (ho : ∀ a, s'.outcomes.Live a → s.outcomes.Live a)
    (hread : ∀ k a, s'.outcomes.read k = some a → s.outcomes.read k = some a)
    (hlen : s.outcomes.length ≤ s'.outcomes.length) : s'.Invariant := by
  refine h.of_mail hclick hvotes hmoves ?_ (fun g hl => h.coherent g (hg g hl))
    (fun k a hk => .inl (hread k a hk)) hlen
  intro f r hf
  cases hf with
  | proposal p hl hs hr => exact .proposal p (hp p hl) hs hr
  | grant g hl hs hr => exact .grant g (hg g hl) hs hr
  | outcome a hl hs hr => exact .outcome a (ho a hl) hs hr

variable {g : Governed} {l l' : MemProposalLog} {now : Time} {published : Bool}

theorem Invariant.post_grant (h : s.Invariant) (hsig : g.decision.signalRef = g.set.signalRef)
    (hset : s.InFlight g.set.signalRef g.set.runID) :
    ({ s with grants := s.grants.post g } : Circuit).Invariant := by
  refine h.of_mail rfl rfl rfl ?_ ?_ (fun k a hk => .inl hk) (Nat.le_refl _)
  · intro f r hf
    cases hf with
    | proposal p hl hs hr => exact .proposal p hl hs hr
    | outcome a hl hs hr => exact .outcome a hl hs hr
    | grant g' hl hs hr =>
      rcases live_post.mp hl with hl | rfl
      · exact .grant g' hl hs hr
      · rw [← hs, ← hr]
        exact hset
  · intro g' hl
    rcases live_post.mp hl with hl | rfl
    · exact h.coherent g' hl
    · exact hsig

theorem Invariant.post_outcome (h : s.Invariant) (hg : s.grants.Live g) {o : Outcome}
    (hsig : o.signalRef = g.decision.signalRef) :
    ({ s with outcomes := s.outcomes.post { outcome := o, run := g.set.runID } } :
      Circuit).Invariant := by
  refine h.of_mail rfl rfl rfl ?_ h.coherent ?_ ?_
  · intro f r hf
    cases hf with
    | proposal p hl hs hr => exact .proposal p hl hs hr
    | grant g' hl hs hr => exact .grant g' hl hs hr
    | outcome a hl hs hr =>
      rcases live_post.mp hl with hl | rfl
      · exact .outcome a hl hs hr
      · have hset : g.set.signalRef = f := by
          rw [← h.coherent g hg, ← hsig]
          exact hs
        exact .grant g hg hset hr
  · intro k a hk
    rcases read_post hk with hk | ⟨rfl, -⟩
    · exact .inl hk
    · exact .inr (h.unread _ (Nat.le_refl _))
  · rw [length_post]
    exact Nat.le_succ _

/-! ### The ledger -/

/-- The ledger has moved rows, and opened none. -/
def Shrinks (l l' : MemProposalLog) : Prop :=
  ∀ f, (l'.answering f).length ≤ (l.answering f).length ∧
    ∀ r' ∈ l'.answering f, ∃ r ∈ l.answering f, r.set.runID = r'.set.runID

theorem Shrinks.refl (l : MemProposalLog) : Shrinks l l :=
  fun _ => ⟨Nat.le_refl _, fun r hr => ⟨r, hr, rfl⟩⟩

theorem Shrinks.eq_nil (h : Shrinks l l') (hnil : l.answering fingerprint = []) :
    l'.answering fingerprint = [] := by
  have hle := (h fingerprint).1
  rw [hnil] at hle
  exact length_eq_zero_iff.mp (Nat.le_zero.mp hle)

theorem shrinks_move {f : String} {g : Status → Status} (h : l.move f g = some (set, l')) :
    Shrinks l l' := by
  obtain ⟨⟨older, r, hl, -, hl'⟩, hother⟩ := answering_move h
  intro f'
  by_cases hf : f' = f
  · subst hf
    rw [hl, hl']
    constructor
    · have := length_filter_le (Recorded.answers f') [r.update g]
      simp only [length_append, length_singleton] at this ⊢
      omega
    · intro r' hr'
      rcases mem_append.mp hr' with hr' | hr'
      · exact ⟨r', mem_append_left _ hr', rfl⟩
      · rw [mem_singleton.mp (mem_filter.mp hr').1]
        exact ⟨r, by simp, rfl⟩
  · rw [hother f' hf]
    exact ⟨Nat.le_refl _, fun r' hr' => ⟨r', hr', rfl⟩⟩

theorem Invariant.of_shrinks (h : s.Invariant) (click : Click)
    (hs : Shrinks s.click.ledger click.ledger) :
    ({ s with click := click } : Circuit).Invariant := by
  have hflight {f r : String} (hf : ({ s with click := click } : Circuit).InFlight f r) :
      s.InFlight f r := hf.congr rfl rfl rfl
  refine ⟨⟨h.attributed.moves, h.attributed.votes⟩, h.coherent, ?_, ?_, ?_, h.unread⟩
  · intro f run hf r' hr'
    obtain ⟨r, hr, he⟩ := (hs f).2 r' hr'
    rw [← he]
    exact h.own f run (hflight hf) r hr
  · intro f run hf
    exact Nat.le_trans (hs f).1 (h.one f run (hflight hf))
  · intro k a hk hv
    exact hs.eq_nil (h.spent k a hk hv)

theorem Invariant.decline (h : s.Invariant) (dec : Decision) :
    ({ s with click := s.click.declineHandler dec } : Circuit).Invariant := by
  refine h.of_shrinks _ ?_
  unfold Click.declineHandler
  cases hm : s.click.ledger.decline dec.signalRef dec.evaluatedAt with
  | none => exact Shrinks.refl _
  | some p => exact shrinks_move hm

/-! ### Recording a set -/

/-- A clear fingerprint has no open row, and nothing of it is in the mail. -/
theorem clear_iff : s.clear fingerprint = true ↔
    s.click.ledger.answering fingerprint = [] ∧ ∀ run, ¬ s.InFlight fingerprint run := by
  simp only [clear, Bool.and_eq_true, List.isEmpty_iff, allLive_iff, bne_iff_ne]
  constructor
  · rintro ⟨⟨⟨hnil, hp⟩, hg⟩, ho⟩
    refine ⟨hnil, fun run hf => ?_⟩
    cases hf with
    | proposal p hl hs _ => exact hp p hl hs
    | grant g hl hs _ => exact hg g hl hs
    | outcome a hl hs _ => exact ho a hl hs
  · rintro ⟨hnil, hno⟩
    exact ⟨⟨⟨hnil, fun p hl hs => hno _ (.proposal p hl hs rfl)⟩,
      fun g hl hs => hno _ (.grant g hl hs rfl)⟩, fun a hl hs => hno _ (.outcome a hl hs rfl)⟩

/-- Recording a set changes the rows that answer only for its own fingerprint, and only if
the set is open. -/
theorem answering_recorded (l : MemProposalLog) (now : Time) (set : Set) (f : String) :
    (l.record now set).answering f = l.answering f ∨
      (f = set.signalRef ∧ opens set = true ∧ (l.record now set).answering f =
        l.answering f ++ [{ set := set, recordedAt := now }]) := by
  rw [answering_record]
  cases ha : Recorded.answers f { set := set, recordedAt := now } with
  | false => simp [ha]
  | true =>
    have hf : set.signalRef = f ∧ Recorded.open { set := set, recordedAt := now } = true := by
      simpa [Recorded.answers] using ha
    refine .inr ⟨hf.1.symm, ?_, by simp [ha]⟩
    simpa [opens, Recorded.answers, Recorded.open] using hf.2

theorem InFlight.of_recorded (h : (s.recorded now set published).InFlight fingerprint run) :
    s.InFlight fingerprint run ∨ (fingerprint = set.signalRef ∧ run = set.runID ∧
      (published && set.gatePassed) = true) := by
  cases h with
  | grant g hl hs hr => exact .inl (.grant g hl hs hr)
  | outcome a hl hs hr => exact .inl (.outcome a hl hs hr)
  | proposal p hl hs hr =>
    cases hpub : (published && set.gatePassed) with
    | false =>
      simp only [recorded, hpub] at hl
      exact .inl (.proposal p hl hs hr)
    | true =>
      simp only [recorded, hpub, if_true] at hl
      rcases live_post.mp hl with hl | rfl
      · exact .inl (.proposal p hl hs hr)
      · exact .inr ⟨hs.symm, hr.symm, rfl⟩

theorem Invariant.recorded (h : s.Invariant) (ho : s.orderly (.record now set published) = true) :
    (s.recorded now set published).Invariant := by
  have hclear (hnew : opens set = true ∨ (published && set.gatePassed) = true) :
      s.click.ledger.answering set.signalRef = [] ∧ ∀ run, ¬ s.InFlight set.signalRef run := by
    rw [← clear_iff]
    rcases hnew with hnew | hnew <;> simpa [orderly, hnew] using ho
  have hrows := answering_recorded s.click.ledger now set
  -- What was in the mail before keeps its rows.
  have hold {f run : String} (hf : s.InFlight f run) :
      (s.click.ledger.record now set).answering f = s.click.ledger.answering f := by
    rcases hrows f with hsame | ⟨rfl, hopen, -⟩
    · exact hsame
    · exact absurd hf ((hclear (.inl hopen)).2 run)
  -- What is new in the mail has at most the new row.
  have hnew (hpub : (published && set.gatePassed) = true) :
      (s.click.ledger.record now set).answering set.signalRef = [] ∨
        (s.click.ledger.record now set).answering set.signalRef =
          [{ set := set, recordedAt := now }] := by
    have hnil := (hclear (.inr hpub)).1
    rcases hrows set.signalRef with hsame | ⟨-, -, hone⟩
    · exact .inl (hsame.trans hnil)
    · rw [hnil] at hone
      exact .inr hone
  refine ⟨⟨h.attributed.moves, h.attributed.votes⟩, h.coherent, ?_, ?_, ?_, h.unread⟩
  · intro f run hf r hr
    replace hr : r ∈ (s.click.ledger.record now set).answering f := hr
    rcases hf.of_recorded with hf | ⟨rfl, rfl, hpub⟩
    · rw [hold hf] at hr
      exact h.own f run hf r hr
    · rcases hnew hpub with hnil | hone
      · rw [hnil] at hr
        cases hr
      · rw [hone] at hr
        rw [mem_singleton.mp hr]
  · intro f run hf
    show ((s.click.ledger.record now set).answering f).length ≤ 1
    rcases hf.of_recorded with hf | ⟨rfl, rfl, hpub⟩
    · rw [hold hf]
      exact h.one f run hf
    · rcases hnew hpub with hnil | hone
      · simp [hnil]
      · simp [hone]
  · intro k a hk hv
    exact (hold (.outcome a (live_of_read hk) rfl rfl)).trans (h.spent k a hk hv)

/-! ### Absorbing an outcome -/

theorem filter_update_of_votes {click : Click} {o : Outcome} {r : Recorded}
    (hv : (click.learned o).any Case.votes = true) (ha : r.answers o.signalRef = true) :
    [r.update fun st => transition st o].filter (Recorded.answers o.signalRef) = [] := by
  obtain ⟨set, hvote⟩ := Click.newCase_of_learned hv
  have hclosed := answers_update (fun st => closes_of_votes hvote st) ha
  simp [hclosed]

theorem votes_absorbed (hk : s.votes k = 0) (j : Nat) :
    (s.absorbed k a).votes j = s.votes j ∨ (j = k ∧ (s.absorbed k a).votes j = 1 ∧
      (s.click.learned a.outcome).any Case.votes = true) := by
  simp only [absorbed]
  cases hv : (s.click.learned a.outcome).any Case.votes with
  | false => exact .inl rfl
  | true =>
    by_cases hj : j = k
    · subst hj
      exact .inr ⟨rfl, by simp [hk], rfl⟩
    · exact .inl (Function.update_of_ne hj _ _)

/-- An outcome moves the one open row of its fingerprint, which is of its own run.  If it
votes then it had not voted, and the row is closed. -/
theorem Invariant.absorbed_moved (h : s.Invariant)
    {ledger : MemProposalLog} (hk : s.outcomes.read k = some a)
    (hm : s.click.moved a.outcome = some (set, ledger)) : (s.absorbed k a).Invariant := by
  have hobs := Click.observe_of_moved hm
  have hledger : (s.click.learnHandler a.outcome).ledger = ledger := by
    rw [Click.learnHandler, Click.absorb_ledger, hm]
    rfl
  have hinv := h.of_shrinks (s.click.learnHandler a.outcome) (hledger ▸ shrinks_move hobs)
  obtain ⟨⟨older, r, hl, hset, hl'⟩, -⟩ := answering_move hobs
  have hr : r ∈ s.click.ledger.answering a.outcome.signalRef := by simp [hl]
  have hflight : s.InFlight a.outcome.signalRef a.run := .outcome a (live_of_read hk) rfl rfl
  have hrun : set.runID = a.run := by
    rw [hset]
    exact h.own _ _ hflight r hr
  have hzero : s.votes k = 0 := by
    by_contra hv
    rw [h.spent k a hk hv] at hr
    cases hr
  have holder : older = [] := by
    have hone := h.one _ _ hflight
    rw [hl, length_append, length_singleton] at hone
    exact length_eq_zero_iff.mp (by omega)
  have hvotes := s.votes_absorbed (a := a) hzero
  refine ⟨⟨?_, ?_⟩, h.coherent, fun f run hf => hinv.own f run (hf.congr rfl rfl rfl),
    fun f run hf => hinv.one f run (hf.congr rfl rfl rfl), ?_, ?_⟩
  · intro m hmem
    simp only [absorbed, hm] at hmem
    rcases mem_append.mp hmem with hmem | hmem
    · exact h.attributed.moves m hmem
    · rw [mem_singleton.mp hmem, hrun]
  · intro j
    rcases hvotes j with hj | ⟨-, hj, -⟩
    · rw [hj]
      exact h.attributed.votes j
    · exact Nat.le_of_eq hj
  · intro j a' hj hv
    rcases hvotes j with hsame | ⟨rfl, -, hvote⟩
    · rw [hsame] at hv
      exact hinv.spent j a' hj hv
    · obtain rfl : a' = a := Option.some.inj (hj.symm.trans hk)
      show (s.click.learnHandler a'.outcome).ledger.answering a'.outcome.signalRef = []
      rw [hledger, hl', holder, nil_append]
      exact filter_update_of_votes hvote (mem_filter.mp hr).2
  · intro j hj
    rcases hvotes j with hsame | ⟨rfl, -, -⟩
    · exact hsame.trans (h.unread j hj)
    · exact absurd (lt_of_read hk) (Nat.not_lt.mpr hj)

theorem Invariant.absorbed (h : s.Invariant)
    (hk : s.outcomes.read k = some a) : (s.absorbed k a).Invariant := by
  cases hm : s.click.moved a.outcome with
  | some p => exact h.absorbed_moved hk hm
  | none =>
    have heq : s.absorbed k a = { s with click := s.click.learnHandler a.outcome } := by
      simp [Circuit.absorbed, Click.learned, hm]
    rw [heq]
    refine h.of_shrinks _ ?_
    rw [Click.learnHandler, Click.absorb_ledger, hm]
    exact Shrinks.refl _

/-! ### Runs -/

/-- Every event that meets the condition keeps the outcomes attributed. -/
theorem Invariant.step (h : s.Invariant) {ev : CircuitEvent} (hc : s.orderly ev = true)
    (hs : s.step ev = some s') : s'.Invariant := by
  cases ev with
  | record now set published =>
    simp only [Circuit.step] at hs
    split at hs
    · cases hs
    · cases hs
      exact h.recorded hc
  | govern k pol now =>
    obtain ⟨set, hk, rfl⟩ := Option.map_eq_some_iff.mp hs
    have hsig := (Hiss.Authority.evaluate_stamped set pol now).2.1
    exact h.post_grant hsig (.proposal set (live_of_read hk) rfl rfl)
  | approve k tr a w =>
    obtain ⟨g, hk, rfl⟩ := Option.map_eq_some_iff.mp hs
    have hlive := live_of_read hk
    -- A re-issue keeps the fingerprint of the decision.
    exact h.post_grant (h.coherent g hlive) (.grant g hlive rfl rfl)
  | act k o =>
    obtain ⟨g, hk, hs⟩ := Option.bind_eq_some_iff.mp hs
    split at hs
    · rename_i hrefs
      cases hs
      exact h.post_outcome (live_of_read hk) hrefs.2
    · cases hs
  | absorb k =>
    obtain ⟨a, hk, rfl⟩ := Option.map_eq_some_iff.mp hs
    exact h.absorbed hk
  | decline dec =>
    cases hs
    exact h.decline dec
  | settleProposal k =>
    cases hs
    exact h.settle rfl rfl rfl (fun p => live_of_settle) (fun g hl => hl)
      (fun a hl => hl) (fun j a hj => hj) (Nat.le_refl _)
  | settleGrant k =>
    cases hs
    exact h.settle rfl rfl rfl (fun p hl => hl) (fun g => live_of_settle)
      (fun a hl => hl) (fun j a hj => hj) (Nat.le_refl _)
  | settleOutcome k =>
    cases hs
    exact h.settle rfl rfl rfl (fun p hl => hl) (fun g hl => hl)
      (fun a => live_of_settle) (fun j a => read_of_settle)
      (Nat.le_of_eq length_settle.symm)

theorem invariant_start (click : Click) : Invariant { click := click } := by
  have hnone {f run : String} : ¬ InFlight { click := click } f run := by
    intro hf
    cases hf with
    | proposal p hl _ _ => exact not_live_nil hl
    | grant g hl _ _ => exact not_live_nil hl
    | outcome a hl _ _ => exact not_live_nil hl
  refine ⟨⟨?_, fun k => Nat.zero_le 1⟩, fun g hl => absurd hl not_live_nil,
    fun f run hf => absurd hf hnone, fun f run hf => absurd hf hnone, ?_, fun k _ => rfl⟩
  · intro m hm
    cases hm
  · intro k a hk
    exact absurd (live_of_read hk) not_live_nil

/-- In every run in which a set is recorded open or published only where its fingerprint is
clear, every outcome that moves a set moves the one its decision is about, and becomes one
voting case at most. -/
theorem outcomes_attributed {click : Click} {es : List CircuitEvent}
    (ha : machine.Along (fun s ev => s.orderly ev = true) { click := click } es)
    (hr : machine.run { click := click } es = some s) :
    (∀ m ∈ s.moves, m.answers = m.moved) ∧ ∀ k, s.votes k ≤ 1 := by
  have hinv := Machine.run_invariant (fun s ev s' h hc hs => h.step hc hs)
    (invariant_start click) ha hr
  exact ⟨hinv.attributed.moves, hinv.attributed.votes⟩

end

/-! ## Two incidents -/

def incident (runID : String) : Proposal.Set where
  name := "ps:checkout"
  runID := runID
  signalRef := "checkout"
  serviceTier := "tier1"
  gate := some { passed := true }
  proposals := [{ id := "c1", contractRef := "throttle" }]
  recommended := "c1"
  status := some { phase := .proposed }

/-- A policy that grants it unattended. -/
def openPolicy : Hiss.Policy where
  version := "v1"
  maxBand := [("tier1", .actDisruptive)]
  autoBand := [("tier1", .actDisruptive)]

def answerTo (decisionRef id : String) (result : Outcome.Result) : Outcome where
  id := id
  decisionRef := decisionRef
  signalRef := "checkout"
  contractRef := "throttle"
  mode := .live
  result := result
  executedAt := 0

/-- An incident that is acted on and converges, whose outcome is delivered twice.  All its
messages are settled before the next incident, which is acted on as well. -/
def twoIncidents : List CircuitEvent :=
  [.record 0 (incident "checkout/1") true, .govern 0 openPolicy 0,
    .act 0 (answerTo "dec:checkout:0" "out:checkout:0" .applied), .absorb 0,
    .act 0 (answerTo "dec:checkout:0" "out:checkout:conv:300" .success), .absorb 1, .absorb 1,
    .settleProposal 0, .settleGrant 0, .settleOutcome 0, .settleOutcome 1,
    .record 900000000000 (incident "checkout/2") true, .govern 1 openPolicy 900000000000,
    .act 1 (answerTo "dec:checkout:900" "out:checkout:900" .applied), .absorb 2]

theorem twoIncidents_attributed :
    ∃ s, machine.run {} twoIncidents = some s ∧ s.moves.length = 3 ∧ s.votes 1 = 1 ∧
      (∀ m ∈ s.moves, m.answers = m.moved) ∧ ∀ k, s.votes k ≤ 1 := by
  obtain ⟨s, hs, hmoves, hvotes⟩ : ∃ s, machine.run {} twoIncidents = some s ∧
      s.moves.length = 3 ∧ s.votes 1 = 1 := ⟨_, rfl, by decide +kernel, by decide +kernel⟩
  exact ⟨s, hs, hmoves, hvotes, outcomes_attributed (by decide +kernel) hs⟩

/-- The undo of the first incident comes after its convergence, and after the set of the next
incident is recorded.  The convergence is delivered once more. -/
def lateUndo : List CircuitEvent :=
  [.record 0 (incident "checkout/1") true, .govern 0 openPolicy 0,
    .act 0 (answerTo "dec:checkout:0" "out:checkout:conv:300" .success), .absorb 0,
    .record 300000000000 (incident "checkout/2") true,
    .act 0 (answerTo "dec:checkout:0" "out:checkout:300" .applied), .absorb 1, .absorb 0]

/-- The undo and the second delivery both move the later set, and one outcome has two votes. -/
theorem lateUndo_moves_later :
    ∃ s, machine.run {} lateUndo = some s ∧
      s.moves = [{ answers := "checkout/1", moved := "checkout/1" },
        { answers := "checkout/1", moved := "checkout/2" },
        { answers := "checkout/1", moved := "checkout/2" }] ∧
      s.votes 0 = 2 ∧ ¬ ((∀ m ∈ s.moves, m.answers = m.moved) ∧ ∀ k, s.votes k ≤ 1) := by
  refine ⟨_, rfl, by decide +kernel, by decide +kernel, fun h => ?_⟩
  exact absurd (h.2 0) (by decide +kernel)

end Circuit

end Beats
