import Beats.Clank.CaseBase
import Beats.Lib.Machine
import Beats.Lib.SliceSort

/-!
# Rebuilding the ledger

`rebuildLedger` of `internal/clank`, which a restart runs over the histories of `thump.proposals`,
`thump.outcomes` and `thump.declines`: the three are drained one after the other, sorted by the time
they were stored at, and replayed.

The live process folds the same messages with other functions.  `Record` prunes and the replay does
not, which no open set notices.  `Click.Absorb` refuses an outcome that is unauditable or incoherent
and the replay does not (`incoherentOutcome_diverges`).  A case that cannot be traced is logged live
and ends the replay.  And the sort decides on its own between messages of one time.  Where none of
these happens the two agree (`rebuildLedger_agrees`).
-/

namespace Beats.Clank

open Proposal Outcome Lib
open List hiding set

/-! ## Histories -/

/-- A message of one of the three subjects. -/
inductive Stored.Message where
  | proposal (ps : Proposal.Set)
  | outcome (o : Outcome)
  | decline (dec : Decision)

structure Stored where
  /-- When the stream stored it. -/
  storedAt : Time
  /-- The live process's clock at its handler. -/
  handledAt : Time := Time.zero
  msg : Stored.Message

def Stored.isProposal (m : Stored) : Bool :=
  match m.msg with
  | .proposal _ => true
  | _ => false

def Stored.isOutcome (m : Stored) : Bool :=
  match m.msg with
  | .outcome _ => true
  | _ => false

/-! ## The live process -/

/-- The live process handles a message. -/
def Click.handle (c : Click) (m : Stored) : Click :=
  match m.msg with
  | .proposal ps => { c with ledger := c.ledger.record m.handledAt ps }
  | .outcome o => c.learnHandler o
  | .decline dec => c.declineHandler dec

/-- The machine of the live process. -/
def Click.machine : Machine Click Stored where
  step c m := some (c.handle m)

/-! ## The replay -/

/-- A replayed set is recorded at its stored time. -/
def MemProposalLog.seedAt (l : MemProposalLog) (ps : Proposal.Set) (storedAt : Time) :
    MemProposalLog :=
  { l with sets := l.sets ++ [{ set := ps, recordedAt := storedAt }] }

/-- `replayEvent.replayInto`.  The dump of an untraced case is left out of the error. -/
def Click.replayInto (c : Click) (m : Stored) : Except String Click :=
  match m.msg with
  | .proposal ps => .ok { c with ledger := c.ledger.seedAt ps m.storedAt }
  | .outcome o =>
    match c.ledger.observe o with
    | none => .ok c
    | some (set, ledger) =>
      match c.cases.append (newCase set o) with
      | none =>
        .error ("rebuild casebase: " ++ (AbsorbError.unprovenanced (newCase set o)).text)
      | some cases => .ok { ledger := ledger, cases := cases }
  | .decline dec =>
    match c.ledger.decline dec.signalRef dec.evaluatedAt with
    | none => .ok c
    | some (_, ledger) => .ok { c with ledger := ledger }

/-- The messages in the order of the three drains. -/
def drained (history : List Stored) : List Stored :=
  history.filter Stored.isProposal ++
    (history.filter Stored.isOutcome ++
      history.filter fun m => !m.isProposal && !m.isOutcome)

/-- `sort.Slice` by the stored time.  It is not stable, so it is any sort. -/
structure SortSlice where
  sort : List Stored → List Stored
  perm : ∀ l, (sort l).Perm l
  sorted : ∀ l, (sort l).Pairwise fun a b => a.storedAt ≤ b.storedAt

/-- `rebuildLedger`, over a fresh case base. -/
def rebuildLedger (slice : SortSlice) (retention : Duration) (maxCases : Int)
    (history : List Stored) : Except String Click :=
  match (slice.sort (drained history)).foldlM Click.replayInto
      { ledger := { ledgerRetention := retention }, cases := { maxCases := maxCases } } with
  | .error err => .error ("clank: rebuild ledger: replay: " ++ err)
  | .ok c => .ok c

/-! ## The order of the replay -/

theorem drained_perm (history : List Stored) : (drained history).Perm history := by
  have hrest : (history.filter Stored.isOutcome ++
      history.filter fun m => !m.isProposal && !m.isOutcome).Perm
        (history.filter fun m => !m.isProposal) := by
    have h := filter_append_perm Stored.isOutcome (history.filter fun m => !m.isProposal)
    rw [filter_filter, filter_filter] at h
    have hout : (history.filter fun m => m.isOutcome && !m.isProposal) =
        history.filter Stored.isOutcome := by
      refine filter_congr fun m _ => ?_
      cases hm : m.msg <;> simp [Stored.isOutcome, Stored.isProposal, hm]
    rw [hout] at h
    simpa only [Bool.and_comm] using h
  exact (hrest.append_left _).trans (filter_append_perm _ history)

/-- Messages that were stored at different times are replayed in the order of the stream. -/
theorem SortSlice.sort_drained (slice : SortSlice) {history : List Stored}
    (h : history.Pairwise fun a b => a.storedAt < b.storedAt) :
    slice.sort (drained history) = history :=
  eq_of_ascending ((slice.perm _).trans (drained_perm history)) (slice.sorted _) h

/-! ## Open sets -/

namespace MemProposalLog

def openSets (l : MemProposalLog) (fingerprint : String) : List Proposal.Set :=
  (l.answering fingerprint).map Recorded.set

/-- The open sets of every signal agree. -/
def SameOpen (l l' : MemProposalLog) : Prop := ∀ f, l.openSets f = l'.openSets f

variable {l l' : MemProposalLog}

theorem answering_eq_nil_of_move {f : String} {g : Status → Status} (h : l.move f g = none) :
    l.answering f = [] :=
  updateNewest_eq_none (Option.map_eq_none_iff.mp h)

/-- Whether a row answers, and what it is changed to, is a matter of its set. -/
theorem update_of_set_eq {r r' : Recorded} (h : r.set = r'.set) (f : String) (g : Status → Status) :
    (r.update g).set = (r'.update g).set ∧
      ([r.update g].filter (Recorded.answers f)).map Recorded.set =
        ([r'.update g].filter (Recorded.answers f)).map Recorded.set := by
  obtain ⟨set, at₁⟩ := r
  obtain ⟨set', at₂⟩ := r'
  cases h
  refine ⟨rfl, ?_⟩
  have hans : Recorded.answers f (Recorded.update g ⟨set, at₁⟩) =
      Recorded.answers f (Recorded.update g ⟨set, at₂⟩) := rfl
  cases ha : Recorded.answers f (Recorded.update g ⟨set, at₂⟩) with
  | false => simp [hans, ha]
  | true =>
    simp [hans, ha]
    rfl

theorem SameOpen.move (h : l.SameOpen l') (f : String) (g : Status → Status) :
    (l.move f g = none ∧ l'.move f g = none) ∨
      ∃ s m m', l.move f g = some (s, m) ∧ l'.move f g = some (s, m') ∧ m.SameOpen m' := by
  have hf : (l.answering f).map Recorded.set = (l'.answering f).map Recorded.set := h f
  cases hm : l.move f g with
  | none =>
    cases hm' : l'.move f g with
    | none => exact .inl ⟨rfl, rfl⟩
    | some p =>
      obtain ⟨⟨older, r, hl', -⟩, -⟩ := answering_move hm'
      rw [answering_eq_nil_of_move hm, hl'] at hf
      simp at hf
  | some p =>
    obtain ⟨⟨older, r, hl, hs, hl₁⟩, hother⟩ := answering_move hm
    cases hm' : l'.move f g with
    | none =>
      rw [answering_eq_nil_of_move hm', hl] at hf
      simp at hf
    | some p' =>
      obtain ⟨⟨older', r', hl', hs', hl₁'⟩, hother'⟩ := answering_move hm'
      rw [hl, hl', map_append, map_append] at hf
      obtain ⟨holder, hr⟩ := append_inj' hf rfl
      obtain ⟨hset, hrow⟩ := update_of_set_eq (cons.inj hr).1 f g
      refine .inr ⟨p.1, p.2, p'.2, rfl, ?_, fun f' => ?_⟩
      · rw [hs, hset, ← hs']
      · unfold openSets
        by_cases hf' : f' = f
        · rw [hf', hl₁, hl₁', map_append, map_append, holder, hrow]
        · rw [hother f' hf', hother' f' hf']
          exact h f'

theorem SameOpen.record_seedAt (h : l.SameOpen l') (handledAt storedAt : Time)
    (ps : Set) : (l.record handledAt ps).SameOpen (l'.seedAt ps storedAt) := by
  intro f
  have hf : (l.answering f).map Recorded.set = (l'.answering f).map Recorded.set := h f
  have hrow : Recorded.answers f ⟨ps, handledAt⟩ = Recorded.answers f ⟨ps, storedAt⟩ := rfl
  have hseed : (l'.seedAt ps storedAt).answering f =
      l'.answering f ++ [⟨ps, storedAt⟩].filter (Recorded.answers f) := filter_append ..
  rw [openSets, openSets, answering_record, hseed, map_append, map_append, hf]
  cases ha : Recorded.answers f ⟨ps, storedAt⟩ <;> simp [hrow, ha]

end MemProposalLog

/-! ## The live process and the replay -/

/-- The learner that lived and the one that was replayed agree. -/
structure Click.Agrees (live replayed : Click) : Prop where
  ledger : live.ledger.SameOpen replayed.ledger
  cases : live.cases = replayed.cases

/-- The outcome finds no open set, or it passes every check on its way to a case. -/
def Click.absorbs (c : Click) (o : Outcome) : Bool :=
  match c.ledger.observe o with
  | none => true
  | some (set, _) => o.auditable.isOk && coherent o && CaseBase.provenanced (newCase set o)

/-- The message is no outcome, or one that the live process can absorb. -/
def Click.sound (c : Click) (m : Stored) : Bool :=
  match m.msg with
  | .outcome o => c.absorbs o
  | _ => true

namespace Click

variable {c r : Click}

/-- An outcome that no open set answers changes nothing. -/
theorem learnHandler_of_unanswered {o : Outcome} (h : c.ledger.observe o = none) :
    c.learnHandler o = c := by
  unfold learnHandler absorb
  cases o.auditable with
  | error why => rfl
  | ok _ => cases hc : coherent o <;> simp [h]

theorem Agrees.outcome (h : c.Agrees r) {o : Outcome} (ho : c.absorbs o = true) (at' at'' : Time) :
    ∃ r', r.replayInto { storedAt := at', handledAt := at'', msg := .outcome o } = .ok r' ∧
      (c.learnHandler o).Agrees r' := by
  rcases h.ledger.move o.signalRef fun st => transition st o with
    ⟨hc, hr⟩ | ⟨set, l, l', hc, hr, hl⟩
  · have hlive : c.learnHandler o = c := learnHandler_of_unanswered hc
    have hreplay : r.ledger.observe o = none := hr
    exact ⟨r, by simp [replayInto, hreplay], by rwa [hlive]⟩
  · have hobs : c.ledger.observe o = some (set, l) := hc
    have hreplay : r.ledger.observe o = some (set, l') := hr
    simp only [absorbs, hobs, Bool.and_eq_true] at ho
    obtain ⟨⟨haudit, hcoh⟩, hprov⟩ := ho
    have haudit : o.auditable = .ok () := by
      cases ha : o.auditable with
      | error why => rw [ha] at haudit; cases haudit
      | ok _ => rfl
    obtain ⟨cases, hcases⟩ : ∃ cases, c.cases.append (newCase set o) = some cases := by
      simp [CaseBase.append, hprov]
    refine ⟨{ ledger := l', cases := cases }, ?_, ?_⟩
    · simp [replayInto, hreplay, ← h.cases, hcases]
    · have hlive : c.learnHandler o = { ledger := l, cases := cases } := by
        simp [learnHandler, absorb, haudit, hcoh, hobs, hcases]
      rw [hlive]
      exact ⟨hl, rfl⟩

theorem Agrees.step (h : c.Agrees r) {m : Stored} (hm : c.sound m = true) :
    ∃ r', r.replayInto m = .ok r' ∧ (c.handle m).Agrees r' := by
  obtain ⟨storedAt, handledAt, msg⟩ := m
  cases msg with
  | proposal ps => exact ⟨_, rfl, h.ledger.record_seedAt handledAt storedAt ps, h.cases⟩
  | outcome o => exact h.outcome hm storedAt handledAt
  | decline dec =>
    rcases h.ledger.move dec.signalRef fun st =>
      { st with phase := .declined, observedAt := dec.evaluatedAt } with
      ⟨hc, hr⟩ | ⟨set, l, l', hc, hr, hl⟩
    · have hlive : c.ledger.decline dec.signalRef dec.evaluatedAt = none := hc
      have hreplay : r.ledger.decline dec.signalRef dec.evaluatedAt = none := hr
      exact ⟨r, by simp [replayInto, hreplay], by simpa [handle, declineHandler, hlive] using h⟩
    · have hlive : c.ledger.decline dec.signalRef dec.evaluatedAt = some (set, l) := hc
      have hreplay : r.ledger.decline dec.signalRef dec.evaluatedAt = some (set, l') := hr
      refine ⟨{ r with ledger := l' }, by simp [replayInto, hreplay], ?_⟩
      simp only [handle, declineHandler, hlive]
      exact ⟨hl, h.cases⟩

/-- A history that the live process handles, the replay can follow in the same order. -/
theorem Agrees.run {history : List Stored}
    (hs : machine.Along (fun c m => c.sound m = true) c history)
    {c' : Click} (hr : machine.run c history = some c') (h : c.Agrees r) :
    ∃ r', history.foldlM replayInto r = .ok r' ∧ c'.Agrees r' := by
  induction history generalizing c r with
  | nil =>
    cases hr
    exact ⟨r, rfl, h⟩
  | cons m ms ih =>
    obtain ⟨c₁, hc₁, hrun⟩ := Machine.run_cons_eq_some.mp hr
    cases hc₁
    obtain ⟨r₁, hr₁, h₁⟩ := h.step hs.1
    obtain ⟨r', hr', h'⟩ := ih (hs.2 _ rfl) hrun h₁
    exact ⟨r', by rw [foldlM_cons, hr₁]; exact hr', h'⟩

end Click

/-- Where the messages were stored at different times and the live process could absorb every
outcome that found an open set, a rebuild succeeds and has the open sets and the cases of
the live process. -/
theorem rebuildLedger_agrees (slice : SortSlice) (retention : Duration) (maxCases : Int)
    {history : List Stored} (ht : history.Pairwise fun a b => a.storedAt < b.storedAt)
    (hs : Click.machine.Along (fun c m => c.sound m = true)
      { ledger := { ledgerRetention := retention }, cases := { maxCases := maxCases } } history)
    {live : Click}
    (hr : Click.machine.run
      { ledger := { ledgerRetention := retention }, cases := { maxCases := maxCases } } history =
        some live) :
    ∃ rebuilt, rebuildLedger slice retention maxCases history = .ok rebuilt ∧
      (∀ f, rebuilt.ledger.openSets f = live.ledger.openSets f) ∧ rebuilt.cases = live.cases := by
  obtain ⟨r, hfold, hagree⟩ := Click.Agrees.run hs hr ⟨fun _ => rfl, rfl⟩
  refine ⟨r, ?_, fun f => (hagree.ledger f).symm, hagree.cases.symm⟩
  rw [rebuildLedger, slice.sort_drained ht, hfold]

instance : Std.Total fun a b : Stored => a.storedAt ≤ b.storedAt := ⟨fun _ _ => Int.le_total _ _⟩

instance : IsTrans Stored fun a b => a.storedAt ≤ b.storedAt := ⟨fun _ _ _ => Int.le_trans⟩

def insertionSlice : SortSlice where
  sort := List.insertionSort fun a b => a.storedAt ≤ b.storedAt
  perm := perm_insertionSort _
  sorted := pairwise_insertionSort _

def checkoutProposal : Proposal.Set where
  name := "ps:checkout"
  signalRef := "checkout"
  status := some { phase := .proposed }

/-- A set, the outcome of acting on it and its convergence. -/
def settledHistory : List Stored :=
  let o : Outcome :=
    { id := "out:1", decisionRef := "dec:1", signalRef := "checkout", mode := .live
      result := .applied, executedAt := 2 }
  [{ storedAt := 1, handledAt := 5, msg := .proposal checkoutProposal },
    { storedAt := 2, msg := .outcome o },
    { storedAt := 3, msg := .outcome { o with id := "out:2", result := .success } }]

theorem settledHistory_agrees :
    ∃ live rebuilt, Click.machine.run { ledger := { ledgerRetention := 0 } } settledHistory =
        some live ∧ rebuildLedger insertionSlice 0 0 settledHistory = .ok rebuilt ∧
      live.cases.cases.length = 2 ∧ rebuilt.cases = live.cases := by
  obtain ⟨live, hlive, hlen⟩ :
      ∃ live, Click.machine.run { ledger := { ledgerRetention := 0 } } settledHistory = some live ∧
        live.cases.cases.length = 2 := ⟨_, rfl, by decide +kernel⟩
  obtain ⟨rebuilt, hrebuilt, -, hcases⟩ :=
    rebuildLedger_agrees insertionSlice 0 0 (by decide +kernel) (by decide +kernel) hlive
  exact ⟨live, rebuilt, hlive, hrebuilt, hlen, hcases⟩

def incoherentHistory : List Stored :=
  [{ storedAt := 1, handledAt := 1, msg := .proposal checkoutProposal },
    { storedAt := 2, msg := .outcome
        { id := "out:1", decisionRef := "dec:1", signalRef := "checkout", mode := .live
          result := .rendered, executedAt := 2 } }]

/-- The live process refuses the outcome.  The replay moves the set and learns a case. -/
theorem incoherentOutcome_diverges :
    ∃ live rebuilt, Click.machine.run { ledger := { ledgerRetention := 0 } } incoherentHistory =
        some live ∧ rebuildLedger insertionSlice 0 0 incoherentHistory = .ok rebuilt ∧
      (live.ledger.openSets "checkout").map Proposal.Set.phase? = [some .proposed] ∧
      (rebuilt.ledger.openSets "checkout").map Proposal.Set.phase? = [some .acknowledge] ∧
      live.cases.cases.length = 0 ∧ rebuilt.cases.cases.length = 1 :=
  ⟨_, _, rfl, rfl, by decide +kernel, by decide +kernel, by decide +kernel, by decide +kernel⟩

end Beats.Clank
