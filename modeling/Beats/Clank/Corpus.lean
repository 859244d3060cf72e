import Mathlib.Data.List.Nodup
import Beats.Clank.Conduct
import Beats.Clank.Rebuild

/-!
# Mining the corpus

`MineCorpus` of `internal/clank`: an offline join of the published sets with the published outcomes.
An outcome is paired with the set of its fingerprint that was last observed before it, and the cases
of an incident are collapsed to the one that settled it.

Nothing is observed of a set when it is published (`published_unobserved`), so all sets have the
zero time there, and the join pairs every outcome with the first set that was ever published for its
fingerprint (`minedSet_of_asPublished`).  The live process moves the newest open one
(`minedSet_agrees_iff`).
-/

namespace Beats.Clank

open Proposal Outcome Lib
open List hiding set

/-! ## The join -/

/-- One turn of the loop of `latestSetBefore`. -/
def laterSet (at' : Time) (best : Option Proposal.Set) (s : Proposal.Set) : Option Proposal.Set :=
  match s.status with
  | none => best
  | some st =>
    if at' < st.observedAt then best
    else match best with
      | none => some s
      | some b =>
        if ((b.status.map Status.observedAt).getD Time.zero) < st.observedAt then some s
        else best

/-- The latest set that was observed by then. -/
def latestSetBefore (sets : List Proposal.Set) (at' : Time) : Option Proposal.Set :=
  sets.foldl (laterSet at') none

/-- The sets of a fingerprint, in the order they were published in. -/
def setsOf (fingerprint : String) (sets : List Proposal.Set) : List Proposal.Set :=
  sets.filter fun s => s.signalRef == fingerprint

/-- The set that a mined outcome belongs to. -/
def minedSet (sets : List Proposal.Set) (o : Outcome) : Option Proposal.Set :=
  latestSetBefore (setsOf o.signalRef sets) o.executedAt

def Case.incident (c : Case) : String × String := (c.signalRef, c.decisionRef)

/-- One turn of the loop of `CollapseCases`, for one incident. -/
def settledCase (incident : String × String) (best : Option Case) (c : Case) : Option Case :=
  if c.incident ≠ incident ∨ c.result = .applied then best
  else match best with
    | none => some c
    | some cur => if cur.observedAt < c.observedAt then some c else best

/-- One case of every incident. -/
def collapseCases (cases : List Case) : List Case :=
  (cases.map Case.incident).eraseDups.filterMap fun incident =>
    cases.foldl (settledCase incident) none

/-- `slices.SortFunc` by the observed time.  It is not stable, so it is any sort. -/
structure SortCases where
  sort : List Case → List Case
  perm : ∀ l, (sort l).Perm l
  sorted : ∀ l, (sort l).Pairwise fun a b => a.observedAt ≤ b.observedAt

def mineCorpus (slice : SortCases) (sets : List Proposal.Set) (outcomes : List Outcome) :
    List Case :=
  slice.sort (collapseCases (outcomes.filterMap fun o =>
    (minedSet sets o).map fun set => newCase set o))

/-! ## What is mined -/

/-- Of sets that nothing is observed of yet, the join takes the first. -/
theorem latestSetBefore_of_asPublished {at' : Time} (hat : Time.zero ≤ at') :
    ∀ {sets : List Set}, (∀ s ∈ sets, AsPublished s) →
      latestSetBefore sets at' = sets.head?
  | [], _ => rfl
  | s :: sets, h => by
    -- Once there is a best set, no set of the same time takes its place.
    have hkeep : ∀ {rest : List Set}, (∀ s ∈ rest, AsPublished s) →
        rest.foldl (laterSet at') (some s) = some s := by
      obtain ⟨reason, hs⟩ := h s mem_cons_self
      intro rest hrest
      induction rest with
      | nil => rfl
      | cons r rest ih =>
        obtain ⟨reason', hr⟩ := hrest r mem_cons_self
        have hstep : laterSet at' (some s) r = some s := by simp [laterSet, hr, hs]
        rw [foldl_cons, hstep]
        exact ih fun s hs => hrest s (mem_cons_of_mem _ hs)
    obtain ⟨reason, hs⟩ := h s mem_cons_self
    have hfirst : laterSet at' none s = some s := by
      simp only [laterSet, hs]
      rw [if_neg (Int.not_lt.mpr hat)]
    rw [latestSetBefore, foldl_cons, hfirst, head?_cons]
    exact hkeep fun s hs => h s (mem_cons_of_mem _ hs)

/-! ## What is published -/

/-- A call of the engine publishes a set only as one that nothing is observed of yet. -/
def EngineCall : iface.Call → Prop
  | .publish _ set => AsPublished set
  | _ => True

theorem engineCall_propose (e : Engine) (sig : Signal.Detection) :
    (Monitor.only EngineCall).Allows (fun _ _ => True) (e.propose sig) () := by
  refine (runCall_propose e fun _ _ _ _ _ => trivial).widen ?_
  rintro c ⟨_, h⟩
  cases c with
  | publish subject set =>
    rcases h with h | h | h | ⟨_, h⟩
    · exact h.elim
    · exact h.elim
    · exact h.1
    · cases h
  | _ => trivial

theorem published_unobserved {e : Engine} {sig : Signal.Detection} {t : List (Answered iface)}
    {q : Prog iface String Set} (h : (e.propose sig).Steps t q) {subject : String}
    {set : Set} {r : iface.Answer (.publish subject set)}
    (hm : ⟨.publish subject set, r⟩ ∈ t) : AsPublished set :=
  (engineCall_propose e sig).of_mem_only h hm

/-! ## The live match -/

def publishedSets (history : List Stored) : List Proposal.Set :=
  history.filterMap fun m => match m.msg with
    | .proposal ps => some ps
    | _ => none

def publishedOutcomes (history : List Stored) : List Outcome :=
  history.filterMap fun m => match m.msg with
    | .outcome o => some o
    | _ => none

/-- The set of a run, whatever its status is by now. -/
def SameRun (ps set : Proposal.Set) : Prop := set = { ps with status := set.status }

theorem SameRun.newCase {ps set : Set} (h : SameRun ps set) (o : Outcome) :
    newCase set o = newCase ps o := by
  rw [h]
  rfl

/-- Every row of the ledger is a set that was published, but for its status. -/
def FromPublished (sets : List Proposal.Set) (l : MemProposalLog) : Prop :=
  ∀ r ∈ l.sets, ∃ ps ∈ sets, SameRun ps r.set

section

variable {sets : List Set} {l l' : MemProposalLog}

theorem FromPublished.mono {sets' : List Set} (h : FromPublished sets l)
    (hsub : sets ⊆ sets') : FromPublished sets' l := by
  intro r hr
  obtain ⟨ps, hps, hsame⟩ := h r hr
  exact ⟨ps, hsub hps, hsame⟩

theorem FromPublished.record (h : FromPublished sets l) (now : Time) (ps : Set) :
    FromPublished (sets ++ [ps]) (l.record now ps) := by
  intro r hr
  rcases mem_append.mp hr with hr | hr
  · obtain ⟨ps', hps', hsame⟩ := h r (mem_filter.mp hr).1
    exact ⟨ps', mem_append_left _ hps', hsame⟩
  · rw [mem_singleton.mp hr]
    exact ⟨ps, by simp, rfl⟩

theorem FromPublished.move (h : FromPublished sets l) {f : String} {g : Status → Status}
    {s : Set} (hm : l.move f g = some (s, l')) :
    FromPublished sets l' ∧ ∃ ps ∈ sets, ps.signalRef = f ∧ SameRun ps s := by
  obtain ⟨before, r, after, hl, rfl, rfl, hans, -⟩ := MemProposalLog.move_split hm
  obtain ⟨ps, hps, hsame⟩ := h r (by simp [hl])
  have hupd : SameRun ps (r.update g).set := by
    unfold SameRun at hsame ⊢
    simp only [Recorded.update]
    rw [hsame]
  refine ⟨fun r' hr' => ?_, ps, hps, ?_, hupd⟩
  · rcases mem_append.mp hr' with hr' | hr'
    · exact h r' (by simp [hl, hr'])
    · rcases mem_cons.mp hr' with rfl | hr'
      · exact ⟨ps, hps, hupd⟩
      · exact h r' (by simp [hl, hr'])
  · simp only [Recorded.answers, Bool.and_eq_true, beq_iff_eq] at hans
    rw [← hans.1, hsame]

end

theorem FromPublished.handle {sets : List Set} {c : Click}
    (h : FromPublished sets c.ledger) (m : Stored) :
    FromPublished (sets ++ publishedSets [m]) (c.handle m).ledger := by
  obtain ⟨storedAt, handledAt, msg⟩ := m
  cases msg with
  | proposal ps => exact h.record handledAt ps
  | outcome o =>
    refine FromPublished.mono ?_ (subset_append_left _ _)
    change FromPublished sets (c.absorb o).1.ledger
    rw [Click.absorb_ledger]
    cases hm : c.moved o with
    | none => exact h
    | some p => exact (h.move (Click.observe_of_moved hm)).1
  | decline dec =>
    refine FromPublished.mono ?_ (subset_append_left _ _)
    change FromPublished sets (c.declineHandler dec).ledger
    unfold Click.declineHandler
    cases hd : c.ledger.decline dec.signalRef dec.evaluatedAt with
    | none => exact h
    | some p => exact (h.move hd).1

theorem FromPublished.run {history : List Stored} :
    ∀ {sets : List Set} {c c' : Click}, FromPublished sets c.ledger →
      Click.machine.run c history = some c' →
      FromPublished (sets ++ publishedSets history) c'.ledger := by
  induction history with
  | nil =>
    intro sets c c' h hr
    cases hr
    simpa [publishedSets] using h
  | cons m ms ih =>
    intro sets c c' h hr
    obtain ⟨c₁, hc₁, hrun⟩ := Machine.run_cons_eq_some.mp hr
    cases hc₁
    have hms := ih (h.handle m) hrun
    have hsplit : publishedSets (m :: ms) = publishedSets [m] ++ publishedSets ms :=
      filterMap_append (l := [m])
    rw [hsplit, ← append_assoc]
    exact hms

/-! ## The two matches -/

/-- The outcome `o` reaches a live process that has handled `before`, and moves `live`. -/
def LiveMatch (retention : Duration) (maxCases : Int) (before : List Stored) (o : Outcome)
    (live : Proposal.Set) : Prop :=
  ∃ c ledger, Click.machine.run
    { ledger := { ledgerRetention := retention }, cases := { maxCases := maxCases } } before =
      some c ∧ c.moved o = some (live, ledger)

theorem LiveMatch.published {retention : Duration} {maxCases : Int} {before : List Stored}
    {o : Outcome} {live : Set} (h : LiveMatch retention maxCases before o live) :
    ∃ ps ∈ publishedSets before, ps.signalRef = o.signalRef ∧ SameRun ps live := by
  obtain ⟨c, ledger, hrun, hmoved⟩ := h
  have hfrom : FromPublished ([] ++ publishedSets before) c.ledger :=
    FromPublished.run (fun r hr => by cases hr) hrun
  exact (hfrom.move (Click.observe_of_moved hmoved)).2

theorem minedSet_of_asPublished {sets : List Set} {o : Outcome}
    (hpub : ∀ s ∈ sets, AsPublished s) (hat : Time.zero ≤ o.executedAt) :
    minedSet sets o = (setsOf o.signalRef sets).head? :=
  latestSetBefore_of_asPublished hat fun s hs => hpub s (mem_filter.mp hs).1

/-- An outcome is paired with the set that it moved, by its run, exactly if that is the run of
the first set that was ever published for the fingerprint.  Where runs have different IDs the
mined case is then the one that was learned live. -/
theorem minedSet_agrees_iff {retention : Duration} {maxCases : Int}
    {history before after : List Stored} {storedAt handledAt : Time} {o : Outcome}
    {live : Proposal.Set} (hpub : ∀ s ∈ publishedSets history, AsPublished s)
    (hat : Time.zero ≤ o.executedAt)
    (hsplit : history =
      before ++ { storedAt := storedAt, handledAt := handledAt, msg := .outcome o } :: after)
    (hlive : LiveMatch retention maxCases before o live) :
    ((minedSet (publishedSets history) o).map Proposal.Set.runID = some live.runID ↔
      ∃ first rest, setsOf o.signalRef (publishedSets history) = first :: rest ∧
        first.runID = live.runID) ∧
    (((publishedSets history).map Proposal.Set.runID).Nodup →
      ∀ set, minedSet (publishedSets history) o = some set → set.runID = live.runID →
        newCase set o = newCase live o) := by
  have hmined := minedSet_of_asPublished hpub hat
  constructor
  · rw [hmined]
    cases setsOf o.signalRef (publishedSets history) <;> simp
  · intro hids set hset hrun
    rw [hmined] at hset
    have hmem : set ∈ publishedSets history :=
      (mem_filter.mp (mem_of_mem_head? hset)).1
    obtain ⟨ps, hps, -, hsame⟩ := hlive.published
    have hps' : ps ∈ publishedSets history := by
      rw [hsplit]
      simp only [publishedSets, filterMap_append, mem_append]
      exact .inl hps
    have hid : live.runID = ps.runID := by rw [hsame]
    have heq : set = ps := inj_on_of_nodup_map hids hmem hps' (hrun.trans hid)
    rw [heq, hsame.newCase]

def runSet (runID : String) (cls : FailureClass) : Proposal.Set where
  runID := runID
  signalRef := "checkout"
  failureClass := cls
  status := some { phase := .proposed }

/-- An outcome for `checkout` that closes its set. -/
def runOutcome (id decisionRef : String) (executedAt : Time) : Outcome where
  id := id
  decisionRef := decisionRef
  signalRef := "checkout"
  mode := .live
  result := .success
  executedAt := executedAt

/-- A set is published and closed, and then another one for the same fingerprint. -/
def reopenedHistory : List Stored :=
  [{ storedAt := 1, handledAt := 1, msg := .proposal (runSet "checkout/1" .trafficShift) },
    { storedAt := 2, msg := .outcome (runOutcome "out:1" "dec:1" 2) },
    { storedAt := 3, handledAt := 3, msg := .proposal (runSet "checkout/3" .resourceExhaustion) },
    { storedAt := 4, msg := .outcome (runOutcome "out:2" "dec:2" 4) }]

theorem asPublished_reopenedHistory : ∀ s ∈ publishedSets reopenedHistory, AsPublished s := by
  intro s hs
  have hs' : s ∈ [runSet "checkout/1" .trafficShift, runSet "checkout/3" .resourceExhaustion] := hs
  rcases mem_cons.mp hs' with rfl | hs'
  · exact ⟨"", rfl⟩
  · rw [mem_singleton.mp hs']
    exact ⟨"", rfl⟩

/-- The outcome of the first set is paired with it. -/
theorem firstOutcome_agrees :
    ∃ live, LiveMatch 0 0 (reopenedHistory.take 1) (runOutcome "out:1" "dec:1" 2) live ∧
      (minedSet (publishedSets reopenedHistory) (runOutcome "out:1" "dec:1" 2)).map
        Proposal.Set.runID = some live.runID := by
  have hlive : LiveMatch 0 0 (reopenedHistory.take 1) (runOutcome "out:1" "dec:1" 2) _ :=
    ⟨_, _, rfl, rfl⟩
  have hsplit : reopenedHistory = reopenedHistory.take 1 ++
      { storedAt := 2, msg := .outcome (runOutcome "out:1" "dec:1" 2) } ::
        reopenedHistory.drop 2 := rfl
  exact ⟨_, hlive, (minedSet_agrees_iff asPublished_reopenedHistory (by decide) hsplit
    hlive).1.mpr ⟨_, _, rfl, rfl⟩⟩

/-- What `slices.SortFunc` does to a short slice. -/
def insertionCases : SortCases where
  sort := List.insertionSort fun a b => a.observedAt ≤ b.observedAt
  perm := perm_insertionSort _
  sorted := by
    have : Std.Total fun a b : Case => a.observedAt ≤ b.observedAt := ⟨fun _ _ => Int.le_total _ _⟩
    have : IsTrans Case fun a b => a.observedAt ≤ b.observedAt := ⟨fun _ _ _ => Int.le_trans⟩
    exact pairwise_insertionSort _

/-- The outcome of the second set moves that one live, and is mined with the run and the
failure class of the first. -/
theorem secondOutcome_diverges :
    (∃ live, LiveMatch 0 0 (reopenedHistory.take 3) (runOutcome "out:2" "dec:2" 4) live ∧
      live.runID = "checkout/3") ∧
    (mineCorpus insertionCases (publishedSets reopenedHistory)
        (publishedOutcomes reopenedHistory)).map
          (fun c => (c.outcomeRef, c.runID, c.failureClass)) =
      [("out:1", "checkout/1", .trafficShift), ("out:2", "checkout/1", .trafficShift)] :=
  ⟨⟨_, ⟨_, _, rfl, rfl⟩, rfl⟩, by decide +kernel⟩

end Beats.Clank
