import Beats.Clank.Propose
import Beats.Corpus.Merge
import Beats.Lib.Delimited
import Beats.Lib.Digits

/-!
# The populations of a corpus

`mine` of `internal/corpus` counts what it saw: the runs that have a label, the incidents that are
in flight, and the sets that governance declined.

A label is kept under the run of its case, and an incident has the run of the first set that was
ever published for its fingerprint.  So of the incidents of a fingerprint one is counted.  An
incident that was only rendered is settled and has no label, and is not counted at all.  The journal
has a set as the run left it, before governance rules (`OfRun`), so the last count is zero.
`partitioned_iff` says for which histories the counts come out right all the same.
-/

namespace Beats.Corpus

open Clank Lib
open List hiding set

/-! ## What a run stores -/

/-- The set is that of a run, and governance has not ruled on it. -/
structure OfRun (fingerprint runID : String) (set : Proposal.Set) : Prop where
  signalRef : set.signalRef = fingerprint
  runID : set.runID = runID
  phase : set.phase? ≠ some .declined

/-- What a run journals and publishes are sets of its own. -/
theorem stores_propose (e : Engine) (sig : Signal.Detection) :
    (Monitor.only fun c => ∃ at', Stores (OfRun sig.fingerprint (mintedID sig.fingerprint at'))
      c).Allows (fun _ _ => True) (e.propose sig) () := by
  refine (runCall_propose e fun _ _ => OfRun.mk).widen ?_
  rintro c ⟨at', h⟩
  refine ⟨at', ?_⟩
  cases c with
  | journal set | publish subject set =>
    rcases h with h | h | h | ⟨_, h⟩
    · exact h.elim
    · exact h.elim
    · exact h.2
    · cases h
  | _ => trivial

/-- A run for the detection has the set, with an ID of its own. -/
def StoredBy (set : Proposal.Set) (stores : Proposal.Set → Clank.iface.Call) : Prop :=
  ∃ (e : Engine) (sig : Signal.Detection) (t : List (Answered Clank.iface))
    (q : Prog Clank.iface String Proposal.Set) (r : Clank.iface.Answer (stores set)),
    (e.propose sig).Steps t q ∧ ⟨stores set, r⟩ ∈ t

theorem StoredBy.ofRun {stores : Proposal.Set → iface.Call}
    (hstores : ∀ {fingerprint runID : String} {set : Proposal.Set},
      Stores (OfRun fingerprint runID) (stores set) → OfRun fingerprint runID set)
    {set : Proposal.Set} (h : StoredBy set stores) :
    ∃ at', OfRun set.signalRef (mintedID set.signalRef at') set := by
  obtain ⟨e, sig, t, q, r, hsteps, hmem⟩ := h
  obtain ⟨at', hcall⟩ := (stores_propose e sig).of_mem_only hsteps hmem
  have hset := hstores hcall
  rw [← hset.signalRef] at hset
  exact ⟨at', hset⟩

theorem eq_of_mintedID {f f' : String} {at₁ at₂ : Time} (h : mintedID f at₁ = mintedID f' at₂) :
    f = f' := by
  have hslash (z : Int) : '/' ∉ Digits.decimal z := fun hmem => by
    rcases Digits.mem_decimal hmem with h | h
    · cases h
    · cases h
  have hlist := congrArg String.toList h
  simp only [mintedID, String.toList_append, Digits.toList_toString, append_assoc] at hlist
  exact String.toList_injective (eq_of_append_cons (hslash _) (hslash _) hlist).1

theorem mintedID_ne_empty (f : String) (at' : Time) : mintedID f at' ≠ "" := by
  intro h
  have hlist := congrArg String.toList h
  simp [mintedID, String.toList_append] at hlist

/-! ## Labels -/

/-- Who settled the question. -/
inductive Source where
  | converged
  | reversed
  | approved
  | denied
deriving DecidableEq

/-- `grade.Label`. -/
structure Label where
  runID : String := ""
  correct : Bool := false
  source : Source
deriving DecidableEq

/-- `grade.FromRecord`. -/
def fromRecord (set : Proposal.Set) (dec : Decision) (out : Outcome) : Option Label :=
  if out.result ≠ .other "" ∧ out.result ≠ .rendered ∧ out.result ≠ .applied then
    some
      { runID := set.runID
        correct := out.result = .success
        source := if out.result = .success then .converged else .reversed }
  else if dec.verdict = .escalate ∧ dec.approver ≠ "" then
    some { runID := set.runID, correct := true, source := .approved }
  else none

def labelOf (c : Case) : Option Label :=
  if c.runID = "" then none else fromRecord { runID := c.runID } {} { result := c.result }

/-- One turn of the loop of `Labels`.  A later label of a run takes the place of an earlier one. -/
def putLabel (m : List (String × Label)) (c : Case) : List (String × Label) :=
  match labelOf c with
  | none => m
  | some l => (c.runID, l) :: m.filter fun p => p.1 ≠ c.runID

/-- `Labels`, as the entries of the map. -/
def labels (cases : List Case) : List (String × Label) := cases.foldl putLabel []

def labelledCount (cases : List Case) : Nat := (labels cases).length

/-- The incidents that have only been applied. -/
def inFlight (outcomes : List Outcome) : List (String × String) :=
  (outcomes.map incidentOf).eraseDups.filter fun k =>
    outcomes.all fun o => incidentOf o ≠ k ∨ o.result = .applied

def inFlightCount (outcomes : List Outcome) : Nat := (inFlight outcomes).length

def declinedCount (journaled : List Proposal.Set) : Nat :=
  (journaled.filter fun s => s.phase? = some .declined).length

structure Populations where
  journaled : Nat
  labelled : Nat
  inFlight : Nat
  unlabelled : Nat

def populations (slice : SortCases) (sets : List Proposal.Set) (outcomes : List Outcome)
    (journaled : List Proposal.Set) : Populations where
  journaled := journaled.length
  labelled := labelledCount (mineCorpus slice sets outcomes)
  inFlight := inFlightCount outcomes
  unlabelled := declinedCount journaled

/-! ## What is counted -/

section

variable {cases : List Case} {c : Case} {runID : String}

theorem labelOf_isSome : (labelOf c).isSome ↔
    c.runID ≠ "" ∧ c.result ≠ .other "" ∧ c.result ≠ .rendered ∧ c.result ≠ .applied := by
  unfold labelOf
  by_cases hrun : c.runID = ""
  · simp [hrun]
  · unfold fromRecord
    by_cases hres : c.result ≠ .other "" ∧ c.result ≠ .rendered ∧ c.result ≠ .applied
    · simp [hrun, hres]
    · simp [hrun, hres]

theorem nodup_putLabel {m : List (String × Label)} (h : (m.map Prod.fst).Nodup) :
    ((putLabel m c).map Prod.fst).Nodup := by
  unfold putLabel
  cases labelOf c with
  | none => exact h
  | some l =>
    refine nodup_cons.mpr ⟨?_, h.sublist (filter_sublist.map _)⟩
    simp [mem_map]

theorem mem_putLabel {m : List (String × Label)} : runID ∈ (putLabel m c).map Prod.fst ↔
      runID ∈ m.map Prod.fst ∨ (labelOf c).isSome ∧ c.runID = runID := by
  unfold putLabel
  cases labelOf c with
  | none => simp
  | some l =>
    simp only [map_cons, mem_cons, mem_map, mem_filter, decide_eq_true_eq,
      Option.isSome_some, true_and]
    constructor
    · rintro (rfl | ⟨p, ⟨hp, -⟩, rfl⟩)
      · exact .inr rfl
      · exact .inl ⟨p, hp, rfl⟩
    · rintro (⟨p, hp, rfl⟩ | rfl)
      · by_cases hne : p.1 = c.runID
        · exact .inl hne
        · exact .inr ⟨p, ⟨hp, hne⟩, rfl⟩
      · exact .inl rfl

theorem nodup_labels (cases : List Case) : ((labels cases).map Prod.fst).Nodup := by
  unfold labels
  induction cases using reverseRecOn with
  | nil => exact .nil
  | append_singleton cases c ih =>
    rw [foldl_append, foldl_cons, foldl_nil]
    exact nodup_putLabel ih

theorem mem_labels : runID ∈ (labels cases).map Prod.fst ↔
    ∃ c ∈ cases, (labelOf c).isSome ∧ c.runID = runID := by
  unfold labels
  induction cases using reverseRecOn with
  | nil => simp
  | append_singleton cases c ih =>
    rw [foldl_append, foldl_cons, foldl_nil, mem_putLabel, ih]
    simp only [mem_append, mem_singleton, or_and_right, exists_or, exists_eq_left]

/-- Of lists without repetitions, a part is shorter exactly if it lacks something. -/
theorem length_lt_iff {α : Type} {l l' : List α} (hl : l.Nodup) (hl' : l'.Nodup) (h : l' ⊆ l) :
    l'.length < l.length ↔ ∃ x ∈ l, x ∉ l' := by
  constructor
  · intro hlt
    by_contra hno
    simp only [not_exists, not_and, not_not] at hno
    exact absurd (hl.length_le_of_subset hno) (not_le.mpr hlt)
  · rintro ⟨x, hx, hx'⟩
    have hcons : (x :: l').Nodup := nodup_cons.mpr ⟨hx', hl'⟩
    exact hcons.length_le_of_subset (cons_subset.mpr ⟨hx, h⟩)

def others (outcomes : List Outcome) (k : String × String) : List Outcome :=
  outcomes.filter fun o => incidentOf o ≠ k

/-- The incident is counted: without its outcomes the count is lower. -/
def Counts (count : List Outcome → Nat) (outcomes : List Outcome) (k : String × String) : Prop :=
  count (others outcomes k) < count outcomes

end

section

variable {slice : SortCases} {sets : List Proposal.Set} {outcomes : List Outcome}
  {k : String × String} {o o' : Outcome} {c : Case}

theorem mem_others : o ∈ others outcomes k ↔ o ∈ outcomes ∧ incidentOf o ≠ k := by
  simp [others, mem_filter]

theorem mem_inFlight : k ∈ inFlight outcomes ↔ (∃ o ∈ outcomes, incidentOf o = k) ∧
      ∀ o ∈ outcomes, incidentOf o = k → o.result = .applied := by
  rw [inFlight, mem_filter, mem_eraseDups, mem_map, all_eq_true]
  simp only [decide_eq_true_eq, imp_iff_not_or]

theorem counts_inFlightCount : Counts inFlightCount outcomes k ↔ k ∈ inFlight outcomes := by
  have hothers (k' : String × String) :
      k' ∈ inFlight (others outcomes k) ↔ k' ∈ inFlight outcomes ∧ k' ≠ k := by
    simp only [mem_inFlight, mem_others]
    constructor
    · rintro ⟨⟨o, ⟨ho, hne⟩, rfl⟩, hall⟩
      exact ⟨⟨⟨o, ho, rfl⟩, fun o' ho' hk => hall o' ⟨ho', hk ▸ hne⟩ hk⟩, hne⟩
    · rintro ⟨⟨⟨o, ho, rfl⟩, hall⟩, hne⟩
      exact ⟨⟨o, ⟨ho, hne⟩, rfl⟩, fun o' ho' hk => hall o' ho'.1 hk⟩
  have hnodup (outcomes : List Outcome) : (inFlight outcomes).Nodup := (nodup_eraseDups _).filter _
  rw [Counts, inFlightCount, inFlightCount,
    length_lt_iff (hnodup _) (hnodup _) fun k' hk' => ((hothers k').mp hk').1]
  simp only [hothers]
  constructor
  · rintro ⟨k', hk', hno⟩
    have heq : k' = k := by
      by_contra hne
      exact hno ⟨hk', hne⟩
    rwa [heq] at hk'
  · exact fun hk => ⟨k, hk, fun h => h.2 rfl⟩

theorem decides_others :
    Decides sets (others outcomes k) o ↔ Decides sets outcomes o ∧ incidentOf o ≠ k := by
  by_cases hk : incidentOf o = k
  · refine iff_of_false (fun h => ?_) fun h => h.2 hk
    exact (mem_others.mp h.mem).2 hk
  · have hrivals : rivals sets (others outcomes k) (incidentOf o) =
        rivals sets outcomes (incidentOf o) := by
      rw [rivals, rivals, others, filter_filter]
      refine filter_congr fun o' _ => ?_
      by_cases ho' : incidentOf o' = incidentOf o
      · simp [ho', hk]
      · simp [ho']
    rw [Decides, hrivals]
    exact (and_iff_left hk).symm

theorem Decides.unique (h : Decides sets outcomes o) (h' : Decides sets outcomes o')
    (hinc : incidentOf o = incidentOf o') : o = o' := by
  rw [Decides, hinc] at h
  exact Option.mem_unique h h'

/-- The outcome decides its incident and has a label. -/
def Labelled (sets : List Proposal.Set) (outcomes : List Outcome) (o : Outcome) (c : Case) : Prop :=
  Decides sets outcomes o ∧ caseOf sets o = some c ∧ (labelOf c).isSome

theorem counts_labelledCount :
    Counts (fun outcomes => labelledCount (mineCorpus slice sets outcomes)) outcomes k ↔
      ∃ o c, Labelled sets outcomes o c ∧ incidentOf o = k ∧
        ∀ o' c', Labelled sets outcomes o' c' → incidentOf o' ≠ k → c'.runID ≠ c.runID := by
  have hmem (outcomes : List Outcome) (runID : String) :
      runID ∈ (labels (mineCorpus slice sets outcomes)).map Prod.fst ↔
        ∃ o c, Labelled sets outcomes o c ∧ c.runID = runID := by
    rw [mem_labels]
    constructor
    · rintro ⟨c, hc, hlabel, hrun⟩
      obtain ⟨o, ho, hcase⟩ := mem_mineCorpus.mp hc
      exact ⟨o, c, ⟨ho, hcase, hlabel⟩, hrun⟩
    · rintro ⟨o, c, ⟨ho, hcase, hlabel⟩, hrun⟩
      exact ⟨c, mem_mineCorpus.mpr ⟨o, ho, hcase⟩, hlabel, hrun⟩
  have hothers (o : Outcome) (c : Case) :
      Labelled sets (others outcomes k) o c ↔ Labelled sets outcomes o c ∧ incidentOf o ≠ k := by
    rw [Labelled, Labelled, decides_others]
    tauto
  have hlength (outcomes : List Outcome) : labelledCount (mineCorpus slice sets outcomes) =
      ((labels (mineCorpus slice sets outcomes)).map Prod.fst).length := (length_map _).symm
  rw [Counts, hlength, hlength, length_lt_iff (nodup_labels _) (nodup_labels _) fun runID h => by
    obtain ⟨o, c, hlabel, hrun⟩ := (hmem _ _).mp h
    exact (hmem _ _).mpr ⟨o, c, ((hothers o c).mp hlabel).1, hrun⟩]
  simp only [hmem, hothers]
  constructor
  · rintro ⟨runID, ⟨o, c, hlabel, rfl⟩, hno⟩
    have honly {o' : Outcome} {c' : Case} (h' : Labelled sets outcomes o' c')
        (hk' : incidentOf o' ≠ k) : c'.runID ≠ c.runID :=
      fun hrun => hno ⟨o', c', ⟨h', hk'⟩, hrun⟩
    refine ⟨o, c, hlabel, ?_, fun o' c' => honly⟩
    by_contra hk
    exact honly hlabel hk rfl
  · rintro ⟨o, c, hlabel, -, honly⟩
    refine ⟨c.runID, ⟨o, c, hlabel, rfl⟩, ?_⟩
    rintro ⟨o', c', ⟨h', hk'⟩, hrun⟩
    exact honly o' c' h' hk' hrun

end

/-! ## The record -/

/-- What the system has emitted. -/
structure Record where
  journaled : List Proposal.Set := []
  sets : List Proposal.Set := []
  /-- The rulings of governance, with the sets they are on. -/
  governed : List Decision.Governed := []
  outcomes : List Outcome := []

/-- Governance has declined: it has neither approved nor held. -/
def declines (v : Decision.Verdict) : Bool := v != .approved && v != .hold

/-- The published sets that governance declined. -/
def Record.declined (r : Record) : List Proposal.Set :=
  r.sets.filter fun s => r.governed.any fun g => g.set = s ∧ declines g.decision.verdict

/-- The sets are of runs of the engine, and no clock stands before the zero time. -/
structure Emitted (r : Record) : Prop where
  journaled : ∀ s ∈ r.journaled, StoredBy s .journal
  published : ∀ s ∈ r.sets, StoredBy s (.publish "thump.proposals")
  executed : ∀ o ∈ r.outcomes, Time.zero ≤ o.executedAt

/-- Some outcome of the incident is joined to its run. -/
def Record.Joined (r : Record) (k : String × String) : Prop :=
  ∃ o ∈ r.outcomes, incidentOf o = k ∧ ∃ set, minedSet r.sets o = some set ∧ set.runID ≠ ""

/-- Every incident that is joined is counted once, and what is not labelled is what governance
declined. -/
structure Partitioned (slice : SortCases) (r : Record) : Prop where
  once : ∀ k, r.Joined k →
    (Counts (fun outcomes => (populations slice r.sets outcomes r.journaled).labelled)
      r.outcomes k ↔
      ¬ Counts (fun outcomes => (populations slice r.sets outcomes r.journaled).inFlight)
        r.outcomes k)
  unlabelled : (populations slice r.sets r.outcomes r.journaled).unlabelled = r.declined.length

/-- Nothing was declined, no incident ended as rendered or without a result, and no two incidents
of a fingerprint have ended. -/
structure Gradeable (r : Record) : Prop where
  undeclined : r.declined = []
  graded : ∀ o, Decides r.sets r.outcomes o → o.result ≠ .rendered ∧ o.result ≠ .other ""
  alone : ∀ o o', Decides r.sets r.outcomes o → Decides r.sets r.outcomes o' →
    o.signalRef = o'.signalRef → o.decisionRef = o'.decisionRef

namespace Emitted

variable {r : Record} {o o' : Outcome} {c c' : Case}

theorem asPublished (h : Emitted r) : ∀ s ∈ r.sets, AsPublished s := by
  intro s hs
  obtain ⟨e, sig, t, q, ans, hsteps, hmem⟩ := h.published s hs
  exact published_unobserved hsteps hmem

theorem declinedCount (h : Emitted r) : declinedCount r.journaled = 0 := by
  rw [Corpus.declinedCount, length_eq_zero_iff, filter_eq_nil_iff]
  intro s hs
  obtain ⟨at', hrun⟩ := (h.journaled s hs).ofRun id
  simpa using hrun.phase

theorem minedSet (h : Emitted r) (ho : o ∈ r.outcomes) :
    minedSet r.sets o = (setsOf o.signalRef r.sets).head? :=
  minedSet_of_asPublished h.asPublished (h.executed o ho)

theorem runID (h : Emitted r) (ho : o ∈ r.outcomes) (hc : caseOf r.sets o = some c) :
    ∃ at', c.runID = mintedID o.signalRef at' := by
  obtain ⟨set, hset, rfl⟩ := Option.map_eq_some_iff.mp hc
  rw [h.minedSet ho] at hset
  obtain ⟨hmem, hsig⟩ := mem_filter.mp (mem_of_mem_head? hset)
  obtain ⟨at', hrun⟩ := (h.published set hmem).ofRun id
  rw [eq_of_beq hsig] at hrun
  exact ⟨at', hrun.runID⟩

theorem runID_eq_iff (h : Emitted r) (ho : o ∈ r.outcomes) (ho' : o' ∈ r.outcomes)
    (hc : caseOf r.sets o = some c) (hc' : caseOf r.sets o' = some c') :
    c.runID = c'.runID ↔ o.signalRef = o'.signalRef := by
  constructor
  · intro hrun
    obtain ⟨at₁, h₁⟩ := h.runID ho hc
    obtain ⟨at₂, h₂⟩ := h.runID ho' hc'
    exact eq_of_mintedID (by rw [← h₁, ← h₂, hrun])
  · intro hsig
    obtain ⟨set, hset, rfl⟩ := Option.map_eq_some_iff.mp hc
    obtain ⟨set', hset', rfl⟩ := Option.map_eq_some_iff.mp hc'
    rw [h.minedSet ho, hsig, ← h.minedSet ho', hset'] at hset
    obtain rfl := Option.some.inj hset
    rfl

theorem labelled_iff (h : Emitted r) (ho : Decides r.sets r.outcomes o)
    (hc : caseOf r.sets o = some c) :
    Labelled r.sets r.outcomes o c ↔ o.result ≠ .rendered ∧ o.result ≠ .other "" := by
  obtain ⟨at', hrun⟩ := h.runID ho.mem hc
  have hacted : o.result ≠ .applied := (mem_rivals.mp (argmax_mem ho)).2.2.2
  have hne : c.runID ≠ "" := hrun ▸ mintedID_ne_empty _ _
  rw [Labelled, labelOf_isSome, (caseOf_eq_some hc).2.2.1]
  tauto

theorem exists_decides (h : Emitted r) {k : String × String} (hk : r.Joined k)
    (hflight : k ∉ inFlight r.outcomes) : ∃ o, Decides r.sets r.outcomes o ∧ incidentOf o = k := by
  obtain ⟨o, ho, hok, set, hset, -⟩ := hk
  simp only [mem_inFlight, not_and, not_forall] at hflight
  obtain ⟨o', ho', hok', hacted⟩ := hflight ⟨o, ho, hok⟩
  -- the two are of one fingerprint, so `o'` is joined as well
  have hsig : o'.signalRef = o.signalRef := congrArg Prod.fst (hok'.trans hok.symm)
  rw [h.minedSet ho, ← hsig, ← h.minedSet ho'] at hset
  have hrival : o' ∈ rivals r.sets r.outcomes k :=
    mem_rivals.mpr ⟨ho', hok', Option.isSome_iff_exists.mpr ⟨set, hset⟩, hacted⟩
  cases hm : (rivals r.sets r.outcomes k).argmax Outcome.executedAt with
  | none => exact absurd (argmax_eq_none.mp hm) (ne_nil_of_mem hrival)
  | some d =>
    have hdk : incidentOf d = k := (mem_rivals.mp (argmax_mem hm)).2.1
    exact ⟨d, by rwa [Decides, hdk], hdk⟩

theorem joined_of_decides (h : Emitted r) (ho : Decides r.sets r.outcomes o) :
    r.Joined (incidentOf o) ∧ incidentOf o ∉ inFlight r.outcomes := by
  obtain ⟨hmem, -, hsome, hacted⟩ := mem_rivals.mp (argmax_mem ho)
  obtain ⟨set, hset⟩ := Option.isSome_iff_exists.mp hsome
  have hcase : caseOf r.sets o = some (newCase set o) := by rw [caseOf, hset, Option.map_some]
  obtain ⟨at', hrun⟩ := h.runID hmem hcase
  have hne : set.runID ≠ "" := fun he => mintedID_ne_empty _ _ (hrun.symm.trans he)
  exact ⟨⟨o, hmem, rfl, set, hset, hne⟩, fun hf => hacted ((mem_inFlight.mp hf).2 o hmem rfl)⟩

end Emitted

/-- The counts are right for exactly those records of which nothing was declined, no incident
ended as rendered, and no two incidents of a fingerprint have ended. -/
theorem partitioned_iff (slice : SortCases) {r : Record} (h : Emitted r) :
    Partitioned slice r ↔ Gradeable r := by
  constructor
  · intro hpart
    -- what decides is not in flight, so it is counted among the labels
    have hcounted {o : Outcome} (ho : Decides r.sets r.outcomes o) :
        ∃ c, Labelled r.sets r.outcomes o c ∧ ∀ o' c', Labelled r.sets r.outcomes o' c' →
          incidentOf o' ≠ incidentOf o → c'.runID ≠ c.runID := by
      obtain ⟨hjoined, hflight⟩ := h.joined_of_decides ho
      have hcounts := (hpart.once _ hjoined).mpr fun hf => hflight (counts_inFlightCount.mp hf)
      obtain ⟨o₁, c, hlabel, hinc, honly⟩ := counts_labelledCount.mp hcounts
      obtain rfl := hlabel.1.unique ho hinc
      exact ⟨c, hlabel, honly⟩
    exact
      { undeclined := by
          rw [← length_eq_zero_iff, ← hpart.unlabelled]
          exact h.declinedCount
        graded := fun o ho => by
          obtain ⟨c, hlabel, -⟩ := hcounted ho
          exact (h.labelled_iff ho hlabel.2.1).mp hlabel
        alone := fun o o' ho ho' hsig => by
          obtain ⟨c, hlabel, honly⟩ := hcounted ho
          obtain ⟨c', hlabel', -⟩ := hcounted ho'
          by_contra hdec
          have hne : incidentOf o' ≠ incidentOf o := fun he => hdec (congrArg Prod.snd he).symm
          exact honly o' c' hlabel' hne
            ((h.runID_eq_iff ho'.mem ho.mem hlabel'.2.1 hlabel.2.1).mpr hsig.symm) }
  · intro hg
    refine ⟨fun k hk => ?_, ?_⟩
    · constructor
      · intro hl hf
        obtain ⟨o, c, hlabel, rfl, -⟩ := counts_labelledCount.mp hl
        exact (h.joined_of_decides hlabel.1).2 (counts_inFlightCount.mp hf)
      · intro hf
        refine counts_labelledCount.mpr ?_
        obtain ⟨o, ho, rfl⟩ := h.exists_decides hk fun hk => hf (counts_inFlightCount.mpr hk)
        obtain ⟨c, hc⟩ := ho.caseOf
        refine ⟨o, c, (h.labelled_iff ho hc).mpr (hg.graded o ho), rfl, fun o' c' h' hne hrun => ?_⟩
        have hsig := (h.runID_eq_iff h'.1.mem ho.mem h'.2.1 hc).mp hrun
        exact hne (Prod.ext hsig (hg.alone o' o h'.1 ho hsig))
    · rw [hg.undeclined]
      exact h.declinedCount

/-! ### Records -/

/-- The set that the throttling run came to. -/
def throttleSet : Proposal.Set := (throttleRun [throttleCandidate]).1.toOption.getD {}

theorem throttleSet_stored :
    StoredBy throttleSet .journal ∧ StoredBy throttleSet (.publish "thump.proposals") := by
  have hsteps : ((throttleEngine [throttleCandidate]).propose checkoutDetection).Exits
      (throttleRun [throttleCandidate]).2 (throttleRun [throttleCandidate]).1 :=
    Prog.exits_play _ _ _
  have hjournal : (throttleRun [throttleCandidate]).2[13]? =
      some ⟨.journal throttleSet, (.ok () : Except String Unit)⟩ := rfl
  have hpublish : (throttleRun [throttleCandidate]).2[14]? =
      some ⟨.publish "thump.proposals" throttleSet, (.ok () : Except String Unit)⟩ := rfl
  exact ⟨⟨_, _, _, _, _, hsteps, mem_of_getElem? hjournal⟩,
    ⟨_, _, _, _, _, hsteps, mem_of_getElem? hpublish⟩⟩

def throttled (governed : List Decision.Governed) (outcomes : List Outcome) : Record where
  journaled := [throttleSet]
  sets := [throttleSet]
  governed := governed
  outcomes := outcomes

theorem throttled_emitted {governed : List Decision.Governed} {outcomes : List Outcome}
    (h : ∀ o ∈ outcomes, Time.zero ≤ o.executedAt) : Emitted (throttled governed outcomes) where
  journaled s hs := by
    rw [mem_singleton.mp hs]
    exact throttleSet_stored.1
  published s hs := by
    rw [mem_singleton.mp hs]
    exact throttleSet_stored.2
  executed := h

/-- An incident that succeeded is counted. -/
theorem firstDone_partitioned :
    Emitted (throttled [] [firstDone]) ∧ Partitioned insertionCases (throttled [] [firstDone]) := by
  have hemit : Emitted (throttled [] [firstDone]) := throttled_emitted (by decide)
  refine ⟨hemit, (partitioned_iff insertionCases hemit).mpr ?_⟩
  have hmem {o : Outcome} (ho : Decides [throttleSet] [firstDone] o) : o = firstDone :=
    mem_singleton.mp ho.mem
  exact
    { undeclined := by decide +kernel
      graded := fun o ho => by
        rw [hmem ho]
        decide
      alone := fun o o' ho ho' _ => by rw [hmem ho, hmem ho'] }

/-- Of two incidents of a fingerprint that succeeded one label is counted, and neither is in
flight.  A set that governance declined is not counted as such. -/
theorem secondDone_uncounted :
    (Emitted (throttled [] [firstDone, secondDone]) ∧
      labelledCount (mineCorpus insertionCases [throttleSet] [firstDone, secondDone]) = 1 ∧
      inFlightCount [firstDone, secondDone] = 0 ∧
      ¬ Partitioned insertionCases (throttled [] [firstDone, secondDone])) ∧
    Emitted (throttled [{ decision := { verdict := .escalate }, set := throttleSet }] []) ∧
      ¬ Partitioned insertionCases
        (throttled [{ decision := { verdict := .escalate }, set := throttleSet }] []) := by
  have hemit : Emitted (throttled [] [firstDone, secondDone]) := throttled_emitted (by decide)
  refine ⟨⟨hemit, by decide +kernel, by decide +kernel, fun h => ?_⟩, throttled_emitted (by simp),
    fun h => ?_⟩
  · have hjoined : (throttled [] [firstDone, secondDone]).Joined ("checkout", "dec:checkout:1") :=
      ⟨firstDone, mem_cons_self, rfl, throttleSet, rfl, by decide +kernel⟩
    have hlabelled := (h.once _ hjoined).mpr (by
      unfold Counts
      decide +kernel)
    revert hlabelled
    unfold Counts
    decide +kernel
  · exact absurd h.unlabelled (by decide +kernel)

end Beats.Corpus
