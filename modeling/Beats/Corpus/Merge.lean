import Mathlib.Algebra.Order.Field.Rat
import Mathlib.Data.Prod.Lex
import Beats.Clank.Collapse
import Beats.Lib.Argmax

/-!
# Corpora

`mergeCorpus` of `internal/corpus`: what is mined is merged into what was mined before.  The two are
united on the outcome of a case, and the union is collapsed like a mined batch.

The outcome of a case is known by its ID, and an ID has the second in which it was minted.  Two
outcomes of one signal in one second share theirs, and the union keeps the first of the two whatever
incidents they belong to (`secondDrained_lost`).  `incremental_iff` says when mining in two batches
is the same as mining at once.

What a corpus says of a floor is how the cases of a class lie on its two sides
(`floorSupport_splits`).
-/

namespace Beats.Clank

open Proposal List

def corpusVersion : Int := 3

/-- The cases, and the segments they were mined from. -/
structure Corpus where
  version : Int := 0
  cases : List Case := []
  minedAt : Time := Time.zero
  segments : List String := []

/-! ## The support of a floor -/

/-- How the cases of a class stand to a floor. -/
structure FloorSupport where
  cls : FailureClass
  floor : Rat
  admittedTotal : Nat := 0
  admittedWins : Nat := 0
  refusedTotal : Nat := 0
  refusedWins : Nat := 0

/-- The body of the loop of `Corpus.FloorSupport`. -/
def FloorSupport.add (fs : FloorSupport) (c : Case) : FloorSupport :=
  if c.failureClass ≠ fs.cls ∨ c.result = .rendered ∨ c.result = .applied then fs
  else
    let win := if c.result = .success then 1 else 0
    if fs.floor ≤ c.confidence then
      { fs with admittedTotal := fs.admittedTotal + 1, admittedWins := fs.admittedWins + win }
    else { fs with refusedTotal := fs.refusedTotal + 1, refusedWins := fs.refusedWins + win }

def Corpus.floorSupport (c : Corpus) (cls : FailureClass) (floor : Rat) : FloorSupport :=
  c.cases.foldl FloorSupport.add { cls, floor }

/-- A case of the class that was neither rendered nor applied. -/
def Case.Counts (cls : FailureClass) (c : Case) : Prop :=
  c.failureClass = cls ∧ c.result ≠ .rendered ∧ c.result ≠ .applied

instance (cls : FailureClass) (c : Case) : Decidable (c.Counts cls) :=
  inferInstanceAs (Decidable (_ ∧ _ ∧ _))

theorem FloorSupport.foldl_add (cs : List Case) (fs : FloorSupport) : cs.foldl add fs =
      { fs with
        admittedTotal := fs.admittedTotal +
          cs.countP fun c => c.Counts fs.cls ∧ fs.floor ≤ c.confidence
        admittedWins := fs.admittedWins + cs.countP fun c =>
          (c.Counts fs.cls ∧ c.result = .success) ∧ fs.floor ≤ c.confidence
        refusedTotal := fs.refusedTotal +
          cs.countP fun c => c.Counts fs.cls ∧ ¬ fs.floor ≤ c.confidence
        refusedWins := fs.refusedWins + cs.countP fun c =>
          (c.Counts fs.cls ∧ c.result = .success) ∧ ¬ fs.floor ≤ c.confidence } := by
  induction cs generalizing fs with
  | nil => rfl
  | cons c cs ih =>
    have hskip : (c.failureClass ≠ fs.cls ∨ c.result = .rendered ∨ c.result = .applied) ↔
        ¬ c.Counts fs.cls := by
      unfold Case.Counts
      tauto
    rw [foldl_cons, ih, add]
    by_cases hc : c.Counts fs.cls
    · rw [if_neg (mt hskip.mp (not_not.mpr hc))]
      by_cases hw : c.result = .success <;> by_cases hf : fs.floor ≤ c.confidence <;>
        simp [hc, hw, hf, countP_cons, Nat.add_assoc, Nat.add_comm 1]
    · rw [if_pos (hskip.mpr hc)]
      simp [hc]

theorem countP_split {p q : Case → Prop} [DecidablePred p] [DecidablePred q] (cs : List Case) :
    (cs.countP fun c => p c ∧ q c) + (cs.countP fun c => p c ∧ ¬ q c) = cs.countP p := by
  rw [countP_eq_countP_filter_add cs (decide <| p ·) (decide <| q ·), countP_filter, countP_filter]
  simp

theorem countP_raised {p : Case → Prop} [DecidablePred p] {floor floor' : Rat}
    (h : floor ≤ floor') (cs : List Case) :
    (cs.countP fun c => p c ∧ floor' ≤ c.confidence) ≤
      cs.countP fun c => p c ∧ floor ≤ c.confidence := by
  refine countP_mono_left fun c _ hc => ?_
  simp only [decide_eq_true_eq] at hc ⊢
  exact ⟨hc.1, h.trans hc.2⟩

/-- A floor splits the cases that count, and a higher floor admits no more of them and no more
wins.  What both sides come to does not depend on the floor. -/
theorem floorSupport_splits (c : Corpus) (cls : FailureClass) {floor floor' : Rat}
    (h : floor ≤ floor') :
    let fs := c.floorSupport cls floor
    let fs' := c.floorSupport cls floor'
    (fs.admittedTotal = (c.cases.countP fun c => c.Counts cls ∧ floor ≤ c.confidence) ∧
      fs.refusedTotal = (c.cases.countP fun c => c.Counts cls ∧ ¬ floor ≤ c.confidence) ∧
      fs.admittedTotal + fs.refusedTotal = c.cases.countP (Case.Counts cls)) ∧
    (fs.admittedWins ≤ fs.admittedTotal ∧ fs.refusedWins ≤ fs.refusedTotal) ∧
    (fs'.admittedTotal ≤ fs.admittedTotal ∧ fs'.admittedWins ≤ fs.admittedWins) ∧
    fs'.admittedTotal + fs'.refusedTotal = fs.admittedTotal + fs.refusedTotal ∧
    fs'.admittedWins + fs'.refusedWins = fs.admittedWins + fs.refusedWins := by
  dsimp only [Corpus.floorSupport]
  simp only [FloorSupport.foldl_add, Nat.zero_add, countP_split, countP_raised h, true_and,
    and_true]
  constructor <;> refine countP_mono_left fun c _ hc => ?_ <;>
    simp only [decide_eq_true_eq] at hc ⊢ <;> exact ⟨hc.1.1, hc.2⟩

def admittedOnce : Corpus :=
  { cases := [{ failureClass := .trafficShift, confidence := 1 / 2, result := .success }] }

theorem admittedOnce_raised :
    (admittedOnce.floorSupport .trafficShift (1 / 4)).admittedTotal = 1 ∧
      (admittedOnce.floorSupport .trafficShift (3 / 4)).admittedTotal ≤
        (admittedOnce.floorSupport .trafficShift (1 / 4)).admittedTotal :=
  ⟨by decide +kernel,
    (floorSupport_splits admittedOnce .trafficShift (by decide +kernel)).2.2.1.1⟩

end Beats.Clank

namespace Beats.Corpus

open Clank Lib

/-! ## The merge -/

/-- The corpus with what was mined since. -/
def mergeCorpus (slice : SortCases) (existing mined : Corpus) : Corpus where
  version := corpusVersion
  cases := slice.sort (collapseCases (firstOf Case.outcomeRef (existing.cases ++ mined.cases)))
  minedAt := mined.minedAt
  segments := (existing.segments ++ mined.segments).eraseDups.insertionSort (· ≤ ·)

/-- The corpora have the same cases and segments. -/
structure Same (c c' : Corpus) : Prop where
  cases : c.cases.Perm c'.cases
  segments : ∀ s, s ∈ c.segments ↔ s ∈ c'.segments

section

variable {slice : SortCases} {existing mined : Corpus}

theorem mem_segments_mergeCorpus {s : String} : s ∈ (mergeCorpus slice existing mined).segments ↔
      s ∈ existing.segments ∨ s ∈ mined.segments := by
  rw [mergeCorpus, List.mem_insertionSort, List.mem_eraseDups, List.mem_append]

theorem mergeCorpus_same (hids : (existing.cases.map Case.incident).Nodup)
    (hres : ∀ c ∈ existing.cases, c.result ≠ .applied)
    (hrefs : (existing.cases.map Case.outcomeRef).Nodup)
    (hcases : ∀ c ∈ mined.cases, c.outcomeRef ∈ existing.cases.map Case.outcomeRef)
    (hsegs : ∀ s ∈ mined.segments, s ∈ existing.segments) :
    Same (mergeCorpus slice existing mined) existing where
  cases := by
    refine (slice.perm _).trans ?_
    rw [firstOf_append_eq_left hcases, firstOf_eq_self hrefs, collapseCases_eq_self hids hres]
  segments s := by
    rw [mem_segments_mergeCorpus]
    exact or_iff_left_of_imp (hsegs s)

theorem mergeCorpus_self (slice : SortCases) (existing mined : Corpus) :
    Same (mergeCorpus slice (mergeCorpus slice existing mined)
      (mergeCorpus slice existing mined)) (mergeCorpus slice existing mined) := by
  have hperm : (mergeCorpus slice existing mined).cases.Perm (collapseCases _) := slice.perm _
  refine mergeCorpus_same ?_ ?_ ?_ (fun c hc => List.mem_map_of_mem hc) fun s hs => hs
  · exact ((hperm.map _).nodup_iff).mpr (nodup_incident_collapseCases _)
  · exact fun c hc => (mem_of_mem_collapseCases (hperm.mem_iff.mp hc)).2
  · rw [(hperm.map _).nodup_iff]
    -- the union has each outcome once, and the collapse is a part of it
    refine List.Nodup.map_on (fun c hc d hd hcd => ?_) (nodup_collapseCases _)
    exact List.inj_on_of_nodup_map (nodup_map_firstOf _ _) (mem_of_mem_collapseCases hc).1
      (mem_of_mem_collapseCases hd).1 hcd

end

/-! ## What a merge keeps -/

section

variable {e m u : List Case} {c : Case}

/-- `m` has of each incident of `e` the same case or a later one. -/
structure Extends (e m : List Case) : Prop where
  once : (m.map Case.incident).Nodup
  acted : ∀ c ∈ m, c.result ≠ .applied
  later : ∀ c ∈ e, ∃ d ∈ m, d.incident = c.incident ∧ (d = c ∨ c.observedAt < d.observedAt)

theorem Extends.mem_collapseCases (h : Extends e m) (hu : ∀ c ∈ u, c ∈ e ∨ c ∈ m)
    (hm : ∀ c ∈ m, c ∈ u) : c ∈ collapseCases u ↔ c ∈ m := by
  rw [Clank.mem_collapseCases]
  constructor
  · intro hc
    rcases hu c (mem_records.mp (List.argmax_mem hc)).1 with hce | hcm
    · obtain ⟨d, hd, hinc, rfl | hlt⟩ := h.later c hce
      · exact hd
      · have hrec : d ∈ records u c.incident := mem_records.mpr ⟨hm d hd, hinc, h.acted d hd⟩
        exact absurd (List.le_of_mem_argmax hrec hc) (not_le.mpr hlt)
    · exact hcm
  · intro hc
    refine argmax_eq_some_of_forall_lt (mem_records.mpr ⟨hm c hc, rfl, h.acted c hc⟩) ?_
    intro b hb hne
    obtain ⟨hbu, hinc, -⟩ := mem_records.mp hb
    have heq {d : Case} (hd : d ∈ m) (hd' : d.incident = c.incident) : d = c :=
      List.inj_on_of_nodup_map h.once hd hc hd'
    rcases hu b hbu with hbe | hbm
    · obtain ⟨d, hd, hdinc, hdb⟩ := h.later b hbe
      obtain rfl := heq hd (hdinc.trans hinc)
      exact hdb.resolve_left fun he => hne he.symm
    · exact absurd (heq hbm hinc) hne

/-- A merge into what it extends gives what is merged exactly if the union has all of that. -/
theorem Extends.merge_perm_iff (h : Extends e m) (slice : SortCases) :
    (slice.sort (collapseCases (firstOf Case.outcomeRef (e ++ m)))).Perm m ↔
      ∀ c ∈ m, c ∈ firstOf Case.outcomeRef (e ++ m) := by
  constructor
  · intro hperm c hc
    exact (mem_of_mem_collapseCases ((slice.perm _).mem_iff.mp (hperm.mem_iff.mpr hc))).1
  · intro hm
    refine (slice.perm _).trans ?_
    rw [List.perm_ext_iff_of_nodup (nodup_collapseCases _) (h.once.of_map _)]
    intro c
    exact h.mem_collapseCases (fun c hc => List.mem_append.mp (mem_of_mem_firstOf hc)) hm

/-- No case of `m` shares its outcome with another of `m`, or of `e`, unless it stands before that
one in `e`. -/
def Named (e m : List Case) : Prop :=
  ∀ c ∈ m, ∀ d, d ∈ e ∨ d ∈ m → d.outcomeRef = c.outcomeRef →
    d = c ∨ c ∈ e ∧ d ∉ m ∧ c.observedAt < d.observedAt

theorem Named.congr {e' m' : List Case} (he : ∀ c, c ∈ e ↔ c ∈ e') (hm : ∀ c, c ∈ m ↔ c ∈ m') :
    Named e m ↔ Named e' m' := by
  simp only [Named, he, hm]

theorem Named.nodup (h : Named e m) (hm : m.Nodup) : (m.map Case.outcomeRef).Nodup := by
  refine hm.map_on fun c hc d hd hcd => ?_
  rcases h d hd c (.inr hc) hcd with hcd | ⟨-, hnot, -⟩
  · exact hcd
  · exact absurd hc hnot

theorem Named.mem_firstOf (h : Named e m) (he : e.Pairwise fun a b => a.observedAt ≤ b.observedAt)
    (hc : c ∈ m) : c ∈ firstOf Case.outcomeRef (e ++ m) := by
  rw [Lib.mem_firstOf, List.find?_append]
  cases hfe : e.find? fun d => d.outcomeRef = c.outcomeRef with
  | some d =>
    obtain ⟨hd, before, after, rfl, hbefore⟩ := List.find?_eq_some_iff_append.mp hfe
    have hdmem : d ∈ before ++ d :: after := by simp
    rcases h c hc d (.inl hdmem) (by simpa using hd) with rfl | ⟨hce, -, hlt⟩
    · rfl
    · -- `c` is behind the first case that has its outcome, so it is no earlier
      exfalso
      rcases List.mem_append.mp hce with hcb | hca
      · simpa using hbefore c hcb
      · rcases List.mem_cons.mp hca with rfl | hca
        · exact lt_irrefl _ hlt
        · obtain ⟨-, hd', -⟩ := List.pairwise_append.mp he
          exact absurd ((List.pairwise_cons.mp hd').1 c hca) (not_le.mpr hlt)
  | none =>
    cases hfm : m.find? fun d => d.outcomeRef = c.outcomeRef with
    | none => exact absurd (decide_eq_true rfl) (List.find?_eq_none.mp hfm c hc)
    | some d =>
      have hd := List.mem_of_find?_eq_some hfm
      rcases h c hc d (.inr hd) (by simpa using List.find?_some hfm) with rfl | ⟨-, hnot, -⟩
      · rfl
      · exact absurd hd hnot

/-! ### A sort that favours a case -/

/-- The place of a case where `d` comes first of those observed with it. -/
def favouredKey (d c : Case) : Int ×ₗ Nat := toLex (c.observedAt, if c = d then 0 else 1)

theorem observedAt_le_of_favouredKey {d : Case} {a b : Case}
    (h : favouredKey d a ≤ favouredKey d b) : a.observedAt ≤ b.observedAt :=
  (Prod.Lex.toLex_le_toLex.mp h).elim le_of_lt fun h => h.1.le

/-- What `slices.SortFunc` may do: it is not stable. -/
def favouring (d : Case) : SortCases where
  sort := List.insertionSort fun a b => favouredKey d a ≤ favouredKey d b
  perm := List.perm_insertionSort _
  sorted l := by
    have : Std.Total fun a b : Case => favouredKey d a ≤ favouredKey d b :=
      ⟨fun _ _ => le_total _ _⟩
    have : IsTrans Case fun a b => favouredKey d a ≤ favouredKey d b := ⟨fun _ _ _ => le_trans⟩
    exact (List.pairwise_insertionSort _ l).imp observedAt_le_of_favouredKey

theorem favouring_pairwise (d : Case) (l : List Case) :
    ((favouring d).sort l).Pairwise fun a b => favouredKey d a ≤ favouredKey d b := by
  exact List.pairwise_insertionSort _ l

theorem lt_of_favouredKey {d : Case} (hne : c ≠ d) (h : favouredKey d c ≤ favouredKey d d) :
    c.observedAt < d.observedAt := by
  rcases Prod.Lex.toLex_le_toLex.mp h with hlt | ⟨-, hle⟩
  · exact hlt
  · simp [hne] at hle

/-- If the union has all of `m` even where `d` is favoured, then no case of `m` shares its outcome
with `d`, unless it stands before `d` in `e`. -/
theorem named_of_favouring {d : Case} (he : e.Pairwise fun a b => favouredKey d a ≤ favouredKey d b)
    (h : ∀ c ∈ m, c ∈ firstOf Case.outcomeRef (e ++ m)) (hc : c ∈ m) (hd : d ∈ e ∨ d ∈ m)
    (href : d.outcomeRef = c.outcomeRef) :
    d = c ∨ c ∈ e ∧ d ∉ m ∧ c.observedAt < d.observedAt := by
  by_cases hdc : d = c
  · exact .inl hdc
  · have hfind := mem_firstOf.mp (h c hc)
    have hdm : d ∉ m := by
      intro hdm
      have hfind' := mem_firstOf.mp (h d hdm)
      rw [href, hfind] at hfind'
      exact hdc (Option.some.inj hfind').symm
    have hde := hd.resolve_right hdm
    -- `e` has `d`, so what is found in the union is found in `e`
    have hfe : e.find? (fun b => b.outcomeRef = c.outcomeRef) = some c := by
      cases hfe : e.find? fun b => b.outcomeRef = c.outcomeRef with
      | none => exact absurd (decide_eq_true href) (List.find?_eq_none.mp hfe d hde)
      | some b =>
        rw [List.find?_append, hfe] at hfind
        exact hfind
    refine .inr ⟨List.mem_of_find?_eq_some hfe, hdm, ?_⟩
    obtain ⟨-, before, after, rfl, hbefore⟩ := List.find?_eq_some_iff_append.mp hfe
    obtain ⟨-, hafter, -⟩ := List.pairwise_append.mp he
    rcases List.mem_append.mp hde with hdb | hda
    · exact absurd href (by simpa using hbefore d hdb)
    · have hda := (List.mem_cons.mp hda).resolve_left hdc
      exact lt_of_favouredKey (Ne.symm hdc) ((List.pairwise_cons.mp hafter).1 d hda)

theorem Extends.sort (h : Extends e m) (slice : SortCases) :
    Extends (slice.sort e) (slice.sort m) where
  once := (((slice.perm m).map _).nodup_iff).mpr h.once
  acted c hc := h.acted c ((slice.perm m).mem_iff.mp hc)
  later c hc := by
    obtain ⟨d, hd, hdc⟩ := h.later c ((slice.perm e).mem_iff.mp hc)
    exact ⟨d, (slice.perm m).mem_iff.mpr hd, hdc⟩

/-- Whatever the sort, the merge gives what is merged exactly if its cases are named by their
outcomes. -/
theorem Extends.merge_iff (h : Extends e m) :
    (∀ slice : SortCases, (slice.sort (collapseCases (firstOf Case.outcomeRef
        (slice.sort e ++ slice.sort m)))).Perm (slice.sort m)) ↔ Named e m := by
  have hnamed (slice : SortCases) : Named (slice.sort e) (slice.sort m) ↔ Named e m :=
    Named.congr (fun c => (slice.perm e).mem_iff) fun c => (slice.perm m).mem_iff
  constructor
  · intro hperm c hc d hd href
    have hall := ((h.sort (favouring d)).merge_perm_iff _).mp (hperm (favouring d))
    have heq := named_of_favouring (favouring_pairwise d e) hall
      (((favouring d).perm m).mem_iff.mpr hc)
      (hd.imp ((favouring d).perm e).mem_iff.mpr ((favouring d).perm m).mem_iff.mpr) href
    rwa [((favouring d).perm e).mem_iff, ((favouring d).perm m).mem_iff] at heq
  · intro hn slice
    rw [(h.sort slice).merge_perm_iff]
    exact fun c hc => ((hnamed slice).mpr hn).mem_firstOf (slice.sorted e) hc

end

/-! ## Outcomes -/

/-- What tells the outcomes of a list apart. -/
def stamp (o : Outcome) : String × String × Outcome.Result × Time :=
  (o.signalRef, o.decisionRef, o.result, o.executedAt)

def incidentOf (o : Outcome) : String × String := (o.signalRef, o.decisionRef)

/-- The case of an outcome, if a set is found for it. -/
def caseOf (sets : List Proposal.Set) (o : Outcome) : Option Case :=
  (minedSet sets o).map fun set => newCase set o

/-- The settled outcomes that compete for an incident. -/
def rivals (sets : List Proposal.Set) (outcomes : List Outcome) (incident : String × String) :
    List Outcome :=
  outcomes.filter fun o =>
    incidentOf o = incident ∧ (minedSet sets o).isSome ∧ o.result ≠ .applied

/-- The outcome is the last of its incident, and the first that is listed of those. -/
def Decides (sets : List Proposal.Set) (outcomes : List Outcome) (o : Outcome) : Prop :=
  o ∈ (rivals sets outcomes (incidentOf o)).argmax Outcome.executedAt

section

variable {sets : List Proposal.Set} {outcomes : List Outcome} {o o' : Outcome} {c : Case}

theorem mem_rivals {incident : String × String} : o ∈ rivals sets outcomes incident ↔
      o ∈ outcomes ∧ incidentOf o = incident ∧ (minedSet sets o).isSome ∧ o.result ≠ .applied := by
  simp [rivals, List.mem_filter]

theorem caseOf_eq_some (h : caseOf sets o = some c) :
    c.incident = incidentOf o ∧ c.outcomeRef = o.id ∧ c.result = o.result ∧
      c.observedAt = o.executedAt := by
  obtain ⟨set, -, rfl⟩ := Option.map_eq_some_iff.mp h
  exact ⟨rfl, rfl, rfl, rfl⟩

theorem caseOf_of_isSome (h : (minedSet sets o).isSome) : ∃ c, caseOf sets o = some c := by
  obtain ⟨set, hset⟩ := Option.isSome_iff_exists.mp h
  exact ⟨newCase set o, by rw [caseOf, hset, Option.map_some]⟩

theorem eq_of_caseOf (hdist : (outcomes.map stamp).Nodup) (ho : o ∈ outcomes) (ho' : o' ∈ outcomes)
    (h : caseOf sets o = some c) (h' : caseOf sets o' = some c) : o = o' := by
  refine List.inj_on_of_nodup_map hdist ho ho' ?_
  obtain ⟨hinc, -, hres, hat⟩ := caseOf_eq_some h
  obtain ⟨hinc', -, hres', hat'⟩ := caseOf_eq_some h'
  have hinc := hinc.symm.trans hinc'
  simp only [incidentOf, Prod.mk.injEq] at hinc
  rw [stamp, stamp, hinc.1, hinc.2, ← hres, ← hat, hres', hat']

theorem Decides.mem (h : Decides sets outcomes o) : o ∈ outcomes :=
  (mem_rivals.mp (List.argmax_mem h)).1

theorem Decides.caseOf (h : Decides sets outcomes o) : ∃ c, caseOf sets o = some c :=
  caseOf_of_isSome (mem_rivals.mp (List.argmax_mem h)).2.2.1

theorem records_filterMap_caseOf (sets : List Proposal.Set) (outcomes : List Outcome)
    (incident : String × String) :
    records (outcomes.filterMap (caseOf sets)) incident =
      (rivals sets outcomes incident).filterMap (caseOf sets) := by
  rw [records, rivals, List.filter_filterMap, List.filterMap_filter]
  congr 1
  funext o
  cases hset : minedSet sets o with
  | none => simp [caseOf, hset]
  | some set =>
    simp only [caseOf, hset, Option.map_some, Option.isSome_some, true_and,
      Option.filter_some]
    rfl

theorem mem_collapse_caseOf : c ∈ collapseCases (outcomes.filterMap (caseOf sets)) ↔
      ∃ o, Decides sets outcomes o ∧ caseOf sets o = some c := by
  have hcase : ∀ o ∈ rivals sets outcomes c.incident,
      ∃ c, caseOf sets o = some c ∧ c.observedAt = o.executedAt := by
    intro o ho
    obtain ⟨c, hc⟩ := caseOf_of_isSome (mem_rivals.mp ho).2.2.1
    exact ⟨c, hc, (caseOf_eq_some hc).2.2.2⟩
  rw [mem_collapseCases, records_filterMap_caseOf, argmax_filterMap hcase, Option.mem_def,
    Option.bind_eq_some_iff]
  constructor
  · rintro ⟨o, ho, hc⟩
    refine ⟨o, ?_, hc⟩
    rwa [Decides, ← (caseOf_eq_some hc).1]
  · rintro ⟨o, ho, hc⟩
    refine ⟨o, ?_, hc⟩
    rwa [(caseOf_eq_some hc).1]

theorem mem_mineCorpus {slice : SortCases} : c ∈ mineCorpus slice sets outcomes ↔
      ∃ o, Decides sets outcomes o ∧ caseOf sets o = some c :=
  (slice.perm _).mem_iff.trans mem_collapse_caseOf

end

/-! ## Batches -/

def mine (slice : SortCases) (sets : List Proposal.Set) (outcomes : List Outcome) (minedAt : Time)
    (segments : List String) : Corpus where
  cases := mineCorpus slice sets outcomes
  minedAt := minedAt
  segments := segments

/-- The outcomes are mined in two batches as they are at once, and mining them again changes
nothing. -/
structure Incremental (sets : List Proposal.Set) (a b : List Outcome) : Prop where
  batch : ∀ slice at₁ at₂ segs₁ segs₂,
    (mergeCorpus slice (mine slice sets a at₁ segs₁)
      (mine slice sets (a ++ b) at₂ segs₂)).cases.Perm (mine slice sets (a ++ b) at₂ segs₂).cases
  again : ∀ slice at₁ at₂ segs₁ segs₂,
    Same
      (mergeCorpus slice
        (mergeCorpus slice (mine slice sets a at₁ segs₁) (mine slice sets (a ++ b) at₂ segs₂))
        (mine slice sets (a ++ b) at₂ segs₂))
      (mergeCorpus slice (mine slice sets a at₁ segs₁) (mine slice sets (a ++ b) at₂ segs₂))
  /-- A mined corpus is the same after a merge with itself. -/
  self : ∀ slice at₂ segs₂,
    Same (mergeCorpus slice (mine slice sets (a ++ b) at₂ segs₂)
      (mine slice sets (a ++ b) at₂ segs₂)) (mine slice sets (a ++ b) at₂ segs₂)
  /-- So is a merged one. -/
  merged : ∀ slice existing mined,
    Same (mergeCorpus slice (mergeCorpus slice existing mined) (mergeCorpus slice existing mined))
      (mergeCorpus slice existing mined)

/-- No outcome that decides its incident shares its ID with another one that does, or that did in
the first batch, unless it stood before that one there. -/
def Distinguished (sets : List Proposal.Set) (a b : List Outcome) : Prop :=
  ∀ o o', Decides sets (a ++ b) o → Decides sets a o' ∨ Decides sets (a ++ b) o' → o'.id = o.id →
    o' = o ∨
      Decides sets a o ∧ ¬ Decides sets (a ++ b) o' ∧ o.executedAt < o'.executedAt

section

variable {sets : List Proposal.Set} {a b : List Outcome}

theorem extends_mine (sets : List Proposal.Set) (a b : List Outcome) :
    Extends (collapseCases (a.filterMap (caseOf sets)))
      (collapseCases ((a ++ b).filterMap (caseOf sets))) where
  once := nodup_incident_collapseCases _
  acted _ hc := (mem_of_mem_collapseCases hc).2
  later c hc := by
    obtain ⟨o, ho, hcase⟩ := mem_collapse_caseOf.mp hc
    have happend : rivals sets (a ++ b) (incidentOf o) =
        rivals sets a (incidentOf o) ++ rivals sets b (incidentOf o) := List.filter_append ..
    cases hm : (rivals sets (a ++ b) (incidentOf o)).argmax Outcome.executedAt with
    | none =>
      rw [happend, List.argmax_eq_none, List.append_eq_nil_iff] at hm
      exact absurd hm.1 (List.ne_nil_of_mem (List.argmax_mem ho))
    | some o' =>
      have hinc : incidentOf o' = incidentOf o := (mem_rivals.mp (List.argmax_mem hm)).2.1
      have ho' : Decides sets (a ++ b) o' := by rwa [Decides, hinc]
      obtain ⟨d, hd⟩ := ho'.caseOf
      obtain ⟨hcinc, -, -, hcat⟩ := caseOf_eq_some hcase
      obtain ⟨hdinc, -, -, hdat⟩ := caseOf_eq_some hd
      refine ⟨d, mem_collapse_caseOf.mpr ⟨o', ho', hd⟩, by rw [hcinc, hdinc, hinc], ?_⟩
      rw [happend] at hm
      rcases eq_or_lt_of_mem_argmax_append ho hm with rfl | hlt
      · exact .inl (Option.some.inj (hd.symm.trans hcase))
      · exact .inr (by rwa [hcat, hdat])

theorem mem_collapse_caseOf_iff {outcomes : List Outcome} {o : Outcome} {c : Case}
    (hdist : ((a ++ b).map stamp).Nodup) (hsub : ∀ o ∈ outcomes, o ∈ a ++ b) (ho : o ∈ a ++ b)
    (hc : caseOf sets o = some c) :
    c ∈ collapseCases (outcomes.filterMap (caseOf sets)) ↔ Decides sets outcomes o := by
  rw [mem_collapse_caseOf]
  constructor
  · rintro ⟨o', ho', hc'⟩
    rwa [eq_of_caseOf hdist ho (hsub o' ho'.mem) hc hc']
  · exact fun h => ⟨o, h, hc⟩

theorem named_iff_distinguished (hdist : ((a ++ b).map stamp).Nodup) :
    Named (collapseCases (a.filterMap (caseOf sets)))
      (collapseCases ((a ++ b).filterMap (caseOf sets))) ↔ Distinguished sets a b := by
  have hleft {o : Outcome} {c : Case} (ho : o ∈ a ++ b) (hc : caseOf sets o = some c) :
      c ∈ collapseCases (a.filterMap (caseOf sets)) ↔ Decides sets a o :=
    mem_collapse_caseOf_iff hdist (fun o ho => List.mem_append_left _ ho) ho hc
  have hboth {o : Outcome} {c : Case} (ho : o ∈ a ++ b) (hc : caseOf sets o = some c) :
      c ∈ collapseCases ((a ++ b).filterMap (caseOf sets)) ↔ Decides sets (a ++ b) o :=
    mem_collapse_caseOf_iff hdist (fun o ho => ho) ho hc
  constructor
  · intro h o o' ho ho' hid
    have hmem' : o' ∈ a ++ b := ho'.elim (fun h => List.mem_append_left _ h.mem) Decides.mem
    obtain ⟨c, hc⟩ := ho.caseOf
    obtain ⟨d, hd⟩ : ∃ d, caseOf sets o' = some d := ho'.elim Decides.caseOf Decides.caseOf
    obtain ⟨-, hcref, -, hcat⟩ := caseOf_eq_some hc
    obtain ⟨-, hdref, -, hdat⟩ := caseOf_eq_some hd
    have hnamed := h c ((hboth ho.mem hc).mpr ho) d
      (ho'.imp (hleft hmem' hd).mpr (hboth hmem' hd).mpr) (by rw [hcref, hdref, hid])
    rw [hleft ho.mem hc, hboth hmem' hd, hcat, hdat] at hnamed
    refine hnamed.imp_left fun hdc => ?_
    rw [hdc] at hd
    exact eq_of_caseOf hdist hmem' ho.mem hd hc
  · intro h c hc d hd href
    obtain ⟨o, ho, hcase⟩ := mem_collapse_caseOf.mp hc
    obtain ⟨o', ho', hcase'⟩ : ∃ o', (Decides sets a o' ∨ Decides sets (a ++ b) o') ∧
        caseOf sets o' = some d := by
      rcases hd with hd | hd
      · obtain ⟨o', ho', hcase'⟩ := mem_collapse_caseOf.mp hd
        exact ⟨o', .inl ho', hcase'⟩
      · obtain ⟨o', ho', hcase'⟩ := mem_collapse_caseOf.mp hd
        exact ⟨o', .inr ho', hcase'⟩
    have hmem' : o' ∈ a ++ b := ho'.elim (fun h => List.mem_append_left _ h.mem) Decides.mem
    obtain ⟨-, hcref, -, hcat⟩ := caseOf_eq_some hcase
    obtain ⟨-, hdref, -, hdat⟩ := caseOf_eq_some hcase'
    rw [hleft ho.mem hcase, hboth hmem' hcase', hcat, hdat]
    refine (h o o' ho ho' (by rw [← hcref, ← hdref, href])).imp_left fun heq => ?_
    rw [heq] at hcase'
    exact Option.some.inj (hcase'.symm.trans hcase)

theorem distinguished_of_nodup (h : ((a ++ b).map Outcome.id).Nodup) : Distinguished sets a b := by
  intro o o' ho ho' hid
  have hmem' : o' ∈ a ++ b := ho'.elim (fun h => List.mem_append_left _ h.mem) Decides.mem
  exact .inl (List.inj_on_of_nodup_map h hmem' ho.mem hid)

/-- Outcomes that are told apart are mined in two batches as they are at once exactly if those that
decide are distinguished by their IDs. -/
theorem incremental_iff (hdist : ((a ++ b).map stamp).Nodup) :
    Incremental sets a b ↔ Distinguished sets a b := by
  have hbatch := (extends_mine sets a b).merge_iff
  rw [named_iff_distinguished hdist] at hbatch
  constructor
  · intro h
    exact hbatch.mp fun slice => h.batch slice Time.zero Time.zero [] []
  · intro h
    have hmine (slice : SortCases) :
        (mineCorpus slice sets (a ++ b)).Perm
          (collapseCases ((a ++ b).filterMap (caseOf sets))) := slice.perm _
    have hrefs := ((named_iff_distinguished hdist).mpr h).nodup (nodup_collapseCases _)
    -- what is the same as the mined cases is collapsed, and has their outcomes
    have hsame (slice : SortCases) (c mined : Corpus)
        (hc : c.cases.Perm (mineCorpus slice sets (a ++ b)))
        (hm : mined.cases = mineCorpus slice sets (a ++ b))
        (hsegs : ∀ s ∈ mined.segments, s ∈ c.segments) : Same (mergeCorpus slice c mined) c := by
      have hperm := hc.trans (hmine slice)
      refine mergeCorpus_same ?_ ?_ ?_ ?_ hsegs
      · exact ((hperm.map _).nodup_iff).mpr (nodup_incident_collapseCases _)
      · exact fun d hd => (mem_of_mem_collapseCases (hperm.mem_iff.mp hd)).2
      · exact ((hperm.map _).nodup_iff).mpr hrefs
      · intro d hd
        rw [hm] at hd
        exact List.mem_map_of_mem (hc.mem_iff.mpr hd)
    exact
      { batch := fun slice _ _ _ _ => hbatch.mpr h slice
        again := fun slice _ _ _ _ => hsame slice _ _ (hbatch.mpr h slice) rfl fun s hs =>
          mem_segments_mergeCorpus.mpr (.inr hs)
        self := fun slice _ _ => hsame slice _ _ (.refl _) rfl fun _ hs => hs
        merged := mergeCorpus_self }

end

/-- The outcome of the first of two decisions on one signal. -/
def firstDone : Outcome := runOutcome "out:checkout:5" "dec:checkout:1" 5100000000

def secondDone : Outcome := runOutcome "out:checkout:6" "dec:checkout:2" 6100000000

def secondDrained : Outcome := runOutcome "out:checkout:5" "dec:checkout:2" 5600000000

/-- Outcomes that come a second apart are mined in two batches as they are at once. -/
theorem secondDone_incremental :
    (([firstDone] ++ [secondDone]).map stamp).Nodup ∧
      Incremental [runSet "checkout/1" .trafficShift] [firstDone] [secondDone] := by
  have hdist : (([firstDone] ++ [secondDone]).map stamp).Nodup := by decide
  exact ⟨hdist, (incremental_iff hdist).mpr (distinguished_of_nodup (by decide))⟩

/-- Where both come in one second, the second incident is mined at once, and lost in a merge. -/
theorem secondDrained_lost :
    (([firstDone] ++ [secondDrained]).map stamp).Nodup ∧
      firstDone.executedAt < secondDrained.executedAt ∧
      ¬ Incremental [runSet "checkout/1" .trafficShift] [firstDone] [secondDrained] := by
  refine ⟨by decide, by decide, fun h => ?_⟩
  have hperm := (h.batch insertionCases 6 7 [] []).map Case.incident
  have hmerged : (mergeCorpus insertionCases
      (mine insertionCases [runSet "checkout/1" .trafficShift] [firstDone] 6 [])
      (mine insertionCases [runSet "checkout/1" .trafficShift] ([firstDone] ++ [secondDrained]) 7
        [])).cases.map Case.incident = [("checkout", "dec:checkout:1")] := by decide +kernel
  have hmined : (mine insertionCases [runSet "checkout/1" .trafficShift]
      ([firstDone] ++ [secondDrained]) 7 []).cases.map Case.incident =
        [("checkout", "dec:checkout:1"), ("checkout", "dec:checkout:2")] := by decide +kernel
  rw [hmerged, hmined] at hperm
  exact absurd hperm.length_eq (by decide)

end Beats.Corpus
