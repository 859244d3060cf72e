import Beats.Clank.Gate
import Beats.Lib.GoDuration
import Beats.Lib.StableSort

/-!
# Ranking by duration

When a signal's blast radius is accelerating, `Ranker.Rank` orders the candidates by the text of
their `time_to_effect`.  The text is a duration in the syntax of Go, and the order is meant to be
the stable one by duration, soonest first (`RanksByDuration`).

The ranker reads the digits that the text starts with and leaves the unit out, so that `30s` comes
after `5m` (`rankIn_byDuration_iff`).

`Ranker.rankIn` is `Rank` on slices in memory: it sorts and numbers a clone.  It refines
`Ranker.rank`, and leaves the slices of its caller as they are (`rankIn_eq`).
-/

namespace Beats.Clank

open Lib Proposal List Ranker

/-! ## The text and what it denotes -/

/-- The text of `time_to_effect`, empty where the candidate has no forecast or the forecast no such
key. -/
def effectText (c : Candidate) : String :=
  match c.predictedImpact with
  | none => ""
  | some p => (p.sloEffects.lookup "time_to_effect").getD ""

/-- The duration that a text denotes, in nanoseconds.  A text that denotes none counts as no
duration at all. -/
def denoted (s : String) : Int := (GoDuration.parse s).getD 0

/-- The number that the leading digits of a text spell, as a 64-bit integer. -/
def leading (s : String) : Int :=
  (GoDuration.value (GoDuration.leadingDigits s.toList) : Int).bmod (2 ^ 64)

theorem isDigit_iff_not_outside (c : Char) : c.isDigit = true ↔ ¬ (c < '0' || '9' < c) = true := by
  simp only [Char.isDigit, Bool.or_eq_true, decide_eq_true_eq, Bool.and_eq_true, not_or,
    Char.lt_def]
  rw [ge_iff_le, UInt32.not_lt, UInt32.not_lt]

/-- The loop of `timeToEffect` from any number on.  It wraps at each digit, which comes to the same
as wrapping at the end. -/
theorem leadingNumber_eq (cs : List Char) (n : Nat) : leadingNumber cs ((n : Int).bmod (2 ^ 64)) =
      (Nat.ofDigitChars 10 (cs.takeWhile Char.isDigit) n : Int).bmod (2 ^ 64) := by
  induction cs generalizing n with
  | nil => rfl
  | cons c cs ih =>
    rw [leadingNumber, takeWhile_cons]
    by_cases hc : c.isDigit = true
    · rw [if_neg ((isDigit_iff_not_outside c).mp hc), if_pos hc, Nat.ofDigitChars_cons, ← ih]
      have hnext : ((n : Int).bmod (2 ^ 64) * 10 + (c.toNat - 48 : Nat)).bmod (2 ^ 64) =
          ((10 * n + (c.toNat - '0'.toNat) : Nat) : Int).bmod (2 ^ 64) := by
        rw [← Int.bmod_add_bmod, Int.bmod_mul_bmod, Int.bmod_add_bmod, Int.natCast_add,
          Int.natCast_mul, Int.mul_comm]
        rfl
      rw [hnext]
    · rw [if_pos (by_contra fun h => hc ((isDigit_iff_not_outside c).mpr h)), if_neg hc]
      rfl

theorem timeToEffect_eq (c : Candidate) : timeToEffect c = leading (effectText c) := by
  unfold timeToEffect effectText
  cases c.predictedImpact with
  | none => decide
  | some p =>
    have h := leadingNumber_eq ((p.sloEffects.lookup "time_to_effect").getD "").toList 0
    rwa [Int.natCast_zero, Int.zero_bmod] at h

/-! ## Slices in memory -/

/-- The arrays behind the slices of a run, by their addresses. -/
abbrev Slices (α : Type) := List (List α)

namespace Slices

variable {α : Type}

/-- The elements at an address. -/
def read (m : Slices α) (a : Nat) : List α := m.getD a []

/-- `slices.Clone`: a new array with the elements of another, and its address. -/
def clone (m : Slices α) (a : Nat) : Slices α × Nat := (m ++ [m.read a], m.length)

/-- Change the elements at an address. -/
def update (m : Slices α) (a : Nat) (f : List α → List α) : Slices α := m.modify a f

@[simp] theorem read_last (m : Slices α) (l : List α) : read (m ++ [l]) m.length = l := by
  simp [read]

theorem modify_length_append (l : List α) (a : α) (r : List α) (f : α → α) :
    (l ++ a :: r).modify l.length f = l ++ f a :: r :=
  modifyTailIdx_add _ 0 l (a :: r)

/-- Changing the newest array leaves the others as they are. -/
@[simp] theorem update_last (m : Slices α) (l : List α) (f : List α → List α) :
    update (m ++ [l]) m.length f = m ++ [f l] :=
  modify_length_append m l [] f

theorem foldl_update_last {ι : Type} (m : Slices α) (f : ι → List α → List α) (is : List ι)
    (l : List α) :
    is.foldl (fun m' i => m'.update m.length (f i)) (m ++ [l]) =
      m ++ [is.foldl (fun l i => f i l) l] := by
  induction is generalizing l with
  | nil => rfl
  | cons i is ih => rw [foldl_cons, foldl_cons, update_last, ih]

end Slices

/-! ## `Rank` on slices -/

/-- `ranked[i].Rank = i + 1`. -/
def setRank (i : Nat) (ranked : List Candidate) : List Candidate :=
  ranked.modify i fun c => { c with rank := i + 1 }

/-- `Ranker.Rank` on the slice at an address.  The result is at a new one. -/
def Ranker.rankIn (m : Slices Candidate) (cands : Nat) (velocity : String) :
    Slices Candidate × Nat × RankingRationale :=
  let (m, ranked) := m.clone cands
  let (m, why) : Slices Candidate × RankingRationale :=
    if velocity = "accelerating" then
      (m.update ranked fun cs => cs.insertionSort fun a b => timeToEffect a ≤ timeToEffect b,
        { dominantAxis := "time_to_effect", velocityWeight := velocity })
    else (m, {})
  let m := (List.range (m.read ranked).length).foldl (fun m i => m.update ranked (setRank i)) m
  (m, ranked, why)

theorem foldl_setRank (done l : List Candidate) :
    (range' done.length l.length).foldl (fun cs i => setRank i cs) (done ++ l) =
      done ++ renumber (done.length + 1) l := by
  induction l generalizing done with
  | nil => rfl
  | cons c l ih =>
    have hstep : setRank done.length (done ++ c :: l) =
        (done ++ [{ c with rank := done.length + 1 }]) ++ l := by
      rw [setRank, Slices.modify_length_append, append_assoc, singleton_append]
    have hrest := ih (done ++ [{ c with rank := done.length + 1 }])
    rw [length_append, length_singleton, append_assoc] at hrest
    rw [length_cons, range'_succ, foldl_cons, hstep, append_assoc, hrest, append_assoc]
    rfl

/-- `Rank` puts what `Ranker.rank` computes in a new array, and changes no other. -/
theorem rankIn_eq (m : Slices Candidate) (cands : Nat) (velocity : String) :
    rankIn m cands velocity = (m ++ [(rank (m.read cands) velocity).1], m.length,
        (rank (m.read cands) velocity).2) := by
  have hloop (l : List Candidate) :
      (range l.length).foldl (fun m' i => Slices.update m' m.length (setRank i)) (m ++ [l]) =
        m ++ [renumber 1 l] := by
    rw [Slices.foldl_update_last, range_eq_range']
    exact congrArg (m ++ [·]) (foldl_setRank [] l)
  by_cases hv : velocity = "accelerating"
  · simp only [rankIn, rank, Slices.clone, if_pos hv, Slices.update_last,
      Slices.read_last, hloop]
  · simp only [rankIn, rank, Slices.clone, if_neg hv, Slices.read_last, hloop]

/-! ## The order by duration -/

def unranked (c : Candidate) : Candidate := { c with rank := 0 }

/-- What the ranked candidates are meant to be: those that were given, numbered from one on, and
under an accelerating velocity in the stable order of their durations. -/
structure RanksByDuration (cands : List Candidate) (velocity : String)
    (ranked : List Candidate) : Prop where
  perm : (ranked.map unranked).Perm (cands.map unranked)
  numbered : ∀ i c, ranked[i]? = some c → c.rank = i + 1
  accelerating : velocity = "accelerating" →
    StableBy (fun c => denoted (effectText c)) (cands.map unranked) (ranked.map unranked)
  otherwise : velocity ≠ "accelerating" → ranked.map unranked = cands.map unranked

theorem map_unranked_renumber (n : Nat) (l : List Candidate) :
    (renumber n l).map unranked = l.map unranked := by
  induction l generalizing n with
  | nil => rfl
  | cons c l ih => exact congrArg (unranked c :: ·) (ih (n + 1))

theorem rank_of_renumber {n i : Nat} {l : List Candidate} {c : Candidate}
    (h : (renumber n l)[i]? = some c) : c.rank = n + i := by
  induction l generalizing n i with
  | nil => simp [renumber] at h
  | cons d l ih =>
    cases i with
    | zero =>
      obtain rfl : { d with rank := n } = c := by simpa [renumber] using h
      rfl
    | succ i =>
      have hi := ih (by simpa [renumber] using h)
      omega

theorem map_unranked_insertionSort (l : List Candidate) :
    (l.insertionSort fun a b => timeToEffect a ≤ timeToEffect b).map unranked =
      (l.map unranked).insertionSort fun a b => timeToEffect a ≤ timeToEffect b :=
  map_insertionSort _ _ _ _ fun _ _ _ _ => Iff.rfl

/-- The stable order is the ranker's, whatever algorithm `slices.SortStableFunc` finds it by. -/
theorem rank_of_stableBy {cands sorted : List Candidate} (h : StableBy timeToEffect cands sorted) :
    (rank cands "accelerating").1 = renumber 1 sorted := by
  rw [h.unique (stableBy_insertionSort timeToEffect cands)]
  rfl

/-- Of any two candidates, the later has the smaller leading number exactly if it has the shorter
duration. -/
def LeadsByDuration (cands : List Candidate) : Prop :=
  cands.Pairwise fun c d =>
    leading (effectText d) < leading (effectText c) ↔
      denoted (effectText d) < denoted (effectText c)

theorem rank_byDuration_iff (cands : List Candidate) (velocity : String) :
    RanksByDuration cands velocity (rank cands velocity).1 ↔
      (velocity = "accelerating" → LeadsByDuration cands) := by
  have hsort : StableBy (fun c => denoted (effectText c)) (cands.map unranked)
      ((cands.insertionSort fun a b => timeToEffect a ≤ timeToEffect b).map unranked) ↔
        LeadsByDuration cands := by
    rw [map_unranked_insertionSort, stableBy_insertionSort_iff, pairwise_map]
    simp only [timeToEffect_eq]
    exact Iff.rfl
  by_cases hv : velocity = "accelerating"
  · rw [rank, if_pos hv]
    constructor
    · intro h _
      have hstable := h.accelerating hv
      rw [map_unranked_renumber] at hstable
      exact hsort.mp hstable
    · intro h
      refine ⟨?_, fun i c hi => (rank_of_renumber hi).trans (Nat.add_comm 1 i), fun _ => ?_,
        fun hn => absurd hv hn⟩
      · rw [map_unranked_renumber]
        exact (perm_insertionSort _ cands).map unranked
      · rw [map_unranked_renumber]
        exact hsort.mpr (h hv)
  · rw [rank, if_neg hv]
    refine iff_of_true ?_ fun h => absurd h hv
    have hsame := map_unranked_renumber 1 cands
    exact ⟨.of_eq hsame, fun i c hi => (rank_of_renumber hi).trans (Nat.add_comm 1 i),
      fun h => absurd h hv, fun _ => hsame⟩

/-- What `Rank` on the slice at an address is meant to do: the slices that were there stay as they
are, and the new one holds the candidates as they are meant to be. -/
structure RanksSlice (m : Slices Candidate) (cands : Nat) (velocity : String)
    (r : Slices Candidate × Nat × RankingRationale) : Prop where
  unmodified : ∀ a < m.length, r.1.read a = m.read a
  ranks : RanksByDuration (m.read cands) velocity (r.1.read r.2.1)

/-- `Rank` orders by duration exactly if the leading numbers do. -/
theorem rankIn_byDuration_iff (m : Slices Candidate) (cands : Nat) (velocity : String) :
    RanksSlice m cands velocity (rankIn m cands velocity) ↔
      (velocity = "accelerating" → LeadsByDuration (m.read cands)) := by
  rw [← rank_byDuration_iff, rankIn_eq]
  constructor
  · intro h
    have hranks := h.ranks
    rwa [Slices.read_last] at hranks
  · intro h
    refine ⟨fun a ha => ?_, ?_⟩
    · simp only [Slices.read, getD_eq_getElem?_getD, List.getElem?_append_left ha]
    · rwa [Slices.read_last]

def effectiveIn (id time : String) : Candidate :=
  { id, predictedImpact := some { sloEffects := [("time_to_effect", time)] } }

/-- The five minutes come before the thirty seconds. -/
theorem minutes_before_seconds :
    ¬ RanksSlice [[effectiveIn "restart" "5m", effectiveIn "throttle" "30s"]] 0 "accelerating"
      (rankIn [[effectiveIn "restart" "5m", effectiveIn "throttle" "30s"]] 0
        "accelerating") := by
  intro h
  have hsorted := (h.ranks.accelerating rfl).sorted
  revert hsorted
  decide +kernel

end Beats.Clank
