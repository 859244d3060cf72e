import Mathlib.Algebra.Order.Field.Rat
import Mathlib.Data.List.Sort
import Mathlib.Tactic.Linarith
import Beats.Lib.Fmt
import Beats.Lib.LongestRun

/-!
# The bracket of a swept grid

`decide` of `internal/tune` takes the grid points that share the first `GroundingNone`, finds the
longest run of them with the highest count of grounded rows, and proposes the midpoint of the run.
A run is never empty, so `decide` does not panic (`bracket_spec`).  The two slices of the loop may
share an array, but an append only writes behind the end of both, so they are lists.
-/

namespace Beats.Tune

open Lib List

/-- What a sweep measured at two weights. -/
structure Point where
  groundingNone : Rat
  groundingOne : Rat
  meanConfidence : Rat := 0
  moved : Int := 0
  grounded : Int
deriving DecidableEq

/-- A change of one weight, and why. -/
structure Proposal where
  file : String
  key : String
  «to» : Rat
  basis : String
deriving DecidableEq

/-- `sort.Slice` by `GroundingOne`.  It is not stable, so it is any sort. -/
structure SortPoints where
  sort : List Point → List Point
  perm : ∀ l, (sort l).Perm l
  sorted : ∀ l, (sort l).Pairwise fun a b => a.groundingOne ≤ b.groundingOne

/-- The points of one weight, sorted by the other. -/
def onGroundingNone (slice : SortPoints) (points : List Point) (none : Rat) : List Point :=
  slice.sort (points.filter fun p => p.groundingNone = none)

def peak (band : List Point) : Int :=
  band.foldl (fun peak p => if peak < p.grounded then p.grounded else peak) 0

/-- The longest run of points at the peak. -/
def longestRunAtMax (band : List Point) : List Point :=
  (band.foldl (Scan.add fun p => p.grounded = peak band) {}).best

/-- Why the weight is proposed. -/
def basisFor (band : List Point) (first last : Point) : String :=
  let lo := Fmt.fixed 2 first.groundingOne
  let hi := Fmt.fixed 2 last.groundingOne
  s!"grounded={first.grounded} holds for groundingOne in [{lo}, {hi}]" ++
    (match band.idxOf first with
      | 0 => ""
      | i + 1 => (band[i]?.elim "" fun p => s!"; below {lo}, grounded falls to {p.grounded}")) ++
    match band[band.idxOf last + 1]? with
    | some p => s!"; above {hi}, grounded falls to {p.grounded}"
    | none => s!"; the grid ends at {hi} with no ceiling found in range"

/-- An error is the reason of a `NotYet`, and there is no value where `best[0]` panics. -/
def decide (slice : SortPoints) (points : List Point) : Option (Except String Proposal) :=
  match points with
  | [] => some (.error "no swept grid to decide over")
  | point :: _ =>
    let band := onGroundingNone slice points point.groundingNone
    let best := longestRunAtMax band
    best.head?.bind fun first => best.getLast?.map fun last =>
      if first.grounded = 0 then
        .error ("no point in the swept grid grounds a labelled row; " ++
          "the corpus cannot distinguish these weights yet")
      else if best.length = band.length then
        .error (s!"every point in the swept grid grounds {first.grounded} labelled rows; " ++
          "the corpus cannot distinguish these weights yet")
      else
        .ok { file := "config/clank/weights.yaml", key := "groundingOne",
              «to» := (first.groundingOne + last.groundingOne) / 2,
              basis := basisFor band first last }

/-! ## The run -/

/-- The highest count of a band. -/
def Highest (band : List Point) (n : Int) : Prop :=
  (∃ p ∈ band, p.grounded = n) ∧ ∀ p ∈ band, p.grounded ≤ n

/-- The loop ends at the highest of the value it starts from and the counts of the band. -/
theorem peak_fold (band : List Point) (n : Int) :
    let m := band.foldl (fun peak p => if peak < p.grounded then p.grounded else peak) n
    n ≤ m ∧ (∀ p ∈ band, p.grounded ≤ m) ∧ (m = n ∨ ∃ p ∈ band, p.grounded = m) := by
  induction band generalizing n with
  | nil => simp
  | cons q band ih =>
    simp only [foldl_cons, forall_mem_cons, exists_mem_cons_iff]
    split
    next hlt =>
      obtain ⟨hle, hall, hm⟩ := ih q.grounded
      exact ⟨by omega, ⟨hle, hall⟩, .inr (hm.imp Eq.symm id)⟩
    next hge =>
      obtain ⟨hle, hall, hm⟩ := ih n
      exact ⟨hle, ⟨by omega, hall⟩, hm.imp_right .inr⟩

theorem peak_highest {band : List Point} (hne : band ≠ []) (hg : ∀ p ∈ band, 0 ≤ p.grounded) :
    Highest band (peak band) := by
  obtain ⟨-, hall, hzero | hm⟩ := peak_fold band 0
  · obtain ⟨p, hp⟩ := exists_mem_of_ne_nil band hne
    have hp0 : p.grounded = peak band := Int.le_antisymm (hall p hp) (hzero.le.trans (hg p hp))
    exact ⟨⟨p, hp, hp0⟩, hall⟩
  · exact ⟨hm, hall⟩

/-- In a sorted band the midpoint of the ends of a run lies between them. -/
theorem midpoint_between {l : List Point} {first last : Point}
    (hl : l.Pairwise fun a b => a.groundingOne ≤ b.groundingOne)
    (hfirst : l.head? = some first) (hlast : l.getLast? = some last) :
    first.groundingOne ≤ (first.groundingOne + last.groundingOne) / 2 ∧
      (first.groundingOne + last.groundingOne) / 2 ≤ last.groundingOne := by
  have hle : first.groundingOne ≤ last.groundingOne := by
    obtain ⟨l', rfl⟩ := head?_eq_some_iff.mp hfirst
    rcases mem_cons.mp (mem_of_getLast? hlast) with rfl | hmem
    · exact le_rfl
    · exact rel_of_pairwise_cons hl hmem
  constructor <;> linarith

theorem bracket_spec (slice : SortPoints) (point : Point) (points : List Point)
    (hg : ∀ p ∈ point :: points, 0 ≤ p.grounded) :
    let band := onGroundingNone slice (point :: points) point.groundingNone
    let run := longestRunAtMax band
    ∃ n, Highest band n ∧ run ≠ [] ∧ (∃ pre, FirstLongest (fun p => p.grounded = n) band pre run) ∧
      ∃ result, decide slice (point :: points) = some result ∧
        ∀ prop, result = .ok prop → 0 < n ∧ run.length ≠ band.length ∧
          ∃ first last, run.head? = some first ∧ run.getLast? = some last ∧
            first.groundingOne ≤ prop.«to» ∧ prop.«to» ≤ last.groundingOne := by
  intro band run
  have hperm : band.Perm _ := slice.perm _
  have hmem : ∀ p ∈ band, p ∈ point :: points := fun p hp =>
    mem_of_mem_filter (hperm.mem_iff.mp hp)
  have hpoint : point ∈ band := hperm.mem_iff.mpr (by simp)
  have hhigh := peak_highest (ne_nil_of_mem hpoint) fun p hp => hg p (hmem p hp)
  obtain ⟨⟨top, htop, heq⟩, hmax⟩ := hhigh
  obtain ⟨⟨pre, hrun⟩, -⟩ := scanned (p := fun p : Point => p.grounded = peak band) band
  change FirstLongest _ band pre run at hrun
  have hne : run ≠ [] := hrun.ne_nil htop heq
  refine ⟨peak band, ⟨⟨top, htop, heq⟩, hmax⟩, hne, ⟨pre, hrun⟩, ?_⟩
  obtain ⟨first, hfirst⟩ : ∃ first, run.head? = some first := ⟨_, head?_eq_some_head hne⟩
  obtain ⟨last, hlast⟩ : ∃ last, run.getLast? = some last := ⟨_, getLast?_eq_some_getLast hne⟩
  have hcount : first.grounded = peak band := hrun.all first (mem_of_mem_head? hfirst)
  obtain ⟨post, hsplit⟩ := hrun.split
  have hsorted : run.Pairwise fun a b => a.groundingOne ≤ b.groundingOne := by
    have hband : band.Pairwise fun a b => a.groundingOne ≤ b.groundingOne := slice.sorted _
    rw [hsplit] at hband
    exact (pairwise_append.mp (pairwise_append.mp hband).1).2.1
  refine ⟨_, by simp only [decide]; rw [hfirst, hlast]; rfl, fun prop hprop => ?_⟩
  split at hprop
  · cases hprop
  · split at hprop
    · cases hprop
    next hpos hlen =>
      cases hprop
      have hnonneg := hg first (hmem first (hsplit ▸ by simp [mem_of_mem_head? hfirst]))
      exact ⟨by omega, hlen, first, last, hfirst, hlast, midpoint_between hsorted hfirst hlast⟩

def SortPoints.insertion : SortPoints where
  sort := insertionSort fun a b => a.groundingOne ≤ b.groundingOne
  perm := perm_insertionSort _
  sorted l :=
    have : Std.Total fun a b : Point => a.groundingOne ≤ b.groundingOne := ⟨fun _ _ => le_total _ _⟩
    have : IsTrans Point fun a b => a.groundingOne ≤ b.groundingOne := ⟨fun _ _ _ => le_trans⟩
    pairwise_insertionSort _ l

/-- The rest of a grid that rises and falls. -/
def risen : List Point :=
  [{ groundingNone := 0, groundingOne := 3, grounded := 1 },
   { groundingNone := 0, groundingOne := 2, grounded := 1 },
   { groundingNone := 0, groundingOne := 1, grounded := 0 }]

theorem risen_bracket :
    let grid := { groundingNone := 0, groundingOne := 4, grounded := 0 } :: risen
    longestRunAtMax (onGroundingNone .insertion grid 0) ≠ [] ∧
      ((decide .insertion grid).bind (·.toOption)).map (·.«to») = some (5 / 2) :=
  let ⟨_, _, hne, _⟩ := bracket_spec .insertion
    { groundingNone := 0, groundingOne := 4, grounded := 0 } risen (by simp [risen])
  ⟨hne, by decide +kernel⟩

end Beats.Tune
