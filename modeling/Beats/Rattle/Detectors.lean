import Beats.Api.Proposal
import Beats.Lib.Deviation

/-!
# Detectors

The detectors of `internal/rattle`: whether the burn rate of an objective accelerates, has stayed
high, worsens together with others, or has left the range of its history.  A `float64` is a
rational, and the one root that is taken is compared without taking it
(`EnvelopeDetector.fires_iff`).  The acceleration of a window telescopes to its first and its last
step (`detect_telescopes`).

`Detect` of the sustained burn slices the window, and for a negative count the slice is out of
bounds.  That is the result `none`.
-/

namespace Beats.Rattle

open Lib List

/-! ## Windows -/

/-- A burn rate at a time. -/
structure Sample where
  t : Time := Time.zero
  burnRate : Rat := 0
deriving DecidableEq

/-- `rattle.Dependency`.  The role is for readers downstream. -/
structure Dependency where
  name : String := ""
  role : String := ""
deriving DecidableEq

/-- An objective, and what it is about. -/
structure SLO where
  id : String := ""
  object : String := ""
  tier : String := ""
  objective : Rat := 0
  contractRef : String := ""
  dependencies : List Dependency := []
deriving DecidableEq

/-- The kind that every fingerprint starts with. -/
def SLO.kind (_ : SLO) : String := "slo_burn"

/-- The fingerprint of an objective's signals. -/
def fingerprint (slo : SLO) : String := slo.kind ++ ":" ++ slo.object

/-- The rates of a window. -/
def burnRates (window : List Sample) : List Rat := window.map Sample.burnRate

/-- The differences of neighbours. -/
def diffs (xs : List Rat) : List Rat := List.zipWith (fun x next => next - x) xs xs.tail

/-- Where the rates are going, by their mean difference. -/
def trajectory (rates : List Rat) : String :=
  if mean (diffs rates) > 0 then "accelerating"
  else if mean (diffs rates) < 0 then "recovering"
  else "stable"

/-! ## Detectors -/

/-- Fires where the burn grows ever faster. -/
structure AccelerationDetector where
  threshold : Rat := 0

/-- The mean rise is positive and grows past the threshold. -/
def AccelerationDetector.detect (d : AccelerationDetector) (window : List Sample) : Bool × Rat :=
  if window.length < 3 then (false, 0)
  else
    let d1 := diffs (burnRates window)
    let accel := mean (diffs d1)
    (decide (mean d1 > 0 ∧ accel > d.threshold), accel)

/-- Fires where the burn stays high. -/
structure SustainedBurnDetector where
  threshold : Rat := 0
  minSamples : Int := 0

/-- `SustainedBurnDetector.Detect`, or `none` where its slice is out of bounds. -/
def SustainedBurnDetector.detect (d : SustainedBurnDetector) (window : List Sample) :
    Option (Bool × Rat) :=
  if (window.length : Int) < d.minSamples ∨ d.minSamples = 0 then some (false, 0)
  else if d.minSamples < 0 then none
  else
    let tail := window.drop (window.length - d.minSamples.toNat)
    if tail.any fun s => decide (s.burnRate < d.threshold) then some (false, 0)
    else some (true, (tail.getLast?.map Sample.burnRate).getD 0)

/-- The windows of several signals, by name. -/
abbrev MultiSignalWindow := List (String × List Sample)

/-- Fires where several signals rise together. -/
structure CorrelationDetector where
  minSignals : Int := 0

/-- Enough of the signals rise. -/
def CorrelationDetector.fires (d : CorrelationDetector) (w : MultiSignalWindow) : Bool :=
  decide ((w.countP fun series => decide (mean (diffs (burnRates series.2)) > 0) : Int) ≥
    d.minSignals)

/-- Fires where the burn leaves its history. -/
structure EnvelopeDetector where
  k : Rat := 0

/-- The live mean is over `k` deviations above the baseline's. -/
def EnvelopeDetector.fires (d : EnvelopeDetector) (baseline live : List Sample) : Bool :=
  if baseline.length < 2 then false
  else
    let bMean := mean (burnRates baseline)
    exceeds (mean (burnRates live) - bMean) d.k (variance (burnRates baseline) bMean)

/-- The detector fires where the mean is above that of the baseline by more than `k` standard
deviations. -/
theorem EnvelopeDetector.fires_iff (d : EnvelopeDetector) (baseline live : List Sample) :
    d.fires baseline live = true ↔ 2 ≤ baseline.length ∧ (mean (burnRates baseline) : ℝ) + d.k *
          Real.sqrt (variance (burnRates baseline) (mean (burnRates baseline))) <
        mean (burnRates live) := by
  unfold fires
  split
  next h => simp [Nat.not_le.mpr h]
  next h =>
    rw [exceeds_iff (variance_nonneg _ _), Rat.cast_sub, lt_sub_iff_add_lt']
    exact (and_iff_right (Nat.le_of_not_lt h)).symm

/-! ## Acceleration -/

theorem length_diffs (xs : List Rat) : (diffs xs).length = xs.length - 1 := by simp [diffs]

theorem getD_diffs {xs : List Rat} {i : Nat} (h : i + 1 < xs.length) :
    (diffs xs).getD i 0 = xs.getD (i + 1) 0 - xs.getD i 0 := by
  simp [diffs, getElem?_zipWith, h, Nat.lt_of_succ_lt h]

/-- The differences telescope. -/
theorem sum_diffs (xs : List Rat) : (diffs xs).sum = xs.getD (xs.length - 1) 0 - xs.getD 0 0 := by
  induction xs with
  | nil => simp [diffs]
  | cons x xs ih =>
    cases xs with
    | nil => simp [diffs]
    | cons y ys =>
      have hcons : diffs (x :: y :: ys) = (y - x) :: diffs (y :: ys) := rfl
      rw [hcons, sum_cons, ih]
      simp

/-- So does their mean. -/
theorem mean_diffs {xs : List Rat} (h : 2 ≤ xs.length) :
    mean (diffs xs) = (xs.getD (xs.length - 1) 0 - xs.getD 0 0) / (xs.length - 1) := by
  have hne : diffs xs ≠ [] := ne_nil_of_length_pos (by rw [length_diffs]; omega)
  rw [mean, if_neg hne, sum_diffs, length_diffs, Nat.cast_sub (by omega), Nat.cast_one]

/-- The rate of the `i`th sample. -/
def rate (window : List Sample) (i : Nat) : Rat := (burnRates window).getD i 0

/-- The last step minus the first one, over the length of the window less two. -/
def acceleration (window : List Sample) : Rat :=
  ((rate window (window.length - 1) - rate window (window.length - 2)) -
    (rate window 1 - rate window 0)) / (window.length - 2)

/-- The window with a constant added to every sample. -/
def raised (c : Rat) (window : List Sample) : List Sample :=
  window.map fun s => { s with burnRate := s.burnRate + c }

/-- The verdict on a window is that on its first two and its last two samples. -/
structure Telescopes (d : AccelerationDetector) (window : List Sample) : Prop where
  accel : (d.detect window).2 = acceleration window
  fires : (d.detect window).1 = true ↔
    rate window 0 < rate window (window.length - 1) ∧ d.threshold < acceleration window
  ends : ∀ window', window'.length = window.length →
    (∀ i ∈ [0, 1, window.length - 2, window.length - 1], rate window' i = rate window i) →
      d.detect window' = d.detect window
  raised : ∀ c, d.detect (raised c window) = d.detect window

section

variable {d : AccelerationDetector} {window : List Sample}

theorem length_burnRates (window : List Sample) : (burnRates window).length = window.length :=
  length_map _

/-- The mean difference is positive exactly if the last rate is above the first. -/
theorem rises_iff (h : 2 ≤ window.length) :
    0 < mean (diffs (burnRates window)) ↔ rate window 0 < rate window (window.length - 1) := by
  have hpos : (0 : Rat) < window.length - 1 := by
    have hcast : (2 : Rat) ≤ window.length := by exact_mod_cast h
    linarith
  rw [mean_diffs (by rwa [length_burnRates]), length_burnRates, div_pos_iff_of_pos_right hpos,
    sub_pos]
  rfl

/-- The mean second difference is read off the two ends. -/
theorem mean_diffs_diffs (h : 3 ≤ window.length) :
    mean (diffs (diffs (burnRates window))) = acceleration window := by
  have hlast : window.length - 1 - 1 + 1 = window.length - 1 := by omega
  rw [mean_diffs (by rw [length_diffs, length_burnRates]; omega), length_diffs, length_burnRates,
    getD_diffs (by rw [length_burnRates]; omega), getD_diffs (by rw [length_burnRates]; omega),
    hlast, Nat.cast_sub (by omega), Nat.cast_one, sub_sub _ (1 : Rat), one_add_one_eq_two]
  rfl

/-- What the detector computes, in closed form. -/
theorem detect_eq (h : 3 ≤ window.length) : d.detect window =
      (decide (rate window 0 < rate window (window.length - 1) ∧ d.threshold < acceleration window),
        acceleration window) := by
  rw [AccelerationDetector.detect, if_neg (by omega)]
  simp only [mean_diffs_diffs h, gt_iff_lt, rises_iff (Nat.le_of_succ_le h)]

theorem rate_raised (c : Rat) {i : Nat} (h : i < window.length) :
    rate (raised c window) i = rate window i + c := by
  simp [rate, burnRates, raised, h]

/-- The mean of the second differences is that of the outermost steps. -/
theorem detect_telescopes (d : AccelerationDetector) (h : 3 ≤ window.length) :
    Telescopes d window where
  accel := by rw [detect_eq h]
  fires := by rw [detect_eq h, decide_eq_true_iff]
  ends window' hlen hrate := by
    simp only [forall_mem_cons] at hrate
    obtain ⟨h₀, h₁, h₂, h₃, -⟩ := hrate
    rw [detect_eq h, detect_eq (hlen ▸ h), acceleration, acceleration, hlen, h₀, h₁, h₂, h₃]
  raised c := by
    have hlen : (raised c window).length = window.length := length_map _
    rw [detect_eq h, detect_eq (hlen ▸ h), acceleration, acceleration, hlen,
      rate_raised c (by omega), rate_raised c (by omega), rate_raised c (by omega),
      rate_raised c (by omega)]
    simp only [add_sub_add_right_eq_sub, add_lt_add_iff_right]

end

def burning : List Sample := [⟨0, 1⟩, ⟨1, 2⟩, ⟨2, 4⟩]

theorem burning_telescopes : Telescopes ⟨0⟩ burning := detect_telescopes _ (by decide)

/-! ## The contract of a signal -/

/-- `rattle.ExclusionWindow`.  The reason is for the audit trail. -/
structure ExclusionWindow where
  start : Time := Time.zero
  «end» : Time := Time.zero

/-- `rattle.SignalContract`.  `MinObservationWindow` is reserved. -/
structure SignalContract where
  freshnessBound : Duration := 0
  confidenceFloor : Rat := 0
  exclusionWindows : List ExclusionWindow := []

/-- The confidence, halved in an exclusion window, down to the floor. -/
def SignalContract.attenuated (c : SignalContract) (base : Rat) (at' : Time) : Rat :=
  let attenuated :=
    if c.exclusionWindows.any fun ex => decide (ex.start ≤ at' ∧ at' < ex.end) then base / 2
    else base
  if attenuated < c.confidenceFloor then c.confidenceFloor else attenuated

/-- The newest sample is not too old. -/
def SignalContract.fresh (c : SignalContract) (window : List Sample) (now : Time) : Bool :=
  match window.getLast? with
  | none => false
  | some newest => decide (now - newest.t ≤ c.freshnessBound)

end Beats.Rattle
