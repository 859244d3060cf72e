import Mathlib.Data.List.DropRight
import Beats.Lib.GoDuration
import Beats.Rattle.Detectors

/-!
# The query config

`LoadQueryConfig` of `internal/rattle` asks that every term is there, through the collector of
`internal/configfile`, and not that the sample count is one.  A count below zero is accepted, and
the detector of a sustained burn then slices its window out of bounds (`safelyLoaded_iff`).
-/

namespace Beats.Rattle

open SustainedBurnDetector

/-! ## Loading -/

/-- `configfile.Required`. -/
structure Required where
  noun : String
  sentinel : String
  missing : List String := []
  parseErr : Option String := none

namespace Required

def miss (r : Required) (key : String) : Required := { r with missing := r.missing ++ [key] }

def int (key : String) (p : Option Int) : StateM Required Int := fun r =>
  match p with
  | none => (0, r.miss key)
  | some n => (n, r)

theorem int_fst (key : String) (p : Option Int) (r : Required) : (int key p r).1 = p.getD 0 := by
  cases p <;> rfl

/-- `Required.Duration`, with `time.ParseDuration` as a parameter. -/
def duration (parse : String → Except String Duration) (key : String) (p : Option String) :
    StateM Required Duration := fun r =>
  match p with
  | none => (0, r.miss key)
  | some text =>
    match parse text with
    | .error err =>
      (0, { r with parseErr := r.parseErr.or (some (r.noun ++ " " ++ key ++ ": " ++ err)) })
    | .ok d => (d, r)

def err (r : Required) : Option String :=
  if r.missing ≠ [] then some (r.sentinel ++ ": " ++ ", ".intercalate r.missing) else r.parseErr

end Required

/-- The terms, all of them set. -/
structure QueryConfig where
  step : Duration
  window : Duration
  pollInterval : Duration
  reconcileTimeout : Duration
  sustainedMinSamples : Int
  debounce : Duration
  freshnessBound : Duration
deriving DecidableEq

/-- The terms as the file has them. -/
structure QueryConfigFile where
  step : Option String := none
  window : Option String := none
  pollInterval : Option String := none
  reconcileTimeout : Option String := none
  sustainedMinSamples : Option Int := none
  debounce : Option String := none
  freshnessBound : Option String := none

def errIncompleteQueryConfig : String :=
  "query config file is missing one or more required terms"

/-- The terms of `LoadQueryConfig`, in the order they are read. -/
def QueryConfigFile.terms (qf : QueryConfigFile) (parse : String → Except String Duration) :
    StateM Required QueryConfig := do
  let step ← Required.duration parse "step" qf.step
  let window ← Required.duration parse "window" qf.window
  let pollInterval ← Required.duration parse "pollInterval" qf.pollInterval
  let reconcileTimeout ← Required.duration parse "reconcileTimeout" qf.reconcileTimeout
  let sustainedMinSamples ← Required.int "sustainedMinSamples" qf.sustainedMinSamples
  let debounce ← Required.duration parse "debounce" qf.debounce
  let freshnessBound ← Required.duration parse "freshnessBound" qf.freshnessBound
  return ⟨step, window, pollInterval, reconcileTimeout, sustainedMinSamples, debounce,
    freshnessBound⟩

/-- `LoadQueryConfig` of a staged file. -/
def loadQueryConfig (parse : String → Except String Duration) (qf : QueryConfigFile) :
    Except String QueryConfig :=
  let out := (qf.terms parse).run
    { noun := "query config file", sentinel := errIncompleteQueryConfig }
  match out.2.err with
  | some err => .error err
  | none => .ok out.1

/-! ## Sustained burn -/

/-- The detector with that count does not panic on any window.  It fires where the last samples of
the window are so many and none is below the threshold, and then reports the last one. -/
def Safe (minSamples : Int) : Prop :=
  ∀ (threshold : Rat) (window : List Sample), ∃ fired level,
    detect ⟨threshold, minSamples⟩ window = some (fired, level) ∧
      (fired = true ↔ 0 < minSamples ∧ minSamples ≤ window.length ∧
        ∀ s ∈ window.rtake minSamples.toNat, threshold ≤ s.burnRate) ∧
      (fired = true → window.getLast?.map Sample.burnRate = some level)

/-- What loads lets the detector run. -/
def SafelyLoaded (parse : String → Except String Duration) (qf : QueryConfigFile) : Prop :=
  ∀ cfg, loadQueryConfig parse qf = .ok cfg → Safe cfg.sustainedMinSamples

section

variable {minSamples : Int} {parse : String → Except String Duration} {qf : QueryConfigFile}

theorem not_safe_of_neg (h : minSamples < 0) : ¬ Safe minSamples := by
  intro hs
  obtain ⟨fired, level, hd, -⟩ := hs 0 []
  have hnot : ¬ (((([] : List Sample).length : Nat) : Int) < minSamples ∨ minSamples = 0) := by
    omega
  rw [detect, if_neg hnot, if_pos h] at hd
  cases hd

theorem safe_of_nonneg (h : 0 ≤ minSamples) : Safe minSamples := by
  intro threshold window
  rw [detect]
  split
  next hnone => exact ⟨false, 0, rfl, iff_of_false nofun (by dsimp only at hnone; omega), nofun⟩
  next hsome =>
  dsimp only at hsome ⊢
  rw [if_neg (by omega)]
  split
  next hlow =>
    refine ⟨false, 0, rfl, iff_of_false nofun ?_, nofun⟩
    rintro ⟨-, -, hall⟩
    obtain ⟨s, hs, hlt⟩ := List.any_eq_true.mp hlow
    exact absurd (hall s hs) (not_le.mpr (of_decide_eq_true hlt))
  next hhigh =>
    refine ⟨true, _, rfl, iff_of_true rfl ⟨by omega, by omega, fun s hs => ?_⟩, fun _ => ?_⟩
    · by_contra hlt
      exact hhigh (List.any_eq_true.mpr ⟨s, hs, decide_eq_true (not_le.mp hlt)⟩)
    · -- the last samples end where the window ends
      have hlast : (window.rtake minSamples.toNat).getLast? = window.getLast? := by
        rw [List.rtake, List.getLast?_drop, if_neg (by omega)]
      have hwindow : window ≠ [] := List.ne_nil_of_length_pos (by omega)
      rw [← List.rtake, hlast, List.getLast?_eq_some_getLast hwindow]
      rfl

theorem safe_iff : Safe minSamples ↔ 0 ≤ minSamples :=
  ⟨fun h => not_lt.mp fun hlt => not_safe_of_neg hlt h, safe_of_nonneg⟩

theorem samples_of_load {cfg : QueryConfig} (h : loadQueryConfig parse qf = .ok cfg) :
    cfg.sustainedMinSamples = qf.sustainedMinSamples.getD 0 := by
  unfold loadQueryConfig at h
  dsimp only at h
  split at h
  · cases h
  · cases h
    exact Required.int_fst _ _ _

/-- What is loaded is safe exactly if the file is refused or its count is not negative. -/
theorem safelyLoaded_iff (parse : String → Except String Duration) (qf : QueryConfigFile) :
    SafelyLoaded parse qf ↔ ∀ cfg, loadQueryConfig parse qf = .ok cfg →
      0 ≤ qf.sustainedMinSamples.getD 0 := by
  refine forall_congr' fun cfg => forall_congr' fun h => ?_
  rw [safe_iff, samples_of_load h]

end

/-- A file whose terms are all there, with a count of minus one. -/
def negativeSamples : QueryConfigFile where
  step := some "15s"
  window := some "5m"
  pollInterval := some "15s"
  reconcileTimeout := some "10s"
  sustainedMinSamples := some (-1)
  debounce := some "15m"
  freshnessBound := some "2m"

theorem negativeSamples_panics :
    (∃ cfg, loadQueryConfig Lib.GoDuration.tryParse negativeSamples = .ok cfg ∧
      cfg.window = 300000000000 ∧ cfg.sustainedMinSamples = -1) ∧
      detect ⟨1, -1⟩ burning = none :=
  ⟨⟨⟨15000000000, 300000000000, 15000000000, 10000000000, -1, 900000000000, 120000000000⟩,
    by decide +kernel, rfl, rfl⟩, by decide⟩

end Beats.Rattle
