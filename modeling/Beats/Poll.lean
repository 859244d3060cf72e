import Mathlib.Order.Defs.LinearOrder
import Mathlib.Algebra.Order.Group.Int
import Beats.Lib.Machine

/-!
# The backoff of a poll loop

`pollBackoff` of `internal/poll`: a tick that fails doubles the delay up to the cap and adds a
jitter, and one that succeeds resets it.  A duration is an `int64` and wraps, and `rand.N` panics
where it has nothing to draw from.

The jitter is a share of the delay, not of the base, and the jittered delay is what is doubled
next.  So the delay can pass the cap by a share of the cap, and the bounds hold exactly for the
configs in `Mild` (`paced_iff`).
-/

namespace Beats.Poll

open Lib Machine

structure BackoffConfig where
  base : Int
  cap : Int
  jitterDivisor : Int

def maxDuration : Int := 9223372036854775807

/-- The `int64` that is left of an integer. -/
def wrap (z : Int) : Int := Int.bmod z 18446744073709551616

def nextDelay (cfg : BackoffConfig) (cur : Int) (tickOK : Bool) : Int :=
  if tickOK then cfg.base else min (wrap (cur * 2)) cfg.cap

/-- A tick, with the jitter that is drawn after a failure. -/
inductive Tick where
  | ok
  | failed (draw : Int)

/-- The loop of `pollBackoff`. -/
inductive Loop where
  | waits (delay : Int)
  | panicked
deriving DecidableEq

/-- What `rand.N` draws below after a failed tick. -/
def drawBound (cfg : BackoffConfig) (delay : Int) : Int :=
  (nextDelay cfg delay false).tdiv cfg.jitterDivisor

/-- The poller as a machine. -/
def pollBackoff (cfg : BackoffConfig) : Machine Loop Tick where
  step
    | .waits delay, .ok => some (.waits (nextDelay cfg delay true))
    | .waits delay, .failed draw =>
      if cfg.jitterDivisor > 0 then
        if drawBound cfg delay ≤ 0 then some .panicked
        else if 0 ≤ draw ∧ draw < drawBound cfg delay then
          some (.waits (wrap (nextDelay cfg delay false + draw)))
        else none
      else some (.waits (nextDelay cfg delay false))
    | .panicked, _ => none

def after (cfg : BackoffConfig) (ticks : List Tick) : Option Loop :=
  (pollBackoff cfg).run (.waits cfg.base) ticks

/-- The loop gets to wait for the delay. -/
def Waits (cfg : BackoffConfig) (delay : Int) : Prop :=
  ∃ ticks, after cfg ticks = some (.waits delay)

/-- The arithmetic of a tick stays in the range of an `int64`. -/
def Exact (cfg : BackoffConfig) (delay : Int) : Prop :=
  wrap (delay * 2) = delay * 2 ∧ ∀ draw, 0 ≤ draw → draw < drawBound cfg delay →
    wrap (nextDelay cfg delay false + draw) = nextDelay cfg delay false + draw

/-- The delay is bounded, is the base after a tick that succeeded, and is computed without a panic
and without an overflow. -/
structure Paced (cfg : BackoffConfig) : Prop where
  bounded : ∀ delay, Waits cfg delay →
    cfg.base ≤ delay ∧ delay ≤ cfg.cap + cfg.base / cfg.jitterDivisor
  reset : ∀ ticks delay, after cfg (ticks ++ [.ok]) = some (.waits delay) → delay = cfg.base
  runs : ∀ ticks, after cfg ticks ≠ some .panicked
  exact : ∀ delay, Waits cfg delay → Exact cfg delay

/-- What the configuration has to be. -/
structure BackoffConfig.Valid (cfg : BackoffConfig) : Prop where
  base_pos : 0 < cfg.base
  base_le : cfg.base ≤ cfg.cap
  divisor_pos : 0 < cfg.jitterDivisor

/-- There is a jitter to draw after the first failure, at the cap it is at most one above that of
the base, and the largest delay can be doubled. -/
structure Mild (cfg : BackoffConfig) : Prop where
  draws : cfg.jitterDivisor ≤ min (cfg.base * 2) cfg.cap
  spread : cfg.cap / cfg.jitterDivisor ≤ cfg.base / cfg.jitterDivisor + 1
  doubles : (cfg.cap + cfg.cap / cfg.jitterDivisor - 1) * 2 ≤ maxDuration

section

variable {cfg : BackoffConfig} {delay draw : Int}

theorem wrap_eq {z : Int} (hz : 0 ≤ z) (hle : z ≤ maxDuration) : wrap z = z := by
  have hmax : maxDuration = 9223372036854775807 := rfl
  exact Int.bmod_eq_of_le (by omega) (by omega)

theorem wrap_le (z : Int) : wrap z ≤ maxDuration := by
  have hlt : wrap z < 9223372036854775808 := Int.bmod_lt (by decide)
  exact Int.le_of_lt_add_one hlt

theorem Waits.step {t : Tick} {delay' : Int} (h : Waits cfg delay)
    (ht : (pollBackoff cfg).step (.waits delay) t = some (.waits delay')) : Waits cfg delay' := by
  obtain ⟨ticks, hticks⟩ := h
  refine ⟨ticks ++ [t], ?_⟩
  rw [after] at hticks ⊢
  rw [run_append, hticks]
  exact run_cons_eq_some.mpr ⟨_, ht, rfl⟩

theorem step_failed (hj : 0 < cfg.jitterDivisor) (h₀ : 0 ≤ draw) (hd : draw < drawBound cfg delay) :
    (pollBackoff cfg).step (.waits delay) (.failed draw) =
      some (.waits (wrap (nextDelay cfg delay false + draw))) := by
  have hbound : ¬ drawBound cfg delay ≤ 0 := by omega
  simp [pollBackoff, hj, hbound, h₀, hd]

/-! ## Mild configs -/

/-- What a mild config keeps of a delay. -/
def Between (cfg : BackoffConfig) (delay : Int) : Prop :=
  cfg.base ≤ delay ∧ delay ≤ cfg.cap + cfg.cap / cfg.jitterDivisor - 1

variable (hv : cfg.Valid)

include hv

theorem Mild.between_base (hm : Mild cfg) : Between cfg cfg.base := by
  have ⟨_, hc, hj⟩ := hv
  have hle : cfg.jitterDivisor ≤ cfg.cap := le_trans hm.draws (min_le_right _ _)
  have hone : 1 ≤ cfg.cap / cfg.jitterDivisor := (Int.le_ediv_iff_mul_le hj).mpr (by omega)
  exact ⟨le_refl _, by omega⟩

theorem Mild.failed (hm : Mild cfg) (hd : Between cfg delay) : wrap (delay * 2) = delay * 2 ∧
      nextDelay cfg delay false = min (delay * 2) cfg.cap ∧ 0 < drawBound cfg delay ∧
      drawBound cfg delay ≤ cfg.cap / cfg.jitterDivisor := by
  have ⟨hb, _, hj⟩ := hv
  have hwrap : wrap (delay * 2) = delay * 2 :=
    wrap_eq (by have := hd.1; omega) (by have := hd.2; have := hm.doubles; omega)
  have hnext : nextDelay cfg delay false = min (delay * 2) cfg.cap := by simp [nextDelay, hwrap]
  have hlow : cfg.jitterDivisor ≤ min (delay * 2) cfg.cap := by
    have := hm.draws
    have := hd.1
    omega
  have hbound : drawBound cfg delay = min (delay * 2) cfg.cap / cfg.jitterDivisor := by
    rw [drawBound, hnext, Int.tdiv_eq_ediv_of_nonneg (by omega)]
  refine ⟨hwrap, hnext, ?_, ?_⟩
  · rw [hbound]
    exact Int.lt_of_lt_of_le Int.one_pos ((Int.le_ediv_iff_mul_le hj).mpr (by omega))
  · rw [hbound]
    exact Int.ediv_le_ediv hj (min_le_right _ _)

theorem Mild.exact (hm : Mild cfg) (hd : Between cfg delay) : Exact cfg delay := by
  have ⟨hb, hc, hj⟩ := hv
  obtain ⟨hwrap, hnext, -, hle⟩ := hm.failed hv hd
  refine ⟨hwrap, fun draw h₀ hlt => wrap_eq ?_ ?_⟩
  · have := hd.1
    omega
  · have := hm.doubles
    omega

theorem Mild.step (hm : Mild cfg) {s : Loop} {t : Tick} (hd : Between cfg delay)
    (hs : (pollBackoff cfg).step (.waits delay) t = some s) :
    ∃ delay', s = .waits delay' ∧ Between cfg delay' := by
  have ⟨hb, hc, hj⟩ := hv
  cases t with
  | ok =>
    cases hs
    exact ⟨_, rfl, hm.between_base hv⟩
  | failed draw =>
    obtain ⟨-, hnext, hpos, hle⟩ := hm.failed hv hd
    have hbound : ¬ drawBound cfg delay ≤ 0 := by omega
    simp only [pollBackoff, hj, hbound, if_true, if_false] at hs
    split at hs
    next hdraw =>
      cases hs
      refine ⟨_, rfl, ?_⟩
      rw [(hm.exact hv hd).2 draw hdraw.1 hdraw.2, hnext]
      have := hd.1
      exact ⟨by omega, by omega⟩
    next => cases hs

theorem Mild.after (hm : Mild cfg) {ticks : List Tick} {s : Loop} (hs : after cfg ticks = some s) :
    ∃ delay, s = .waits delay ∧ Between cfg delay := by
  refine run_invariant (P := fun s => ∃ delay, s = .waits delay ∧ Between cfg delay)
    (fun s t s' => ?_) ⟨_, rfl, hm.between_base hv⟩ (along_trivial _ _ ticks) hs
  rintro ⟨delay, rfl, hd⟩ - hs
  exact hm.step hv hd hs

theorem Mild.paced (hm : Mild cfg) : Paced cfg where
  bounded := by
    rintro delay ⟨ticks, hticks⟩
    obtain ⟨_, hs, hlow, hhigh⟩ := hm.after hv hticks
    cases hs
    have := hm.spread
    exact ⟨hlow, by omega⟩
  reset := by
    intro ticks delay h
    rw [Poll.after, run_append] at h
    obtain ⟨s, hs, h⟩ := Option.bind_eq_some_iff.mp h
    obtain ⟨delay', rfl, -⟩ := hm.after hv hs
    cases h
    rfl
  runs := by
    intro ticks h
    obtain ⟨delay, hs, -⟩ := hm.after hv h
    cases hs
  exact := by
    rintro delay ⟨ticks, hticks⟩
    obtain ⟨_, hs, hd⟩ := hm.after hv hticks
    cases hs
    exact hm.exact hv hd

/-! ## What a paced config is -/

/-- A failure doubles a delay that is waited for, up to the cap, and adds what is drawn. -/
theorem Paced.waits (hp : Paced cfg) (hd : Waits cfg delay) (h₀ : 0 ≤ draw)
    (hlt : draw < min (delay * 2) cfg.cap / cfg.jitterDivisor) :
    Waits cfg (min (delay * 2) cfg.cap + draw) := by
  have ⟨hb, hc, hj⟩ := hv
  have hexact := hp.exact delay hd
  have hlow := (hp.bounded delay hd).1
  have hnext : nextDelay cfg delay false = min (delay * 2) cfg.cap := by simp [nextDelay, hexact.1]
  have hbound : drawBound cfg delay = min (delay * 2) cfg.cap / cfg.jitterDivisor := by
    rw [drawBound, hnext, Int.tdiv_eq_ediv_of_nonneg (by omega)]
  rw [← hbound] at hlt
  have hstep := step_failed hj h₀ hlt
  rw [hexact.2 draw h₀ hlt, hnext] at hstep
  exact hd.step hstep

theorem Paced.draws (hp : Paced cfg) : cfg.jitterDivisor ≤ min (cfg.base * 2) cfg.cap := by
  have ⟨hb, hc, hj⟩ := hv
  have hbase : Waits cfg cfg.base := ⟨[], rfl⟩
  have hnext : nextDelay cfg cfg.base false = min (cfg.base * 2) cfg.cap := by
    simp [nextDelay, (hp.exact _ hbase).1]
  have hbound : drawBound cfg cfg.base = min (cfg.base * 2) cfg.cap / cfg.jitterDivisor := by
    rw [drawBound, hnext, Int.tdiv_eq_ediv_of_nonneg (by omega)]
  by_contra hlt
  have hzero : drawBound cfg cfg.base = 0 := by
    rw [hbound]
    exact Int.ediv_eq_zero_of_lt (by omega) (by omega)
  refine hp.runs [.failed 0] (run_cons_eq_some.mpr ⟨.panicked, ?_, rfl⟩)
  simp [pollBackoff, hj, hzero]

theorem Paced.waits_cap (hp : Paced cfg) : Waits cfg cfg.cap := by
  have ⟨hb, hc, hj⟩ := hv
  have hgrow (k : Nat) : ∃ delay, Waits cfg delay ∧ delay ≤ cfg.cap ∧
      min cfg.cap (cfg.base + k) ≤ delay := by
    induction k with
    | zero => exact ⟨cfg.base, ⟨[], rfl⟩, hc, by omega⟩
    | succ k ih =>
      obtain ⟨delay, hd, hle, hmin⟩ := ih
      have hdraws := hp.draws hv
      have hone : 1 ≤ min (delay * 2) cfg.cap / cfg.jitterDivisor :=
        (Int.le_ediv_iff_mul_le hj).mpr (by omega)
      exact ⟨_, hp.waits hv hd (le_refl 0) (by omega), by omega, by omega⟩
  obtain ⟨delay, hd, hle, hmin⟩ := hgrow (cfg.cap - cfg.base).toNat
  have hcap : delay = cfg.cap := by omega
  exact hcap ▸ hd

/-- Then the largest jitter gives the largest delay. -/
theorem Paced.mild (hp : Paced cfg) : Mild cfg := by
  have ⟨hb, hc, hj⟩ := hv
  have hcap : min (cfg.cap * 2) cfg.cap = cfg.cap := by omega
  have hdraws := hp.draws hv
  have hone : 1 ≤ cfg.cap / cfg.jitterDivisor := (Int.le_ediv_iff_mul_le hj).mpr (by omega)
  have hdraw : 0 ≤ cfg.cap / cfg.jitterDivisor - 1 := by omega
  have hlast := hp.waits hv (hp.waits_cap hv) hdraw (by rw [hcap]; omega)
  rw [hcap] at hlast
  have hbound := (hp.bounded _ hlast).2
  refine ⟨hdraws, by omega, ?_⟩
  have hexact := (hp.exact _ hlast).1
  have hle := wrap_le ((cfg.cap + (cfg.cap / cfg.jitterDivisor - 1)) * 2)
  omega

/-- Every config keeps its bounds exactly if it is mild. -/
theorem paced_iff : Paced cfg ↔ Mild cfg :=
  ⟨Paced.mild hv, Mild.paced hv⟩

end

theorem paced_ten_eleven : Paced ⟨10, 11, 10⟩ :=
  (paced_iff ⟨by decide, by decide, by decide⟩).mpr ⟨by decide, by decide, by decide⟩

/-- The backoff of clank: five seconds up to five minutes, and a jitter of a quarter. -/
def clankBackoff : BackoffConfig := ⟨5000000000, 300000000000, 4⟩

/-- After six failures the delay has passed the cap by a minute.  Where the divisor is above the
delay, the first failure panics. -/
theorem clankBackoff_unpaced :
    after clankBackoff
        [.failed 0, .failed 0, .failed 0, .failed 0, .failed 0, .failed 60000000000] =
      some (.waits 360000000000) ∧
      clankBackoff.cap + clankBackoff.base / clankBackoff.jitterDivisor < 360000000000 ∧
      after ⟨10, 100, 30⟩ [.failed 0] = some .panicked := by
  decide

end Beats.Poll
