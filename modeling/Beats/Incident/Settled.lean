import Beats.Incident.Projection
import Beats.OutcomeLog

/-!
# Settled, and settled again

The convergence outcome of an order settles its incident and says how severe it was found to be.
It is not the last outcome that thump may publish for the decision: an undo is executed after it,
the call that executed the order may be slower than the window, and a decision that is delivered
again is executed again.

`Fold` takes the stage and the severity of an incident from whichever outcome came last, and of
thump's outcomes a convergence alone has a severity (`World.converged_or_unmeasured`).
-/

namespace Beats.Incident

open Lib Thump Identifiers List

/-! ## What thump publishes -/

/-- The outcome is what a watch came to. -/
def Converged (s : World) (oc : Outcome) : Prop :=
  ∃ i w q st idAt executedAt r, s.thump.tasks[i]? = some (.tend w, q) ∧
    (i, (⟨.publish (.outcome oc), r⟩ : Answered Thump.iface)) ∈ s.thump.log ∧
    oc = convergenceOf w.order st idAt executedAt

theorem Converged.result_ne_applied {s : World} {oc : Outcome} (h : Converged s oc) :
    oc.result ≠ .applied := by
  obtain ⟨-, -, -, st, -, -, -, -, -, rfl⟩ := h
  unfold convergenceOf Transport.settleResult
  split <;> exact nofun

theorem severity_executed (x : Executed) (o : Order) (at' : Time) :
    (x.outcome o at').observedSeverity = none := by
  rcases x with _ | _ | _ | _ <;> rfl

section

variable {hiss : Hiss.Transport} {thump : Transport} {clock : Time} {es : List Event}
  {s : World} {oc : Outcome}

theorem converged_or_unmeasured
    (h : (World.machine hiss thump).run (World.start clock) es = some s) (hoc : oc ∈ s.outcomes) :
    Converged s oc ∨ oc.observedSeverity = none := by
  have hdated := World.dated_run h
  obtain ⟨i, r, hm⟩ := hdated.published oc hoc
  obtain ⟨t₁, t₂, ht⟩ := append_of_mem (mem_own.mpr hm)
  have report {o : Order} {at' : Time}
      (he : ⟨.execute o at', oc⟩ ∈ t₁) : oc.observedSeverity = none := by
    have hlog : ⟨.execute o at', oc⟩ ∈ own i s.thump.log := by
      rw [ht]
      exact mem_append_left _ he
    obtain ⟨x, rfl⟩ := World.executed_of_log h (mem_own.mp hlog)
    exact severity_executed x o at'
  obtain ⟨⟨j, q⟩, hj⟩ : ∃ task, s.thump.tasks[i]? = some task :=
    ⟨_, getElem?_eq_getElem (hdated.ran.lt_of_mem hm)⟩
  have hsteps := hdated.ran.steps hj
  cases j with
  | enact g =>
    -- a call publishes what the executor reported
    obtain ⟨-, o, at', he⟩ := (enacts_enact thump g).of_steps hsteps ht
    exact .inr (report he)
  | tend w =>
    obtain ⟨-, hemission⟩ := (tends_background w).of_steps hsteps ht
    cases hemission with
    | report now at' he => exact .inr (report he)
    | convergence _ => exact .inl ⟨i, w, q, _, _, _, r, hj, hm, rfl⟩
    | acceptance _ _ => exact .inr rfl

end

/-! ## Folding them -/

/-- The incident after more outcomes. -/
def refold (i : Incident) (ocs : List Outcome) : Incident :=
  ocs.foldl (fun i oc => fold i (.value (.outcome oc))) i

/-- The incident is settled, with that severity. -/
def SettledWith (severity : Option Rat) (i : Incident) : Prop :=
  i.stage = .settled ∧ i.severity = severity

theorem settledWith_fold_iff (i : Incident) (oc : Outcome) (severity : Option Rat) :
    SettledWith severity (fold i (.value (.outcome oc))) ↔
      oc.result ≠ .applied ∧ oc.observedSeverity = severity := by
  have hstage : stageOf oc.result = .settled ↔ oc.result ≠ .applied := by
    cases oc.result <;> simp [stageOf]
  exact and_congr hstage Iff.rfl

theorem settledWith_refold_iff {severity : Option Rat} {ocs : List Outcome} {i : Incident}
    (h : SettledWith severity i) :
    (∀ seen, seen <+: ocs → SettledWith severity (refold i seen)) ↔
      ∀ oc ∈ ocs, oc.result ≠ .applied ∧ oc.observedSeverity = severity := by
  induction ocs generalizing i with
  | nil =>
    refine iff_of_true (fun seen hseen => ?_) fun oc hoc => nomatch hoc
    obtain rfl := prefix_nil.mp hseen
    exact h
  | cons oc ocs ih =>
    rw [forall_mem_cons, ← settledWith_fold_iff i oc]
    constructor
    · intro hall
      have hoc : SettledWith severity (fold i (.value (.outcome oc))) :=
        hall [oc] ((prefix_cons_inj oc).mpr nil_prefix)
      refine ⟨hoc, (ih hoc).mp fun seen hseen => hall (oc :: seen) ?_⟩
      exact (prefix_cons_inj oc).mpr hseen
    · rintro ⟨hoc, hrest⟩ seen hseen
      cases seen with
      | nil => exact h
      | cons oc' seen =>
        obtain ⟨rfl, hrest'⟩ := cons_prefix_cons.mp hseen
        exact (ih hoc).mpr hrest seen hrest'

/-- What thump publishes for a decision after a convergence of it leaves the incident settled with
the severity of the convergence exactly if every other convergence has that severity, and there is
nothing else unless it was not applied and the convergence was not measured. -/
theorem settled_stays_iff {hiss : Hiss.Transport} {thump : Thump.Transport} {clock : Time}
    {es : List Event} {s : World}
    (hrun : (World.machine hiss thump).run (World.start clock) es = some s)
    {before later : List Outcome} {conv : Outcome} (hs : s.outcomes = before ++ conv :: later)
    (hconv : Converged s conv) (prior : Incident) :
    (∀ seen, seen <+: later.filter (fun oc => oc.decisionRef = conv.decisionRef) →
      SettledWith conv.observedSeverity (refold (fold prior (.value (.outcome conv))) seen)) ↔
      ∀ oc ∈ later, oc.decisionRef = conv.decisionRef →
        (Converged s oc → oc.observedSeverity = conv.observedSeverity) ∧
        (¬ Converged s oc → oc.result ≠ .applied ∧ conv.observedSeverity = none) := by
  have hstart : SettledWith conv.observedSeverity (fold prior (.value (.outcome conv))) :=
    (settledWith_fold_iff prior conv _).mpr ⟨hconv.result_ne_applied, rfl⟩
  rw [settledWith_refold_iff hstart]
  simp only [mem_filter, decide_eq_true_eq, and_imp]
  refine forall₃_congr fun oc hoc _ => ?_
  have hmem : oc ∈ s.outcomes := by
    rw [hs]
    exact mem_append_right _ (mem_cons_of_mem _ hoc)
  by_cases hc : Converged s oc
  · simp [hc, hc.result_ne_applied]
  · have hnone := (converged_or_unmeasured hrun hmem).resolve_left hc
    simp [hc, hnone, eq_comm]

def throttledOutcome : Outcome := liveReport throttleOrder 1 (.ok .applied)

/-- The outcome of its window, where the probe read a severity. -/
def throttleSettled (converged : Bool) (executedAt : Time) : Outcome :=
  convergenceOf throttleOrder { converged, severity := some (1 / 2) } executedAt executedAt

/-- The job `i` reads a verdict and publishes it. -/
def settledBy (i : Nat) (converged : Bool) (time : Time) : List Event :=
  let undoAt := if converged then [] else [.act i { time }]
  [.start (.settle throttleOrder), .act i {}, .act i { probe := (converged, some (1 / 2)) }] ++
    undoAt ++ [.act i {}, .act i { time }, .act i { time }, .act i {}, .act i {}]

/-- The decision is delivered twice, and both executions converge with one severity. -/
theorem twice_settled : ∃ s,
    watching.run (World.start 0)
      (throttledBy 0 ++ throttledBy 1 ++ settledBy 2 true 2 ++ settledBy 3 true 3) = some s ∧
    Converged s (throttleSettled true 2) ∧
    SettledWith (some (1 / 2)) (refold {} [throttleSettled true 2, throttleSettled true 3]) := by
  refine Machine.exists_run_of (P := fun s => s.outcomes = [throttledOutcome, throttledOutcome,
    throttleSettled true 2, throttleSettled true 3]) (by decide +kernel) fun s hrun hocs => ?_
  have converged : ∀ oc ∈ s.outcomes, oc.observedSeverity ≠ none → Converged s oc :=
    fun oc hoc hne => (converged_or_unmeasured hrun hoc).resolve_right hne
  have hfirst := converged (throttleSettled true 2) (by simp [hocs]) (by decide)
  have hsecond := converged (throttleSettled true 3) (by simp [hocs]) (by decide)
  refine ⟨hfirst, ?_⟩
  refine (@settled_stays_iff _ _ _ _ _ hrun [throttledOutcome, throttledOutcome]
    [throttleSettled true 3] _ hocs hfirst {}).mpr ?_ [throttleSettled true 3] ?_
  · rintro oc hoc -
    obtain rfl := mem_singleton.mp hoc
    exact ⟨fun _ => rfl, fun hn => absurd hsecond hn⟩
  · exact prefix_rfl

/-- The window is missed and the undo is applied. -/
theorem undo_unsettles : ∃ s undo,
    watching.run (World.start 0) (throttledBy 0 ++ settledBy 1 false 2 ++
      [.act 1 { time := 3 }, .act 1 { executed := .ran (.ok .applied) }, .act 1 {}, .act 1 {},
        .act 1 {}]) = some s ∧
    s.outcomes = [throttledOutcome, throttleSettled false 2, undo] ∧
    Converged s (throttleSettled false 2) ∧
    undo = liveReport (Transport.reversalOf throttleOrder 2) 3 (.ok .applied) ∧
    (refold {} [throttleSettled false 2]).stage = .settled ∧
    (refold {} [throttleSettled false 2]).severity = some (1 / 2) ∧
    (refold {} [throttleSettled false 2, undo]).stage = .applied ∧
    (refold {} [throttleSettled false 2, undo]).severity = none := by
  obtain ⟨s, hrun, hocs⟩ : ∃ s, watching.run (World.start 0) (throttledBy 0 ++
      settledBy 1 false 2 ++ [.act 1 { time := 3 }, .act 1 { executed := .ran (.ok .applied) },
        .act 1 {}, .act 1 {}, .act 1 {}]) = some s ∧
      s.outcomes = [throttledOutcome, throttleSettled false 2,
        liveReport (Transport.reversalOf throttleOrder 2) 3 (.ok .applied)] :=
    Machine.exists_run (by decide +kernel)
  have hmem : throttleSettled false 2 ∈ s.outcomes := by simp [hocs]
  have hconv := (converged_or_unmeasured hrun hmem).resolve_right (by decide)
  exact ⟨s, _, hrun, hocs, hconv, rfl, rfl, rfl, rfl, rfl⟩

end Beats.Incident
