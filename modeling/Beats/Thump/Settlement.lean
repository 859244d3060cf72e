import Beats.Thump.Governance

/-!
# Settling an executed order

What one run of `Transport.watchAndSettle` leaves behind when the context stays alive: the
convergence outcome it publishes and the undo it executes.  `exits_watchAndSettle` is the
account of such a run, and everything else is read off it.

The contract authors two flags.  `holdOnMiss` keeps a missed window from being undone, and
`restoreOnSuccess` undoes a met one.  `ReversalWatcher.Watch` does not look at the verdict
of the probe where it reads the second, so a contract that sets both is undone on a miss.
-/

namespace Beats.Thump

open Lib Transport Prog

/-! ## Reading a run -/

/-- The context was alive at an answered call. -/
def alive : Answered iface → Bool
  | ⟨.window _, (elapsed : Bool)⟩ => elapsed
  | ⟨.cancelled, (cancelled : Bool)⟩ => !cancelled
  | _ => true

def verdict? : Answered iface → List Bool
  | ⟨.probe _, (r : Bool × Option Rat)⟩ => [r.1]
  | _ => []

/-- The verdicts that a run read. -/
def verdicts (t : List (Answered iface)) : List Bool := t.flatMap verdict?

def executed? : Answered iface → List Order
  | ⟨.execute o _, _⟩ => [o]
  | _ => []

/-- The orders that a run executed, forward or not. -/
def executions (t : List (Answered iface)) : List Order := t.flatMap executed?

def outcome? : Answered iface → List Outcome
  | ⟨.publish (.outcome oc), _⟩ => [oc]
  | _ => []

/-- The outcomes that a run published. -/
def outcomes (t : List (Answered iface)) : List Outcome := t.flatMap outcome?

/-! ## The account of a run -/

/-- Whether `Watch` fires the undo. -/
def fires (o : Order) (converged : Bool) : Bool :=
  (!converged && !o.reversal.holdOnMiss) || o.reversal.restoreOnSuccess

variable {o : Order} {t : List (Answered iface)}

/-- The calls of `Watch` while the context is alive, and what it decides. -/
theorem exits_watch {out : Except Empty Settlement} (h : (watch o).Exits t out)
    (ha : ∀ a ∈ t, alive a = true) :
    ∃ (converged : Bool) (severity : Option Rat), (fires o converged = false ∧
        t = [⟨.window o.success.window, true⟩, ⟨.probe o, (converged, severity)⟩] ∧
        out = .ok { converged, held := !converged && o.reversal.holdOnMiss, severity }) ∨
      (fires o converged = true ∧ ∃ at' : Time,
        t = [⟨.window o.success.window, true⟩, ⟨.probe o, (converged, severity)⟩, ⟨.now, at'⟩] ∧
        out = .ok { converged, fire := true, undo := reversalOf o at', severity }) := by
  obtain ⟨elapsed, u, rfl, hu⟩ := exits_call.mp h
  obtain rfl : elapsed = true := ha _ List.mem_cons_self
  obtain ⟨⟨converged, severity⟩, v, rfl, hv⟩ := exits_call.mp hu
  refine ⟨converged, severity, ?_⟩
  change Exits (if (!fires o converged) = true then _ else _) v out at hv
  cases hf : fires o converged with
  | false =>
    rw [hf] at hv
    obtain ⟨rfl, rfl⟩ := exits_ret.mp hv
    exact .inl ⟨rfl, rfl, rfl⟩
  | true =>
    rw [hf] at hv
    obtain ⟨at', w, rfl, hw⟩ := exits_call.mp hv
    obtain ⟨rfl, rfl⟩ := exits_ret.mp hw
    exact .inr ⟨rfl, at', rfl, rfl⟩

/-- What a run of `watchAndSettle` that read the verdict `converged` leaves behind. -/
structure Account (o : Order) (converged : Bool) (t : List (Answered iface)) (conv : Outcome) :
    Prop where
  verdicts : verdicts t = [converged]
  outcomes : outcomes t = conv :: reports t
  result : conv.result = settleResult converged
  error : conv.error = settleError converged
    (!converged && o.reversal.holdOnMiss && !fires o converged) o.success.target o.reversal.fallback
  executions : ∃ at', executions t = if fires o converged then [reversalOf o at'] else []

theorem exits_watchAndSettle {out : Except Empty Unit} (h : (watchAndSettle o).Exits t out)
    (ha : ∀ a ∈ t, alive a = true) :
    ∃ converged conv, Account o converged t conv := by
  rcases exits_bind h with ⟨st, u, v, rfl, hw, hv⟩ | ⟨e, -, -⟩
  rotate_left
  · exact e.elim
  have hau : ∀ a ∈ u, alive a = true := fun a hm => ha a (List.mem_append_left v hm)
  obtain ⟨cancelled, v₁, rfl, h₁⟩ := exits_call.mp hv
  have hc : (!cancelled) = true := ha ⟨.cancelled, cancelled⟩ (by simp)
  obtain rfl : cancelled = false := Bool.not_eq_true' cancelled |>.mp hc
  obtain ⟨idAt, v₂, rfl, h₂⟩ := exits_call.mp h₁
  obtain ⟨executedAt, v₃, rfl, h₃⟩ := exits_call.mp h₂
  obtain ⟨published, v₄, rfl, h₄⟩ := exits_call.mp h₃
  obtain ⟨_, v₅, rfl, h₅⟩ := exits_call.mp h₄
  obtain ⟨converged, severity, ⟨hf, rfl, hst⟩ | ⟨hf, at', rfl, hst⟩⟩ := exits_watch hw hau
  · -- Nothing is undone, so the convergence outcome is the last word.
    cases hst
    obtain ⟨rfl, rfl⟩ := exits_ret.mp h₅
    exact ⟨converged, _, rfl, rfl, rfl, by simp [hf], default, by rw [hf]; rfl⟩
  · cases hst
    obtain ⟨undoneAt, v₆, rfl, h₆⟩ := exits_call.mp h₅
    obtain ⟨oc, v₇, rfl, h₇⟩ := exits_call.mp h₆
    obtain ⟨_, v₈, rfl, h₈⟩ := exits_call.mp h₇
    obtain ⟨_, v₉, rfl, h₉⟩ := exits_call.mp h₈
    obtain ⟨_, v₁₀, rfl, h₁₀⟩ := exits_call.mp h₉
    obtain ⟨rfl, rfl⟩ := exits_ret.mp h₁₀
    exact ⟨converged, _, rfl, rfl, rfl, by simp [hf], at', by rw [hf]; rfl⟩

/-! ## The discipline of the undo -/

/-- A settled run keeps to what the contract authors.  It publishes one convergence outcome,
everything else being what the executor reported, and it executes the undo of the order
once, on a miss that is not held or on a success that is to be restored, or not at all. -/
structure Disciplined (o : Order) (converged : Bool) (t : List (Answered iface)) : Prop where
  convergence : ∃ conv, outcomes t = conv :: reports t ∧
    conv.result = (if converged then .success else .partialNonConverging) ∧
    (converged = false → conv.error ≠ "") ∧
    (converged = false → o.reversal.holdOnMiss = true →
      conv.error = settleError false true o.success.target o.reversal.fallback)
  undo : ∃ at', executions t =
    if (!converged && !o.reversal.holdOnMiss) || (converged && o.reversal.restoreOnSuccess)
    then [reversalOf o at'] else []

theorem settleError_ne_empty (held : Bool) (target fallback : String) :
    settleError false held target fallback ≠ "" := by
  cases held <;> simp [settleError]

/-- A run that settles an order keeps the discipline unless the window was missed and the
contract asks both to hold the undo on a miss and to restore on success. -/
theorem settle_disciplined_iff (o : Order) {t : List (Answered iface)} {out : Except Empty Unit}
    (h : (watchAndSettle o).Exits t out) (ha : ∀ a ∈ t, alive a = true) {converged : Bool}
    (hv : converged ∈ verdicts t) :
    Disciplined o converged t ↔
      ¬ (converged = false ∧ o.reversal.holdOnMiss = true ∧
        o.reversal.restoreOnSuccess = true) := by
  obtain ⟨converged', conv, hacc⟩ := exits_watchAndSettle h ha
  rw [hacc.verdicts, List.mem_singleton] at hv
  subst hv
  obtain ⟨at', hex⟩ := hacc.executions
  constructor
  · rintro ⟨-, at'', hundo⟩ ⟨rfl, hhold, hrestore⟩
    rw [hex] at hundo
    simp [fires, hhold, hrestore] at hundo
  · intro hboth
    -- Outside the condition the watcher's test and the contract's agree.
    have hfires : fires o converged = ((!converged && !o.reversal.holdOnMiss) ||
        (converged && o.reversal.restoreOnSuccess)) := by
      revert hboth
      unfold fires
      cases converged <;> cases o.reversal.holdOnMiss <;>
        cases o.reversal.restoreOnSuccess <;> simp
    refine ⟨⟨conv, hacc.outcomes, hacc.result, ?_, ?_⟩, at', by rw [hex, hfires]⟩
    · rintro rfl
      rw [hacc.error]
      exact settleError_ne_empty _ _ _
    · rintro rfl hhold
      rw [hacc.error, hfires, hhold]
      rfl

/-- The environment in which the context stays alive and the probe answers `converged`. -/
def windowElapses (converged : Bool) : (c : Call) → iface.Answer c
  | .probe _ => (converged, none)
  | c => fairWeather c

/-- A rebind that is itself the remedy, so it is kept on a miss. -/
def heldRebind : Order where
  signalRef := "checkout"
  contractRef := "rebind"
  reversal := { holdOnMiss := true }

theorem heldRebind_disciplined :
    Disciplined heldRebind false (Prog.play (fun _ c => (windowElapses false c, ())) ()
      (watchAndSettle heldRebind)).2 :=
  (settle_disciplined_iff heldRebind (exits_play _ _ _) (by decide +kernel)
    (by decide +kernel)).mpr (by decide)

/-- The same rebind, which is also to be taken back once it has worked. -/
def restoredRebind : Order :=
  { heldRebind with reversal := { holdOnMiss := true, restoreOnSuccess := true } }

/-- The window of an order that sets both flags is missed, and the order is undone. -/
theorem restoredRebind_undone : ∃ (t : List (Answered iface)) (out : Except Empty Unit),
    (watchAndSettle restoredRebind).Exits t out ∧ (∀ a ∈ t, alive a = true) ∧
      verdicts t = [false] ∧ restoredRebind.reversal.holdOnMiss = true ∧
      executions t = [reversalOf restoredRebind 0] ∧
      (outcomes t).map (·.error) = ["success window elapsed without meeting \"\"", ""] ∧
      ¬ Disciplined restoredRebind false t := by
  refine ⟨_, _, exits_play (fun _ c => (windowElapses false c, ())) _ (), by decide +kernel,
    rfl, rfl, rfl, by decide +kernel, ?_⟩
  rintro ⟨-, at', hundo⟩
  cases hundo

end Beats.Thump
