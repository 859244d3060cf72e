import Mathlib.Data.List.Induction
import Beats.Thump.Transport

/-!
# Call by call

`Transport.handle` and the goroutines `watchAndSettle` and `watchAndAccept`, call by call.
`Enacts t c` says that a call of `handle` may make the call `c` after the calls `t`, and
`Tends o t c` that a goroutine which watches `o` may.  `enacts_handle` and `tends_background` say
that they make no others.  What they execute, publish and record is read off that.

An outcome is published and then recorded.  `handle` ends where the publisher failed, and a
goroutine records the outcome whatever the publisher said (`Keeps`).
-/

namespace Beats.Thump

open Lib Transport Monitor List

/-! ## Outcomes of a goroutine -/

/-- The outcome that a settlement is reported as. -/
def convergenceOf (o : Order) (st : Settlement) (idAt executedAt : Time) : Outcome where
  id := "out:" ++ o.signalRef ++ ":conv:" ++ toString idAt.unix
  decisionRef := o.decisionRef
  signalRef := o.signalRef
  contractRef := o.contractRef
  mode := .live
  result := settleResult st.converged
  observedSeverity := st.severity
  error := settleError st.converged st.held o.success.target o.reversal.fallback
  executedAt := executedAt

/-- The outcome that a review is reported as. -/
def acceptanceOf (o : Order) (result : Outcome.Result) (errText : String)
    (idAt executedAt : Time) : Outcome where
  id := "out:" ++ o.signalRef ++ ":accept:" ++ toString idAt.unix
  decisionRef := o.decisionRef
  signalRef := o.signalRef
  contractRef := o.contractRef
  mode := .live
  result := result
  error := errText
  executedAt := executedAt

/-- What `watchAndAccept` says of a release that was not accepted. -/
inductive Refusal (o : Order) : Outcome.Result → String → Prop where
  | unread (e : String) : Refusal o .failure ("acceptance poll failed: " ++ e)
  | unmerged : Refusal o .partialNonConverging (acceptanceError o.reversal.fallback)

/-- The outcomes that a goroutine publishes after the calls `t`: what the executor reported on an
undo, or one that it made after two readings of the clock. -/
inductive Emission (o : Order) (t : List (Answered iface)) : Outcome → Prop where
  | report (now at' : Time) {oc : Outcome}
      (h : ⟨.execute (reversalOf o now) at', oc⟩ ∈ t) : Emission o t oc
  | convergence {st : Settlement} {t₀ : List (Answered iface)} {idAt executedAt : Time}
      (h : t = t₀ ++ [⟨.now, idAt⟩, ⟨.now, executedAt⟩]) :
      Emission o t (convergenceOf o st idAt executedAt)
  | acceptance {result : Outcome.Result} {errText : String} {t₀ : List (Answered iface)}
      {idAt executedAt : Time} (hr : Refusal o result errText)
      (h : t = t₀ ++ [⟨.now, idAt⟩, ⟨.now, executedAt⟩]) :
      Emission o t (acceptanceOf o result errText idAt executedAt)

/-! ## Published and recorded -/

def published? : Answered iface → Option Outcome
  | ⟨.publish (.outcome oc), _⟩ => some oc
  | _ => none

def delivered? : Answered iface → Option Outcome
  | ⟨.publish (.outcome oc), (r : Except String Unit)⟩ => if r.isOk then some oc else none
  | _ => none

def Call.recorded? : Call → Option Outcome
  | .record oc => some oc
  | _ => none

section

variable {due? : Answered iface → Option Outcome} {t : List (Answered iface)}

/-- The outcome that the last call made due to be recorded. -/
def due (due? : Answered iface → Option Outcome) (t : List (Answered iface)) : Option Outcome :=
  t.getLast?.bind due?

@[simp] theorem due_snoc (a : Answered iface) : due due? (t ++ [a]) = due? a := by simp [due]

/-- What is due is recorded by the next call, and nothing else is recorded. -/
def Keeps (due? : Answered iface → Option Outcome) (t : List (Answered iface)) (c : Call) : Prop :=
  due due? t = c.recorded?

/-- Nothing is left to be recorded at the end of a run. -/
def NothingDue {ε α : Type} (due? : Answered iface → Option Outcome) (t : List (Answered iface))
    (_ : Except ε α) : Prop :=
  due due? t = none

def recorded (t : List (Answered iface)) : List Outcome := t.filterMap fun a => a.1.recorded?

theorem recorded_append_due
    (h : ∀ t₁ c r t₂, t = t₁ ++ (⟨c, r⟩ : Answered iface) :: t₂ → Keeps due? t₁ c) :
    recorded t ++ (due due? t).toList = t.filterMap due? := by
  induction t using reverseRecOn with
  | nil => rfl
  | append_singleton t a ih =>
    obtain ⟨c, r⟩ := a
    have hkeeps : due due? t = c.recorded? := h t c r [] rfl
    have ih := ih fun t₁ c' r' t₂ he => h t₁ c' r' (t₂ ++ [⟨c, r⟩]) (by simp [he])
    have hlast : recorded (t ++ [⟨c, r⟩]) = recorded t ++ (due due? t).toList := by
      rw [recorded, filterMap_append, hkeeps]
      cases hc : c.recorded? <;> simp [recorded, hc]
    rw [hlast, ih, due_snoc, filterMap_append]
    cases hd : due? ⟨c, r⟩ <;> simp [hd]

end

/-! ## Handle -/

/-- The calls that `handle` may make after the calls `t`. -/
def Enacts (t : List (Answered iface)) : Call → Prop
  | .execute _ at' => ⟨.now, at'⟩ ∈ t
  | .publish (.outcome oc) => ∃ o at', ⟨.execute o at', oc⟩ ∈ t
  | _ => True

/-- The monitor of a call of `handle`. -/
def enacts : Monitor iface (List (Answered iface)) :=
  history fun t c => Keeps delivered? t c ∧ Enacts t c

section

variable {tr : Transport} {g : Decision.Governed} {t : List (Answered iface)}

theorem enacts_notify (ht : due delivered? t = none) :
    enacts.Allows (NothingDue delivered?) (tr.notify g >>= fun _ => pure ()) t := by
  unfold notify
  split
  · exact ht
  · exact allows_ask_bind ⟨ht, trivial⟩ fun _ => due_snoc _

theorem enacts_publish_notify {m : Message} (hm : ∀ oc, m ≠ .outcome oc)
    {wrap : String → HandleError} :
    enacts.Allows (NothingDue delivered?)
      (publish m >>= fun r => Prog.orFail wrap r >>= fun _ => tr.notify g >>= fun _ => pure ())
      [] := by
  have hcall : Enacts [] (.publish m) ∧ ∀ r, delivered? ⟨.publish m, r⟩ = none := by
    cases m with
    | outcome oc => exact absurd rfl (hm oc)
    | _ => exact ⟨trivial, fun _ => rfl⟩
  refine allows_ask_bind ⟨rfl, hcall.1⟩ fun r => ?_
  have hr : due delivered? ([] ++ [⟨.publish m, r⟩]) = none := (due_snoc _).trans (hcall.2 r)
  cases r with
  | error e => exact hr
  | ok _ => exact enacts_notify hr

/-- What a call still does once it has executed `o`: two publishes and the record. -/
theorem enacts_publishes {o : Order} {oc : Outcome} (at' : Time) {sig : String}
    (ht : due delivered? t = none) (hm : ⟨.execute o at', oc⟩ ∈ t) :
    enacts.Allows (NothingDue delivered?)
      (do Prog.orFail (HandleError.publishFailed "order" sig) (← publish (.order o))
          Prog.orFail (HandleError.publishFailed "outcome" sig) (← publish (.outcome oc))
          record oc) t := by
  refine allows_ask_bind ⟨ht, trivial⟩ (either (fun _ => due_snoc _) fun _ => ?_)
  exact allows_ask_bind ⟨due_snoc _, o, at', mem_append_left _ hm⟩
    (either (fun _ => due_snoc _) fun _ => allows_ask ⟨due_snoc _, trivial⟩ fun _ => due_snoc _)

end

/-- A call publishes what the executor reported at the time it was handed, and has recorded what it
delivered when it ends. -/
theorem enacts_handle (tr : Transport) (g : Decision.Governed) :
    enacts.Allows (NothingDue delivered?) (tr.handle g) [] := by
  unfold handle
  cases g.decision.verdict with
  | approved =>
    refine allows_ask_bind ⟨rfl, trivial⟩ fun renderedAt => ?_
    cases Actuator.render g tr.catalog renderedAt with
    | error e => exact due_snoc _
    | ok o =>
      refine allows_ask_bind ⟨due_snoc _, trivial⟩ fun executedAt => ?_
      refine allows_ask_bind ⟨due_snoc _, ?_⟩ fun oc => ?_
      · exact mem_append_right _ (mem_singleton_self _)
      cases tr.watchFor o oc with
      | none =>
        refine enacts_publishes executedAt (due_snoc _) ?_
        exact mem_append_right _ (mem_singleton_self _)
      | some w =>
        refine allows_ask_bind ⟨due_snoc _, trivial⟩ fun _ => ?_
        refine enacts_publishes executedAt (due_snoc _) ?_
        exact mem_append_left _ (mem_append_right _ (mem_singleton_self _))
  | _ => exact enacts_publish_notify fun _ h => by cases h

/-! ## The goroutines -/

/-- The calls that a goroutine which watches `o` may make after the calls `t`. -/
def Tends (o : Order) (t : List (Answered iface)) : Call → Prop
  | .execute u at' => (∃ now, u = reversalOf o now) ∧ ⟨.now, at'⟩ ∈ t
  | .publish (.order u) => ∃ now, u = reversalOf o now
  | .publish (.outcome oc) => Emission o t oc
  | .publish _ => False
  | .notify _ => False
  | .go _ => False
  | _ => True

/-- What the goroutine of an order keeps to. -/
def tends (o : Order) : Monitor iface (List (Answered iface)) :=
  history fun t c => Keeps published? t c ∧ Tends o t c

section

variable {o : Order} {t : List (Answered iface)}

theorem tends_watch (ht : due published? t = none) : (tends o).Allows
      (fun t out => due published? t = none ∧
        ∀ st, out = .ok st → st.fire = true → ∃ now, st.undo = reversalOf o now)
      (watch o) t := by
  refine allows_ask_bind ⟨ht, trivial⟩ fun elapsed => ?_
  cases elapsed with
  | false =>
    refine ⟨due_snoc _, ?_⟩
    rintro st hst hf
    cases hst
    cases hf
  | true =>
    refine allows_ask_bind ⟨due_snoc _, trivial⟩ fun ⟨converged, severity⟩ => ?_
    dsimp only
    split
    · refine ⟨due_snoc _, ?_⟩
      rintro st hst hf
      cases hst
      cases hf
    · refine allows_ask_bind ⟨due_snoc _, trivial⟩ fun now => ?_
      refine ⟨due_snoc _, ?_⟩
      rintro st hst -
      cases hst
      exact ⟨now, rfl⟩

theorem tends_watchAndSettle (ht : due published? t = none) :
    (tends o).Allows (NothingDue published?) (watchAndSettle o) t := by
  refine (tends_watch ht).bind ?_ fun _ _ h => h.1
  rintro t st ⟨ht, hst⟩
  refine allows_ask_bind ⟨ht, trivial⟩ fun cancelled => ?_
  cases cancelled with
  | true => exact due_snoc _
  | false =>
    refine allows_ask_bind ⟨due_snoc _, trivial⟩ fun idAt => ?_
    refine allows_ask_bind ⟨due_snoc _, trivial⟩ fun executedAt => ?_
    refine allows_ask_bind ⟨due_snoc _, .convergence (append_assoc _ _ _)⟩ fun _ => ?_
    refine allows_ask_bind ⟨due_snoc _, trivial⟩ fun _ => ?_
    cases hf : st.fire with
    | false => exact due_snoc _
    | true =>
      obtain ⟨now, hundo⟩ := hst st rfl hf
      rw [hundo]
      refine allows_ask_bind ⟨due_snoc _, trivial⟩ fun undoneAt => ?_
      refine allows_ask_bind ⟨due_snoc _, ⟨now, rfl⟩, ?_⟩ fun oc => ?_
      · exact mem_append_right _ (mem_singleton_self _)
      refine allows_ask_bind ⟨due_snoc _, now, rfl⟩ fun _ => ?_
      refine allows_ask_bind ⟨due_snoc _, .report now undoneAt ?_⟩ fun _ => ?_
      · -- the executor was called two calls ago
        exact mem_append_left _ (mem_append_right _ (mem_singleton_self _))
      · exact allows_ask ⟨due_snoc _, trivial⟩ fun _ => due_snoc _

theorem tends_recordAccept {result : Outcome.Result} {errText : String}
    (hr : Refusal o result errText) (ht : due published? t = none) :
    (tends o).Allows (NothingDue published?) (recordAccept o result errText) t := by
  refine allows_ask_bind ⟨ht, trivial⟩ fun idAt => ?_
  refine allows_ask_bind ⟨due_snoc _, trivial⟩ fun executedAt => ?_
  refine allows_ask_bind ⟨due_snoc _, .acceptance hr (append_assoc _ _ _)⟩ fun _ => ?_
  exact allows_ask ⟨due_snoc _, trivial⟩ fun _ => due_snoc _

theorem tends_poll (ht : due published? t = none) :
    (tends o).Allows (NothingDue published?) (poll o) t := by
  refine allows_ask_bind ⟨ht, trivial⟩ fun elapsed => ?_
  cases elapsed with
  | false => exact due_snoc _
  | true => exact allows_ask ⟨due_snoc _, trivial⟩ fun _ => due_snoc _

theorem tends_watchAndAccept (ht : due published? t = none) :
    (tends o).Allows (NothingDue published?) (watchAndAccept o) t := by
  refine (tends_poll ht).bind ?_ fun _ _ h => h
  intro t accepted ht
  refine allows_ask_bind ⟨ht, trivial⟩ fun cancelled => ?_
  cases cancelled with
  | true => exact due_snoc _
  | false =>
    match accepted with
    | .error e => exact tends_recordAccept (.unread e) (due_snoc _)
    | .ok false => exact tends_recordAccept .unmerged (due_snoc _)
    | .ok true => exact tends_watchAndSettle (due_snoc _)

end

/-- Every goroutine tends the order it watches, and has recorded what it published when it ends. -/
theorem tends_background (w : Watch) :
    (tends w.order).Allows (NothingDue published?) (background w) [] := by
  cases w with
  | settle o => exact tends_watchAndSettle rfl
  | accept o => exact tends_watchAndAccept rfl

end Beats.Thump
