import Beats.Actuate.Runner
import Beats.Thump.Settlement

/-!
# Live execution

`Live` of `internal/thump`, the executor that acts: it hands the order to the runner and
reports what the runner came to.

A forward operation of several steps stops at the first that fails, and what the steps
before it changed stays changed.  `Live` reports a failure, and `Transport.handle` starts a
watch for orders that were applied or proposed.  So nothing ever tends to an order that failed
half way: no watch is started for it and its undo is not executed (`halfApplied_untended`).
-/

namespace Beats.Thump

open Lib Actuate Transport Monitor Prog List

/-! ## The executor -/

/-- What `Live.Execute` reports, but for the result. -/
def liveOutcome (o : Order) (now : Time) : Outcome where
  id := "out:" ++ o.signalRef ++ ":" ++ toString now.unix
  decisionRef := o.decisionRef
  signalRef := o.signalRef
  contractRef := o.contractRef
  mode := .live
  executedAt := now

/-- The report of a run of the runner. -/
def liveReport (o : Order) (now : Time) : Except String Outcome.Result → Outcome
  | .error err => { liveOutcome o now with result := .failure, error := err }
  | .ok result => { liveOutcome o now with result := result }

/-- The order is run, and what came of it reported. -/
def Live.execute (r : Runner) (o : Order) (now : Time) : Prog Actuate.iface Empty Outcome := do
  let res ← (r.run o.contractRef (o.kind == .reversal) o.notes).attempt
  return liveReport o now res

/-- `DryRun.Execute`, of the executor that renders and stops. -/
def DryRun.execute (o : Order) (now : Time) : Outcome where
  id := "out:" ++ o.signalRef ++ ":" ++ toString now.unix
  decisionRef := o.decisionRef
  signalRef := o.signalRef
  contractRef := o.contractRef
  mode := .dryRun
  result := .rendered
  executedAt := now

variable {r : Runner} {o : Order} {now : Time} {u : List (Answered Actuate.iface)} {oc : Outcome}

theorem exits_execute (h : (Live.execute r o now).Exits u (.ok oc)) :
    ∃ res, (r.run o.contractRef (o.kind == .reversal) o.notes).Exits u res ∧
      oc = liveReport o now res := by
  obtain ⟨res, hv, rfl⟩ := exits_bind_ret h
  obtain ⟨x, hx, hres⟩ := exits_attempt.mp hv
  cases hx
  exact ⟨res, hres, rfl⟩

/-! ## Half-applied orders -/

/-- What the runner hands the forward operation of an order. -/
def Live.dispatch (r : Runner) (o : Order) : Dispatch := r.dispatch o.contractRef false o.notes

/-- The forward operation of the order is a sequence that failed at a step, and an earlier
step had changed the cluster. -/
def HalfApplied (r : Runner) (o : Order) (u : List (Answered Actuate.iface)) : Prop :=
  ∃ b before m after u₁ u₂ err, r.bindings.lookup o.contractRef = some b ∧
    b.forward = .seq (before ++ m :: after) ∧ u = u₁ ++ u₂ ∧
    (doAll (Live.dispatch r o) before).Exits u₁ (.ok ()) ∧
    (m.run (Live.dispatch r o)).Exits u₂ (.error err) ∧ u₁.any mutates = true

/-- An order is half applied exactly when its run changed the cluster and is reported as a
failure. -/
theorem halfApplied_iff (hk : o.kind = .forward) (h : (Live.execute r o now).Exits u (.ok oc)) :
    HalfApplied r o u ↔ oc.result = .failure ∧ u.any mutates = true := by
  obtain ⟨res, hrun, rfl⟩ := exits_execute h
  rw [hk] at hrun
  constructor
  · rintro ⟨b, before, m, after, u₁, u₂, err, hb, hf, rfl, h₁, h₂, hm⟩
    have hfail : (b.forward.run (Live.dispatch r o)).Exits (u₁ ++ u₂) (.error err) := by
      rw [hf]
      exact doAll_exits_error h₂ h₁
    rcases exits_run hb hrun with ⟨hok, -⟩ | ⟨_, -, rfl⟩
    · cases hok.unique hfail
    · exact ⟨rfl, by rw [any_append, hm, Bool.true_or]⟩
  · rintro ⟨hres, hm⟩
    cases hb : r.bindings.lookup o.contractRef with
    | none =>
      rw [Runner.run, hb] at hrun
      obtain ⟨rfl, -⟩ := exits_fail.mp hrun
      cases hm
    | some b =>
      rcases exits_run hb hrun with ⟨-, rfl⟩ | ⟨err, hfail, rfl⟩
      · exact absurd hres (resultOf_ne_failure _)
      · change (b.forward.run (Live.dispatch r o)).Exits u (.error err) at hfail
        cases hf : b.forward with
        | one m =>
          -- A single mechanism that failed has changed nothing.
          rw [hf] at hfail
          rw [Mechanism.mutates_of_error hfail] at hm
          cases hm
        | seq ms =>
          rw [hf] at hfail
          obtain ⟨before, m, after, u₁, u₂, rfl, rfl, h₁, h₂⟩ := exits_doAll_error hfail
          refine ⟨b, before, m, after, u₁, u₂, err, hb, hf, rfl, h₁, h₂, ?_⟩
          rwa [any_append, Mechanism.mutates_of_error h₂, Bool.or_false] at hm

/-! ## What a call does about them -/

/-- A call that neither executes an order nor starts a goroutine. -/
def Quiet : Call → Prop
  | .execute _ _ => False
  | .go _ => False
  | _ => True

section

variable {tr : Transport} {g : Decision.Governed} {t : List (Answered iface)}
  {out : Except HandleError Unit} {at' : Time}

theorem quiet_notify : MakesOnly Quiet (tr.notify g >>= fun _ => pure ()) := by
  rw [notify]
  split
  · trivial
  · exact allows_ask_bind trivial fun _ => trivial

theorem quiet_publish_notify {m : Message} {wrap : String → HandleError} :
    MakesOnly Quiet
      (publish m >>= fun r => orFail wrap r >>= fun _ => tr.notify g >>= fun _ => pure ()) := by
  exact allows_ask_bind trivial (either (fun _ => trivial) fun _ => quiet_notify)

/-- What a call still does once it has started the goroutine of its order. -/
theorem quiet_publishes {sig : String} :
    MakesOnly Quiet
      (do orFail (HandleError.publishFailed "order" sig) (← publish (.order o))
          orFail (HandleError.publishFailed "outcome" sig) (← publish (.outcome oc))
          record oc) := by
  refine allows_ask_bind trivial (either (fun _ => trivial) fun _ => ?_)
  exact allows_ask_bind trivial
    (either (fun _ => trivial) fun _ => allows_ask trivial fun _ => trivial)

/-- What a call does with a rendered order: it executes it and starts the goroutine it is
watched by. -/
theorem exits_execute_watch {o : Order} {sig : String} (h : Exits (do
      let executedAt ← Thump.now
      let oc ← execute o executedAt
      match tr.watchFor o oc with
      | some w => go w
      | none => pure ()
      orFail (HandleError.publishFailed "order" sig) (← publish (.order o))
      orFail (HandleError.publishFailed "outcome" sig) (← publish (.outcome oc))
      record oc) t out) :
    ∃ (at' : Time) (oc : Outcome) (rest : List (Answered iface)),
      t = ⟨.now, at'⟩ :: ⟨.execute o at', oc⟩ :: rest ∧
      (∀ a ∈ rest, Quiet a.1 ∨ ∃ w, a.1 = .go w ∧ tr.watchFor o oc = some w) ∧
      ∀ w, tr.watchFor o oc = some w → ⟨.go w, ()⟩ ∈ rest := by
  obtain ⟨at', t₁, rfl, h₁⟩ := exits_ask_bind.mp h
  obtain ⟨oc, t₂, rfl, h₂⟩ := exits_ask_bind.mp h₁
  refine ⟨at', oc, t₂, rfl, ?_⟩
  cases hw : tr.watchFor o oc with
  | none =>
    simp only [hw] at h₂
    refine ⟨fun a ha => .inl (quiet_publishes.of_mem_only h₂ ha), ?_⟩
    intro w hw
    cases hw
  | some w =>
    simp only [hw] at h₂
    obtain ⟨_, t₃, rfl, h₃⟩ := exits_ask_bind.mp h₂
    constructor
    · intro a ha
      rcases mem_cons.mp ha with rfl | ha
      · exact .inr ⟨w, rfl, rfl⟩
      · exact .inl (quiet_publishes.of_mem_only h₃ ha)
    · intro w' hw'
      cases hw'
      exact mem_cons_self

/-- A call that executes an order renders it, executes it, and starts the goroutine it is watched
by. -/
theorem handle_executes (h : (tr.handle g).Exits t out)
    (hm : ⟨.execute o at', oc⟩ ∈ t) :
    ∃ (renderedAt : Time) (rest : List (Answered iface)), o.kind = .forward ∧
      t = ⟨.now, renderedAt⟩ :: ⟨.now, at'⟩ :: ⟨.execute o at', oc⟩ :: rest ∧
      (∀ a ∈ rest, Quiet a.1 ∨ ∃ w, a.1 = .go w ∧ tr.watchFor o oc = some w) ∧
      ∀ w, tr.watchFor o oc = some w → ⟨.go w, ()⟩ ∈ rest := by
  have declined {m : Message} {wrap : String → HandleError}
      (hd : (publish m >>= fun r => orFail wrap r >>= fun _ => tr.notify g >>= fun _ =>
        pure ()).Exits t out) : False := quiet_publish_notify.of_mem_only hd hm
  rw [handle] at h
  cases hv : g.decision.verdict with
  | approved =>
    simp only [hv] at h
    obtain ⟨renderedAt, t₁, rfl, h₁⟩ := exits_ask_bind.mp h
    cases hr : Actuator.render g tr.catalog renderedAt with
    | error e =>
      rw [hr] at h₁
      obtain ⟨rfl, -⟩ := exits_fail.mp h₁
      cases mem_singleton.mp hm
    | ok o' =>
      rw [hr] at h₁
      obtain ⟨at'', oc', rest, rfl, hrest, hwatch⟩ := exits_execute_watch h₁
      have he : (⟨.execute o at', oc⟩ : Answered iface) = ⟨.execute o' at'', oc'⟩ := by
        simp only [mem_cons] at hm
        rcases hm with hm | hm | hm | hm
        · cases hm
        · cases hm
        · exact hm
        · rcases hrest _ hm with hq | ⟨w, hw, -⟩
          · exact hq.elim
          · cases hw
      cases he
      refine ⟨renderedAt, rest, ?_, rfl, hrest, hwatch⟩
      obtain ⟨c, ct, -, rfl⟩ := Actuator.render_ok_iff.mp hr
      rfl
  | hold | escalate | rejected | other _ => simp only [hv] at h; exact (declined h).elim

/-- A call that executes an order executes that one only, and starts only the goroutine the
order is watched by. -/
theorem handle_course (h : (tr.handle g).Exits t out)
    (hm : ⟨.execute o at', oc⟩ ∈ t) :
    o.kind = .forward ∧ ∀ a ∈ t, Quiet a.1 ∨ a = ⟨.execute o at', oc⟩ ∨
      ∃ w, a.1 = .go w ∧ tr.watchFor o oc = some w := by
  obtain ⟨renderedAt, rest, hk, rfl, hrest, -⟩ := handle_executes h hm
  refine ⟨hk, fun a ha => ?_⟩
  simp only [mem_cons] at ha
  rcases ha with rfl | rfl | rfl | ha
  · exact .inl trivial
  · exact .inl trivial
  · exact .inr (.inl rfl)
  · exact (hrest a ha).imp_right .inr

/-- The order reverses the other one's contract. -/
def Undoes (u o : Order) : Prop := u.kind = .reversal ∧ u.contractRef = o.contractRef

/-- The call whose calls are `t` tends to `o`: it starts the settle watch of `o`, or an undo of
`o` is executed by the call or in a run of a goroutine that it starts. -/
def Tended (t : List (Answered iface)) (o : Order) : Prop :=
  ⟨.go (.settle o), ()⟩ ∈ t ∨
    (∃ u ∈ executions t, Undoes u o) ∨
    ∃ w t' q, ⟨.go w, ()⟩ ∈ t ∧ (background w).Steps t' q ∧
      ∃ u ∈ executions t', Undoes u o

theorem mem_executions {u : Order} (h : u ∈ executions t) :
    ∃ at' oc, ⟨.execute u at', oc⟩ ∈ t := by
  obtain ⟨⟨c, r⟩, hm, hu⟩ := mem_flatMap.mp h
  cases c with
  | execute o at' =>
    obtain rfl := mem_singleton.mp hu
    exact ⟨at', r, hm⟩
  | _ => cases hu

theorem not_tended (h : (tr.handle g).Exits t out)
    (hm : ⟨.execute o at', oc⟩ ∈ t) (hoc : oc.result = .failure) :
    ¬ Tended t o := by
  obtain ⟨hk, hcourse⟩ := handle_course h hm
  have unwatched : tr.watchFor o oc = none := by simp [watchFor, hoc]
  have unstarted (w : Watch) : ⟨.go w, ()⟩ ∉ t := by
    intro hgo
    rcases hcourse _ hgo with hq | he | ⟨w', -, hw⟩
    · exact hq
    · cases he
    · rw [unwatched] at hw
      cases hw
  rintro (hgo | ⟨u, hu, hrev, -⟩ | ⟨w, t', q, hgo, -⟩)
  · exact unstarted _ hgo
  · obtain ⟨at'', oc', hmu⟩ := mem_executions hu
    rcases hcourse _ hmu with hq | he | ⟨w', hw, -⟩
    · exact hq
    · cases he
      rw [hk] at hrev
      cases hrev
    · cases hw
  · exact unstarted _ hgo

/-- An order that was executed live and is half applied is never tended to.  It takes a step
before the last that changes the cluster directly to leave one half applied. -/
theorem halfApplied_untended (tr : Transport) (r : Runner) (g : Decision.Governed)
    (h : (tr.handle g).Exits t out) (hm : ⟨.execute o at', oc⟩ ∈ t)
    (hu : (Live.execute r o at').Exits u (.ok oc)) :
    (HalfApplied r o u → ¬ Tended t o) ∧
      ((∀ b ms, r.bindings.lookup o.contractRef = some b → b.forward = .seq ms →
        ms.dropLast.any Mechanism.direct = false) → ¬ HalfApplied r o u) := by
  refine ⟨fun hh => ?_, ?_⟩
  · have hfailed := (halfApplied_iff (handle_course h hm).1 hu).mp hh
    exact not_tended h hm hfailed.1
  · rintro hlast ⟨b, before, m, after, u₁, u₂, err, hb, hf, -, h₁, -, hmut⟩
    have hbefore := hlast b _ hb hf
    rw [dropLast_append_of_ne_nil (cons_ne_nil m after), any_append, ← exits_doAll_ok h₁,
      hmut] at hbefore
    cases hbefore

end

/-- A throttle of two steps: fewer replicas, then a drain of the pods that are left. -/
def stagedThrottle : Contract.ActionContract where
  name := "throttle"
  execution :=
    { forward :=
        [{ verb := "scale", «namespace» := "shop", deployment := "checkout", replicas := some 1 },
          { verb := "exec", «namespace» := "shop", selector := "app=checkout"
            command := ["drain"] }]
      reverse :=
        [{ verb := "scale", «namespace» := "shop", deployment := "checkout", replicas := some 3 }] }

def stagedTransport : Transport where
  catalog := { contracts := [stagedThrottle] }
  reversal := true
  acceptance := true

def stagedRunner : Runner where
  bindings := ((Actuate.bind false [stagedThrottle]).toOption).getD []
  setDefaultVariant _ _ _ := .error "no flags"

/-- A cluster that takes every patch, and every command unless its pods are gone. -/
def cluster (podsGone : Bool) : (c : Actuate.Call) → Actuate.iface.Answer c
  | .exec _ _ _ => if podsGone then Except.error "no pod matches" else Except.ok ()
  | .patch _ _ _ _ _ _ => Except.ok ()
  | .getConfigMapKey _ _ _ => Except.ok ""
  | .read _ => Except.ok ""
  | .cut _ => Except.ok ""
  | .now => (0 : Int)

def stagedRun (o : Order) (now : Time) : Except Empty Outcome × List (Answered Actuate.iface) :=
  Prog.play (fun _ c => (cluster true c, ())) () (Live.execute stagedRunner o now)

/-- The environment of the transport whose executor acts on a cluster without the pods. -/
def stagedWeather : (c : Call) → iface.Answer c
  | .execute o at' =>
    match (stagedRun o at').1 with
    | .ok oc => oc
    | .error e => e.elim
  | c => fairWeather c

def stagedCalls : List (Answered iface) :=
  (Prog.play (fun _ c => (stagedWeather c, ())) () (stagedTransport.handle throttleApproval)).2

def stagedOrder : Order :=
  orderOf throttleApproval.decision throttleApproval.set
    { id := "c1", contractRef := "throttle" } stagedThrottle 0

theorem stagedRun_exits {oc : Outcome} (h : (stagedRun stagedOrder 0).1 = .ok oc) :
    (Live.execute stagedRunner stagedOrder 0).Exits (stagedRun stagedOrder 0).2 (.ok oc) := by
  rw [← h]
  exact exits_play _ _ _

theorem stagedCalls_executes :
    ∃ oc, (stagedRun stagedOrder 0).1 = .ok oc ∧ oc.result = .failure ∧
      ⟨.execute stagedOrder (0 : Int), oc⟩ ∈ stagedCalls :=
  ⟨_, rfl, rfl, .tail _ (.tail _ (.head _))⟩

theorem podlessThrottle_halfApplied :
    HalfApplied stagedRunner stagedOrder (stagedRun stagedOrder 0).2 := by
  obtain ⟨oc, hoc, hfailure, -⟩ := stagedCalls_executes
  exact (halfApplied_iff rfl (stagedRun_exits hoc)).mpr ⟨hfailure, by decide +kernel⟩

theorem podlessThrottle_untended :
    HalfApplied stagedRunner stagedOrder (stagedRun stagedOrder 0).2 ∧
      ¬ Tended stagedCalls stagedOrder := by
  obtain ⟨oc, hoc, -, hexec⟩ := stagedCalls_executes
  have huntended := halfApplied_untended stagedTransport stagedRunner throttleApproval
    (exits_play _ _ _) hexec (stagedRun_exits hoc)
  exact ⟨podlessThrottle_halfApplied, huntended.1 podlessThrottle_halfApplied⟩

/-- The replicas are scaled down, the drain finds no pod, and nobody scales them up again. -/
theorem podlessThrottle_stranded : ∃ (out : Except HandleError Unit) (oc : Outcome),
    (stagedTransport.handle throttleApproval).Exits stagedCalls out ∧
      ⟨.execute stagedOrder (0 : Int), oc⟩ ∈ stagedCalls ∧
      (Live.execute stagedRunner stagedOrder 0).Exits (stagedRun stagedOrder 0).2 (.ok oc) ∧
      HalfApplied stagedRunner stagedOrder (stagedRun stagedOrder 0).2 ∧
      ¬ Tended stagedCalls stagedOrder := by
  obtain ⟨oc, hoc, hfailure, hexec⟩ := stagedCalls_executes
  have hcalls := exits_play (fun _ c => (stagedWeather c, ()))
    (stagedTransport.handle throttleApproval) ()
  exact ⟨_, oc, hcalls, hexec, stagedRun_exits hoc, podlessThrottle_halfApplied,
    not_tended hcalls hexec hfailure⟩

end Beats.Thump
