import Beats.Thump.Actuator
import Beats.Lib.Prog

/-!
# Acting on a decision

`Transport.handle` of `internal/thump` and the two goroutines it starts.  An approval is
rendered, executed and only then published.  A hold goes to the human, any other verdict
is declined.

The executor, the publishers, the probe, the forge and the clock are the environment, and
a run is what they answered.
-/

namespace Beats.Thump

open Lib

/-! ## The environment -/

/-- What the transport publishes. -/
inductive Message where
  | order (o : Order)
  | outcome (oc : Outcome)
  | held (g : Decision.Governed)
  | decline (d : Decision)

def Message.subject : Message → String
  | .order _ => "thump.orders"
  | .outcome _ => "thump.outcomes"
  | .held _ => "thump.held"
  | .decline _ => "thump.declines"

/-- A goroutine the transport starts. -/
inductive Watch where
  | settle (o : Order)
  | accept (o : Order)
deriving DecidableEq

def Watch.order : Watch → Order
  | .settle o => o
  | .accept o => o

/-- What the transport asks of its surroundings. -/
inductive Call where
  | now
  | execute (o : Order) (now : Time)
  | go (w : Watch)
  | publish (m : Message)
  | notify (g : Decision.Governed)
  | record (oc : Outcome)
  /-- Block for a window.  The answer says whether it elapsed before the shutdown. -/
  | window (d : Duration)
  /-- The context was cancelled. -/
  | cancelled
  /-- `Converger.Settle`. -/
  | probe (o : Order)
  /-- `ReleaseProbe.Withdraw`. -/
  | withdraw (key : String)

/-- The interface of the transport. -/
def iface : Iface where
  Call := Call
  Answer
    | .now => Time
    | .execute _ _ => Outcome
    | .go _ => Unit
    | .publish _ => Except String Unit
    | .notify _ => Except String Unit
    | .record _ => Unit
    | .window _ => Bool
    | .cancelled => Bool
    | .probe _ => Bool × Option Rat
    | .withdraw _ => Except String Bool

section

variable {ε : Type}

def now : Prog iface ε Time := @Prog.ask iface ε .now

def execute (o : Order) (now : Time) : Prog iface ε Outcome := @Prog.ask iface ε (.execute o now)

def go (w : Watch) : Prog iface ε Unit := @Prog.ask iface ε (.go w)

def publish (m : Message) : Prog iface ε (Except String Unit) := @Prog.ask iface ε (.publish m)

def record (oc : Outcome) : Prog iface ε Unit := @Prog.ask iface ε (.record oc)

end

inductive HandleError where
  | renderFailed (signalRef : String) (e : RenderError)
  | publishFailed (what signalRef e : String)
deriving DecidableEq

def HandleError.text : HandleError → String
  | .renderFailed sig e => "thump: render failed: " ++ sig ++ ": " ++ e.text
  | .publishFailed what sig e => "thump: publish " ++ what ++ " for " ++ sig ++ ": " ++ e

/-- `thump.Transport`: the catalog, and which of its optional parts are wired. -/
structure Transport where
  catalog : Contract.StaticCatalog := {}
  reversal : Bool := false
  acceptance : Bool := false
  notifier : Bool := false

namespace Transport

/-! ## Handle -/

/-- A decision that awaits approval is notified, where there is a notifier. -/
def notify (tr : Transport) (g : Decision.Governed) : Prog iface HandleError Bool :=
  if !g.decision.verdict.awaitsApproval || !tr.notifier then return false
  else do
    let r ← @Prog.ask iface HandleError (.notify g)
    return r.isOk

/-- The goroutine an executed order is watched by, if any. -/
def watchFor (tr : Transport) (order : Order) (oc : Outcome) : Option Watch :=
  if tr.reversal ∧ oc.mode = .live ∧ oc.result = .applied then some (.settle order)
  else if tr.acceptance ∧ oc.mode = .live ∧ oc.result = .proposed then some (.accept order)
  else none

theorem order_watchFor {tr : Transport} {o : Order} {oc : Outcome} {w : Watch}
    (h : tr.watchFor o oc = some w) : w.order = o := by
  unfold watchFor at h
  split at h
  · cases h
    rfl
  · split at h
    · cases h
      rfl
    · cases h

/-- The delivery of a decision. -/
def handle (tr : Transport) (g : Decision.Governed) : Prog iface HandleError Unit :=
  let sig := g.decision.signalRef
  match g.decision.verdict with
  | .approved => do
    let renderedAt ← now
    let order ← Prog.orFail (.renderFailed sig) (Actuator.render g tr.catalog renderedAt)
    let executedAt ← now
    let oc ← execute order executedAt
    match tr.watchFor order oc with
    | some w => go w
    | none => pure ()
    Prog.orFail (.publishFailed "order" sig) (← publish (.order order))
    Prog.orFail (.publishFailed "outcome" sig) (← publish (.outcome oc))
    record oc
  | .hold => do
    Prog.orFail (.publishFailed "held" sig) (← publish (.held g))
    let _ ← tr.notify g
    return ()
  | _ => do
    Prog.orFail (.publishFailed "decline" sig) (← publish (.decline g.decision))
    let _ ← tr.notify g
    return ()

/-! ## The settle watch -/

/-- `thump.Settlement`: what one read of the probe decided. -/
structure Settlement where
  converged : Bool := false
  fire : Bool := false
  held : Bool := false
  undo : Order := {}
  severity : Option Rat := none

/-- `reversalOf`: the undo of a forward order. -/
def reversalOf (o : Order) (now : Time) : Order where
  id := "rev:" ++ o.signalRef ++ ":" ++ toString now.unix
  kind := .reversal
  decisionRef := o.decisionRef
  signalRef := o.signalRef
  contractRef := o.contractRef
  description := o.reversal.reversalPath.method
  reversal := o.reversal
  renderedAt := now

/-- `ReversalWatcher.Watch`. -/
def watch (o : Order) : Prog iface Empty Settlement := do
  let elapsed : Bool ← @Prog.ask iface Empty (.window o.success.window)
  if !elapsed then return {}
  let (converged, severity) ← @Prog.ask iface Empty (.probe o)
  let held := !converged && o.reversal.holdOnMiss
  let fire := (!converged && !o.reversal.holdOnMiss) || o.reversal.restoreOnSuccess
  if !fire then return { converged, held, severity }
  let now ← now
  return { converged, fire := true, undo := reversalOf o now, severity }

/-- The result of a settlement. -/
def settleResult (converged : Bool) : Outcome.Result :=
  if converged then .success else .partialNonConverging

/-- Why an action did not converge, and what comes next. -/
def settleError (converged held : Bool) (target fallback : String) : String :=
  if converged then ""
  else if held then
    "success window elapsed without meeting " ++ Fmt.quote target ++
      (if fallback = "" then "; undo held, no fallback authored"
      else "; undo held, fallback: " ++ fallback)
  else "success window elapsed without meeting " ++ Fmt.quote target

/-- The action is watched, and its settlement published. -/
def watchAndSettle (order : Order) : Prog iface Empty Unit := do
  let settlement ← watch order
  let cancelled : Bool ← @Prog.ask iface Empty .cancelled
  if cancelled then return ()
  let idAt ← now
  let executedAt ← now
  let conv : Outcome :=
    { id := "out:" ++ order.signalRef ++ ":conv:" ++ toString idAt.unix
      decisionRef := order.decisionRef
      signalRef := order.signalRef
      contractRef := order.contractRef
      mode := .live
      result := settleResult settlement.converged
      observedSeverity := settlement.severity
      error := settleError settlement.converged settlement.held order.success.target
        order.reversal.fallback
      executedAt := executedAt }
  let _ ← publish (.outcome conv)
  record conv
  if !settlement.fire then return ()
  let undoneAt ← now
  let oc ← execute settlement.undo undoneAt
  let _ ← publish (.order settlement.undo)
  let _ ← publish (.outcome oc)
  record oc

/-! ## The acceptance watch -/

/-- Why a release was not accepted, and what comes next. -/
def acceptanceError (fallback : String) : String :=
  if fallback = "" then "release not accepted within the success window; no fallback authored"
  else "release not accepted within the success window; fallback: " ++ fallback

/-- `AcceptanceWatcher.Poll`. -/
def poll (o : Order) : Prog iface Empty (Except String Bool) := do
  let elapsed : Bool ← @Prog.ask iface Empty (.window o.success.window)
  if !elapsed then return .error "context canceled"
  @Prog.ask iface Empty (.withdraw o.contractRef)

/-- What came of a review is published and recorded. -/
def recordAccept (order : Order) (result : Outcome.Result) (errText : String) :
    Prog iface Empty Unit := do
  let idAt ← now
  let executedAt ← now
  let oc : Outcome :=
    { id := "out:" ++ order.signalRef ++ ":accept:" ++ toString idAt.unix
      decisionRef := order.decisionRef
      signalRef := order.signalRef
      contractRef := order.contractRef
      mode := .live
      result := result
      error := errText
      executedAt := executedAt }
  let _ ← publish (.outcome oc)
  record oc

/-- The release is polled, and what came of its review published. -/
def watchAndAccept (order : Order) : Prog iface Empty Unit := do
  let accepted ← poll order
  let cancelled : Bool ← @Prog.ask iface Empty .cancelled
  if cancelled then return ()
  match accepted with
  | .error e => recordAccept order .failure ("acceptance poll failed: " ++ e)
  | .ok false => recordAccept order .partialNonConverging (acceptanceError order.reversal.fallback)
  | .ok true => watchAndSettle order

/-- The program of a started goroutine. -/
def background : Watch → Prog iface Empty Unit
  | .settle o => watchAndSettle o
  | .accept o => watchAndAccept o

end Transport

end Beats.Thump
