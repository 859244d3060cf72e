import Beats.Broker.Subscriber
import Beats.Thump.Governance

/-!
# At-least-once delivery of a decision

One message on `thump.decisions`, delivered until it is settled.  A delivery that failed, or whose
ack was lost, is followed by another one until the deliveries are spent.  A `History` is such a
sequence, whole: each delivery carries its run and each link the reason why there was or was not
another delivery.

`handle` executes before it publishes, and nothing remembers what was executed.  So every delivery
of a granted decision executes its order, and the order is executed once exactly when the first
delivery settles the message (`History.executed_once_iff`).
-/

namespace Beats.Thump

open Lib Broker List

def decisionsSubject : String := "thump.decisions"

/-! ## Deliveries and histories -/

/-- The `n`-th delivery of the message `data`, with what the goroutines it started did.
`arrived` says whether the server heard the subscriber's word on it. -/
structure Delivery (sub : JetSubscriber Decision.Governed) (tr : Transport) (data : String)
    (n : Nat) where
  /-- Whether the metadata can be read. -/
  readable : Bool
  /-- The answered calls of the delivery. -/
  trace : List (Answered (Broker.iface iface))
  /-- They are a run of the subscriber. -/
  ran : (sub.onMessage decisionsSubject tr.handle
    { data := data, numDelivered := if readable then some n else none }).Exits trace (.ok ())
  /-- The answered calls of the goroutines. -/
  background : List (List (Answered iface))
  /-- They are runs of started goroutines, perhaps cut short. -/
  watched : ∀ b ∈ background, ∃ w r q, ⟨.go w, r⟩ ∈ handled trace ∧
    (Transport.background w).Steps b q
  /-- Whether the ack or the term of the delivery reached the server. -/
  arrived : Bool

variable {sub : JetSubscriber Decision.Governed} {tr : Transport} {data : String} {n : Nat}
variable {g : Decision.Governed}

namespace Delivery

/-- The server will not deliver the message again. -/
def Settled (d : Delivery sub tr data n) : Prop :=
  settles d.trace = true ∧ d.arrived = true

/-- Every publish of the handler succeeded. -/
def Published (d : Delivery sub tr data n) : Prop :=
  (handled d.trace).any publishFailed = false

def executed (d : Delivery sub tr data n) : List Order :=
  forwards (handled d.trace) ++ d.background.flatMap forwards

end Delivery

/-- The deliveries of the message from the `n`-th on, to the last. -/
inductive History (sub : JetSubscriber Decision.Governed) (tr : Transport) (data : String) :
    Nat → Type where
  | last {n : Nat} (d : Delivery sub tr data n) (h : d.Settled ∨ n = maxDeliver) :
      History sub tr data n
  | again {n : Nat} (d : Delivery sub tr data n) (h : ¬ d.Settled) (hn : n < maxDeliver)
      (rest : History sub tr data (n + 1)) : History sub tr data n

namespace History

def first : History sub tr data n → Delivery sub tr data n
  | .last d _ => d
  | .again d _ _ _ => d

/-- The forward orders executed over the whole history. -/
def executed : {n : Nat} → History sub tr data n → List Order
  | _, .last d _ => d.executed
  | _, .again d _ _ rest => d.executed ++ rest.executed

end History

/-! ## What a delivery executes -/

namespace Delivery

theorem background_nil (d : Delivery sub tr data n) : d.background.flatMap forwards = [] := by
  refine flatMap_eq_nil_iff.mpr fun b hb => ?_
  obtain ⟨w, r, q, -, hq⟩ := d.watched b hb
  exact background_forwards hq

/-- A delivery of a granted decision executes its order.  Unless it is the last one, it
settles the message if every publish succeeded and its ack arrived. -/
theorem executed_of_grants (hd : sub.decode data = .ok g) (hg : Grants tr.catalog g)
    (d : Delivery sub tr data n) :
    (∃ o, d.executed = [o] ∧ o.decisionRef = g.decision.id) ∧
      (n < maxDeliver → (d.Settled ↔ d.Published ∧ d.arrived = true)) := by
  obtain ⟨x, hx, hs⟩ := JetSubscriber.exits_onMessage hd d.ran
  obtain ⟨o, ⟨c, ct, at', hc, rfl⟩, hf, hok⟩ := (handle_forwards hx).1 hg
  refine ⟨⟨orderOf g.decision g.set c ct at', ?_, rfl⟩, fun hn => and_congr_left fun _ => ?_⟩
  · rw [executed, hf, d.background_nil, append_nil]
  · have hne : (Msg.mk data (if d.readable then some n else none)).exhausted = false := by
      cases hr : d.readable with
      | false => rfl
      | true => simpa [Msg.exhausted] using hn
    rw [hs, hne, Bool.or_false, Published, ← hok]
    cases x with
    | ok u => exact iff_of_true rfl rfl
    | error e => exact iff_of_false Bool.false_ne_true (fun h => by cases h)

theorem executed_of_not_grants (hd : sub.decode data = .ok g) (hg : ¬ Grants tr.catalog g)
    (d : Delivery sub tr data n) : d.executed = [] := by
  obtain ⟨x, hx, -⟩ := JetSubscriber.exits_onMessage hd d.ran
  rw [executed, (handle_forwards hx).2 hg, d.background_nil, append_nil]

end Delivery

/-! ## What a history executes -/

namespace History

theorem executed_of_not_grants (hd : sub.decode data = .ok g) (hg : ¬ Grants tr.catalog g) :
    ∀ {n : Nat} (h : History sub tr data n), h.executed = []
  | _, .last d _ => d.executed_of_not_grants hd hg
  | _, .again d _ _ rest => by
    rw [executed, d.executed_of_not_grants hd hg, executed_of_not_grants hd hg rest, append_nil]

/-- Every order of the history is an order for the one decision, and each of the deliveries
executed one. -/
theorem executed_of_grants (hd : sub.decode data = .ok g) (hg : Grants tr.catalog g) :
    ∀ {n : Nat} (h : History sub tr data n), h.executed ≠ [] ∧
      ∀ o ∈ h.executed, o.decisionRef = g.decision.id
  | _, .last d _ => by
    obtain ⟨⟨o, ho, hid⟩, -⟩ := d.executed_of_grants hd hg
    rw [executed, ho]
    exact ⟨cons_ne_nil _ _, fun o' ho' => mem_singleton.mp ho' ▸ hid⟩
  | _, .again d _ _ rest => by
    obtain ⟨⟨o, ho, hid⟩, -⟩ := d.executed_of_grants hd hg
    rw [executed, ho]
    refine ⟨cons_ne_nil _ _, fun o' ho' => ?_⟩
    rcases mem_cons.mp ho' with rfl | hr
    · exact hid
    · exact (executed_of_grants hd hg rest).2 o' hr

/-- Over every history of one message the forward orders for its decision are at most one
exactly when the message grants nothing, or its first delivery published both the order
and the outcome and its ack arrived. -/
theorem executed_once_iff (hd : sub.decode data = .ok g) (h : History sub tr data 1) :
    (h.executed.filter fun o => o.decisionRef == g.decision.id).length ≤ 1 ↔
      ¬ Grants tr.catalog g ∨ (h.first.Published ∧ h.first.arrived = true) := by
  by_cases hg : Grants tr.catalog g
  · have hall : (h.executed.filter fun o => o.decisionRef == g.decision.id) = h.executed :=
      filter_eq_self.mpr fun o ho => by
        simpa using (executed_of_grants hd hg h).2 o ho
    rw [hall, or_iff_right (not_not.mpr hg)]
    cases h with
    | last d hs =>
      obtain ⟨⟨o, ho, -⟩, hset⟩ := d.executed_of_grants hd hg
      have hle : (executed (.last d hs)).length ≤ 1 := by rw [executed, ho]; simp
      refine iff_of_true hle ((hset (by decide)).mp ?_)
      exact hs.resolve_right (by decide)
    | again d hs hn rest =>
      -- a second delivery executes a second order
      obtain ⟨⟨o, ho, -⟩, hset⟩ := d.executed_of_grants hd hg
      have hpos := length_pos_iff.mpr (executed_of_grants hd hg rest).1
      refine iff_of_false ?_ fun hp => hs ((hset hn).mpr hp)
      rw [executed, length_append, ho, length_singleton]
      omega
  · rw [executed_of_not_grants hd hg h]
    exact iff_of_true (by simp) (.inl hg)

end History

/-! ## Two histories of one message -/

/-- A delivery in an environment that answers every call of a kind alike, with no goroutine. -/
def Delivery.play (env : (c : Broker.Call iface) → (Broker.iface iface).Answer c)
    (arrived : Bool) : Delivery sub tr data n where
  readable := true
  trace := (Prog.play (fun _ c => (env c, ())) () (sub.onMessage decisionsSubject tr.handle
    { data := data, numDelivered := some n })).2
  ran := by
    have h := Prog.exits_play (fun _ c => (env c, ())) (sub.onMessage decisionsSubject tr.handle
      { data := data, numDelivered := some n }) ()
    generalize (Prog.play (fun _ c => (env c, ())) () (sub.onMessage decisionsSubject tr.handle
      { data := data, numDelivered := some n })).1 = out at h
    cases out with
    | ok _ => exact h
    | error e => exact e.elim
  background := []
  watched := fun b hb => by cases hb
  arrived := arrived

/-- Everything succeeds but, where `lost` says so, the publish of an outcome. -/
def weather (lost : Bool) : (c : Broker.Call iface) → (Broker.iface iface).Answer c
  | .handler (.publish (.outcome _)) =>
    (if lost then .error "nats: timeout" else .ok () : Except String Unit)
  | .handler c => fairWeather c
  | .publish _ _ => (.ok () : Except String Unit)
  | .term _ => (.ok () : Except String Unit)
  | .nak _ => (.ok () : Except String Unit)
  | .ack => (.ok () : Except String Unit)

def throttleSubscriber : JetSubscriber Decision.Governed where
  decode := fun _ => .ok throttleApproval

/-- The outcome of the first delivery is not published, and the second delivery is acked. -/
def lostOutcome : History throttleSubscriber { catalog := throttleCatalog } "" 1 :=
  .again (.play (weather true) true) (by unfold Delivery.Settled; decide) (by decide)
    (.last (.play (weather false) true) (.inl (by unfold Delivery.Settled; decide)))

/-- A lost publish executes the order of one approved decision twice. -/
theorem lostOutcome_executes_twice :
    throttleApproval.decision.verdict = .approved ∧
      (lostOutcome.executed.filter fun o =>
        o.decisionRef == throttleApproval.decision.id).length = 2 := by
  decide

def ackedAtOnce : History throttleSubscriber { catalog := throttleCatalog } "" 1 :=
  .last (.play (weather false) true) (.inl (by unfold Delivery.Settled; decide))

theorem ackedAtOnce_executes_once :
    (ackedAtOnce.executed.filter fun o =>
      o.decisionRef == throttleApproval.decision.id).length ≤ 1 :=
  (History.executed_once_iff rfl ackedAtOnce).mpr (.inr ⟨by unfold Delivery.Published; decide, rfl⟩)

end Beats.Thump
