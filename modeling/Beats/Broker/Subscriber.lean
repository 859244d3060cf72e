import Beats.Api.Proposal
import Beats.Lib.Prog

/-!
# Delivering a message

The callback of `JetSubscriber.Run` in `internal/broker`, which runs a handler against one
delivery of a message and disposes of the delivery by one of three words to the server:
ack, nak with a delay, or term.  A message that does not decode is dead-lettered at once.
One whose handler failed is sent back until its deliveries are spent, and then
dead-lettered.

The handler is a program of its own, and a delivery is that program inside the calls of
the subscriber (`within`).  So a run of a delivery has a run of its handler in it, and
`JetSubscriber.exits_onMessage` takes it out.
-/

namespace Beats.Broker

open Lib Prog List

/-- How many times the server delivers a message. -/
def maxDeliver : Nat := 6

/-- The delays before a redelivery: 1 s, 5 s and 15 s. -/
def defaultBackoff : List Duration := [1000000000, 5000000000, 15000000000]

/-- One delivery of a message.  `numDelivered` is the count its metadata carries, which is
absent where the metadata cannot be read. -/
structure Msg where
  data : String := ""
  numDelivered : Option Nat := none

/-- The calls of a delivery: those of the handler and those of the subscriber. -/
inductive Call (I : Iface) where
  | handler (c : I.Call)
  | publish (subject data : String)
  | term (reason : String)
  | nak (delay : Duration)
  | ack

/-- The interface of a delivery. -/
def iface (I : Iface) : Iface where
  Call := Call I
  Answer
    | .handler c => I.Answer c
    | .publish _ _ => Except String Unit
    | .term _ => Except String Unit
    | .nak _ => Except String Unit
    | .ack => Except String Unit

section

variable {I : Iface} {ε ε' α T : Type}

/-- A handler's program as part of a delivery.  Its outcome is a value there. -/
def within : Prog I ε α → Prog (iface I) ε' (Except ε α)
  | .ret a => .ret (.ok a)
  | .fail e => .ret (.error e)
  | .call c k => .call (.handler c) fun r => within (k r)

/-- `JetSubscriber`, with the decoder of its message type. -/
structure JetSubscriber (T : Type) where
  decode : String → Except String T
  backoff : List Duration := defaultBackoff

/-- How long a redelivery waits: the last delay stays. -/
def JetSubscriber.backoffFor (s : JetSubscriber T) (numDelivered : Nat) : Duration :=
  let schedule := if s.backoff = [] then defaultBackoff else s.backoff
  let idx := numDelivered - 1
  schedule.getD (if idx < schedule.length then idx else schedule.length - 1) 0

/-- The retry budget of the delivery is spent.  Unreadable metadata never says so. -/
def Msg.exhausted (m : Msg) : Bool :=
  match m.numDelivered with
  | some n => maxDeliver ≤ n
  | none => false

/-- Put a message on the dead-letter queue and end its deliveries. -/
def deadLetter (subject : String) (m : Msg) (reason : String) : Prog (iface I) Empty Unit := do
  let _ ← @Prog.ask (iface I) Empty (.publish (subject ++ ".dlq") m.data)
  let _ ← @Prog.ask (iface I) Empty (.term reason)
  return ()

/-- What becomes of a delivery once the handler came to its outcome. -/
def JetSubscriber.dispose (s : JetSubscriber T) (subject : String) (m : Msg) :
    Except ε Unit → Prog (iface I) Empty Unit
  | .error _ =>
    if m.exhausted then deadLetter subject m "retry budget exhausted"
    else do
      let _ ← @Prog.ask (iface I) Empty (.nak (s.backoffFor (m.numDelivered.getD 0)))
      return ()
  | .ok () => do
    let _ ← @Prog.ask (iface I) Empty .ack
    return ()

/-- The callback of `JetSubscriber.Run`. -/
def JetSubscriber.onMessage (s : JetSubscriber T) (subject : String) (h : T → Prog I ε Unit)
    (m : Msg) : Prog (iface I) Empty Unit :=
  match s.decode m.data with
  | .error _ => deadLetter subject m "undecodable"
  | .ok obj => do
    let out ← within (h obj)
    s.dispose subject m out

/-! ## Runs of a delivery -/

/-- An answered call of the handler, as the delivery makes it. -/
def Handled.lift (a : Answered I) : Answered (iface I) := ⟨.handler a.1, a.2⟩

/-- The answered calls of the handler in a run of the delivery. -/
def handled : List (Answered (iface I)) → List (Answered I)
  | [] => []
  | ⟨.handler c, r⟩ :: t => ⟨c, r⟩ :: handled t
  | _ :: t => handled t

/-- The subscriber told the server to deliver the message no more. -/
def settles : List (Answered (iface I)) → Bool
  | [] => false
  | ⟨.ack, _⟩ :: _ => true
  | ⟨.term _, _⟩ :: _ => true
  | _ :: t => settles t

theorem handled_lift_append (t : List (Answered I)) (u : List (Answered (iface I))) :
    handled (t.map Handled.lift ++ u) = t ++ handled u := by
  induction t with
  | nil => rfl
  | cons a t ih => rw [map_cons, cons_append, cons_append, ← ih]; rfl

theorem settles_lift_append (t : List (Answered I)) (u : List (Answered (iface I))) :
    settles (t.map Handled.lift ++ u) = settles u := by
  induction t with
  | nil => rfl
  | cons a t ih => rw [map_cons, cons_append, ← ih]; rfl

theorem exits_within :
    ∀ {p : Prog I ε α} {t : List (Answered (iface I))} {out : Except ε' (Except ε α)},
      (within p : Prog (iface I) ε' (Except ε α)).Exits t out →
        ∃ x u, out = .ok x ∧ t = u.map Handled.lift ∧ p.Exits u x
  | .ret a, t, out, h => by
    obtain ⟨rfl, rfl⟩ := exits_ret.mp h
    exact ⟨.ok a, [], rfl, rfl, .refl⟩
  | .fail e, t, out, h => by
    obtain ⟨rfl, rfl⟩ := exits_ret.mp h
    exact ⟨.error e, [], rfl, rfl, .refl⟩
  | .call c k, t, out, h => by
    obtain ⟨r, u, rfl, hk⟩ := exits_call.mp h
    obtain ⟨x, v, rfl, rfl, hv⟩ := exits_within hk
    exact ⟨x, ⟨c, r⟩ :: v, rfl, rfl, .call hv⟩

/-- The runs of a delivery: the handler's run, and the subscriber's word on it. -/
inductive Course (s : JetSubscriber T) (subject : String) (h : T → Prog I ε Unit) (m : Msg) :
    List (Answered (iface I)) → Prop where
  /-- The message does not decode. -/
  | undecodable {e : String} (hd : s.decode m.data = .error e)
      (stored termed : Except String Unit) :
      Course s subject h m
        [⟨.publish (subject ++ ".dlq") m.data, stored⟩, ⟨.term "undecodable", termed⟩]
  /-- The handler failed on the last delivery. -/
  | exhausted {obj : T} (hd : s.decode m.data = .ok obj) {u : List (Answered I)} {e : ε}
      (hu : (h obj).Exits u (.error e)) (hm : m.exhausted = true)
      (stored termed : Except String Unit) :
      Course s subject h m (u.map Handled.lift ++
        [⟨.publish (subject ++ ".dlq") m.data, stored⟩, ⟨.term "retry budget exhausted", termed⟩])
  /-- The handler failed and the message is to come again. -/
  | nakked {obj : T} (hd : s.decode m.data = .ok obj) {u : List (Answered I)} {e : ε}
      (hu : (h obj).Exits u (.error e)) (hm : m.exhausted = false) (sent : Except String Unit) :
      Course s subject h m
        (u.map Handled.lift ++ [⟨.nak (s.backoffFor (m.numDelivered.getD 0)), sent⟩])
  /-- The handler succeeded. -/
  | acked {obj : T} (hd : s.decode m.data = .ok obj) {u : List (Answered I)}
      (hu : (h obj).Exits u (.ok ())) (sent : Except String Unit) :
      Course s subject h m (u.map Handled.lift ++ [⟨.ack, sent⟩])

section

variable {s : JetSubscriber T} {subject : String} {h : T → Prog I ε Unit} {m : Msg}

variable {t : List (Answered (iface I))} {out : Except Empty Unit}

theorem exits_deadLetter {reason : String} (ht : (deadLetter subject m reason).Exits t out) :
    ∃ stored termed : Except String Unit,
      t = [⟨.publish (subject ++ ".dlq") m.data, stored⟩, ⟨.term reason, termed⟩] := by
  obtain ⟨stored, u, rfl, hu⟩ := exits_call.mp ht
  obtain ⟨termed, v, rfl, hv⟩ := exits_call.mp hu
  obtain ⟨rfl, -⟩ := exits_ret.mp hv
  exact ⟨stored, termed, rfl⟩

theorem JetSubscriber.course
    (ht : (s.onMessage subject h m).Exits t out) : Course s subject h m t := by
  unfold JetSubscriber.onMessage at ht
  cases hd : s.decode m.data with
  | error e =>
    rw [hd] at ht
    obtain ⟨stored, termed, rfl⟩ := exits_deadLetter ht
    exact .undecodable hd stored termed
  | ok obj =>
    rw [hd] at ht
    rcases exits_bind ht with ⟨x, u, v, rfl, hu, hv⟩ | ⟨e, -, -⟩
    rotate_left
    · exact e.elim
    obtain ⟨x', u', hx, rfl, hu'⟩ := exits_within hu
    cases hx
    cases x with
    | ok _ =>
      obtain ⟨sent, w, rfl, hw⟩ := exits_call.mp hv
      obtain ⟨rfl, -⟩ := exits_ret.mp hw
      exact .acked hd hu' sent
    | error e =>
      cases hm : m.exhausted with
      | true =>
        rw [dispose, if_pos hm] at hv
        obtain ⟨stored, termed, rfl⟩ := exits_deadLetter hv
        exact .exhausted hd hu' hm stored termed
      | false =>
        rw [dispose, if_neg (Bool.eq_false_iff.mp hm)] at hv
        obtain ⟨sent, w, rfl, hw⟩ := exits_call.mp hv
        obtain ⟨rfl, -⟩ := exits_ret.mp hw
        exact .nakked hd hu' hm sent

/-- A run of a delivery is a run of its handler.  It settles the message if the handler
succeeded or the budget is spent. -/
theorem JetSubscriber.exits_onMessage {obj : T} (hd : s.decode m.data = .ok obj)
    (ht : (s.onMessage subject h m).Exits t out) :
    ∃ x, (h obj).Exits (handled t) x ∧ settles t = (Except.isOk x || m.exhausted) := by
  have same : ∀ {obj'}, s.decode m.data = .ok obj' → obj' = obj := fun hd' =>
    Except.ok.inj (hd'.symm.trans hd)
  cases course ht with
  | undecodable hd' => rw [hd] at hd'; cases hd'
  | @exhausted obj' hd' u e hu hm stored termed =>
    obtain rfl := same hd'
    refine ⟨.error e, ?_, ?_⟩
    · rw [handled_lift_append]
      simpa [handled] using hu
    · rw [settles_lift_append, hm]
      rfl
  | @nakked obj' hd' u e hu hm sent =>
    obtain rfl := same hd'
    refine ⟨.error e, ?_, ?_⟩
    · rw [handled_lift_append]
      simpa [handled] using hu
    · rw [settles_lift_append, hm]
      rfl
  | @acked obj' hd' u hu sent =>
    obtain rfl := same hd'
    refine ⟨.ok (), ?_, ?_⟩
    · rw [handled_lift_append]
      simpa [handled] using hu
    · rw [settles_lift_append]
      rfl

end

end

end Beats.Broker
