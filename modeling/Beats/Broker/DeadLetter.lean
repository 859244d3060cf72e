import Beats.Broker.Subscriber

/-!
# What becomes of a delivered message

A message that the subscriber gives up on is meant to be kept on the dead-letter subject. `Kept`
says so of one delivery.

The subscriber publishes to the dead-letter subject and terms the message in either case, so a
failed publish loses it.  The server counts the deliveries whether or not the subscriber can read
the count, so a message whose last delivery has no readable metadata is sent back and never comes
again (`kept_iff`).
-/

namespace Beats.Broker

open Lib List Handled

section

variable {I : Iface} {ε T : Type}

/-- The `n`-th delivery of a message. -/
def Msg.nth (data : String) (n : Nat) (readable : Bool) : Msg where
  data := data
  numDelivered := if readable then some n else none

/-- The call puts the bytes on the dead-letter subject. -/
def Stores (subject data : String) (a : Answered (iface I)) : Prop :=
  a = ⟨.publish (subject ++ ".dlq") data, .ok ()⟩

/-- The call is a publish that failed.  The subscriber publishes dead letters only. -/
def PublishFails : Answered (iface I) → Prop
  | ⟨.publish _ _, r⟩ => Except.isOk r = false
  | _ => False

/-- The call ends the deliveries. -/
def Ends : Answered (iface I) → Prop
  | ⟨.term _, _⟩ => True
  | _ => False

/-- The call acks the message. -/
def Acks : Answered (iface I) → Prop
  | ⟨.ack, _⟩ => True
  | _ => False

/-- The call sends the message back. -/
def SendsBack : Answered (iface I) → Prop
  | ⟨.nak _, _⟩ => True
  | _ => False

/-- The handler of the delivery failed. -/
def HandlerFails (s : JetSubscriber T) (h : T → Prog I ε Unit) (data : String)
    (t : List (Answered (iface I))) : Prop :=
  ∃ obj e, s.decode data = .ok obj ∧ (h obj).Exits (handled t) (.error e)

/-- The delivery does not drop the message. -/
structure Kept (s : JetSubscriber T) (subject : String) (h : T → Prog I ε Unit) (data : String)
    (n : Nat) (t : List (Answered (iface I))) : Prop where
  /-- It is ended only once it is stored. -/
  ended : ∀ t₁ a t₂, t = t₁ ++ a :: t₂ → Ends a → ∃ b ∈ t₁, Stores subject data b
  /-- It is acked after its handler succeeded, comes again, or is stored. -/
  disposed :
    (∃ obj, s.decode data = .ok obj ∧ (h obj).Exits (handled t) (.ok ()) ∧ ∃ a ∈ t, Acks a) ∨
    (n < maxDeliver ∧ ∃ a ∈ t, SendsBack a) ∨ ∃ a ∈ t, Stores subject data a

/-! ## Calls of the subscriber in a run -/

/-- The property is one of the subscriber's own calls. -/
def Own (P : Answered (iface I) → Prop) : Prop :=
  ∀ (c : I.Call) (r : I.Answer c), ¬ P ⟨.handler c, r⟩

theorem own_stores (subject data : String) : Own (Stores (I := I) subject data) := by
  intro c r h
  cases h

variable {u : List (Answered I)} {v : List (Answered (iface I))}
variable {P : Answered (iface I) → Prop}

/-- A call of the subscriber's own is none of the handler's. -/
theorem Own.exists_lift_append (hP : Own P) :
    (∃ a ∈ u.map lift ++ v, P a) ↔ ∃ a ∈ v, P a := by
  constructor
  · rintro ⟨a, hm, ha⟩
    rcases mem_append.mp hm with hm | hm
    · obtain ⟨⟨c, r⟩, -, rfl⟩ := mem_map.mp hm
      exact absurd ha (hP c r)
    · exact ⟨a, hm, ha⟩
  · rintro ⟨a, hm, ha⟩
    exact ⟨a, mem_append_right _ hm, ha⟩

/-- A call of the subscriber's own comes after those of the handler. -/
theorem Own.append_eq (hP : Own P) {a : Answered (iface I)} (ha : P a) :
    ∀ {u : List (Answered I)} {t₁ t₂ : List (Answered (iface I))},
      u.map lift ++ v = t₁ ++ a :: t₂ →
        ∃ v₁, t₁ = u.map lift ++ v₁ ∧ v = v₁ ++ a :: t₂
  | [], t₁, t₂, ht => ⟨t₁, rfl, ht⟩
  | b :: u, t₁, t₂, ht => by
    cases t₁ with
    | nil =>
      injection ht with hb _
      subst hb
      exact absurd ha (hP b.1 b.2)
    | cons b' t₁ =>
      injection ht with hb ht
      obtain ⟨v₁, rfl, rfl⟩ := append_eq hP ha ht
      exact ⟨v₁, by rw [← hb]; rfl, rfl⟩

theorem own_ends : Own (Ends (I := I)) := fun _ _ => id

theorem own_acks : Own (Acks (I := I)) := fun _ _ => id

theorem own_sendsBack : Own (SendsBack (I := I)) := fun _ _ => id

theorem own_publishFails : Own (PublishFails (I := I)) := fun _ _ => id

/-! ## Kept deliveries -/

variable {s : JetSubscriber T} {subject : String} {h : T → Prog I ε Unit} {data : String}
variable {n : Nat}

theorem kept_deadLetter_iff {stored termed : Except String Unit} {reason : String} :
    Kept s subject h data n (u.map lift ++
        [⟨.publish (subject ++ ".dlq") data, stored⟩, ⟨.term reason, termed⟩]) ↔
      Except.isOk stored = true := by
  constructor
  · intro hk
    obtain ⟨b, hb, hs⟩ := hk.ended
      (u.map lift ++ [⟨.publish (subject ++ ".dlq") data, stored⟩])
      ⟨.term reason, termed⟩ [] (by simp) trivial
    obtain ⟨b, hb, hs⟩ := (own_stores subject data).exists_lift_append.mp ⟨b, hb, hs⟩
    cases mem_singleton.mp hb
    cases hs
    rfl
  · intro hok
    cases stored with
    | error e => cases hok
    | ok _ =>
      refine ⟨fun t₁ a t₂ ht ha => ?_,
        .inr (.inr ((own_stores subject data).exists_lift_append.mpr ⟨_, .head _, rfl⟩))⟩
      obtain ⟨v₁, rfl, hv⟩ := own_ends.append_eq ha ht
      cases v₁ with
      | nil =>
        injection hv with hb _
        subst hb
        cases ha
      | cons b v₁ =>
        injection hv with hb _
        subst hb
        exact (own_stores subject data).exists_lift_append.mpr ⟨_, .head _, rfl⟩

/-- A run in which nothing ends the deliveries owes no stored message. -/
theorem stores_of_not_ends (hv : ¬ ∃ a ∈ v, Ends a) :
    ∀ t₁ a t₂, u.map lift ++ v = t₁ ++ a :: t₂ → Ends a →
      ∃ b ∈ t₁, Stores subject data b := by
  intro t₁ a t₂ ht ha
  have hm : a ∈ u.map lift ++ v := by
    rw [ht]
    simp
  exact absurd (own_ends.exists_lift_append.mp ⟨a, hm, ha⟩) hv

theorem kept_nakked_iff {delay : Duration} (sent : Except String Unit) :
    Kept s subject h data n (u.map lift ++ [⟨.nak delay, sent⟩]) ↔ n < maxDeliver := by
  constructor
  · intro hk
    rcases hk.disposed with ⟨obj, -, -, ha⟩ | ⟨hn, -⟩ | hs
    · rw [own_acks.exists_lift_append] at ha
      simp [Acks] at ha
    · exact hn
    · obtain ⟨a, ha, hs⟩ := (own_stores subject data).exists_lift_append.mp hs
      cases mem_singleton.mp ha
      cases hs
  · intro hn
    exact ⟨stores_of_not_ends (by simp [Ends]),
      .inr (.inl ⟨hn, own_sendsBack.exists_lift_append.mpr ⟨_, .head _, trivial⟩⟩)⟩

theorem kept_acked {obj : T} (hd : s.decode data = .ok obj) (hu : (h obj).Exits u (.ok ()))
    (sent : Except String Unit) :
    Kept s subject h data n (u.map lift ++ [⟨.ack, sent⟩]) := by
  refine ⟨stores_of_not_ends (by simp [Ends]), .inl ⟨obj, hd, ?_, ?_⟩⟩
  · rw [handled_lift_append]
    simpa [handled] using hu
  · exact own_acks.exists_lift_append.mpr ⟨_, .head _, trivial⟩

theorem handlerFails_nakked {obj : T} {e : ε} {delay : Duration} (hd : s.decode data = .ok obj)
    (hu : (h obj).Exits u (.error e)) (sent : Except String Unit) :
    HandlerFails s h data (u.map lift ++ [⟨.nak delay, sent⟩]) := by
  refine ⟨obj, e, hd, ?_⟩
  rw [handled_lift_append]
  simpa [handled] using hu

theorem not_handlerFails_acked {obj : T} (hd : s.decode data = .ok obj)
    (hu : (h obj).Exits u (.ok ())) (sent : Except String Unit) :
    ¬ HandlerFails s h data (u.map lift ++ [⟨.ack, sent⟩]) := by
  rintro ⟨obj', e, hd', hu'⟩
  cases hd.symm.trans hd'
  rw [handled_lift_append] at hu'
  cases hu.unique (by simpa [handled] using hu')

/-- A delivery keeps its message if and only if no dead letter was lost and its handler did not
fail on the last delivery while the count of them could not be read. -/
theorem kept_iff (s : JetSubscriber T) (subject : String) (h : T → Prog I ε Unit) (data : String)
    (n : Nat) (readable : Bool) {t : List (Answered (iface I))} {out : Except Empty Unit}
    (ht : (s.onMessage subject h (.nth data n readable)).Exits t out) :
    Kept s subject h data n t ↔
      (¬ ∃ a ∈ t, PublishFails a) ∧
        ¬ (readable = false ∧ maxDeliver ≤ n ∧ HandlerFails s h data t) := by
  cases s.course ht with
  | undecodable hd stored termed =>
    have hnone (t : List (Answered (iface I))) : ¬ HandlerFails s h data t := by
      rintro ⟨obj, e, hd', -⟩
      cases hd.symm.trans hd'
    refine (kept_deadLetter_iff (u := [])).trans ?_
    cases stored <;> simp [PublishFails, hnone, Except.isOk, Except.toBool]
  | exhausted hd hu hm stored termed =>
    refine kept_deadLetter_iff.trans ?_
    rw [own_publishFails.exists_lift_append]
    -- The count was read.
    have hread : readable = true := by
      cases readable with
      | true => rfl
      | false => cases hm
    cases stored <;> simp [PublishFails, hread, Except.isOk, Except.toBool]
  | nakked hd hu hm sent =>
    change s.decode data = .ok _ at hd
    rw [own_publishFails.exists_lift_append]
    refine (kept_nakked_iff sent).trans ?_
    cases readable with
    | false => simp [PublishFails, handlerFails_nakked hd hu sent]
    | true =>
      -- A count that could be read was below the limit.
      have hn : n < maxDeliver := by simpa [Msg.nth, Msg.exhausted] using hm
      simp [PublishFails, hn]
  | acked hd hu sent =>
    have hfails : ¬ HandlerFails s h data _ := not_handlerFails_acked hd hu sent
    rw [own_publishFails.exists_lift_append]
    exact ⟨fun _ => by simp [PublishFails, hfails], fun _ => kept_acked hd hu sent⟩

def textSubscriber : JetSubscriber String where
  decode s := if s = "" then .error "unexpected end of input" else .ok s

/-- A handler that fails, or not, without calling anything. -/
def fixedHandler (out : Except String Unit) (_ : String) : Prog ⟨Empty, nofun⟩ String Unit :=
  .ofExcept out

theorem kept_sentBack :
    Kept textSubscriber "thump.outcomes" (fixedHandler (.error "down")) "x" 1
      [⟨.nak 1000000000, .ok ()⟩] :=
  (kept_iff textSubscriber "thump.outcomes" (fixedHandler (.error "down")) "x" 1 true
    (.call .refl : Prog.Exits _ _ (.ok ()))).mpr (by simp [PublishFails])

/-- The dead-letter publish fails and the message is ended all the same. -/
theorem lostDeadLetter_dropped :
    ∃ (t : List (Answered (iface ⟨Empty, nofun⟩))) (out : Except Empty Unit),
      (textSubscriber.onMessage "thump.outcomes" (fixedHandler (.ok ()))
        (.nth "" 1 true)).Exits t out ∧
      t = [⟨.publish "thump.outcomes.dlq" "", .error "no responders"⟩,
        ⟨.term "undecodable", .ok ()⟩] ∧
      ¬ Kept textSubscriber "thump.outcomes" (fixedHandler (.ok ())) "" 1 t := by
  refine ⟨_, .ok (), .call (.call .refl), rfl, ?_⟩
  intro hk
  exact Bool.false_ne_true ((kept_deadLetter_iff (u := [])).mp hk)

end

end Beats.Broker
