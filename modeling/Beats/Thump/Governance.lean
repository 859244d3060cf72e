import Beats.Thump.Calls

/-!
# Nothing executes ungoverned

What a call of `Transport.handle` executes.  `forwards t` are the forward orders of a run,
and a call executes one exactly when its envelope is granted: the order of the grant, once.
The goroutines a call starts execute undos only, so they add no forward order to it.

Both are statements about every run, so each is a monitor.  `duty` is the duty of a call
to its envelope: it permits one execution, of an order the envelope grants, publishes what
the executor reported on it, and lets the envelope pass on only as it came.  `tending` is
what a goroutine does for the order it watches.
-/

namespace Beats.Thump

open Lib Transport Monitor

variable {t : List (Answered iface)}

/-! ## Forward orders -/

/-- The forward order that the call executes. -/
def forward? : Answered iface → List Order
  | ⟨.execute o _, _⟩ => if o.kind = .forward then [o] else []
  | _ => []

/-- The forward orders that a run executed. -/
def forwards (t : List (Answered iface)) : List Order := t.flatMap forward?

theorem forwards_eq_nil
    (h : ∀ o at' r, ⟨.execute o at', r⟩ ∈ t → o.kind = .reversal) :
    forwards t = [] := by
  refine List.flatMap_eq_nil_iff.mpr fun a ha => ?_
  obtain ⟨c, r⟩ := a
  cases c with
  | execute o at' => simp [forward?, h o at' r ha]
  | _ => rfl

/-! ## Reports -/

/-- What the executor reported in an answered call. -/
def report? : Answered iface → List Outcome
  | ⟨.execute _ _, (oc : Outcome)⟩ => [oc]
  | _ => []

/-- What the executor reported in a run. -/
def reports (t : List (Answered iface)) : List Outcome := t.flatMap report?

variable {oc : Outcome} {o : Order} {w : Watch} {out : Except HandleError Unit}

theorem mem_reports (h : oc ∈ reports t) :
    ∃ o at', ⟨.execute o at', oc⟩ ∈ t := by
  obtain ⟨⟨c, r⟩, hm, hr⟩ := List.mem_flatMap.mp h
  cases c with
  | execute o at' =>
    obtain rfl := List.mem_singleton.mp hr
    exact ⟨o, at', hm⟩
  | _ => cases hr

/-! ## The goroutines -/

/-- The monitor of a goroutine that watches `o`.  It permits undos that answer to the grant of
`o`, and outcomes that name it or come from the executor.  Its state is what the executor
has reported. -/
def tending (o : Order) : Monitor iface (List Outcome) where
  permits reported
    | .execute u _ =>
      u.kind = .reversal ∧ u.decisionRef = o.decisionRef ∧ u.signalRef = o.signalRef
    | .publish (.outcome oc) =>
      oc ∈ reported ∨ (oc.decisionRef = o.decisionRef ∧ oc.signalRef = o.signalRef)
    | _ => True
  next reported c r := reported ++ report? ⟨c, r⟩

theorem tending_after (o : Order) : ∀ (t : List (Answered iface)) (s : List Outcome),
    (tending o).after s t = s ++ reports t
  | [], s => by simp [after, reports]
  | ⟨c, r⟩ :: t, s => by
    rw [after, tending_after o t]
    simp only [tending, reports, List.flatMap_cons, List.append_assoc]

/-- What a goroutine publishes is the executor's, or names what its order names. -/
theorem Emission.tended (h : Emission o t oc) :
    oc ∈ reports t ∨ oc.decisionRef = o.decisionRef ∧ oc.signalRef = o.signalRef := by
  cases h with
  | report now at' hm => exact .inl (List.mem_flatMap.mpr ⟨_, hm, List.mem_singleton_self oc⟩)
  | convergence _ | acceptance _ _ => exact .inr ⟨rfl, rfl⟩

theorem tending_background (w : Watch) :
    (tending w.order).Allows (fun _ _ => True) (background w) [] := by
  refine Allows.of_history ?_ (fun _ _ _ => trivial) (tends_background w)
  rintro t c ⟨-, hc⟩
  rw [tending_after]
  cases c with
  | execute u at' =>
    obtain ⟨⟨now, rfl⟩, -⟩ := hc
    exact ⟨rfl, rfl, rfl⟩
  | publish m =>
    cases m with
    | outcome oc => exact hc.tended
    | _ => trivial
  | _ => trivial

/-- A started goroutine executes no forward order, however far it gets. -/
theorem background_forwards {q : Prog iface Empty Unit} (h : (background w).Steps t q) :
    forwards t = [] := by
  refine forwards_eq_nil fun o at' r hm => ?_
  obtain ⟨t₁, -, hundo⟩ := (tending_background w).permits_of_mem h hm
  exact hundo.1

/-! ## The call -/

/-- The envelope grants some action. -/
def Grants (cat : Contract.StaticCatalog) (g : Decision.Governed) : Prop :=
  ∃ c ct, Granted cat g c ct

/-- The order is the one the envelope grants, rendered at some time. -/
def GrantedOrder (cat : Contract.StaticCatalog) (g : Decision.Governed) (o : Order) : Prop :=
  ∃ c ct at', Granted cat g c ct ∧ o = orderOf g.decision g.set c ct at'

/-- The call is a publish that failed. -/
def publishFailed : Answered iface → Bool
  | ⟨.publish _, r⟩ => !Except.isOk r
  | _ => false

/-- What a call of `handle` has done: the forward orders it executed, what the executor
reported, and whether one of its publishes failed. -/
structure Done where
  executed : List Order := []
  reported : List Outcome := []
  failed : Bool := false

/-- The duty of a call to its envelope. -/
def duty (cat : Contract.StaticCatalog) (g : Decision.Governed) : Monitor iface Done where
  permits s
    | .execute o _ => s.executed = [] ∧ GrantedOrder cat g o
    | .go w => w.order ∈ s.executed
    | .publish (.outcome oc) => oc ∈ s.reported
    | .publish (.held g') => g' = g
    | .publish (.decline d) => d = g.decision
    | .notify g' => g' = g
    | _ => True
  next s c r :=
    { executed := s.executed ++ forward? ⟨c, r⟩
      reported := s.reported ++ report? ⟨c, r⟩
      failed := s.failed || publishFailed ⟨c, r⟩ }

theorem duty_after (cat : Contract.StaticCatalog) (g : Decision.Governed) :
    ∀ (t : List (Answered iface)) (s : Done), (duty cat g).after s t =
        { executed := s.executed ++ forwards t
          reported := s.reported ++ reports t
          failed := s.failed || t.any publishFailed }
  | [], s => by simp [after, forwards, reports]
  | ⟨c, r⟩ :: t, s => by
    rw [after, duty_after cat g t]
    simp only [duty, forwards, reports, List.flatMap_cons, List.append_assoc, List.any_cons,
      Bool.or_assoc]

section

variable {cat : Contract.StaticCatalog} {g : Decision.Governed} {s : Done}

@[simp] theorem duty_next_now {r : Time} : (duty cat g).next s .now r = s := by
  simp [duty, forward?, report?, publishFailed]

theorem duty_next_execute {at' : Time} (hk : o.kind = .forward) :
    (duty cat g).next s (.execute o at') oc =
      { s with executed := s.executed ++ [o], reported := s.reported ++ [oc] } := by
  simp [duty, forward?, report?, publishFailed, hk]

end

variable {tr : Transport} {g : Decision.Governed}

/-- A call that ends has executed the granted order, or nothing where nothing is granted.
After an execution it succeeds exactly when every publish did. -/
def Fulfilled (cat : Contract.StaticCatalog) (g : Decision.Governed) (s : Done)
    (out : Except HandleError Unit) : Prop :=
  (Grants cat g → ∃ o, GrantedOrder cat g o ∧ s.executed = [o] ∧
    (out = .ok () ↔ s.failed = false)) ∧
  (¬ Grants cat g → s.executed = [])

theorem Fulfilled.of_not_grants {cat : Contract.StaticCatalog} (h : ¬ Grants cat g) {s : Done}
    (hs : s.executed = []) (out : Except HandleError Unit) : Fulfilled cat g s out :=
  ⟨fun hg => absurd hg h, fun _ => hs⟩

theorem duty_notify (hg : ¬ Grants tr.catalog g) {s : Done} (hs : s.executed = []) :
    (duty tr.catalog g).Allows (Fulfilled tr.catalog g) (tr.notify g >>= fun _ => pure ()) s := by
  unfold notify
  split
  · exact .of_not_grants hg hs _
  · refine allows_ask_bind rfl fun r => ?_
    exact .of_not_grants hg (by simp [duty, forward?, hs]) _

/-- A verdict other than approved is published and notified, and executes nothing. -/
theorem duty_publish_notify (hg : ¬ Grants tr.catalog g) {m : Message} {wrap : String → HandleError}
    (hm : (duty tr.catalog g).permits {} (.publish m)) :
    (duty tr.catalog g).Allows (Fulfilled tr.catalog g)
      (publish m >>= fun r => Prog.orFail wrap r >>= fun _ => tr.notify g >>= fun _ => pure ())
      {} := by
  exact allows_ask_bind hm (either (fun _ => .of_not_grants hg rfl _) fun _ => duty_notify hg rfl)

/-- What a call still does once it has executed `o`: two publishes and the record. -/
theorem duty_publishes {sig : String} (ho : GrantedOrder tr.catalog g o) :
    (duty tr.catalog g).Allows (Fulfilled tr.catalog g)
      (do Prog.orFail (.publishFailed "order" sig) (← publish (.order o))
          Prog.orFail (.publishFailed "outcome" sig) (← publish (.outcome oc))
          record oc)
      { executed := [o], reported := [oc] } := by
  obtain ⟨c, ct, at', hg, rfl⟩ := ho
  have done {s : Done} {out : Except HandleError Unit}
      (hs : s.executed = [orderOf g.decision g.set c ct at'])
      (hout : out = .ok () ↔ s.failed = false) : Fulfilled tr.catalog g s out :=
    ⟨fun _ => ⟨_, ⟨c, ct, at', hg, rfl⟩, hs, hout⟩, fun hn => absurd ⟨c, ct, hg⟩ hn⟩
  refine allows_ask_bind trivial
    (either (fun _ => done rfl (by simp [duty, publishFailed, Except.isOk, Except.toBool]))
      fun _ => ?_)
  refine allows_ask_bind (List.mem_singleton_self oc)
    (either (fun _ => done rfl (by simp [duty, publishFailed, Except.isOk, Except.toBool]))
      fun _ => ?_)
  exact allows_ask trivial fun _ => done rfl (iff_of_true rfl rfl)

theorem duty_handle (tr : Transport) (g : Decision.Governed) :
    (duty tr.catalog g).Allows (Fulfilled tr.catalog g) (tr.handle g) {} := by
  have verdict_of_grants : Grants tr.catalog g → g.decision.verdict = .approved :=
    fun ⟨_, _, h⟩ => h.approved
  unfold handle
  cases hv : g.decision.verdict with
  | approved =>
    refine allows_ask_bind trivial fun (renderedAt : Time) => ?_
    cases hr : Actuator.render g tr.catalog renderedAt with
    | error e =>
      refine .of_not_grants (fun ⟨c, ct, h⟩ => ?_) rfl _
      rw [h.render renderedAt] at hr
      cases hr
    | ok o =>
      have ho : GrantedOrder tr.catalog g o := by
        obtain ⟨c, ct, h, rfl⟩ := Actuator.render_ok_iff.mp hr
        exact ⟨c, ct, renderedAt, h, rfl⟩
      have hk : o.kind = .forward := by
        obtain ⟨c, ct, at', h, rfl⟩ := ho
        rfl
      refine allows_ask_bind trivial fun (executedAt : Time) => ?_
      refine allows_ask_bind ⟨rfl, ho⟩ fun (oc : Outcome) => ?_
      rw [duty_next_now, duty_next_now, duty_next_execute hk]
      cases hw : tr.watchFor o oc with
      | none => exact duty_publishes ho
      | some w =>
        have hgo : w.order ∈ [o] := List.mem_singleton.mpr (order_watchFor hw)
        refine allows_ask_bind hgo fun _ => ?_
        exact duty_publishes ho
  | hold =>
    exact duty_publish_notify (fun h => by simp [verdict_of_grants h] at hv) rfl
  | escalate | rejected | other _ =>
    exact duty_publish_notify (fun h => by simp [verdict_of_grants h] at hv) rfl

/-- An answered call that passes the envelope on passes it on as it came. -/
def PassesOn (g : Decision.Governed) : Answered iface → Prop
  | ⟨.publish (.held g'), _⟩ => g' = g
  | ⟨.publish (.decline d), _⟩ => d = g.decision
  | ⟨.notify g', _⟩ => g' = g
  | _ => True

theorem handle_forwards {t : List (Answered iface)} (h : (tr.handle g).Exits t out) :
    (Grants tr.catalog g → ∃ o, GrantedOrder tr.catalog g o ∧ forwards t = [o] ∧
        (out = .ok () ↔ t.any publishFailed = false)) ∧
      (¬ Grants tr.catalog g → forwards t = []) := by
  have hf := (duty_handle tr g).exits h
  rwa [Fulfilled, duty_after, List.nil_append, Bool.false_or] at hf

theorem handle_passesOn {t : List (Answered iface)} (h : (tr.handle g).Exits t out)
    {a : Answered iface} (ha : a ∈ t) : PassesOn g a := by
  obtain ⟨c, r⟩ := a
  obtain ⟨t₁, -, hc⟩ := (duty_handle tr g).permits_of_mem h ha
  cases c with
  | publish m =>
    cases m with
    | order o => trivial
    | outcome oc => trivial
    | held g' => exact hc
    | decline d => exact hc
  | notify g' => exact hc
  | _ => trivial

/-- A call of `handle` executes one forward order if its envelope is granted and none if it
is not.  The order is built from the decision, the candidate and the contract of the grant.
The envelope is passed on as it came, and the goroutines the call starts execute no
forward order. -/
theorem handle_executes_granted (tr : Transport) (g : Decision.Governed)
    {t : List (Answered iface)} {out : Except HandleError Unit}
    (h : (tr.handle g).Exits t out) :
    ((∃ c ct, Granted tr.catalog g c ct) → (forwards t).length = 1) ∧
    ((¬ ∃ c ct, Granted tr.catalog g c ct) → forwards t = []) ∧
    (∀ o ∈ forwards t, ∃ c ct, Granted tr.catalog g c ct ∧
      o.decisionRef = g.decision.id ∧ o.signalRef = g.decision.signalRef ∧
      o.contractRef = c.contractRef ∧ o.grantedBand = g.decision.grantedBand ∧
      o.parameters = ct.action.scopeParameters.map (fun p => (p.1, p.2.default)) ∧
      o.success = ct.successCriteria ∧
      o.reversal =
        { reversalPath := c.reversalPath.getD {}
          fallback := ct.reversal.fallback
          restoreOnSuccess := ct.reversal.restoreOnSuccess
          holdOnMiss := ct.reversal.holdOnMiss }) ∧
    (∀ a ∈ t, PassesOn g a) ∧
    (∀ w r t' q, ⟨.go w, r⟩ ∈ t → (background w).Steps t' q →
      forwards t' = []) := by
  obtain ⟨hsome, hnone⟩ := handle_forwards h
  refine ⟨fun hg => ?_, hnone, fun o ho => ?_, fun a => handle_passesOn h,
    fun w r t' q _ hb => background_forwards hb⟩
  · obtain ⟨o, -, hf, -⟩ := hsome hg
    rw [hf, List.length_singleton]
  · by_cases hg : Grants tr.catalog g
    · obtain ⟨o', ⟨c, ct, at', hc, rfl⟩, hf, -⟩ := hsome hg
      rw [hf, List.mem_singleton] at ho
      subst ho
      exact ⟨c, ct, hc, rfl, rfl, rfl, rfl, rfl, rfl, rfl⟩
    · rw [hnone hg] at ho
      cases ho

def throttleCatalog : Contract.StaticCatalog :=
  { contracts := [{ name := "throttle", successCriteria := { window := 300000000000 } }] }

def throttleApproval : Decision.Governed where
  decision :=
    { id := "dec:checkout:1", proposalRef := "ps:1", signalRef := "checkout"
      candidateRef := "c1", verdict := .approved, grantedBand := .actReversible
      policyVersion := "v1", evaluatedAt := 0 }
  set :=
    { name := "ps:1", signalRef := "checkout"
      proposals := [{ id := "c1", contractRef := "throttle" }] }

theorem granted_throttle :
    Granted throttleCatalog throttleApproval { id := "c1", contractRef := "throttle" }
      { name := "throttle", successCriteria := { window := 300000000000 } } :=
  ⟨rfl, rfl, rfl, rfl, rfl, rfl⟩

/-- The environment in which the clock stands still and everything succeeds. -/
def fairWeather : (c : Call) → iface.Answer c
  | .now => (0 : Int)
  | .execute _ at' => ({ mode := .live, result := .applied, executedAt := at' } : Outcome)
  | .go _ => ()
  | .publish _ => Except.ok ()
  | .notify _ => Except.ok ()
  | .record _ => ()
  | .window _ => true
  | .cancelled => false
  | .probe _ => (true, none)
  | .withdraw _ => Except.ok true

theorem handle_executes_throttle :
    (forwards (Prog.play (fun _ c => (fairWeather c, ())) ()
      (handle { catalog := throttleCatalog } throttleApproval)).2).length = 1 :=
  (handle_executes_granted { catalog := throttleCatalog } throttleApproval
    (Prog.exits_play _ _ _)).1 ⟨_, _, granted_throttle⟩

end Beats.Thump
