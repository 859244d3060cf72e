import Beats.Hiss.ApprovalRequests
import Beats.Lib.Machine
import Beats.Lib.Mailbox

/-!
# Consent

Holds, approval requests and approvals together, over any run of the handlers, of the controller and
of the humans.  A call of `handle` is one step.  `reconcile` is two, since its approval can be
delivered before its resource is marked; taken together they are the call (`run_reconcile`).

Every event has a number.  A hold has the number of the event that recorded it, and an approval the
number of the act of the human that it comes from.  These numbers are not the code's: a re-issued
decision is *fresh* if the act came after the hold.

Approvals and resources are keyed by fingerprint.  A resource that a human approved and that could
not be marked is reconciled again at the next resync, and its approval releases whatever is held by
then (`staleConsent_releases`).  A run is fresh if a set is held only where no consent for its
fingerprint is outstanding (`reissues_fresh`).
-/

namespace Beats.Hiss

open Decision Lib Mailbox Function ApprovalRequest

/-! ## The machine -/

/-- A resource, and when a human last patched it. -/
structure Request where
  cr : ApprovalRequest
  patchedAt : Option Nat := none

/-- The resources, by name. -/
abbrev Requests := String → Option Request

/-- An approval on `thump.approvals`, and when the human acted. -/
structure Sent where
  approval : Approval
  approvedAt : Option Nat

/-- A held decision that was published again: when it was held and when the human acted. -/
structure Reissue where
  heldAt : Nat
  approvedAt : Option Nat
deriving DecidableEq

/-- The state of holding and releasing. -/
structure Consent where
  desk : Desk := {}
  /-- The resources of the cluster. -/
  requests : Requests := fun _ => none
  /-- The copies of the informer. -/
  cache : Requests := fun _ => none
  approvals : Mailbox Sent := []
  /-- The resources that calls of `reconcile` are about to mark. -/
  marking : List String := []
  /-- The number of the next event. -/
  clock : Nat := 0
  /-- When the pending hold of a fingerprint was recorded. -/
  heldAt : String → Nat := fun _ => 0
  reissues : List Reissue := []

inductive ConsentEvent where
  /-- A set is delivered.  `landed` says whether a create that failed made the resource. -/
  | propose (ps : Proposal.Set) (w : Weather) (landed : Bool)
  /-- A human patches a resource. -/
  | patch (name decision approver : String)
  /-- A human sends an approval. -/
  | approve (a : Approval)
  /-- The informer gets the resource as it is. -/
  | sync (name : String)
  /-- The controller deletes an old resource, if the cluster does. -/
  | sweep (name : String) (now : Time) (deleted : Bool)
  /-- `reconcile` runs up to `markProcessed`.  `stored` says whether a publish that failed left
  the approval in the mail. -/
  | reconcile (name : String) (now : Time) (publish : Except String Unit) (stored : Bool)
  /-- `markProcessed` patches a resource, if the cluster does. -/
  | mark (k : Nat) (now : Time) (patched : Bool)
  /-- An approval is delivered. -/
  | deliver (k : Nat) (w : Weather)
  /-- An approval is settled. -/
  | ack (k : Nat)

/-- The event writes a resource. -/
def ConsentEvent.writes : ConsentEvent → Bool
  | .propose _ _ _ | .patch _ _ _ => true
  | .sweep _ _ deleted => deleted
  | .mark _ _ patched => patched
  | _ => false

/-- The resource as `markProcessed` leaves it. -/
def Request.processed (now : Time) (r : Request) : Request := { r with cr := r.cr.processed now }

namespace Consent

variable (tr : Transport) (nameOf : String → String) (retention : Duration)

/-- `Create`: a resource that exists is left as it is. -/
def create (held : Governed) (requests : Requests) : Requests :=
  let name := nameOf held.decision.signalRef
  match requests name with
  | some _ => requests
  | none => update requests name (some { cr := { name, spec := newApprovalRequestSpec held } })

/-- A resource is made for the set, unless there is one. -/
def creates (ps : Proposal.Set) (w : Weather) (landed : Bool) : Bool :=
  tr.awaits ps w && tr.approvals && (w.create.isOk || landed)

/-- The state after a call of `handle`. -/
def proposed (s : Consent) (ps : Proposal.Set) (w : Weather) (landed : Bool) : Consent :=
  { s with
    desk := (tr.handle ps w s.desk).1
    requests :=
      if creates tr ps w landed then create nameOf (tr.judged ps w) s.requests else s.requests
    heldAt := if tr.awaits ps w then update s.heldAt ps.signalRef s.clock else s.heldAt }

/-- The resource as a human patches it. -/
def patched (s : Consent) (decision approver : String) (r : Request) : Request where
  cr := { r.cr with spec := { r.cr.spec with decision := decision }, approvedBy := approver }
  patchedAt := some s.clock

/-- The state with a resource changed. -/
def revise (s : Consent) (name : String) (r : Option Request) : Consent :=
  { s with requests := update s.requests name r }

@[simp] theorem requests_revise_self (s : Consent) (name : String) (r : Option Request) :
    (s.revise name r).requests name = r :=
  update_self ..

theorem requests_revise_of_ne (s : Consent) {name name' : String} (h : name' ≠ name)
    (r : Option Request) : (s.revise name r).requests name' = s.requests name' :=
  update_of_ne h ..

/-- The state after the first part of `reconcile`. -/
def reconciled (s : Consent) (name : String) (r : Request) (now : Time)
    (publish : Except String Unit) (stored : Bool) : Consent :=
  match r.cr.ack now with
  | .ok (some a) =>
    { s with
      approvals :=
        if publish.isOk || stored then
          s.approvals.post { approval := a, approvedAt := r.patchedAt }
        else s.approvals
      marking := if publish.isOk then s.marking ++ [name] else s.marking }
  | _ => s

/-- The state after `markProcessed`. -/
def marked (s : Consent) (name : String) (now : Time) : Consent :=
  s.revise name ((s.requests name).map (Request.processed now))

/-- The state after an approval was delivered. -/
def delivered (s : Consent) (m : Sent) (w : Weather) : Consent :=
  let desk := (tr.approveHandler m.approval w s.desk).1
  { s with
    desk := desk
    reissues :=
      if desk.decisions = s.desk.decisions then s.reissues
      else s.reissues ++
        [{ heldAt := s.heldAt m.approval.signalRef, approvedAt := m.approvedAt }] }

def effect (s : Consent) : ConsentEvent → Option Consent
  | .propose ps w landed => some (s.proposed tr nameOf ps w landed)
  | .patch name decision approver =>
    some (s.revise name ((s.requests name).map (s.patched decision approver)))
  | .approve a =>
    some { s with approvals := s.approvals.post { approval := a, approvedAt := some s.clock } }
  | .sync name => some { s with cache := update s.cache name (s.requests name) }
  | .sweep name now deleted =>
    (s.cache name).bind fun r =>
      if r.cr.sweep retention now then some (if deleted then s.revise name none else s) else none
  | .reconcile name now publish stored =>
    (s.cache name).bind fun r =>
      if r.cr.sweep retention now then none else some (s.reconciled name r now publish stored)
  | .mark k now patched =>
    s.marking[k]?.map fun name =>
      let s := { s with marking := s.marking.eraseIdx k }
      if patched then s.marked name now else s
  | .deliver k w => (s.approvals.read k).map fun m => s.delivered tr m w
  | .ack k => some { s with approvals := s.approvals.settle k }

def tick (s : Consent) : Consent := { s with clock := s.clock + 1 }

def step (s : Consent) (ev : ConsentEvent) : Option Consent :=
  (s.effect tr nameOf retention ev).map tick

/-- The governor with its requests, as a machine. -/
def machine : Machine Consent ConsentEvent where
  step := step tr nameOf retention

/-- No consent for the fingerprint is outstanding: no approval is in the mail, and its resource
and the copy of it are not decided and unmarked. -/
def clear (s : Consent) (fingerprint : String) : Bool :=
  let settled (r : Request) : Bool := !r.cr.outstanding || r.cr.spec.signalRef != fingerprint
  s.approvals.allLive (fun m => m.approval.signalRef != fingerprint) &&
    (s.requests (nameOf fingerprint)).all settled && (s.cache (nameOf fingerprint)).all settled

/-- A set is held only where no consent for its fingerprint is outstanding. -/
def orderly (s : Consent) : ConsentEvent → Bool
  | .propose ps w _ => !tr.awaits ps w || s.clear nameOf ps.signalRef
  | _ => true

section

variable {tr : Transport} {nameOf : String → String} {retention : Duration}
variable {s s' : Consent} {ev : ConsentEvent} {name : String} {r : Option Request} {rs : Requests}

/-! ## Steps -/

/-- An approval can be in the mail after a step if it was before, if a human sends it now, or if
it comes from a copy that is outstanding. -/
def Mails (s : Consent) (m : Sent) : Prop :=
  s.approvals.Live m ∨ m.approvedAt = some s.clock ∨
    ∃ name r, s.cache name = some r ∧ r.cr.outstanding = true ∧
      m.approval.signalRef = r.cr.spec.signalRef ∧ m.approvedAt = r.patchedAt

/-- What an event does. -/
inductive Moves (tr : Transport) (nameOf : String → String) (s : Consent) :
    ConsentEvent → Consent → Prop where
  | proposed (ps : Proposal.Set) (w : Weather) (landed : Bool) :
      Moves tr nameOf s (.propose ps w landed) (s.proposed tr nameOf ps w landed)
  | patched (name decision approver : String) :
      Moves tr nameOf s (.patch name decision approver)
        (s.revise name ((s.requests name).map (s.patched decision approver)))
  | swept (name : String) (now : Time) :
      Moves tr nameOf s (.sweep name now true) (s.revise name none)
  | marked {k : Nat} {name : String} (now : Time) (h : s.marking[k]? = some name) :
      Moves tr nameOf s (.mark k now true)
        (({ s with marking := s.marking.eraseIdx k } : Consent).marked name now)
  | delivered (k : Nat) (w : Weather) {m : Sent} (h : s.approvals.Live m) :
      Moves tr nameOf s (.deliver k w) (s.delivered tr m w)
  | kept {ev : ConsentEvent} {approvals : Mailbox Sent} {marking : List String} {cache : Requests}
      (still : ev.writes = false) (mails : ∀ m, approvals.Live m → s.Mails m)
      (copies : ∀ name r, cache name = some r → s.cache name = some r ∨ s.requests name = some r) :
      Moves tr nameOf s ev { s with approvals, marking, cache }

theorem Moves.of_mail {approvals : Mailbox Sent} {marking : List String} (hev : ev.writes = false)
    (hm : ∀ m, approvals.Live m → s.Mails m) : Moves tr nameOf s ev { s with approvals, marking } :=
  .kept hev hm fun _ _ => .inl

theorem Moves.still (hev : ev.writes = false) : Moves tr nameOf s ev s :=
  .of_mail hev fun _ => .inl

theorem moves_reconciled {r : Request} (hr : s.cache name = some r) {now : Time}
    {publish : Except String Unit} {stored : Bool} :
    Moves tr nameOf s (.reconcile name now publish stored)
      (s.reconciled name r now publish stored) := by
  unfold reconciled
  split
  · rename_i a hack
    obtain ⟨hout, hsig⟩ := ack_approval hack
    refine .of_mail rfl fun m hm => ?_
    split at hm
    · rcases live_post.mp hm with hm | rfl
      · exact .inl hm
      · exact .inr (.inr ⟨name, r, hr, hout, hsig, rfl⟩)
    · exact .inl hm
  · exact .still rfl

theorem moves_of_effect (hs : s.effect tr nameOf retention ev = some s') :
    Moves tr nameOf s ev s' := by
  cases ev with
  | propose ps w landed =>
    cases hs
    exact .proposed ps w landed
  | patch name decision approver =>
    cases hs
    exact .patched name decision approver
  | approve a =>
    cases hs
    refine .of_mail rfl fun m hm => ?_
    rcases live_post.mp hm with hm | rfl
    · exact .inl hm
    · exact .inr (.inl rfl)
  | sync name =>
    cases hs
    refine .kept rfl (fun _ => .inl) fun name' r hr => ?_
    by_cases hname : name' = name
    · subst hname
      rw [update_self] at hr
      exact .inr hr
    · rw [update_of_ne hname] at hr
      exact .inl hr
  | sweep name now deleted =>
    obtain ⟨r, -, hs⟩ := Option.bind_eq_some_iff.mp hs
    split at hs
    · cases hs
      cases deleted with
      | true => exact .swept name now
      | false => exact .still rfl
    · cases hs
  | reconcile name now publish stored =>
    obtain ⟨r, hr, hs⟩ := Option.bind_eq_some_iff.mp hs
    split at hs
    · cases hs
    · cases hs
      exact moves_reconciled hr
  | mark k now patched =>
    obtain ⟨name, hname, rfl⟩ := Option.map_eq_some_iff.mp hs
    cases patched with
    | true => exact .marked now hname
    | false => exact .of_mail rfl fun _ => .inl
  | deliver k w =>
    obtain ⟨m, hm, rfl⟩ := Option.map_eq_some_iff.mp hs
    exact .delivered k w (live_of_read hm)
  | ack k =>
    cases hs
    exact .of_mail rfl fun m hm => .inl (live_of_settle hm)

/-! ## Names -/

/-- A resource is named for its fingerprint. -/
def Named (nameOf : String → String) (rs : Requests) : Prop :=
  ∀ name r, rs name = some r → nameOf r.cr.spec.signalRef = name

theorem Named.update (h : Named nameOf rs)
    (hr : ∀ v, r = some v → nameOf v.cr.spec.signalRef = name) :
    Named nameOf (update rs name r) := by
  intro name' v hv
  by_cases hn : name' = name
  · subst hn
    rw [update_self] at hv
    exact hr v hv
  · rw [update_of_ne hn] at hv
    exact h name' v hv

/-- A change of the resource that leaves its fingerprint keeps the names. -/
theorem Named.map (h : Named nameOf rs) {f : Request → Request}
    (hf : ∀ r, (f r).cr.spec.signalRef = r.cr.spec.signalRef) :
    Named nameOf (Function.update rs name ((rs name).map f)) := by
  refine h.update fun v hv => ?_
  obtain ⟨r, hr, rfl⟩ := Option.map_eq_some_iff.mp hv
  rw [hf]
  exact h name r hr

theorem Named.create (h : Named nameOf rs) (held : Governed) :
    Named nameOf (create nameOf held rs) := by
  unfold Consent.create
  dsimp only
  split
  · exact h
  · refine h.update fun v hv => ?_
    cases hv
    rfl

/-- The resources and the copies are named for their fingerprints. -/
structure Filed (nameOf : String → String) (s : Consent) : Prop where
  requests : Named nameOf s.requests
  cache : Named nameOf s.cache

theorem filed_start : Filed nameOf {} := ⟨nofun, nofun⟩

theorem Filed.moves (h : s.Filed nameOf) (hm : Moves tr nameOf s ev s') : s'.Filed nameOf := by
  cases hm with
  | proposed ps w landed =>
    refine ⟨?_, h.cache⟩
    unfold Consent.proposed
    dsimp only
    split
    · exact h.requests.create _
    · exact h.requests
  | patched => exact ⟨h.requests.map fun _ => rfl, h.cache⟩
  | swept => exact ⟨h.requests.update nofun, h.cache⟩
  | marked => exact ⟨h.requests.map fun _ => rfl, h.cache⟩
  | delivered => exact ⟨h.requests, h.cache⟩
  | kept _ _ copies =>
    refine ⟨h.requests, fun name r hr => ?_⟩
    rcases copies name r hr with hr | hr
    · exact h.cache name r hr
    · exact h.requests name r hr

theorem Filed.step (h : s.Filed nameOf)
    (hs : (machine tr nameOf retention).step s ev = some s') : s'.Filed nameOf := by
  obtain ⟨s₁, hs₁, rfl⟩ := Option.map_eq_some_iff.mp hs
  have h₁ := h.moves (moves_of_effect hs₁)
  exact ⟨h₁.requests, h₁.cache⟩

theorem filed_run {es : List ConsentEvent} (h : (machine tr nameOf retention).run {} es = some s) :
    s.Filed nameOf :=
  Machine.run_invariant (fun _ _ _ hf _ hs => hf.step hs) filed_start (Machine.along_trivial _ _ _)
    h

/-! ## Calls of reconcile -/

/-- The two parts of a call of `reconcile`. -/
def reconciling (name : String) (u : ApprovalRequest) (now markedAt : Time)
    (publish patch : Except String Unit) : List ConsentEvent :=
  .reconcile name now publish false ::
    if (u.reconcile now publish patch).approval.isSome then [.mark 0 markedAt patch.isOk] else []

theorem run_reconcile {r : Request} (hr : s.cache name = some r) {now : Time}
    (hsweep : r.cr.sweep retention now = false) (hidle : s.marking = []) (markedAt : Time)
    (publish patch : Except String Unit) :
    (machine tr nameOf retention).run s (reconciling name r.cr now markedAt publish patch) = some
      { s with
        approvals :=
          ((r.cr.reconcile now publish patch).approval.map fun a =>
            s.approvals.post { approval := a, approvedAt := r.patchedAt }).getD s.approvals
        requests :=
          if (r.cr.reconcile now publish patch).marked then
            update s.requests name ((s.requests name).map (Request.processed markedAt))
          else s.requests
        clock := s.clock + (reconciling name r.cr now markedAt publish patch).length } := by
  have hstep : (machine tr nameOf retention).step s (.reconcile name now publish false) =
      some (s.reconciled name r now publish false).tick := by
    simp [machine, step, effect, hr, hsweep]
  unfold reconciling reconcile
  unfold reconciled at hstep
  cases hack : r.cr.ack now with
  | error err =>
    rw [hack] at hstep
    exact Machine.run_cons_eq_some.mpr ⟨_, hstep, rfl⟩
  | ok approval =>
    rw [hack] at hstep
    cases approval with
    | none => exact Machine.run_cons_eq_some.mpr ⟨_, hstep, rfl⟩
    | some a =>
      cases publish with
      | error err => exact Machine.run_cons_eq_some.mpr ⟨_, hstep, rfl⟩
      | ok _ =>
        -- the approval is in the mail, whatever becomes of the patch
        obtain ⟨desk, requests, cache, approvals, marking⟩ := s
        obtain rfl : marking = [] := hidle
        cases patch with
        | error _ | ok _ => exact Machine.run_cons_eq_some.mpr ⟨_, hstep, rfl⟩

/-! ## Freshness -/

/-- The act came after the hold of the fingerprint, where one is pending. -/
def Since (s : Consent) (fingerprint : String) (act : Option Nat) : Prop :=
  ∃ c, act = some c ∧ (s.desk.holds.holds fingerprint ≠ none → s.heldAt fingerprint < c)

/-- Every outstanding resource was patched after the hold that it would release. -/
def Consents (s : Consent) (rs : Requests) : Prop :=
  ∀ name r, rs name = some r → r.cr.outstanding = true → s.Since r.cr.spec.signalRef r.patchedAt

/-- Every outstanding consent came after the hold it would release, and every re-issue is
fresh. -/
structure Fresh (s : Consent) : Prop where
  held : ∀ fingerprint, s.desk.holds.holds fingerprint ≠ none → s.heldAt fingerprint < s.clock
  mail : ∀ m, s.approvals.Live m → s.Since m.approval.signalRef m.approvedAt
  requests : s.Consents s.requests
  cache : s.Consents s.cache
  reissues : ∀ r ∈ s.reissues, ∃ c, r.approvedAt = some c ∧ r.heldAt < c

variable {fingerprint : String} {w : Weather}

theorem Since.mono {act : Option Nat} (h : s.Since fingerprint act)
    (hkeep : s'.desk.holds.holds fingerprint ≠ none →
      s.desk.holds.holds fingerprint ≠ none ∧ s'.heldAt fingerprint = s.heldAt fingerprint) :
    s'.Since fingerprint act := by
  obtain ⟨c, hc, hlt⟩ := h
  refine ⟨c, hc, ?_⟩
  intro hheld
  obtain ⟨hold, hat⟩ := hkeep hheld
  rw [hat]
  exact hlt hold

theorem Fresh.since_now (h : s.Fresh) (fingerprint : String) : s.Since fingerprint (some s.clock) :=
  ⟨s.clock, rfl, h.held fingerprint⟩

/-- A resource of the fingerprint has the name of the fingerprint. -/
theorem ne_of_clear (hn : Named nameOf rs)
    (h : ((rs (nameOf fingerprint)).all fun r =>
      !r.cr.outstanding || r.cr.spec.signalRef != fingerprint) = true)
    {r : Request} (hr : rs name = some r) (hout : r.cr.outstanding = true) :
    r.cr.spec.signalRef ≠ fingerprint := by
  rintro rfl
  rw [hn name r hr, hr] at h
  simp [hout] at h

theorem create_outstanding {held : Governed} {r : Request}
    (h : create nameOf held rs name = some r) (hout : r.cr.outstanding = true) :
    rs name = some r := by
  unfold create at h
  cases hown : rs (nameOf held.decision.signalRef) with
  | some _ => simpa only [hown] using h
  | none =>
    simp only [hown] at h
    by_cases hname : name = nameOf held.decision.signalRef
    · subst hname
      rw [update_self] at h
      cases h
      simp [outstanding, newApprovalRequestSpec] at hout
    · rwa [update_of_ne hname] at h

/-- A set that is not held changes no hold, and one that is held finds no consent for its
fingerprint outstanding. -/
theorem Fresh.proposed (h : s.Fresh) (hf : s.Filed nameOf) {ps : Proposal.Set} {landed : Bool}
    (hc : s.orderly tr nameOf (.propose ps w landed) = true) :
    (s.proposed tr nameOf ps w landed).tick.Fresh := by
  have hholds := tr.handle_holds ps w s.desk
  cases hheld : tr.awaits ps w with
  | true =>
    have hclear : s.clear nameOf ps.signalRef = true := by simpa [orderly, hheld] using hc
    simp only [clear, Bool.and_eq_true, allLive_iff, bne_iff_ne] at hclear
    obtain ⟨⟨hmail, hreq⟩, hcache⟩ := hclear
    -- Holds and their times change at the set's fingerprint only.
    have hkeep (f : String) (hf : f ≠ ps.signalRef) {act : Option Nat} (hs : s.Since f act) :
        (s.proposed tr nameOf ps w landed).tick.Since f act := by
      refine hs.mono ?_
      simp only [tick, Consent.proposed, hheld, hholds, if_true, update_of_ne hf]
      rw [PendingHolds.holds_record_of_ne (by simpa using hf)]
      exact fun hne => ⟨hne, trivial⟩
    refine ⟨?_, ?_, ?_, ?_, h.reissues⟩
    · intro f hne
      by_cases hf : f = ps.signalRef
      · simp [tick, Consent.proposed, hheld, hf]
      · simp only [tick, Consent.proposed, hheld, hholds, if_true, update_of_ne hf] at hne ⊢
        rw [PendingHolds.holds_record_of_ne (by simpa using hf)] at hne
        exact Nat.lt_succ_of_lt (h.held f hne)
    · intro m hm
      exact hkeep _ (hmail m hm) (h.mail m hm)
    · intro name r hr hout
      have hr' : s.requests name = some r := by
        simp only [tick, Consent.proposed] at hr
        split at hr
        · exact create_outstanding hr hout
        · exact hr
      exact hkeep _ (ne_of_clear hf.requests hreq hr' hout) (h.requests name r hr' hout)
    · intro name r hr hout
      exact hkeep _ (ne_of_clear hf.cache hcache hr hout) (h.cache name r hr hout)
  | false =>
    rw [hheld, if_neg (by decide)] at hholds
    have heq : s.proposed tr nameOf ps w landed = { s with desk := (tr.handle ps w s.desk).1 } := by
      simp [Consent.proposed, creates, hheld]
    rw [heq]
    have hkeep {f : String} {act : Option Nat} (hs : s.Since f act) :
        ({ s with desk := (tr.handle ps w s.desk).1 } : Consent).tick.Since f act :=
      hs.mono fun hne => ⟨hholds ▸ hne, rfl⟩
    refine ⟨?_, fun m hm => hkeep (h.mail m hm), fun n r hr ho => hkeep (h.requests n r hr ho),
      fun n r hr ho => hkeep (h.cache n r hr ho), h.reissues⟩
    intro f hne
    have hne' : s.desk.holds.holds f ≠ none := hholds ▸ hne
    exact Nat.lt_succ_of_lt (h.held f hne')

theorem Fresh.of_same_desk (h : s.Fresh) (hdesk : s'.desk = s.desk) (hat : s'.heldAt = s.heldAt)
    (hclock : s'.clock = s.clock) (hre : s'.reissues = s.reissues)
    (hmail : ∀ m, s'.approvals.Live m → s.Since m.approval.signalRef m.approvedAt)
    (hreq : s.Consents s'.requests) (hcache : s.Consents s'.cache) : s'.tick.Fresh := by
  have hkeep {f : String} {act : Option Nat} (hs : s.Since f act) : s'.tick.Since f act :=
    hs.mono fun hne => ⟨hdesk ▸ hne, congrFun hat f⟩
  refine ⟨?_, fun m hm => hkeep (hmail m hm), fun n r hr ho => hkeep (hreq n r hr ho),
    fun n r hr ho => hkeep (hcache n r hr ho), hre ▸ h.reissues⟩
  intro f hne
  change s'.heldAt f < s'.clock + 1
  rw [hat, hclock]
  exact Nat.lt_succ_of_lt (h.held f (hdesk ▸ hne))

/-- Whatever becomes of a resource, it is no older consent than it was. -/
theorem Consents.update (h : s.Consents rs)
    (hr : ∀ v, r = some v → v.cr.outstanding = true → s.Since v.cr.spec.signalRef v.patchedAt) :
    s.Consents (update rs name r) := by
  intro name' v hv hout
  by_cases hn : name' = name
  · subst hn
    rw [update_self] at hv
    exact hr v hv hout
  · rw [update_of_ne hn] at hv
    exact h name' v hv hout

theorem Fresh.delivered (h : s.Fresh) {m : Sent} (hm : s.approvals.Live m) :
    (s.delivered tr m w).tick.Fresh := by
  obtain ⟨hholds, hheld⟩ := tr.approveHandler_cases m.approval w s.desk
  have hkeep {f : String} {act : Option Nat} (hs : s.Since f act) :
      (s.delivered tr m w).tick.Since f act :=
    hs.mono fun hne => ⟨hholds f hne, rfl⟩
  refine ⟨?_, fun m hm => hkeep (h.mail m hm), fun n r hr ho => hkeep (h.requests n r hr ho),
    fun n r hr ho => hkeep (h.cache n r hr ho), ?_⟩
  · intro f hne
    exact Nat.lt_succ_of_lt (h.held f (hholds f hne))
  · intro re hre
    simp only [tick, Consent.delivered] at hre
    split at hre
    · exact h.reissues re hre
    · rename_i hpub
      rcases List.mem_append.mp hre with hre | hre
      · exact h.reissues re hre
      · rw [List.mem_singleton.mp hre]
        obtain ⟨c, hc, hlt⟩ := h.mail m hm
        exact ⟨c, hc, hlt (hheld hpub)⟩

theorem Fresh.mails (h : s.Fresh) {m : Sent} (hm : s.Mails m) :
    s.Since m.approval.signalRef m.approvedAt := by
  rcases hm with hm | hnow | ⟨name, r, hr, hout, hsig, hat⟩
  · exact h.mail m hm
  · rw [hnow]
    exact h.since_now _
  · rw [hsig, hat]
    exact h.cache name r hr hout

theorem Fresh.moves (h : s.Fresh) (hf : s.Filed nameOf) (hc : s.orderly tr nameOf ev = true)
    (hm : Moves tr nameOf s ev s') : s'.tick.Fresh := by
  cases hm with
  | proposed ps w landed => exact h.proposed hf hc
  | patched name decision approver =>
    refine h.of_same_desk rfl rfl rfl rfl h.mail (h.requests.update fun v hv _ => ?_) h.cache
    obtain ⟨r, -, rfl⟩ := Option.map_eq_some_iff.mp hv
    exact h.since_now _
  | swept name now =>
    exact h.of_same_desk rfl rfl rfl rfl h.mail (h.requests.update nofun) h.cache
  | marked now _ =>
    refine h.of_same_desk rfl rfl rfl rfl h.mail (h.requests.update fun v hv hout => ?_) h.cache
    obtain ⟨r, -, rfl⟩ := Option.map_eq_some_iff.mp hv
    simp [Request.processed, outstanding, processed] at hout
  | delivered k w hlive => exact h.delivered hlive
  | kept _ mails copies =>
    refine h.of_same_desk rfl rfl rfl rfl (fun m hm => h.mails (mails m hm)) h.requests ?_
    intro name r hr
    rcases copies name r hr with hr | hr
    · exact h.cache name r hr
    · exact h.requests name r hr

/-- In every run in which a set is held only where no consent for its fingerprint is
outstanding, every re-issued decision comes from an act of a human after its hold. -/
theorem reissues_fresh {es : List ConsentEvent}
    (ha : (machine tr nameOf retention).Along (fun s ev => s.orderly tr nameOf ev = true) {} es)
    (hr : (machine tr nameOf retention).run {} es = some s) :
    ∀ r ∈ s.reissues, ∃ act, r.approvedAt = some act ∧ r.heldAt < act := by
  have hstart : Fresh {} :=
    ⟨fun f hne => absurd rfl hne, fun m hm => absurd hm not_live_nil, nofun, nofun, nofun⟩
  have hfresh : s.Fresh ∧ s.Filed nameOf := by
    refine Machine.run_invariant (P := fun s => s.Fresh ∧ s.Filed nameOf) ?_
      ⟨hstart, filed_start⟩ ha hr
    intro s ev s' h hc hs
    obtain ⟨s₁, hs₁, rfl⟩ := Option.map_eq_some_iff.mp hs
    have hm := moves_of_effect hs₁
    exact ⟨h.1.moves h.2 hc hm, h.2.step hs⟩
  exact hfresh.1.reissues

end

/-- A transport that grants nothing unattended on `tier1`. -/
def strictTransport : Transport where
  policy := { version := "v1", autoBand := [("tier1", .observe)] }

/-- A set that such a transport holds. -/
def checkoutSet : Proposal.Set where
  name := "ps:checkout"
  signalRef := "checkout"
  serviceTier := "tier1"
  gate := some { passed := true }
  proposals := [{ id := "c1", contractRef := "throttle" }]
  recommended := "c1"

/-- Nothing fails. -/
def fair : Weather := { now := 0, later := 0 }

/-- A hold that is released through its resource, and a later one that a human approves. -/
def twoConsents : List ConsentEvent :=
  [.propose checkoutSet fair true, .patch "checkout" "approve" "operator", .sync "checkout",
    .reconcile "checkout" 0 (.ok ()) false, .mark 0 0 true, .sync "checkout", .deliver 0 fair,
    .ack 0, .propose checkoutSet fair true,
    .approve { signalRef := "checkout", approver := "operator" }, .deliver 1 fair]

theorem twoConsents_fresh :
    ∃ s, (machine strictTransport id 0).run {} twoConsents = some s ∧ s.reissues.length = 2 ∧
      ∀ r ∈ s.reissues, ∃ act, r.approvedAt = some act ∧ r.heldAt < act := by
  obtain ⟨s, hs, hlen⟩ : ∃ s, (machine strictTransport id 0).run {} twoConsents = some s ∧
      s.reissues.length = 2 := ⟨_, rfl, rfl⟩
  exact ⟨s, hs, hlen, reissues_fresh (by decide +kernel) hs⟩

/-- The resource of the first hold is approved, its approval is sent and delivered, but it
cannot be marked.  The set is held again and the informer resyncs. -/
def staleConsent : List ConsentEvent :=
  [.propose checkoutSet fair true, .patch "checkout" "approve" "operator", .sync "checkout",
    .reconcile "checkout" 0 (.ok ()) false, .mark 0 0 false, .deliver 0 fair, .ack 0,
    .propose checkoutSet fair true, .reconcile "checkout" 0 (.ok ()) false, .mark 0 0 true,
    .deliver 1 fair]

/-- The act that approved the first hold, the second event, releases the later hold too, which
is recorded with the eighth. -/
theorem staleConsent_releases :
    ∃ s, (machine strictTransport id 0).run {} staleConsent = some s ∧
      s.reissues = [{ heldAt := 0, approvedAt := some 1 }, { heldAt := 7, approvedAt := some 1 }] ∧
      ¬ ∀ r ∈ s.reissues, ∃ act, r.approvedAt = some act ∧ r.heldAt < act := by
  refine ⟨_, rfl, by decide +kernel, fun hfresh => ?_⟩
  obtain ⟨act, hact, hlt⟩ := hfresh { heldAt := 7, approvedAt := some 1 } (by decide +kernel)
  cases hact
  exact absurd hlt (by decide)

end Consent

end Beats.Hiss
