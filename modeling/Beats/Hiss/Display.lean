import Beats.Hiss.Consent

/-!
# What the human sees

A hold is kept twice: in `PendingHolds`, which a later hold of the fingerprint overwrites, and as an
`ApprovalRequest` resource, which is created once, marked when it was acted on and swept after a
while.  The human reads the resource, and what is released is the hold.

`Shown` says that every pending hold has an unprocessed resource that displays it.  A step keeps
this exactly if it is `faithful`, so that is what a run has to meet (`shown_throughout_iff`), and a
second set of a fingerprint need not: it is released under the display of the first
(`secondSet_released_unseen`).
-/

namespace Beats.Hiss.Consent

open Decision Lib Function Machine

/-! ## What is shown -/

variable (tr : Transport) (nameOf : String → String)

/-- The resource is there, is not processed, and displays the hold. -/
def shows (u : Option Request) (held : Governed) : Bool :=
  u.any fun u =>
    let spec := newApprovalRequestSpec held
    u.cr.status.phase != "Processed" && u.cr.spec.action == spec.action &&
      u.cr.spec.band == spec.band && u.cr.spec.reasons == spec.reasons

/-- Every pending hold is shown. -/
def Shown (s : Consent) : Prop :=
  ∀ f held, s.desk.holds.holds f = some held → shows (s.requests (nameOf f)) held = true

/-- The resource, where there is one, is of a fingerprint that is not pending. -/
def settled (s : Consent) (name : String) : Bool :=
  (s.requests name).all fun u => (s.desk.holds.holds u.cr.spec.signalRef).isNone

/-- The step holds a set that its resource displays, and marks or deletes no resource of a
pending hold. -/
def faithful (s : Consent) : ConsentEvent → Bool
  | .propose ps w landed =>
    let u := s.requests (nameOf ps.signalRef)
    !tr.awaits ps w || (u.isNone && creates tr ps w landed) || shows u (tr.judged ps w)
  | .sweep name _ deleted => !deleted || s.settled name
  | .mark k _ patched => !patched || s.marking[k]?.all s.settled
  | _ => true

section

variable {tr : Transport} {nameOf : String → String} {retention : Duration} {s s' : Consent}

variable {u : Option Request} {name : String} {e : ConsentEvent}

theorem shows_iff {held : Governed} :
    shows u held = true ↔ ∃ v, u = some v ∧ v.cr.status.phase ≠ "Processed" ∧
      v.cr.spec.action = (newApprovalRequestSpec held).action ∧
      v.cr.spec.band = (newApprovalRequestSpec held).band ∧
      v.cr.spec.reasons = (newApprovalRequestSpec held).reasons := by
  cases u with
  | none => simp [shows]
  | some v => simp [shows, and_assoc]

theorem shows_new (name : String) (held : Governed) :
    shows (some { cr := { name, spec := newApprovalRequestSpec held } }) held = true :=
  shows_iff.mpr ⟨_, rfl, by simp, rfl, rfl, rfl⟩

theorem shows_patched {decision approver : String} (held : Governed) :
    shows (u.map (s.patched decision approver)) held = shows u held := by
  cases u <;> rfl

theorem shows_processed {now : Time} (held : Governed) :
    shows (u.map (Request.processed now)) held = false := by
  cases u <;> rfl

/-! ## Steps -/

theorem Shown.of_shows (h : s.Shown nameOf)
    (hholds : ∀ f held, s'.desk.holds.holds f = some held → s.desk.holds.holds f = some held)
    (hreq : ∀ name held, shows (s'.requests name) held = shows (s.requests name) held) :
    s'.Shown nameOf := by
  intro f held hf
  rw [hreq]
  exact h f held (hholds f held hf)

/-- A resource that shows nothing any more has to be of no pending hold. -/
theorem shown_revise_iff (hinj : Injective nameOf) (hn : Named nameOf s.requests)
    (h : s.Shown nameOf) (hu : ∀ held, shows u held = false) :
    (s.revise name u).Shown nameOf ↔ s.settled name = true := by
  constructor
  · intro hs'
    cases hv : s.requests name with
    | none => simp [settled, hv]
    | some v =>
      cases hheld : s.desk.holds.holds v.cr.spec.signalRef with
      | none => simp [settled, hv, hheld]
      | some held =>
        have hshown := hs' v.cr.spec.signalRef held hheld
        rw [hn name v hv, requests_revise_self, hu] at hshown
        cases hshown
  · intro hset f held hf
    have hshown := h f held hf
    by_cases hname : nameOf f = name
    · obtain ⟨v, hv, -⟩ := shows_iff.mp hshown
      obtain rfl : v.cr.spec.signalRef = f := hinj (hn _ v hv)
      have hf : s.desk.holds.holds v.cr.spec.signalRef = some held := hf
      rw [hname] at hv
      simp [settled, hv, hf] at hset
    · rwa [requests_revise_of_ne s hname]

/-- After a call of `handle` the resource of the set is the one that was there, or a new one. -/
theorem requests_proposed_self (s : Consent) (ps : Proposal.Set) (w : Weather) (landed : Bool) :
    (s.proposed tr nameOf ps w landed).requests (nameOf ps.signalRef) =
      (s.requests (nameOf ps.signalRef)).or
        (if creates tr ps w landed then
          some
            { cr :=
                { name := nameOf ps.signalRef
                  spec := newApprovalRequestSpec (tr.judged ps w) } }
        else none) := by
  unfold proposed
  cases hc : creates tr ps w landed with
  | false => simp
  | true =>
    simp only [if_true, create, Transport.judged_signalRef]
    cases hu : s.requests (nameOf ps.signalRef) with
    | none => simp
    | some u => simp [hu]

theorem requests_proposed_of_ne (s : Consent) {ps : Proposal.Set}
    (h : name ≠ nameOf ps.signalRef) (w : Weather) (landed : Bool) :
    (s.proposed tr nameOf ps w landed).requests name = s.requests name := by
  unfold proposed
  dsimp only
  split
  · unfold create
    rw [Transport.judged_signalRef]
    cases s.requests (nameOf ps.signalRef) with
    | some u => rfl
    | none => exact update_of_ne h ..
  · rfl

theorem shown_proposed_iff (hinj : Injective nameOf) (h : s.Shown nameOf)
    (ps : Proposal.Set) (w : Weather) (landed : Bool) :
    (s.proposed tr nameOf ps w landed).Shown nameOf ↔
      s.faithful tr nameOf (.propose ps w landed) = true := by
  have hholds := tr.handle_holds ps w s.desk
  change (s.proposed tr nameOf ps w landed).desk.holds = if tr.awaits ps w then
    s.desk.holds.record (tr.judged ps w) else s.desk.holds at hholds
  cases ha : tr.awaits ps w with
  | false =>
    rw [ha] at hholds
    refine iff_of_true (h.of_shows (fun f held hf => by rwa [hholds] at hf) fun name held => ?_)
      (by simp [faithful, ha])
    simp [proposed, creates, ha]
  | true =>
    rw [ha, if_pos rfl] at hholds
    have hself := PendingHolds.holds_record_self s.desk.holds (tr.judged ps w)
    rw [Transport.judged_signalRef] at hself
    -- the hold that was recorded is the one to look at
    have hrest : (s.proposed tr nameOf ps w landed).Shown nameOf ↔
        shows ((s.proposed tr nameOf ps w landed).requests (nameOf ps.signalRef))
          (tr.judged ps w) = true := by
      refine ⟨fun hs => hs ps.signalRef _ (by rw [hholds, hself]), fun hs f held hf => ?_⟩
      rw [hholds] at hf
      by_cases hfp : f = ps.signalRef
      · subst hfp
        rw [hself] at hf
        cases hf
        exact hs
      · rw [PendingHolds.holds_record_of_ne (by rwa [Transport.judged_signalRef])] at hf
        rw [requests_proposed_of_ne s (fun hn => hfp (hinj hn))]
        exact h f held hf
    rw [hrest, requests_proposed_self]
    cases hu : s.requests (nameOf ps.signalRef) with
    | some u => simp [faithful, ha, hu]
    | none =>
      cases hc : creates tr ps w landed with
      | true => simp [faithful, ha, hu, hc, shows_new]
      | false => simp [faithful, ha, hu, hc]

theorem shown_moves_iff (hinj : Injective nameOf) (hn : s.Filed nameOf)
    (h : s.Shown nameOf) (hm : Moves tr nameOf s e s') :
    s'.Shown nameOf ↔ s.faithful tr nameOf e = true := by
  cases hm with
  | proposed ps w landed => exact shown_proposed_iff hinj h ps w landed
  | patched name =>
    refine iff_of_true (h.of_shows (fun _ _ hf => hf) fun name' held => ?_) rfl
    by_cases hname : name' = name
    · subst hname
      rw [requests_revise_self, shows_patched]
    · rw [requests_revise_of_ne s hname]
  | swept => exact shown_revise_iff hinj hn.requests h fun _ => rfl
  | @marked k name now hname =>
    rw [faithful, hname]
    exact shown_revise_iff hinj hn.requests h shows_processed
  | @delivered k w m _ =>
    -- an approval takes a hold and makes none
    refine iff_of_true (h.of_shows (fun f held hf => ?_) fun _ _ => rfl) rfl
    change (tr.approveHandler m.approval w s.desk).1.holds.holds f = some held at hf
    rw [Transport.approveHandler_holds] at hf
    by_cases hfa : f = m.approval.signalRef
    · rw [hfa, PendingHolds.holds_take_self] at hf
      cases hf
    · rwa [PendingHolds.holds_take_of_ne hfa] at hf
  | @kept e _ _ _ still _ _ =>
    refine iff_of_true (h.of_shows (fun _ _ hf => hf) fun _ _ => rfl) ?_
    cases e with
    | sweep _ _ deleted | mark _ _ deleted =>
      obtain rfl : deleted = false := still
      rfl
    | propose _ _ _ | patch _ _ _ => cases still
    | _ => rfl

/-! ## Runs -/

/-- In a state in which every hold is shown, an approval releases what its resource displays. -/
theorem Shown.released (h : s.Shown nameOf) {a : Approval} {held : Governed}
    (hheld : s.desk.holds.holds a.signalRef = some held) (w : Weather) :
    ∃ u, s.requests (nameOf a.signalRef) = some u ∧
      ((tr.approveHandler a w s.desk).1.decisions = s.desk.decisions ∨
        ∃ g, (tr.approveHandler a w s.desk).1.decisions = s.desk.decisions ++ [g] ∧
          g.set.contractRefFor g.decision.candidateRef = u.cr.spec.action ∧
          g.decision.grantedBand.text = u.cr.spec.band) := by
  obtain ⟨u, hu, -, haction, hband, -⟩ := shows_iff.mp (h a.signalRef held hheld)
  refine ⟨u, hu, ?_⟩
  rw [Transport.approveHandler_of_held hheld]
  rcases tr.release_cases held a w { s.desk with holds := (s.desk.holds.take a.signalRef).2 } with
    ⟨-, -, -, -, he⟩ | ⟨-, he, -⟩
  · refine .inr ⟨{ decision := tr.reissue held a w, set := held.set }, by rw [he], ?_, ?_⟩
    · exact haction.symm
    · exact hband.symm
  · exact .inl (by rw [he])

/-- Every state of a run shows its holds exactly if every step of the run is faithful.  In a
state that shows its holds, what an approval re-issues is the action and the band that the
resource displays. -/
theorem shown_throughout_iff (hinj : Function.Injective nameOf) {es : List ConsentEvent}
    (hrun : (machine tr nameOf retention).run {} es = some s) :
    ((∀ es₁ es₂ s₁, es = es₁ ++ es₂ → (machine tr nameOf retention).run {} es₁ = some s₁ →
        s₁.Shown nameOf) ↔
      (machine tr nameOf retention).Along (fun s e => s.faithful tr nameOf e = true) {} es) ∧
    (s.Shown nameOf → ∀ a held w, s.desk.holds.holds a.signalRef = some held →
      ∃ u, s.requests (nameOf a.signalRef) = some u ∧
        ((tr.approveHandler a w s.desk).1.decisions = s.desk.decisions ∨
          ∃ g, (tr.approveHandler a w s.desk).1.decisions = s.desk.decisions ++ [g] ∧
            g.set.contractRefFor g.decision.candidateRef = u.cr.spec.action ∧
            g.decision.grantedBand.text = u.cr.spec.band)) := by
  have hkeep : ∀ (s : Consent) (e : ConsentEvent) (s' : Consent),
      (s.Filed nameOf ∧ s.Shown nameOf) → (machine tr nameOf retention).step s e = some s' →
        ((s'.Filed nameOf ∧ s'.Shown nameOf) ↔ s.faithful tr nameOf e = true) := by
    intro s e s' h hs
    obtain ⟨s₁, hs₁, rfl⟩ := Option.map_eq_some_iff.mp hs
    rw [← shown_moves_iff hinj h.1 h.2 (moves_of_effect hs₁)]
    exact and_iff_right (h.1.step hs)
  have hstart : Shown nameOf {} := by
    intro f held hheld
    cases hheld
  refine ⟨?_, fun h a held w hheld => h.released hheld w⟩
  rw [along_iff hkeep ⟨filed_start, hstart⟩ hrun]
  refine forall₅_congr fun es₁ es₂ s₁ _ h₁ => ?_
  exact (and_iff_right (filed_run h₁)).symm

end

/-- A hold is released through its resource, which is then marked and swept, and a later set of
another action is held. -/
def sweptBetween (another : Proposal.Set) : List ConsentEvent :=
  [.propose checkoutSet fair false, .patch "checkout" "approve" "operator",
    .sync "checkout", .reconcile "checkout" 0 (.ok ()) false, .deliver 0 fair, .ack 0,
    .mark 0 0 true, .sync "checkout", .sweep "checkout" 86400000000000 true,
    .propose another fair false]

/-- A set of another action. -/
def otherSet : Proposal.Set :=
  { checkoutSet with proposals := [{ id := "c1", contractRef := "restart" }] }

theorem sweptBetween_shown : ∃ s,
    (machine strictTransport id 0).run {} (sweptBetween otherSet) = some s ∧
      s.desk.decisions.length = 3 ∧ (s.desk.holds.holds "checkout").isSome = true ∧
      s.Shown id := by
  refine exists_run_of (P := fun s => s.desk.decisions.length = 3 ∧
      (s.desk.holds.holds "checkout").isSome = true)
    (by decide +kernel) fun s hrun ⟨hlen, hheld⟩ => ⟨hlen, hheld, ?_⟩
  have hshown := (shown_throughout_iff Function.injective_id hrun).1.mpr (by decide +kernel)
  exact hshown _ [] s (List.append_nil _).symm hrun

/-- A set is held, and before a human has looked at it another set of the fingerprint is held. -/
def secondSet : List ConsentEvent :=
  [.propose checkoutSet fair false, .propose otherSet fair false]

/-- The human reads of the first action and approves it, and the second is released. -/
theorem secondSet_released_unseen : ∃ s,
    (machine strictTransport id 0).run {} secondSet = some s ∧
      (∃ held u, s.desk.holds.holds "checkout" = some held ∧ s.requests "checkout" = some u ∧
        u.cr.spec.action = "throttle" ∧
        held.set.contractRefFor held.decision.candidateRef = "restart") ∧
      ∃ s', (machine strictTransport id 0).run s
          [.patch "checkout" "approve" "operator", .sync "checkout",
            .reconcile "checkout" 0 (.ok ()) false, .deliver 0 fair] = some s' ∧
        ∃ g ∈ s'.desk.decisions, g.decision.verdict = .approved ∧
          g.decision.approver = "operator" ∧
          g.set.contractRefFor g.decision.candidateRef = "restart" := by
  refine ⟨_, rfl, ⟨_, _, rfl, rfl, by decide +kernel, by decide +kernel⟩, ?_⟩
  exact exists_run (by decide +kernel)

end Beats.Hiss.Consent
