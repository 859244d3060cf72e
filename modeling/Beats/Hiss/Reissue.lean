import Mathlib.Data.List.Induction
import Mathlib.Data.List.Perm.Basic
import Beats.Hiss.Consent

/-!
# What becomes of a hold

Every run of `handle` and `approveHandler`, with their steps in any order: a handler that is under
way has done its work on the holds and has still to publish.  A publish may fail, and one that fails
may have been stored all the same.

Holds are kept by fingerprint, and one overwrites another.  So a hold has a number here, given in
the order of recording, and a decision that an approval published has the number of the hold that it
took (`Docket.reissueOf`).  The numbers are not the code's: without them a docket is a desk
(`Docket.run_handle`, `Docket.run_approveHandler`).

`reissue_frame` is what is promised of approvals.
-/

namespace Beats.Hiss

open Decision Lib List Function Machine PendingHolds

/-! ## The machine -/

/-- A decision on its way out, and the hold it re-issues. -/
structure Emission where
  governed : Governed
  reissueOf : Option Nat := none

/-- The desk, with a record of its holds. -/
structure Docket where
  holds : PendingHolds := {}
  /-- The holds that were recorded; the number of one is its place. -/
  recorded : List Governed := []
  /-- The number of the pending hold of a fingerprint. -/
  heldAs : String → Nat := fun _ => 0
  /-- What the handlers under way are about to publish. -/
  underway : List Emission := []
  /-- The history of `thump.decisions`. -/
  published : List Emission := []

inductive DocketEvent where
  /-- `handle` runs up to its publish. -/
  | propose (ps : Proposal.Set) (w : Weather)
  /-- `approveHandler` runs up to its publish. -/
  | approve (a : Approval) (w : Weather)
  /-- A handler publishes and returns.  `stored` says whether the stream has the message. -/
  | send (k : Nat) (stored : Bool)

/-- The holds and the history. -/
def Desk.view (d : Desk) : PendingHolds × List Governed := (d.holds, d.decisions)

namespace Docket

variable (tr : Transport)

def record (s : Docket) (g : Governed) : Docket :=
  { s with
    holds := s.holds.record g
    recorded := s.recorded ++ [g]
    heldAs := update s.heldAs g.decision.signalRef s.recorded.length }

def taken (s : Docket) (fingerprint : String) : Docket :=
  { s with holds := (s.holds.take fingerprint).2 }

/-- The decision that is published again, with the number of its hold. -/
def reissued (s : Docket) (held : Governed) (a : Approval) (w : Weather) : Emission where
  governed := { decision := tr.reissue held a w, set := held.set }
  reissueOf := some (s.heldAs a.signalRef)

/-- A handler has something to publish. -/
def launch (s : Docket) (e : Emission) : Docket := { s with underway := s.underway ++ [e] }

def step (s : Docket) : DocketEvent → Option Docket
  | .propose ps w =>
    let g := tr.judged ps w
    if tr.awaits ps w then
      -- a request that cannot be created ends the handler, and the hold stays
      if tr.approvals && !w.create.isOk then some (s.record g)
      else some ((s.record g).launch { governed := g })
    else some (s.launch { governed := g })
  | .approve a w =>
    match s.holds.holds a.signalRef with
    | none => some s
    | some held =>
      if (tr.reissue held a w).auditable.isOk then
        some ((s.taken a.signalRef).launch (s.reissued tr held a w))
      else some (s.taken a.signalRef)
  | .send k stored =>
    s.underway[k]?.map fun e =>
      { s with
        underway := s.underway.eraseIdx k
        published := if stored then s.published ++ [e] else s.published }

/-- The machine of the two handlers. -/
def machine : Machine Docket DocketEvent where
  step := step tr

/-! ## Numbers -/

/-- What is under way or published. -/
def emissions (s : Docket) : List Emission := s.underway ++ s.published

/-- The numbers of the holds that were taken and whose decision is under way or published. -/
def numbers (s : Docket) : List Nat := s.emissions.filterMap Emission.reissueOf

/-- The emission is the hold of its number, re-issued. -/
def Reissues (recorded : List Governed) (e : Emission) : Prop :=
  ∀ n, e.reissueOf = some n → ∃ held a w, recorded[n]? = some held ∧
    e.governed = { decision := tr.reissue held a w, set := held.set }

/-- The bookkeeping: a pending hold has the number it was recorded under, no number is on
its way out twice or while its hold is pending, and each stands for what was recorded. -/
structure Booked (s : Docket) : Prop where
  pending : ∀ f held, s.holds.holds f = some held →
    held.decision.signalRef = f ∧ s.recorded[s.heldAs f]? = some held
  nodup : s.numbers.Nodup
  untaken : ∀ f held, s.holds.holds f = some held → s.heldAs f ∉ s.numbers
  reissues : ∀ e ∈ s.emissions, Reissues tr s.recorded e

variable {tr} {s s' : Docket}

theorem booked_start : Booked tr {} where
  pending f held h := by cases h
  nodup := nodup_nil
  untaken f held h := by cases h
  reissues e he := by cases he

theorem Booked.below (h : Booked tr s) {n : Nat} (hn : n ∈ s.numbers) : n < s.recorded.length := by
  obtain ⟨e, he, hen⟩ := mem_filterMap.mp hn
  obtain ⟨held, a, w, hheld, -⟩ := h.reissues e he n hen
  exact (List.getElem?_eq_some_iff.mp hheld).1

theorem Booked.of_subperm (h : Booked tr s) (hholds : s'.holds = s.holds)
    (hrecorded : s'.recorded = s.recorded) (hheldAs : s'.heldAs = s.heldAs)
    (hsub : s'.emissions.Subperm s.emissions) : Booked tr s' := by
  obtain ⟨l, hperm, hl⟩ := hsub
  have hnodup : (l.filterMap Emission.reissueOf).Nodup := h.nodup.sublist (hl.filterMap _)
  have hsubset : s'.emissions ⊆ s.emissions := fun e he => hl.subset (hperm.mem_iff.mpr he)
  refine ⟨?_, ?_, ?_, ?_⟩
  · rw [hholds, hrecorded, hheldAs]
    exact h.pending
  · exact (hperm.filterMap _).nodup_iff.mp hnodup
  · rw [hholds, hheldAs]
    exact fun f held hf hn => h.untaken f held hf (filterMap_subset _ hsubset hn)
  · rw [hrecorded]
    exact fun e he => h.reissues e (hsubset he)

theorem Booked.record (h : Booked tr s) (g : Governed) : Booked tr (s.record g) := by
  have hold {n : Nat} {held : Governed} (hn : s.recorded[n]? = some held) :
      (s.recorded ++ [g])[n]? = some held := by
    rw [List.getElem?_append_left (List.getElem?_eq_some_iff.mp hn).1, hn]
  -- the new number is above all that are on their way out
  have hnew : s.recorded.length ∉ s.numbers := fun hn => Nat.lt_irrefl _ (h.below hn)
  refine ⟨fun f held hf => ?_, h.nodup, fun f held hf => ?_, fun e he n hn => ?_⟩
  · by_cases hfg : f = g.decision.signalRef
    · subst hfg
      cases (holds_record_self s.holds g).symm.trans hf
      refine ⟨rfl, ?_⟩
      change (s.recorded ++ [g])[update s.heldAs g.decision.signalRef _ _]? = _
      rw [update_self, getElem?_concat_length]
    · obtain ⟨href, hat⟩ := h.pending f held ((holds_record_of_ne hfg).symm.trans hf)
      refine ⟨href, ?_⟩
      change (s.recorded ++ [g])[update s.heldAs g.decision.signalRef _ _]? = _
      rw [update_of_ne hfg]
      exact hold hat
  · change update s.heldAs g.decision.signalRef _ f ∉ s.numbers
    by_cases hfg : f = g.decision.signalRef
    · rw [hfg, update_self]
      exact hnew
    · rw [update_of_ne hfg]
      exact h.untaken f held ((holds_record_of_ne hfg).symm.trans hf)
  · obtain ⟨held, a, w, hheld, heq⟩ := h.reissues e he n hn
    exact ⟨held, a, w, hold hheld, heq⟩

variable {d : Desk} {held : Governed} {e : DocketEvent}

theorem holds_of_taken {f fingerprint : String}
    (h : (s.taken fingerprint).holds.holds f = some held) :
    f ≠ fingerprint ∧ s.holds.holds f = some held := by
  by_cases hf : f = fingerprint
  · rw [hf] at h
    exact absurd ((holds_take_self s.holds fingerprint).symm.trans h) nofun
  · exact ⟨hf, (holds_take_of_ne hf).symm.trans h⟩

theorem Booked.taken (h : Booked tr s) (fingerprint : String) :
    Booked tr (s.taken fingerprint) where
  pending f held hf := h.pending f held (holds_of_taken hf).2
  nodup := h.nodup
  untaken f held hf := h.untaken f held (holds_of_taken hf).2
  reissues := h.reissues

theorem emissions_launch (s : Docket) (e : Emission) :
    (s.launch e).emissions.Perm (e :: s.emissions) := by
  rw [emissions, launch, append_assoc]
  exact perm_middle

theorem Booked.launch (h : Booked tr s) (g : Governed) :
    Booked tr (s.launch { governed := g }) := by
  have hperm := emissions_launch s { governed := g }
  have hnumbers : (s.launch { governed := g }).numbers.Perm s.numbers := hperm.filterMap _
  refine ⟨h.pending, hnumbers.nodup_iff.mpr h.nodup, fun f held hf hn => ?_, fun e he => ?_⟩
  · exact h.untaken f held hf (hnumbers.mem_iff.mp hn)
  · rcases mem_cons.mp (hperm.mem_iff.mp he) with rfl | he
    · exact fun n hn => by cases hn
    · exact h.reissues e he

theorem Booked.reissued (h : Booked tr s) {a : Approval}
    (hheld : s.holds.holds a.signalRef = some held) (w : Weather) :
    Booked tr ((s.taken a.signalRef).launch (s.reissued tr held a w)) := by
  have hperm := emissions_launch (s.taken a.signalRef) (s.reissued tr held a w)
  have hnumbers : ((s.taken a.signalRef).launch (s.reissued tr held a w)).numbers.Perm
      (s.heldAs a.signalRef :: s.numbers) := hperm.filterMap _
  obtain ⟨href, hat⟩ := h.pending _ _ hheld
  refine ⟨(h.taken a.signalRef).pending, ?_, fun f held' hf hn => ?_, fun e he => ?_⟩
  · exact hnumbers.nodup_iff.mpr (nodup_cons.mpr ⟨h.untaken _ _ hheld, h.nodup⟩)
  · obtain ⟨hne, hf⟩ := holds_of_taken hf
    rcases mem_cons.mp (hnumbers.mem_iff.mp hn) with heq | hn
    · -- two pending holds of one number would be one hold
      obtain ⟨href', hat'⟩ := h.pending f held' hf
      have heq : s.heldAs f = s.heldAs a.signalRef := heq
      rw [heq, hat] at hat'
      cases hat'
      exact hne (href'.symm.trans href)
    · exact h.untaken f held' hf hn
  · rcases mem_cons.mp (hperm.mem_iff.mp he) with rfl | he
    · intro n hn
      cases hn
      exact ⟨held, a, w, hat, rfl⟩
    · exact h.reissues e he

theorem subperm_send {k : Nat} {e : Emission} (h : s.underway[k]? = some e) (stored : Bool) :
    (s.underway.eraseIdx k ++ if stored then s.published ++ [e] else s.published).Subperm
      s.emissions := by
  obtain ⟨hk, rfl⟩ := List.getElem?_eq_some_iff.mp h
  have hperm := getElem_cons_eraseIdx_perm hk
  cases stored with
  | false =>
    have hsub : (s.underway.eraseIdx k ++ s.published).Sublist s.emissions :=
      (eraseIdx_sublist _ _).append_right _
    exact hsub.subperm
  | true =>
    refine List.Perm.subperm ?_
    rw [if_pos rfl, ← append_assoc]
    exact (perm_append_singleton _ _).trans (hperm.append_right s.published)

theorem Booked.step (h : Booked tr s) (hs : s.step tr e = some s') :
    Booked tr s' := by
  cases e with
  | propose ps w =>
    rw [step] at hs
    split at hs
    · split at hs
      · cases hs
        exact h.record _
      · cases hs
        exact (h.record _).launch _
    · cases hs
      exact h.launch _
  | approve a w =>
    rw [step] at hs
    split at hs
    · cases hs
      exact h
    · rename_i held hheld
      split at hs
      · cases hs
        exact h.reissued hheld w
      · cases hs
        exact h.taken _
  | send k stored =>
    obtain ⟨e, he, rfl⟩ := Option.map_eq_some_iff.mp hs
    exact h.of_subperm rfl rfl rfl (subperm_send he stored)

theorem booked_run {es : List DocketEvent} (h : (machine tr).run {} es = some s) : Booked tr s :=
  run_invariant (fun _ _ _ hs _ => hs.step) booked_start (along_trivial _ _ _) h

/-! ## The handlers of the machine -/

/-- The holds and the history, without the numbers. -/
def view (s : Docket) : PendingHolds × List Governed :=
  (s.holds, s.published.map Emission.governed)

/-- The steps of a call of `handle`. -/
def handling (tr : Transport) (ps : Proposal.Set) (w : Weather) : List DocketEvent :=
  .propose ps w ::
    if tr.awaits ps w && tr.approvals && !w.create.isOk then [] else [.send 0 w.publish.isOk]

/-- The steps of a call of `approveHandler`. -/
def approving (tr : Transport) (a : Approval) (w : Weather) (s : Docket) : List DocketEvent :=
  .approve a w ::
    match s.holds.holds a.signalRef with
    | none => []
    | some held =>
      if (tr.reissue held a w).auditable.isOk then [.send 0 w.publish.isOk] else []

theorem run_publish {s₁ : Docket} {m : Emission} {w : Weather} (wrap : String → String)
    (hstep : s.step tr e = some (s₁.launch m)) (hidle : s₁.underway = [])
    (hd : s₁.view = Desk.view d) :
    ∃ s', (machine tr).run s [e, .send 0 w.publish.isOk] = some s' ∧ s'.underway = [] ∧
      s'.view = Desk.view (Transport.publish m.governed w d wrap).1 := by
  refine ⟨{ s₁ with
    published := if w.publish.isOk then s₁.published ++ [m] else s₁.published }, ?_, hidle, ?_⟩
  · refine run_cons_eq_some.mpr ⟨_, hstep, run_cons_eq_some.mpr ⟨_, ?_, rfl⟩⟩
    simp [machine, step, launch, hidle]
  · obtain ⟨hholds, hdecisions⟩ := Prod.mk.inj hd
    unfold Transport.publish
    cases w.publish with
    | error err => exact hd
    | ok _ =>
      refine Prod.ext hholds ?_
      simp [view, Desk.view, Except.isOk, Except.toBool, hdecisions]

/-- The docket once `handle` has recorded its hold, if there is one. -/
def judging (s : Docket) (tr : Transport) (ps : Proposal.Set) (w : Weather) : Docket :=
  if tr.awaits ps w then s.record (tr.judged ps w) else s

theorem step_propose (ps : Proposal.Set) (w : Weather) : s.step tr (.propose ps w) =
      if tr.awaits ps w && tr.approvals && !w.create.isOk then some (s.judging tr ps w)
      else some ((s.judging tr ps w).launch { governed := tr.judged ps w }) := by
  rw [step, judging]
  cases tr.awaits ps w <;> simp

theorem underway_judging (ps : Proposal.Set) (w : Weather) :
    (s.judging tr ps w).underway = s.underway := by
  unfold judging
  split <;> rfl

theorem view_judging (hd : s.view = Desk.view d) (ps : Proposal.Set) (w : Weather) :
    (s.judging tr ps w).view =
      (if tr.awaits ps w then d.holds.record (tr.judged ps w) else d.holds, d.decisions) := by
  obtain ⟨hholds, hdecisions⟩ := Prod.mk.inj hd
  unfold judging
  split
  · exact Prod.ext (congrArg (PendingHolds.record · _) hholds) hdecisions
  · exact hd

theorem run_handle (hd : s.view = Desk.view d) (hidle : s.underway = []) (ps : Proposal.Set)
    (w : Weather) :
    ∃ s', (machine tr).run s (handling tr ps w) = some s' ∧ s'.underway = [] ∧
      s'.view = Desk.view (tr.handle ps w d).1 := by
  have hidle : (s.judging tr ps w).underway = [] := (underway_judging ps w).trans hidle
  have hview : (s.judging tr ps w).view = _ := view_judging hd ps w
  have hstep : s.step tr (.propose ps w) = _ := step_propose ps w
  unfold handling
  rcases tr.handle_cases ps w d with ⟨hrefused, he⟩ | ⟨hpass, he⟩
  · rw [if_pos hrefused] at hstep ⊢
    refine ⟨_, run_cons_eq_some.mpr ⟨_, hstep, rfl⟩, hidle, ?_⟩
    rw [he, hview]
    rfl
  · rw [if_neg (by simp [hpass])] at hstep ⊢
    rw [he]
    exact run_publish id hstep hidle hview

theorem run_approveHandler (hd : s.view = Desk.view d) (hidle : s.underway = []) (a : Approval)
    (w : Weather) :
    ∃ s', (machine tr).run s (approving tr a w s) = some s' ∧ s'.underway = [] ∧
      s'.view = Desk.view (tr.approveHandler a w d).1 := by
  obtain ⟨hholds, hdecisions⟩ := Prod.mk.inj hd
  have htaken : (s.taken a.signalRef).view =
      Desk.view { d with holds := (d.holds.take a.signalRef).2 } :=
    Prod.ext (congrArg (fun h => (take h a.signalRef).2) hholds) hdecisions
  cases hheld : s.holds.holds a.signalRef with
  | none =>
    have hstep : s.step tr (.approve a w) = some s := by simp [step, hheld]
    refine ⟨s, ?_, hidle, ?_⟩
    · simp only [approving, hheld]
      exact run_cons_eq_some.mpr ⟨_, hstep, rfl⟩
    · rw [Transport.approveHandler_of_unheld (hholds ▸ hheld)]
      exact hd
  | some held =>
    rw [Transport.approveHandler_of_held (hholds ▸ hheld), Transport.release]
    cases haudit : (tr.reissue held a w).auditable with
    | error why =>
      have hstep : s.step tr (.approve a w) = some (s.taken a.signalRef) := by
        simp [step, hheld, haudit, Except.isOk, Except.toBool]
      refine ⟨s.taken a.signalRef, ?_, hidle, htaken⟩
      simp only [approving, hheld, haudit, Except.isOk, Except.toBool, Bool.false_eq_true, if_false]
      exact run_cons_eq_some.mpr ⟨_, hstep, rfl⟩
    | ok _ =>
      have hstep : s.step tr (.approve a w) =
          some ((s.taken a.signalRef).launch (s.reissued tr held a w)) := by
        simp [step, hheld, haudit, Except.isOk, Except.toBool]
      obtain ⟨s', hrun, hidle', hview⟩ := run_publish
        (fun err => "hiss: publish re-issued decision for " ++ a.signalRef ++ ": " ++ err)
        hstep hidle htaken
      refine ⟨s', ?_, hidle', hview.trans ?_⟩
      · simpa only [approving, hheld, haudit, Except.isOk, Except.toBool, if_true] using hrun
      · -- the log is written after the publish
        unfold Transport.publish
        cases w.publish <;> rfl

end Docket

/-- A call of one of the two handlers. -/
inductive Handled where
  | handle (ps : Proposal.Set) (w : Weather)
  | approve (a : Approval) (w : Weather)

/-- The desk after a handler ran. -/
def Handled.on (tr : Transport) (d : Desk) : Handled → Desk
  | .handle ps w => (tr.handle ps w d).1
  | .approve a w => (tr.approveHandler a w d).1

/-- Calls that do not overlap are runs of the machine: what the desk holds and has published
after them is what the docket holds and has published, with nothing left under way. -/
theorem docket_refines (tr : Transport) (calls : List Handled) : ∃ es s,
    (Docket.machine tr).run {} es = some s ∧ s.underway = [] ∧
      s.view = Desk.view (calls.foldl (Handled.on tr) {}) := by
  -- from the last call, which starts at an idle docket that shows the desk before it
  induction calls using reverseRecOn with
  | nil => exact ⟨[], {}, rfl, rfl, rfl⟩
  | append_singleton calls call ih =>
    obtain ⟨es, s, hrun, hidle, hview⟩ := ih
    obtain ⟨es', s', hrun', hidle', hview'⟩ : ∃ es' s', (Docket.machine tr).run s es' = some s' ∧
        s'.underway = [] ∧ s'.view = Desk.view (call.on tr (calls.foldl (Handled.on tr) {})) := by
      cases call with
      | handle ps w => exact ⟨_, Docket.run_handle hview hidle ps w⟩
      | approve a w => exact ⟨_, Docket.run_approveHandler hview hidle a w⟩
    refine ⟨es ++ es', s', ?_, hidle', ?_⟩
    · rw [run_append, hrun]
      exact hrun'
    · rw [foldl_concat]
      exact hview'

/-- The decision as it was held, but for the approval. -/
def SameButApproval (d held : Decision) : Prop :=
  d = { held with
    id := d.id
    verdict := d.verdict
    grantedBand := d.grantedBand
    reasons := d.reasons
    approver := d.approver
    policyVersion := d.policyVersion
    evaluatedAt := d.evaluatedAt }

/-- In every run of the two handlers a recorded hold is re-issued at most once.  What is
published then has the set of the hold and its decision, approved at the band that was
requested and the same but for the approval.  An approval of what is not held changes
nothing. -/
theorem reissue_frame {tr : Transport} {es : List DocketEvent} {s : Docket}
    (hrun : (Docket.machine tr).run {} es = some s) :
    (s.published.filterMap Emission.reissueOf).Nodup ∧
    (∀ e ∈ s.published, ∀ n, e.reissueOf = some n → ∃ held, s.recorded[n]? = some held ∧
      e.governed.set = held.set ∧ e.governed.decision.verdict = .approved ∧
      e.governed.decision.grantedBand = e.governed.decision.requestedBand ∧
      SameButApproval e.governed.decision held.decision) ∧
    ∀ a w, s.holds.holds a.signalRef = none →
      (Docket.machine tr).step s (.approve a w) = some s := by
  have h := Docket.booked_run hrun
  refine ⟨?_, fun e he n hn => ?_, fun a w hnone => ?_⟩
  · exact h.nodup.sublist ((sublist_append_right _ _).filterMap _)
  · obtain ⟨held, a, w, hheld, heq⟩ := h.reissues e (mem_append_right _ he) n hn
    rw [heq]
    exact ⟨held, hheld, rfl, rfl, rfl, rfl⟩
  · change s.step tr (.approve a w) = some s
    rw [Docket.step, hnone]

def approvedTwice : List DocketEvent :=
  let a : Approval := { signalRef := "checkout", approver := "operator" }
  [.propose Consent.checkoutSet Consent.fair, .send 0 true, .approve a Consent.fair,
    .approve a Consent.fair, .propose Consent.checkoutSet Consent.fair, .send 0 true,
    .approve a Consent.fair, .send 0 true, .send 0 true]

theorem approvedTwice_frame :
    ∃ s, (Docket.machine Consent.strictTransport).run {} approvedTwice = some s ∧
      s.published.filterMap Emission.reissueOf = [0, 1] ∧
      ∀ e ∈ s.published, ∀ n, e.reissueOf = some n → ∃ held, s.recorded[n]? = some held ∧
        e.governed.set = held.set ∧ e.governed.decision.verdict = .approved ∧
        e.governed.decision.grantedBand = e.governed.decision.requestedBand ∧
        SameButApproval e.governed.decision held.decision := by
  exact exists_run_of
    (by decide +kernel) fun s hrun hnumbers => ⟨hnumbers, (reissue_frame hrun).2.1⟩

end Beats.Hiss
