import Beats.Hiss.Reissue

/-!
# Rebuilding the holds

`rebuildHolds` of `internal/hiss`, which a restart runs over the history of `thump.decisions`: the
latest decision of a fingerprint is its hold, if it awaits a human.

The live holds come about in another way.  `handle` records a hold and then publishes, and
`approveHandler` takes one and then publishes, and the two run side by side (`Docket`).  A
break-glass approval of `calipers` is published without either.  So the live holds and the history
move apart between the two steps of a handler, and they meet again exactly where what is published
says what is held (`speaksFor`, `rebuildHolds_eq`).
-/

namespace Beats.Hiss

open Decision Lib List Consent

/-! ## The rebuild -/

def latest (history : List Governed) : String → Option Governed :=
  history.foldl (fun m g => Function.update m g.decision.signalRef (some g)) fun _ => none

/-- The holds that a history comes to. -/
def rebuildHolds (history : List Governed) : PendingHolds where
  holds f := (latest history f).filter fun g => g.decision.verdict.awaitsApproval

theorem latest_snoc (history : List Governed) (g : Governed) :
    latest (history ++ [g]) = Function.update (latest history) g.decision.signalRef (some g) := by
  simp [latest, foldl_append]

/-- What a decision says about the hold of its fingerprint. -/
def holdOf (g : Governed) : Option Governed :=
  if g.decision.verdict.awaitsApproval then some g else none

theorem rebuildHolds_snoc_self (history : List Governed) (g : Governed) :
    (rebuildHolds (history ++ [g])).holds g.decision.signalRef = holdOf g := by
  simp [rebuildHolds, latest_snoc, holdOf, Option.filter]

theorem rebuildHolds_snoc_of_ne (history : List Governed) {g : Governed} {f : String}
    (h : f ≠ g.decision.signalRef) :
    (rebuildHolds (history ++ [g])).holds f = (rebuildHolds history).holds f := by
  simp [rebuildHolds, latest_snoc, h]

/-! ## The break-glass approval -/

def forcedDecision (d : Decision) (fp operator : String) (idAt evaluatedAt : Time) : Decision :=
  { d with
    id := "dec:" ++ fp ++ ":force:" ++ toString idAt.unix
    verdict := .approved
    grantedBand := d.requestedBand
    reasons := []
    forced := true
    operator := operator
    evaluatedAt := evaluatedAt }

/-- `runForce` of `internal/calipers`.  `snapshot` is the part of the history it has read. -/
def force (snapshot : List Governed) (fp operator : String) (idAt evaluatedAt : Time) :
    Except String Governed :=
  match (latest snapshot fp).filter fun g => g.decision.verdict.awaitsApproval with
  | none => .error ("calipers: " ++ fp ++ " is not currently held — nothing to force\n")
  | some g =>
    match (forcedDecision g.decision fp operator idAt evaluatedAt).auditable with
    | .error why => .error ("calipers: " ++ why)
    | .ok () =>
      .ok { decision := forcedDecision g.decision fp operator idAt evaluatedAt, set := g.set }

/-! ## The live holds -/

/-- A step of a handler, or an operator who forces a fingerprint, having read the first `seen`
decisions. -/
inductive LiveEvent where
  | handler (e : DocketEvent)
  | force (fp operator : String) (seen : Nat) (idAt evaluatedAt : Time)

namespace Live

variable (tr : Transport)

/-- The history of `thump.decisions`. -/
def history (s : Docket) : List Governed := s.published.map Emission.governed

/-- What an event is about to publish. -/
def published (s : Docket) : LiveEvent → Option Governed
  | .handler (.send k _) => s.underway[k]?.map Emission.governed
  | .handler _ => none
  | .force fp operator seen idAt evaluatedAt =>
    (Hiss.force ((history s).take seen) fp operator idAt evaluatedAt).toOption

/-- The docket after an event.  What is forced goes straight to the history. -/
def step (s : Docket) : LiveEvent → Option Docket
  | .handler e => s.step tr e
  | .force fp operator seen idAt evaluatedAt =>
    (published s (.force fp operator seen idAt evaluatedAt)).map fun g =>
      { s with published := s.published ++ [{ governed := g }] }

def machine : Machine Docket LiveEvent where
  step := step tr

/-- No handler fails. -/
def succeeds (s : Docket) : LiveEvent → Bool
  | .handler (.propose ps w) => !(tr.awaits ps w && tr.approvals && !w.create.isOk)
  | .handler (.approve a w) =>
    (s.holds.holds a.signalRef).all fun held => (tr.reissue held a w).auditable.isOk
  | .handler (.send _ stored) => stored
  | .force _ _ _ _ _ => true

/-- A decision is published only where it says what is held. -/
def speaksFor (s : Docket) (e : LiveEvent) : Bool :=
  (published s e).all fun g => s.holds.holds g.decision.signalRef = holdOf g

/-! ## The live holds and the history -/

variable {tr} {s s' s₁ : Docket} {m : Emission}

/-- A hold stands under its own fingerprint, and what is held is what a rebuild finds unless
a decision on the fingerprint is about to be published. -/
structure Tracks (s : Docket) : Prop where
  keyed : ∀ f g, s.holds.holds f = some g → g.decision.signalRef = f
  settled : ∀ f, s.holds.holds f = (rebuildHolds (history s)).holds f ∨
    ∃ m ∈ s.underway, m.governed.decision.signalRef = f

theorem tracks_start : Tracks {} where
  keyed f g h := by cases h
  settled f := .inl rfl

/-- A handler may touch the hold of the fingerprint that it is about to publish on. -/
theorem Tracks.launch (h : Tracks s) (hunder : s₁.underway = s.underway)
    (hpub : s₁.published = s.published)
    (hself : ∀ g, s₁.holds.holds m.governed.decision.signalRef = some g →
      g.decision.signalRef = m.governed.decision.signalRef)
    (hother : ∀ f, f ≠ m.governed.decision.signalRef → s₁.holds.holds f = s.holds.holds f) :
    Tracks (s₁.launch m) := by
  constructor
  · intro f g hf
    by_cases hfm : f = m.governed.decision.signalRef
    · subst hfm
      exact hself g hf
    · exact h.keyed f g ((hother f hfm).symm.trans hf)
  · intro f
    change s₁.holds.holds f = (rebuildHolds (s₁.published.map _)).holds f ∨
      ∃ m' ∈ s₁.underway ++ [m], _
    rw [hpub, hunder]
    by_cases hfm : f = m.governed.decision.signalRef
    · exact .inr ⟨m, mem_append_right _ mem_cons_self, hfm.symm⟩
    · rw [hother f hfm]
      exact (h.settled f).imp_right fun ⟨m', hm', href⟩ => ⟨m', mem_append_left _ hm', href⟩

theorem Tracks.proposed (h : Tracks s) (ps : Proposal.Set) (w : Weather) :
    Tracks ((s.judging tr ps w).launch { governed := tr.judged ps w }) := by
  unfold Docket.judging
  split
  · refine h.launch rfl rfl (fun g hg => ?_) fun f hf => PendingHolds.holds_record_of_ne hf
    cases (PendingHolds.holds_record_self s.holds _).symm.trans hg
    rfl
  · exact h.launch rfl rfl (fun g hg => h.keyed _ g hg) fun _ _ => rfl

theorem Tracks.taken (h : Tracks s) {held : Governed} {a : Approval}
    (hheld : s.holds.holds a.signalRef = some held) (w : Weather) :
    Tracks ((s.taken a.signalRef).launch (s.reissued tr held a w)) := by
  have href : (s.reissued tr held a w).governed.decision.signalRef = a.signalRef :=
    h.keyed a.signalRef held hheld
  refine h.launch rfl rfl (fun g hg => ?_) fun f hf => ?_
  · rw [href] at hg
    exact absurd rfl (Docket.holds_of_taken hg).1
  · rw [href] at hf
    exact PendingHolds.holds_take_of_ne hf

/-- A publish settles the fingerprint of a decision that says what is held, and touches no
other. -/
theorem Tracks.published (h : Tracks s) {underway : List Emission}
    (hm : s.holds.holds m.governed.decision.signalRef = holdOf m.governed)
    (hkept : ∀ m' ∈ s.underway, m' ≠ m → m' ∈ underway) :
    Tracks { s with underway, published := s.published ++ [m] } := by
  refine ⟨h.keyed, fun f => ?_⟩
  have hhistory : history { s with underway, published := s.published ++ [m] } =
      history s ++ [m.governed] := map_append
  rw [hhistory]
  by_cases hf : f = m.governed.decision.signalRef
  · subst hf
    exact .inl (hm.trans (rebuildHolds_snoc_self _ _).symm)
  · rcases h.settled f with hs | ⟨m', hm', href⟩
    · exact .inl (hs.trans (rebuildHolds_snoc_of_ne _ hf).symm)
    · refine .inr ⟨m', hkept m' hm' ?_, href⟩
      rintro rfl
      exact hf href.symm

theorem Tracks.step {e : LiveEvent} (h : Tracks s)
    (hc : succeeds tr s e = true ∧ speaksFor s e = true) (hs : step tr s e = some s') :
    Tracks s' := by
  obtain ⟨hok, hsays⟩ := hc
  rcases e with e | ⟨fp, operator, seen, idAt, evaluatedAt⟩
  · change s.step tr e = some s' at hs
    cases e with
    | propose ps w =>
      have hpass : (tr.awaits ps w && tr.approvals && !w.create.isOk) = false := by
        simpa only [succeeds, Bool.not_eq_true'] using hok
      rw [Docket.step_propose, if_neg (by simp [hpass])] at hs
      cases hs
      exact h.proposed ps w
    | approve a w =>
      rw [Docket.step] at hs
      split at hs
      next =>
        cases hs
        exact h
      next held hheld =>
        have haudit : (tr.reissue held a w).auditable.isOk = true := by
          simpa [succeeds, hheld] using hok
        rw [if_pos haudit] at hs
        cases hs
        exact h.taken hheld w
    | send k stored =>
      obtain rfl : stored = true := hok
      obtain ⟨m, hm, rfl⟩ := Option.map_eq_some_iff.mp hs
      rw [speaksFor, Live.published, hm] at hsays
      refine h.published (by simpa using hsays) fun m' hm' hne => ?_
      obtain ⟨i, hi⟩ := mem_iff_getElem?.mp hm'
      refine mem_eraseIdx_iff_getElem?.mpr ⟨i, ?_, hi⟩
      rintro rfl
      exact hne (Option.some.inj (hi.symm.trans hm))
  · obtain ⟨g, hg, rfl⟩ := Option.map_eq_some_iff.mp hs
    rw [speaksFor, hg, Option.all_some, decide_eq_true_eq] at hsays
    exact h.published hsays fun m' hm' _ => hm'

/-- Where no handler fails and every decision is published while it says what is held, a rebuild
from the history finds the live holds whenever no handler is under way. -/
theorem rebuildHolds_eq (tr : Transport) {es : List LiveEvent}
    (hes : (machine tr).Along (fun s e => succeeds tr s e = true ∧ speaksFor s e = true) {} es)
    (hs : (machine tr).run {} es = some s) (hidle : s.underway = []) :
    rebuildHolds (history s) = s.holds := by
  have h : Tracks s := Machine.run_invariant (fun _ _ _ => Tracks.step) tracks_start hes hs
  have hf : (rebuildHolds (history s)).holds = s.holds.holds := by
    funext f
    rcases h.settled f with hf | ⟨m, hm, -⟩
    · exact hf.symm
    · rw [hidle] at hm
      cases hm
  cases hl : s.holds
  rw [hl] at hf
  cases hf
  rfl

def heldTwice : List LiveEvent :=
  List.map .handler
    [.propose checkoutSet fair, .send 0 true,
      .approve { signalRef := "checkout", approver := "operator" } fair, .send 0 true,
      .propose checkoutSet fair, .send 0 true]

theorem heldTwice_rebuilt : ∃ s, (machine strictTransport).run {} heldTwice = some s ∧
    (s.holds.holds "checkout").isSome ∧ rebuildHolds (history s) = s.holds := by
  obtain ⟨s, hs, hidle, hheld⟩ : ∃ s, (machine strictTransport).run {} heldTwice = some s ∧
      s.underway = [] ∧ (s.holds.holds "checkout").isSome := ⟨_, rfl, rfl, by decide +kernel⟩
  exact ⟨s, hs, hheld, rebuildHolds_eq _ (by decide +kernel) hs hidle⟩

def forcedHold : List LiveEvent :=
  [.handler (.propose checkoutSet fair), .handler (.send 0 true),
    .force "checkout" "operator" 1 0 0]

/-- The live holds keep what was forced through, and a rebuild does not find it. -/
theorem forcedHold_diverges :
    ∃ s, (machine strictTransport).run {} forcedHold = some s ∧ s.underway = [] ∧
      (s.holds.holds "checkout").isSome ∧
      (rebuildHolds (history s)).holds "checkout" = none ∧
      rebuildHolds (history s) ≠ s.holds := by
  refine ⟨_, rfl, rfl, by decide +kernel, by decide +kernel, fun heq => ?_⟩
  have hsome := congrArg (fun p => (p.holds "checkout").isSome) heq
  exact absurd hsome (by decide +kernel)

end Live

end Beats.Hiss
