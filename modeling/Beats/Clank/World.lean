import Beats.Clank.Propose
import Beats.Lib.Machine

/-!
# Runs that share a ledger

Any number of runs of `Engine.Propose` over one `MemProposalLog`, as `runBroker` drives them.  A
detection that is delivered, for the first time or again, starts a run, and any other event may come
between two calls of a run.  The clock and the ledger answer for themselves, everything else is
answered by an oracle that is part of the event.

`World.Sound` is what holds of every run at every point, drawn from the conduct of one.

The second part is about a set that was recorded and then lost.  The engine records a set before it
journals and publishes it.  If one of the two fails, the redelivery stops at the open row in the
ledger and is acked, and the set is never published (`lostSet_not_published`).  Where neither fails,
no set is left behind so (`acked_published`).
-/

namespace Beats.Clank

open Proposal Contract Lib
open List hiding set

/-! ## The machine -/

/-- One run of the engine, and what is left of it. -/
structure Thread where
  det : Signal.Detection
  prog : Prog iface String Proposal.Set
  log : RunLog
  /-- When the ledger recorded the run's set. -/
  recordedAt : Option Time := none

def Thread.start (e : Engine) (det : Signal.Detection) (now : Time) : Thread where
  det := det
  prog := e.propose det
  log := { clock := now }

/-- When the ledger recorded the run's set, after one more answered call. -/
def Thread.recordedAtNext (th : Thread) (now : Time) : (c : Call) → iface.Answer c → Option Time
  | .record _, .ok () => some now
  | _, _ => th.recordedAt

def Thread.next (th : Thread) (now : Time) (c : Call)
    (k : iface.Answer c → Prog iface String Proposal.Set) (r : iface.Answer c) : Thread where
  det := th.det
  prog := k r
  log := th.log.next c r
  recordedAt := th.recordedAtNext now c r

/-- The clock, the ledger and the runs, in the order they started in. -/
structure World where
  clock : Time := Time.zero
  ledger : MemProposalLog := {}
  threads : List Thread := []

/-- How the calls of a run are answered where the world does not decide it. -/
abbrev Oracle := (c : Call) → iface.Answer c

inductive Event where
  /-- A detection is delivered. -/
  | deliver (det : Signal.Detection)
  /-- The run `i` makes its next call. -/
  | act (i : Nat) (oracle : Oracle)
  /-- `Click.Absorb` hands an outcome to the ledger. -/
  | observe (o : Outcome)
  /-- `declineHandler` hands a decline to the ledger. -/
  | decline (fingerprint : String) (declinedAt : Time)
  /-- Time passes. -/
  | tick (d : Nat)

/-- The answer to a call.  A query that dereferences a missing status has none. -/
def World.serve (w : World) (oracle : Oracle) : (c : Call) → Option (iface.Answer c)
  | .now => some w.clock
  | .opened fingerprint since =>
    match oracle (.opened fingerprint since) with
    | .error err => some (.error err : Except String (List Proposal.Set))
    | .ok _ => (w.ledger.open? fingerprint since).map
        (Except.ok : List Proposal.Set → Except String (List Proposal.Set))
  | c => some (oracle c)

/-- The ledger after an answered call. -/
def World.ledgerNext (w : World) : (c : Call) → iface.Answer c → MemProposalLog
  | .record set, .ok () => w.ledger.record w.clock set
  | _, _ => w.ledger

/-- The world after the run `i` made the call `c`. -/
def World.advance (w : World) (i : Nat) (th : Thread) (c : Call)
    (k : iface.Answer c → Prog iface String Proposal.Set) (r : iface.Answer c) : World :=
  { w with
    ledger := w.ledgerNext c r
    threads := w.threads.set i (th.next w.clock c k r) }

def World.moved (w : World) : Option (Proposal.Set × MemProposalLog) → World
  | some (_, ledger) => { w with ledger := ledger }
  | none => w

def World.step (e : Engine) (w : World) : Event → Option World
  | .deliver det => some { w with threads := w.threads ++ [Thread.start e det w.clock] }
  | .act i oracle =>
    w.threads[i]?.bind fun th =>
      match th.prog with
      | .call c k => (w.serve oracle c).map fun r => w.advance i th c k r
      | .ret _ => none
      | .fail _ => none
  | .observe o => some (w.moved (w.ledger.observe o))
  | .decline fingerprint declinedAt => some (w.moved (w.ledger.decline fingerprint declinedAt))
  | .tick d => some { w with clock := w.clock + d }

def machine (e : Engine) : Machine World Event where
  step := World.step e

/-! ## One step -/

variable {c : Call} {oracle : Oracle} {ev : Event} {r : iface.Answer c}
  {k : iface.Answer c → Prog iface String Set} {log : RunLog}

section

variable {e : Engine} {w w' : World}

@[simp] theorem World.moved_threads (w : World) (m : Option (Set × MemProposalLog)) :
    (w.moved m).threads = w.threads := by
  cases m <;> rfl

@[simp] theorem World.moved_clock (w : World) (m : Option (Set × MemProposalLog)) :
    (w.moved m).clock = w.clock := by
  cases m <;> rfl

theorem step_act {i : Nat} (h : w.step e (.act i oracle) = some w') :
    ∃ (th : Thread) (c : Call) (k : iface.Answer c → Prog iface String Set)
      (r : iface.Answer c), w.threads[i]? = some th ∧ th.prog = .call c k ∧
        w.serve oracle c = some r ∧ w' = w.advance i th c k r := by
  obtain ⟨th, hth, h⟩ := Option.bind_eq_some_iff.mp h
  cases hp : th.prog with
  | ret _ | fail _ => rw [hp] at h; cases h
  | call c k =>
    rw [hp] at h
    obtain ⟨r, hr, h⟩ := Option.map_eq_some_iff.mp h
    exact ⟨th, c, k, r, hth, hp, hr, h.symm⟩

/-- The runs after a step: those that were there, one of them maybe a call further, and
maybe a new one. -/
theorem mem_threads_step (h : w.step e ev = some w') {th' : Thread} (hth : th' ∈ w'.threads) :
    th' ∈ w.threads ∨ (∃ det, th' = Thread.start e det w.clock) ∨
      ∃ (i : Nat) (oracle : Oracle) (th : Thread) (c : Call)
        (k : iface.Answer c → Prog iface String Set) (r : iface.Answer c),
        ev = .act i oracle ∧ w.threads[i]? = some th ∧ th.prog = .call c k ∧
          w.serve oracle c = some r ∧ th' = th.next w.clock c k r := by
  cases ev with
  | deliver det =>
    cases h
    rcases mem_append.mp hth with hth | hth
    · exact .inl hth
    · exact .inr (.inl ⟨det, mem_singleton.mp hth⟩)
  | act i oracle =>
    obtain ⟨th, c, k, r, hi, hp, hr, rfl⟩ := step_act h
    rcases mem_or_eq_of_mem_set hth with hth | hth
    · exact .inl hth
    · exact .inr (.inr ⟨i, oracle, th, c, k, r, rfl, hi, hp, hr, hth⟩)
  | observe o =>
    cases h
    exact .inl (by simpa using hth)
  | decline fingerprint declinedAt =>
    cases h
    exact .inl (by simpa using hth)
  | tick d =>
    cases h
    exact .inl hth

theorem clock_le_step (h : w.step e ev = some w') : w.clock ≤ w'.clock := by
  cases ev with
  | deliver det => cases h; exact Int.le_refl _
  | act i oracle => obtain ⟨th, c, k, r, -, -, -, rfl⟩ := step_act h; exact Int.le_refl _
  | observe _ | decline _ _ => cases h; exact (World.moved_clock w _).ge
  | tick d => cases h; exact Int.le_add_of_nonneg_right (Int.natCast_nonneg d)

end

/-! ## What holds of every run -/

/-- The run keeps to its conduct, its readings are of the past, what it recorded is its own
and marked open only if its gate passed, and it published only what it had recorded. -/
structure Thread.Sound (e : Engine) (now : Time) (th : Thread) : Prop where
  conforms : (conduct e th.det).Allows (Final e) th.prog th.log
  clock_le : th.log.clock ≤ now
  recorded : ∀ set ∈ th.log.recorded, set.signalRef = th.det.fingerprint ∧
    (set.gatePassed = true → set.phase? = some .proposed) ∧
    (set.gatePassed = false → ∃ ph, set.phase? = some ph ∧ isOpen ph = false)
  published : ∀ set ∈ th.log.published, set ∈ th.log.recorded ∧ set.gatePassed = true
  stamped : th.log.recorded ≠ [] → th.recordedAt.isSome
  prechecked : th.log.recorded ≠ [] → ∃ s, th.log.opens.head? = some (s, .ok [])
  untried : th.log.tried = false → th.log.recorded = []

def World.Sound (e : Engine) (w : World) : Prop :=
  ∀ th ∈ w.threads, th.Sound e w.clock

/-- The calls that change neither the dedupe queries of a record nor its sets. -/
def Call.quiet : Call → Bool
  | .opened _ _ => false
  | .record _ => false
  | .journal _ => false
  | .publish _ _ => false
  | _ => true

/-- The two records agree on the dedupe queries, on the sets and on what failed. -/
structure RunLog.Agree (log log' : RunLog) : Prop where
  opens : log'.opens = log.opens
  tried : log'.tried = log.tried
  recorded : log'.recorded = log.recorded
  published : log'.published = log.published
  failed : log'.failed = log.failed

section

variable {e : Engine} {w w' : World} {th : Thread} {now : Time}

theorem RunLog.agree_next (log : RunLog) (hc : c.quiet = true) (r : iface.Answer c) :
    log.Agree (log.next c r) := by
  cases c with
  | complete _ _ | checkpoint _ | runTool _ _ => cases r <;> exact ⟨rfl, rfl, rfl, rfl, rfl⟩
  | opened _ _ | record _ | journal _ | publish _ _ => cases hc
  | _ => exact ⟨rfl, rfl, rfl, rfl, rfl⟩

theorem Thread.recordedAtNext_quiet (th : Thread) (now : Time) (hc : c.quiet = true)
    (r : iface.Answer c) : th.recordedAtNext now c r = th.recordedAt := by
  cases c with
  | record set => cases hc
  | _ => rfl

/-- A reading of the clock is the world's, so no record has one of the future. -/
theorem clock_next_le (h : log.clock ≤ w.clock) (hr : w.serve oracle c = some r) :
    (log.next c r).clock ≤ w.clock := by
  cases c with
  | now =>
    cases hr
    exact Int.le_refl _
  | complete _ _ | checkpoint _ | runTool _ _ | record _ | journal _ | publish _ _ =>
    cases r <;> exact h
  | _ => exact h

theorem Thread.Sound.permits (h : th.Sound e now) (hp : th.prog = .call c k) :
    (conduct e th.det).permits th.log c := by
  have hconf := h.conforms
  rw [hp] at hconf
  exact hconf.1

theorem Thread.Sound.conforms_next (h : th.Sound e now) (hp : th.prog = .call c k)
    (r : iface.Answer c) :
    (conduct e th.det).Allows (Final e) (k r) (th.log.next c r) := by
  have hconf := h.conforms
  rw [hp] at hconf
  exact hconf.2 r

theorem Thread.Sound.later (h : th.Sound e now) {now' : Time} (hle : now ≤ now') :
    th.Sound e now' :=
  { h with clock_le := h.clock_le.trans hle }

theorem Thread.sound_start (e : Engine) (det : Signal.Detection) (now : Time) :
    (Thread.start e det now).Sound e now where
  conforms := conduct_propose e det now
  clock_le := Int.le_refl _
  recorded set hs := by cases hs
  published set hs := by cases hs
  stamped h := (h rfl).elim
  prechecked h := (h rfl).elim
  untried _ := rfl

theorem Thread.Sound.next (h : th.Sound e w.clock) (hp : th.prog = .call c k)
    (hr : w.serve oracle c = some r) :
    (th.next w.clock c k r).Sound e w.clock := by
  have hconf := h.conforms_next hp r
  have hclock : (th.log.next c r).clock ≤ w.clock := clock_next_le h.clock_le hr
  have hmay := h.permits hp
  cases c with
  | opened fingerprint since =>
    refine { h with conforms := hconf, clock_le := hclock, prechecked := fun hne => ?_ }
    obtain ⟨s, hs⟩ := h.prechecked hne
    refine ⟨s, ?_⟩
    show (th.log.opens ++ [_]).head? = _
    rw [head?_append, hs]
    rfl
  | record set =>
    cases r with
    | error err =>
      exact ⟨hconf, hclock, h.recorded, h.published, h.stamped, h.prechecked, fun ht => by cases ht⟩
    | ok _ =>
      refine ⟨hconf, hclock, fun s hs => ?_, fun s hs => ?_, fun _ => rfl,
        fun _ => hmay.prechecked, fun ht => by cases ht⟩
      · rcases mem_append.mp hs with hs | hs
        · exact h.recorded s hs
        · rw [mem_singleton.mp hs]
          exact ⟨hmay.signalRef, fun hg => (hmay.passed hg).1, hmay.notPassed⟩
      · exact ⟨mem_append_left _ (h.published s hs).1, (h.published s hs).2⟩
  | journal set =>
    cases r <;>
      exact { h with conforms := hconf, clock_le := hclock }
  | publish subject set =>
    cases r with
    | error err =>
      exact { h with conforms := hconf, clock_le := hclock }
    | ok _ =>
      have hmay : MayPublish e th.log set := hmay.2
      refine ⟨hconf, hclock, h.recorded, fun s hs => ?_, h.stamped, h.prechecked, h.untried⟩
      rcases mem_append.mp hs with hs | hs
      · exact h.published s hs
      · rw [mem_singleton.mp hs]
        refine ⟨?_, hmay.passed⟩
        show set ∈ th.log.recorded
        rw [hmay.recorded]
        exact mem_singleton_self set
  | _ =>
    have hagree := th.log.agree_next rfl r
    refine ⟨hconf, hclock, ?_, ?_, ?_, ?_, ?_⟩
    · show ∀ set ∈ (th.log.next _ r).recorded, _
      rw [hagree.recorded]
      exact h.recorded
    · show ∀ set ∈ (th.log.next _ r).published, set ∈ (th.log.next _ r).recorded ∧ _
      rw [hagree.recorded, hagree.published]
      exact h.published
    · show (th.log.next _ r).recorded ≠ [] → (th.recordedAtNext w.clock _ r).isSome
      rw [hagree.recorded, th.recordedAtNext_quiet w.clock rfl r]
      exact h.stamped
    · show (th.log.next _ r).recorded ≠ [] → ∃ s, (th.log.next _ r).opens.head? = _
      rw [hagree.recorded, hagree.opens]
      exact h.prechecked
    · show (th.log.next _ r).tried = false → (th.log.next _ r).recorded = []
      rw [hagree.tried, hagree.recorded]
      exact h.untried

theorem World.Sound.step (h : w.Sound e) (hs : w.step e ev = some w') : w'.Sound e := by
  intro th' hth'
  have hle := clock_le_step hs
  rcases mem_threads_step hs hth' with
    hth | ⟨det, rfl⟩ | ⟨i, oracle, th, c, k, r, -, hi, hp, hr, rfl⟩
  · exact (h th' hth).later hle
  · exact (Thread.sound_start e det w.clock).later hle
  · exact ((h th (mem_of_getElem? hi)).next hp hr).later hle

theorem World.sound_of_no_threads (h : w.threads = []) : w.Sound e := by
  intro th hth
  rw [h] at hth
  cases hth

end

/-! ## A set that was recorded and lost -/

def Thread.Ended (th : Thread) : Prop :=
  ∃ out, th.prog = Prog.ofExcept out

/-- The run has returned a set, and its detection is acked. -/
def Thread.Acked (th : Thread) : Prop :=
  ∃ set, th.prog = .ret set

/-- Where a delivery was acked, a set of its fingerprint that is proposed in the ledger and
young enough to stop a redelivery was published by the run that recorded it, once that run
has ended. -/
def World.AckedPublished (e : Engine) (w : World) : Prop :=
  ∀ th ∈ w.threads, th.Acked → ∀ row ∈ w.ledger.sets,
    row.set.signalRef = th.det.fingerprint → row.set.phase? = some .proposed →
    w.clock - e.dedupeWindow < row.recordedAt →
    ∀ th' ∈ w.threads, th'.Ended → row.set ∈ th'.log.recorded → row.set ∈ th'.log.published

/-- The call is not one to the journal or the publisher that fails. -/
def Call.succeeds (oracle : Oracle) : Call → Bool
  | .journal set =>
    match oracle (.journal set) with
    | .ok _ => true
    | .error _ => false
  | .publish subject set =>
    match oracle (.publish subject set) with
    | .ok _ => true
    | .error _ => false
  | _ => true

/-- No call to the journal or the publisher fails in the event. -/
def World.unfailing (w : World) : Event → Bool
  | .act i oracle =>
    match w.threads[i]?.map Thread.prog with
    | some (.call c _) => c.succeeds oracle
    | _ => true
  | _ => true

section

variable {e : Engine} {w w' : World}

theorem failed_next (hlog : log.failed = false) (hc : c.succeeds oracle = true)
    (hr : w.serve oracle c = some r) :
    (log.next c r).failed = false := by
  cases c with
  | opened fingerprint since => exact hlog
  | record set => cases r <;> exact hlog
  | journal set =>
    cases hr
    simp only [Call.succeeds] at hc
    cases ho : oracle (.journal set) with
    | ok _ => exact hlog
    | error err => rw [ho] at hc; cases hc
  | publish subject set =>
    cases hr
    simp only [Call.succeeds] at hc
    cases ho : oracle (.publish subject set) with
    | ok _ => exact hlog
    | error err => rw [ho] at hc; cases hc
  | _ => exact (log.agree_next rfl r).failed.trans hlog

/-- Along events in which neither fails no run sees a failure of the two. -/
theorem failed_step (h : ∀ th ∈ w.threads, th.log.failed = false) (hc : w.unfailing ev = true)
    (hs : w.step e ev = some w') :
    ∀ th ∈ w'.threads, th.log.failed = false := by
  intro th' hth'
  rcases mem_threads_step hs hth' with
    hth | ⟨det, rfl⟩ | ⟨i, oracle, th, c, k, r, rfl, hi, hp, hr, rfl⟩
  · exact h th' hth
  · rfl
  · have hc' : c.succeeds oracle = true := by
      simpa only [World.unfailing, hi, Option.map_some, hp] using hc
    exact failed_next (h th (mem_of_getElem? hi)) hc' hr

theorem Thread.Sound.published_of_ended {th : Thread} {now : Time} (h : th.Sound e now)
    (hpub : e.pub = true) (hf : th.log.failed = false) (hend : th.Ended) {set : Set}
    (hs : set ∈ th.log.recorded) (hphase : set.phase? = some .proposed) :
    set ∈ th.log.published := by
  obtain ⟨out, hout⟩ := hend
  have hpass : set.gatePassed = true := by
    cases hg : set.gatePassed with
    | true => rfl
    | false =>
      obtain ⟨ph, hph, hclosed⟩ := (h.recorded set hs).2.2 hg
      rw [hphase, Option.some.injEq] at hph
      subst hph
      cases hclosed
  have hconf := h.conforms
  rw [hout] at hconf
  have hfinal : Final e th.log out := by cases out <;> exact hconf
  cases out with
  | error err => exact absurd (hfinal.failed err rfl ⟨set, hs, hpass⟩) (by rw [hf]; decide)
  | ok set' =>
    have hended := hfinal.ended set' rfl (h.prechecked (ne_nil_of_mem hs))
    rw [hended.recorded, mem_singleton] at hs
    subst hs
    rw [hended.published, hpass, hpub]
    exact mem_singleton_self set

/-- In every run in which neither the journal nor the publisher fails, an acked delivery
leaves no proposed set behind that was not published. -/
theorem acked_published (hpub : e.pub = true) {w₀ : World} {es : List Event}
    (h₀ : w₀.threads = []) (ha : (machine e).Along (fun w ev => w.unfailing ev = true) w₀ es)
    (hr : (machine e).run w₀ es = some w) : w.AckedPublished e := by
  have hinv : w.Sound e ∧ ∀ th ∈ w.threads, th.log.failed = false := by
    refine Machine.run_invariant (P := fun w => w.Sound e ∧ ∀ th ∈ w.threads, th.log.failed = false)
      ?_ ⟨World.sound_of_no_threads h₀, ?_⟩ ha hr
    · rintro w ev w' ⟨hsound, hfail⟩ hc hs
      exact ⟨hsound.step hs, failed_step hfail hc hs⟩
    · intro th hth
      rw [h₀] at hth
      cases hth
  intro th _ _ row _ _ hphase _ th' hth' hend hrec
  exact (hinv.1 th' hth').published_of_ended hpub (hinv.2 th' hth') hend hrec hphase

end

/-- The run `i` makes `n` calls. -/
def acts (i n : Nat) (oracle : Oracle) : List Event := List.replicate n (.act i oracle)

/-- A detection is delivered, its run publishes, and a redelivery stops at the open set. -/
def redelivered : List Event :=
  .deliver checkoutDetection :: acts 0 16 fairScript ++
    .deliver checkoutDetection :: acts 1 2 fairScript

theorem redelivered_published :
    ∃ w, (machine (throttleEngine [throttleCandidate])).run {} redelivered = some w ∧
      (∃ th ∈ w.threads, th.log.published ≠ []) ∧
      w.AckedPublished (throttleEngine [throttleCandidate]) := by
  obtain ⟨w, hw, hpub⟩ : ∃ w,
      (machine (throttleEngine [throttleCandidate])).run {} redelivered = some w ∧
        ∃ th ∈ w.threads, th.log.published ≠ [] :=
    ⟨_, rfl, _, .head _, cons_ne_nil _ _⟩
  exact ⟨w, hw, hpub, acked_published rfl rfl (by decide +kernel) hw⟩

/-- Nothing fails but the journal. -/
def journalDown : Oracle
  | .journal _ => (.error "journal down" : Except String Unit)
  | c => fairScript c

/-- The journal fails after the set is recorded, and the detection is delivered again. -/
def lostSet : List Event :=
  .deliver checkoutDetection :: acts 0 15 journalDown ++
    .deliver checkoutDetection :: acts 1 2 fairScript

/-- The first run fails, the redelivery is acked, and the open set was never published. -/
theorem lostSet_not_published :
    ∃ w, (machine (throttleEngine [throttleCandidate])).run {} lostSet = some w ∧
      ¬ w.AckedPublished (throttleEngine [throttleCandidate]) := by
  refine ⟨_, rfl, ?_⟩
  intro h
  -- The acked redelivery, the row it stopped at, and the run that recorded the row.
  have hlost := h _ (.tail _ (.head _)) ⟨_, rfl⟩ _ (.head _) rfl rfl (by decide) _ (.head _)
    ⟨.error _, rfl⟩ (.head _)
  cases hlost

end Beats.Clank
