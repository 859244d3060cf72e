import Beats.Clank.World
import Beats.Lib.Admission

/-!
# Dedupe among runs that share a ledger

The engine asks the ledger for open sets of its fingerprint twice, before it reasons and once more
before it records.  Neither query and the recording are one step, so two runs can both find nothing
and both publish (`raced_publish`).  And a run that takes longer than the dedupe window does not
see, at its second query, a set that was recorded after its first.

The runs for one fingerprint are an admission (`World.admission`): a run starts with its first
query, it is inside from its second query to its recording, and the recording admits it. Under
`World.serial` every event is a step of that admission, or none (`step_admission`), so two runs that
publish started a window apart (`published_apart`).
-/

namespace Beats.Clank

open Proposal Contract Lib List Thread World Admission

/-! ## The runs of a fingerprint as an admission -/

/-- The reading a run started with, if it passed its first query. -/
def RunLog.startedAt (log : RunLog) : Option Time :=
  match log.opens with
  | (s, .ok []) :: _ => some s
  | _ => none

/-- The run has passed its second query and has not yet asked the ledger to record. -/
def RunLog.inside (log : RunLog) : Bool :=
  match log.opens with
  | [(_, .ok []), (_, .ok [])] => !log.tried
  | _ => false

/-- A run as a client of the admission for a fingerprint. -/
def Thread.client (fingerprint : String) (th : Thread) : Client :=
  if th.det.fingerprint = fingerprint then
    { started := th.log.startedAt
      inside := th.log.inside
      admittedAt := if th.log.recorded.any Proposal.Set.gatePassed then th.recordedAt else none }
  else {}

/-- The engine's threads as clients of an admission. -/
def World.admission (fingerprint : String) (w : World) : Admission Nat where
  clock := w.clock
  clients i := (w.threads[i]?.map (client fingerprint)).getD {}

/-- The reading a run started with, if it is about to make its second query. -/
def Thread.gating (th : Thread) : Option Time :=
  match th.prog, th.log.opens with
  | .call (.opened _ _) _, [(s, .ok [])] => some s
  | _, _ => none

/-- A run that makes its second query is in time, and no run is inside. -/
def World.serial (e : Engine) (fingerprint : String) (w : World) : Event → Bool
  | .act i _ =>
    match w.threads[i]? with
    | none => true
    | some th =>
      match th.gating with
      | none => true
      | some s =>
        th.det.fingerprint != fingerprint ||
          (decide (th.log.clock < s + e.dedupeWindow) &&
            w.threads.all fun th' => !(th'.client fingerprint).inside)
  | _ => true

/-- The event closes no set of the fingerprint. -/
def Event.keeps (fingerprint : String) : Event → Bool
  | .observe o => o.signalRef != fingerprint || isOpen (transition {} o).phase
  | .decline f _ => f != fingerprint
  | _ => true

section

variable {e : Engine} {w w' : World} {th : Thread} {fingerprint : String} {i : Nat} {now : Time}

variable {f : String} {since a s : Time} {set : Set} {c : Call} {oracle : Oracle}

theorem Thread.client_of_ne (h : th.det.fingerprint ≠ fingerprint) : th.client fingerprint = {} :=
  if_neg h

theorem Thread.client_start (e : Engine) (det : Signal.Detection) (now : Time) :
    (start e det now).client fingerprint = {} := by
  by_cases h : det.fingerprint = fingerprint
  · exact if_pos h
  · exact if_neg h

theorem World.clients_of_getElem? (fingerprint : String) (h : w.threads[i]? = some th) :
    (w.admission fingerprint).clients i = th.client fingerprint := by
  simp [admission, h]

theorem World.clients_cases (w : World) (fingerprint : String) (j : Nat) :
    (∃ th ∈ w.threads, (w.admission fingerprint).clients j = th.client fingerprint) ∨
      (w.admission fingerprint).clients j = {} := by
  cases h : w.threads[j]? with
  | none => exact .inr (by simp [admission, h])
  | some th => exact .inl ⟨th, mem_of_getElem? h, clients_of_getElem? fingerprint h⟩

variable {k : iface.Answer (.opened f since) → Prog iface String Set} {r : iface.Answer c}
  {ev : Event}

theorem World.admission_advance {k : iface.Answer c → Prog iface String Set}
    (hi : w.threads[i]? = some th) :
    (w.advance i th c k r).admission fingerprint =
      (w.admission fingerprint).set i ((th.next w.clock c k r).client fingerprint) := by
  obtain ⟨hlt, -⟩ := List.getElem?_eq_some_iff.mp hi
  unfold Admission.set admission
  congr 1
  funext j
  by_cases hj : j = i
  · subst hj
    simp [advance, List.getElem?_set_self hlt]
  · simp [advance, List.getElem?_set_ne (Ne.symm hj), Function.update_of_ne hj]

theorem World.admission_deliver (det : Signal.Detection) :
    admission fingerprint { w with threads := w.threads ++ [start e det w.clock] } =
      w.admission fingerprint := by
  unfold admission
  congr 1
  funext j
  rcases Nat.lt_trichotomy j w.threads.length with hj | hj | hj
  · simp [getElem?_append_left hj]
  · subst hj
    simp [client_start]
  · rw [getElem?_eq_none (by simp; omega), getElem?_eq_none (by omega)]

theorem Thread.client_congr {th' : Thread} (hd : th'.det = th.det)
    (ho : th'.log.opens = th.log.opens)
    (ht : th'.log.tried = th.log.tried) (hr : th'.log.recorded = th.log.recorded)
    (ha : th'.recordedAt = th.recordedAt) : th'.client fingerprint = th.client fingerprint := by
  simp only [client, RunLog.startedAt, RunLog.inside, hd, ho, ht, hr, ha]

theorem Thread.client_next (k : iface.Answer c → Prog iface String Set)
    (r : iface.Answer c) (hopened : ∀ f since, c ≠ .opened f since)
    (hrecord : ∀ set, c ≠ .record set) :
    (th.next now c k r).client fingerprint = th.client fingerprint := by
  cases c with
  | opened f since => exact absurd rfl (hopened f since)
  | record set => exact absurd rfl (hrecord set)
  | journal _ | publish _ _ => cases r <;> rfl
  | _ =>
    have hagree := th.log.agree_next rfl r
    exact client_congr rfl hagree.opens hagree.tried hagree.recorded
      (th.recordedAtNext_quiet now rfl r)

theorem Thread.client_prechecked (hfp : th.det.fingerprint = fingerprint) (ho : th.log.opens = []) :
    (th.next now (.opened f since) k (.ok [])).client fingerprint =
      { th.client fingerprint with started := some th.log.clock } := by
  simp [client, Thread.next, recordedAtNext, RunLog.next, RunLog.startedAt,
    RunLog.inside, hfp, ho]

theorem Thread.client_gated (hfp : th.det.fingerprint = fingerprint)
    (ho : th.log.opens = [(s, .ok [])]) (ht : th.log.tried = false) :
    (th.next now (.opened f since) k (.ok [])).client fingerprint =
      { th.client fingerprint with inside := true } := by
  simp [client, Thread.next, recordedAtNext, RunLog.next, RunLog.startedAt,
    RunLog.inside, hfp, ho, ht]

theorem Thread.client_refused {r : Except String (List Set)} (hr : r ≠ .ok [])
    (ho : th.log.opens = [] ∨ ∃ s, th.log.opens = [(s, .ok [])]) :
    (th.next now (.opened f since) k r).client fingerprint = th.client fingerprint := by
  rcases r with err | _ | ⟨set, sets⟩ <;> rcases ho with ho | ⟨s, ho⟩
  all_goals first
    | exact absurd rfl hr
    | simp [client, Thread.next, recordedAtNext, RunLog.next, RunLog.startedAt,
        RunLog.inside, ho]

theorem RunLog.inside_of_tried {log : RunLog} (h : log.tried = true) : log.inside = false := by
  unfold RunLog.inside
  split
  · rw [h]
    rfl
  · rfl

theorem Thread.client_unrecorded {err : String}
    {k : iface.Answer (.record set) → Prog iface String Set} :
    (th.next now (.record set) k (.error err)).client fingerprint =
      { th.client fingerprint with inside := false } := by
  have hin : (th.log.next (.record set) (.error err)).inside = false := RunLog.inside_of_tried rfl
  by_cases hfp : th.det.fingerprint = fingerprint
  · simp only [client, Thread.next, hfp, hin, if_true]
    rfl
  · simp [client, Thread.next, hfp]

theorem Thread.client_recorded {k : iface.Answer (.record set) → Prog iface String Set}
    (hfp : th.det.fingerprint = fingerprint) (hr : th.log.recorded = []) :
    (th.next now (.record set) k (.ok ())).client fingerprint =
      { th.client fingerprint with
        inside := false, admittedAt := if set.gatePassed then some now else none } := by
  have hin : (th.log.next (.record set) (.ok ())).inside = false := RunLog.inside_of_tried rfl
  have hrec : (th.log.next (.record set) (.ok ())).recorded = [set] := by simp [RunLog.next, hr]
  simp only [client, Thread.next, hfp, hin, hrec, if_true, any_cons, any_nil, Bool.or_false]
  rfl

/-! ## Every event is a step of the admission -/

/-- What was admitted is in the ledger. -/
def World.Rows (fingerprint : String) (w : World) : Prop :=
  ∀ th ∈ w.threads, ∀ a, (th.client fingerprint).admittedAt = some a →
    w.ledger.Holds fingerprint a

theorem World.Rows.clients (h : w.Rows fingerprint) {j : Nat}
    (ha : ((w.admission fingerprint).clients j).admittedAt = some a) :
    w.ledger.Holds fingerprint a := by
  rcases w.clients_cases fingerprint j with ⟨th, hth, hj⟩ | hj
  · rw [hj] at ha
    exact h th hth a ha
  · rw [hj] at ha
    cases ha

/-- An empty answer of the ledger: every admission is a window before the reading. -/
theorem World.Rows.clear (h : w.Rows fingerprint) {t W : Int}
    (ho : w.ledger.open? fingerprint (t - W) = some []) (j : Nat) (a : Int)
    (ha : ((w.admission fingerprint).clients j).admittedAt = some a) : a + W ≤ t := by
  have hle : a ≤ t - W := (h.clients ha).le_of_open? ho
  omega

theorem World.serve_opened_nil (h : w.serve oracle (.opened f since) =
      some (.ok [] : Except String (List Set))) : w.ledger.open? f since = some [] := by
  simp only [serve] at h
  split at h
  · cases h
  · obtain ⟨sets, hsets, he⟩ := Option.map_eq_some_iff.mp h
    cases he
    exact hsets

/-- What the condition asks of a run that makes its second query. -/
theorem World.serial_gating (hs : w.serial e fingerprint (.act i oracle))
    (hi : w.threads[i]? = some th) (hg : th.gating = some s)
    (hfp : th.det.fingerprint = fingerprint) :
    th.log.clock < s + e.dedupeWindow ∧
      ∀ j, ((w.admission fingerprint).clients j).inside = false := by
  simp only [serial, hi, hg, hfp, bne_self_eq_false, Bool.false_or, Bool.and_eq_true,
    decide_eq_true_eq, all_eq_true, Bool.not_eq_true'] at hs
  refine ⟨hs.1, ?_⟩
  intro j
  rcases w.clients_cases fingerprint j with ⟨th', hth', hj⟩ | hj
  · rw [hj]
    exact hs.2 th' hth'
  · rw [hj]

theorem Thread.Sound.inside_of_passed (h : th.Sound e now)
    {k : iface.Answer (.record set) → Prog iface String Set}
    (hp : th.prog = .call (.record set) k) (hg : set.gatePassed = true) :
    th.log.inside = true := by
  have hmay : MayRecord th.det th.log set := h.permits hp
  obtain ⟨-, s, g, ho⟩ := hmay.passed hg
  simp [RunLog.inside, ho, hmay.fresh]

theorem step_opened (hsound : th.Sound e w.clock) (hrows : w.Rows fingerprint)
    {r : Except String (List Set)} (hi : w.threads[i]? = some th)
    (hp : th.prog = .call (.opened f since) k) (hr : w.serve oracle (.opened f since) = some r)
    (hser : w.serial e fingerprint (.act i oracle)) (hfp : th.det.fingerprint = fingerprint) :
    Step e.dedupeWindow (w.admission fingerprint) ((w.admission fingerprint).set i
        ((th.next w.clock (.opened f since) k r).client fingerprint)) := by
  have hclient := clients_of_getElem? fingerprint hi
  have hmay : f = th.det.fingerprint ∧ since = th.log.clock - e.dedupeWindow ∧
    (th.log.opens = [] ∨ ∃ s, th.log.opens = [(s, .ok [])]) ∧ th.log.tried = false :=
      hsound.permits hp
  obtain ⟨rfl, rfl, ho, ht⟩ := hmay
  by_cases hnil : r = .ok []
  · subst hnil
    have hempty := serve_opened_nil hr
    rw [hfp] at hempty
    rcases ho with ho | ⟨s, ho⟩
    · rw [client_prechecked hfp ho, ← hclient]
      refine .start i th.log.clock ?_ hsound.clock_le (hrows.clear hempty)
      simp [hclient, client, hfp, RunLog.startedAt, ho]
    · have hg : th.gating = some s := by simp [gating, hp, ho]
      obtain ⟨hsoon, halone⟩ := serial_gating hser hi hg hfp
      rw [client_gated hfp ho ht, ← hclient]
      refine .enter i s th.log.clock ?_ hsoon (hrows.clear hempty) halone
      simp [hclient, client, hfp, RunLog.startedAt, ho]
  · rw [client_refused hnil ho, ← hclient, set_self]
    exact .refl

theorem step_record (hsound : th.Sound e w.clock)
    {k : iface.Answer (.record set) → Prog iface String Set} {r : Except String Unit}
    (hi : w.threads[i]? = some th) (hp : th.prog = .call (.record set) k)
    (hfp : th.det.fingerprint = fingerprint) :
    Step e.dedupeWindow (w.admission fingerprint) ((w.admission fingerprint).set i
        ((th.next w.clock (.record set) k r).client fingerprint)) := by
  have hclient := clients_of_getElem? fingerprint hi
  have hmay : MayRecord th.det th.log set := hsound.permits hp
  have hnone := hsound.untried hmay.fresh
  cases r with
  | error err =>
    rw [client_unrecorded, ← hclient]
    exact .leave i
  | ok _ =>
    rw [client_recorded hfp hnone, ← hclient]
    cases hg : set.gatePassed with
    | true =>
      refine .admission i ?_
      simp [hclient, client, hfp, hsound.inside_of_passed hp hg]
    | false =>
      have hadm : ((w.admission fingerprint).clients i).admittedAt = none := by
        simp [hclient, client, hfp, hnone]
      rw [if_neg Bool.false_ne_true, ← hadm]
      exact .leave i

theorem step_admission (hsound : w.Sound e) (hrows : w.Rows fingerprint)
    (hser : w.serial e fingerprint ev = true) (hs : w.step e ev = some w') :
    Step e.dedupeWindow (w.admission fingerprint) (w'.admission fingerprint) := by
  cases ev with
  | deliver det =>
    cases hs
    rw [admission_deliver]
    exact .refl
  | observe o =>
    cases hs
    simp only [admission, moved_threads, moved_clock]
    exact .refl
  | decline f declinedAt =>
    cases hs
    simp only [admission, moved_threads, moved_clock]
    exact .refl
  | tick d =>
    cases hs
    exact .tick (w.clock + d) (Int.le_add_of_nonneg_right (Int.natCast_nonneg d))
  | act i oracle =>
    obtain ⟨th, c, k, r, hi, hp, hr, rfl⟩ := step_act hs
    have hth := hsound th (mem_of_getElem? hi)
    have hclient := clients_of_getElem? fingerprint hi
    rw [admission_advance hi]
    have hstill (h : (th.next w.clock c k r).client fingerprint = th.client fingerprint) :
        Step e.dedupeWindow (w.admission fingerprint)
          ((w.admission fingerprint).set i ((th.next w.clock c k r).client fingerprint)) := by
      rw [h, ← hclient, set_self]
      exact .refl
    by_cases hfp : th.det.fingerprint = fingerprint
    · cases c with
      | opened f since => exact step_opened hth hrows hi hp hr hser hfp
      | record set => exact step_record hth hi hp hfp
      | _ => exact hstill (client_next k r (by simp) (by simp))
    · refine hstill ?_
      rw [client_of_ne hfp]
      exact client_of_ne hfp

/-! ## What was admitted stays in the ledger -/

theorem Holds.next (h : w.ledger.Holds fingerprint a) (c : Call)
    (r : iface.Answer c) : (w.ledgerNext c r).Holds fingerprint a := by
  cases c with
  | record set =>
    cases r with
    | error err => exact h
    | ok _ => exact h.record w.clock set
  | _ => exact h

theorem holds_next (hth : th.Sound e w.clock)
    {k : iface.Answer c → Prog iface String Set} (hp : th.prog = .call c k)
    (hold : ∀ a, (th.client fingerprint).admittedAt = some a → w.ledger.Holds fingerprint a)
    (ha : ((th.next w.clock c k r).client fingerprint).admittedAt = some a) :
    (w.ledgerNext c r).Holds fingerprint a := by
  by_cases hfp : th.det.fingerprint = fingerprint
  · cases c with
    | opened f since =>
      refine Holds.next (hold a ?_) _ r
      simpa [client, Thread.next, hfp, RunLog.next, recordedAtNext] using ha
    | record set =>
      have hmay : MayRecord th.det th.log set := hth.permits hp
      cases r with
      | error err =>
        rw [client_unrecorded] at ha
        exact hold a ha
      | ok _ =>
        rw [client_recorded hfp (hth.untried hmay.fresh)] at ha
        cases hg : set.gatePassed with
        | false =>
          rw [hg] at ha
          cases ha
        | true =>
          rw [hg] at ha
          cases ha
          exact w.ledger.holds_record w.clock (hmay.signalRef.trans hfp) (hmay.passed hg).1
    | _ =>
      rw [client_next k r (by simp) (by simp)] at ha
      exact Holds.next (hold a ha) _ r
  · have hnone : (th.next w.clock c k r).client fingerprint = {} := client_of_ne hfp
    rw [hnone] at ha
    cases ha

theorem Holds.moved {g : Status → Status} (h : w.ledger.Holds fingerprint a)
    (hkeep : f ≠ fingerprint ∨ ∀ st, isOpen (g st).phase = true) :
    (w.moved (w.ledger.move f g)).ledger.Holds fingerprint a := by
  cases hm : w.ledger.move f g with
  | none => exact h
  | some p => exact h.move hm hkeep

/-- Where no set of the fingerprint is closed, what was admitted stays an open row. -/
theorem World.Rows.step (hsound : w.Sound e) (hrows : w.Rows fingerprint)
    (hk : ev.keeps fingerprint = true) (hs : w.step e ev = some w') : w'.Rows fingerprint := by
  intro th' hth' a ha
  cases ev with
  | deliver det =>
    cases hs
    rcases mem_append.mp hth' with hth | hth
    · exact hrows th' hth a ha
    · rw [mem_singleton.mp hth, client_start] at ha
      cases ha
  | act i oracle =>
    obtain ⟨th, c, k, r, hi, hp, -, rfl⟩ := step_act hs
    have hmem := mem_of_getElem? hi
    rcases mem_or_eq_of_mem_set hth' with hth | rfl
    · exact Holds.next (hrows th' hth a ha) c r
    · exact holds_next (hsound th hmem) hp (hrows th hmem) ha
  | observe o =>
    cases hs
    rw [moved_threads] at hth'
    refine Holds.moved (hrows th' hth' a ha) ?_
    simp only [Event.keeps, Bool.or_eq_true, bne_iff_ne] at hk
    exact hk.imp_right fun hopen st => phase_transition st {} o ▸ hopen
  | decline f declinedAt =>
    cases hs
    rw [moved_threads] at hth'
    refine Holds.moved (hrows th' hth' a ha) (.inl ?_)
    simpa [Event.keeps] using hk
  | tick d =>
    cases hs
    exact hrows th' hth' a ha

/-! ## Two runs that publish -/

/-- The reading a run started with: the one its first query was made at. -/
def Thread.firstReading (th : Thread) : Option Time :=
  th.log.opens.head?.map Prod.fst

/-- Two different runs for the fingerprint that both published started a window apart. -/
def World.PublishedApart (e : Engine) (fingerprint : String) (w : World) : Prop :=
  ∀ (i j : Nat) (th th' : Thread) (s s' : Time), i ≠ j →
    w.threads[i]? = some th → w.threads[j]? = some th' →
    th.det.fingerprint = fingerprint → th'.det.fingerprint = fingerprint →
    th.log.published ≠ [] → th'.log.published ≠ [] →
    th.firstReading = some s → th'.firstReading = some s' →
    s + e.dedupeWindow ≤ s' ∨ s' + e.dedupeWindow ≤ s

theorem Thread.Sound.client_of_published (h : th.Sound e now)
    (hfp : th.det.fingerprint = fingerprint) (hpub : th.log.published ≠ [])
    (hs : th.firstReading = some s) :
    (th.client fingerprint).started = some s ∧
      ∃ a, (th.client fingerprint).admittedAt = some a := by
  obtain ⟨set, hset⟩ := exists_mem_of_ne_nil _ hpub
  obtain ⟨hrec, hpass⟩ := h.published set hset
  have hne := ne_nil_of_mem hrec
  obtain ⟨s', hs'⟩ := h.prechecked hne
  obtain ⟨a, ha⟩ := Option.isSome_iff_exists.mp (h.stamped hne)
  rw [firstReading, hs', Option.map_some, Option.some.injEq] at hs
  subst hs
  obtain ⟨rest, hopens⟩ := head?_eq_some_iff.mp hs'
  have hany : th.log.recorded.any Set.gatePassed = true :=
    any_eq_true.mpr ⟨set, hrec, hpass⟩
  refine ⟨?_, a, ?_⟩
  · simp [client, hfp, RunLog.startedAt, hopens]
  · simp only [client, hfp, hany, if_true, ha]

/-- In every run in which no set of the fingerprint is closed, and a second query is made in
time and with no run inside, two runs that publish started a window apart. -/
theorem published_apart {w₀ : World} {es : List Event} (h₀ : w₀.threads = [])
    (ha : (machine e).Along
      (fun w ev => ev.keeps fingerprint = true ∧ w.serial e fingerprint ev = true) w₀ es)
    (hr : (machine e).run w₀ es = some w) : w.PublishedApart e fingerprint := by
  have hclients (j : Nat) : (w₀.admission fingerprint).clients j = {} := by
    simp [admission, h₀]
  have hinv : w.Sound e ∧ w.Rows fingerprint ∧
      (w.admission fingerprint).Spaced e.dedupeWindow := by
    refine Machine.run_invariant (P := fun w => w.Sound e ∧ w.Rows fingerprint ∧
      (w.admission fingerprint).Spaced e.dedupeWindow) ?_
        ⟨sound_of_no_threads h₀, ?_, ?_⟩ ha hr
    · rintro w ev w' ⟨hsound, hrows, hspaced⟩ ⟨hk, hser⟩ hs
      exact ⟨hsound.step hs, hrows.step hsound hk hs,
        (step_admission hsound hrows hser hs).spaced hspaced⟩
    · intro th hth
      rw [h₀] at hth
      cases hth
    · exact spaced_of_no_clients hclients
  intro i j th th' s s' hne hi hj hfp hfp' hpub hpub' hs hs'
  obtain ⟨hsound, -, hspaced⟩ := hinv
  obtain ⟨hst, a, hadm⟩ :=
    (hsound th (mem_of_getElem? hi)).client_of_published hfp hpub hs
  obtain ⟨hst', a', hadm'⟩ :=
    (hsound th' (mem_of_getElem? hj)).client_of_published hfp' hpub' hs'
  rw [← clients_of_getElem? fingerprint hi] at hst hadm
  rw [← clients_of_getElem? fingerprint hj] at hst' hadm'
  exact hspaced.starts_apart hne hadm hst hadm' hst'

end

/-- A second detection, a window after the first. -/
def windowApart : List Event :=
  .deliver checkoutDetection :: acts 0 16 fairScript ++ [.tick 600000000000] ++
    .deliver checkoutDetection :: acts 1 16 fairScript

theorem windowApart_published :
    ∃ w, (machine (throttleEngine [throttleCandidate])).run {} windowApart = some w ∧
      (∀ th ∈ w.threads, th.log.published ≠ []) ∧
      w.PublishedApart (throttleEngine [throttleCandidate]) "checkout" := by
  obtain ⟨w, hw, hpub⟩ : ∃ w,
      (machine (throttleEngine [throttleCandidate])).run {} windowApart = some w ∧
        ∀ th ∈ w.threads, th.log.published ≠ [] := by
    refine ⟨_, rfl, ?_⟩
    intro th hth
    rcases mem_pair.mp hth with rfl | rfl
    · exact cons_ne_nil _ _
    · exact cons_ne_nil _ _
  exact ⟨w, hw, hpub, published_apart rfl (by decide +kernel) hw⟩

/-- Two runs for one detection, both past their second query before either has recorded. -/
def raced : List Event :=
  .deliver checkoutDetection :: .deliver checkoutDetection :: acts 0 12 fairScript ++
    acts 1 12 fairScript ++ acts 0 4 fairScript ++ acts 1 4 fairScript

/-- Both runs publish, though they started at one time and nothing was closed. -/
theorem raced_publish :
    (∀ ev ∈ raced, ev.keeps "checkout" = true) ∧
      ∃ w, (machine (throttleEngine [throttleCandidate])).run {} raced = some w ∧
        ¬ w.PublishedApart (throttleEngine [throttleCandidate]) "checkout" := by
  refine ⟨by decide, _, rfl, ?_⟩
  intro h
  have hapart := h 0 1 _ _ Time.zero Time.zero (by decide) rfl rfl rfl rfl
    (cons_ne_nil _ _) (cons_ne_nil _ _) rfl rfl
  revert hapart
  decide

end Beats.Clank
