import Beats.Hiss.Reissue
import Beats.Lib.Digits
import Beats.Thump.KillSwitch
import Beats.Thump.Live

/-!
# Identifiers

A decision and an outcome get their IDs where they are made: from the fingerprint and the second of
a reading of the clock.  hiss has two such places and thump five, and their texts are of four forms,
one of decisions and three of outcomes (`Form`).

hiss and thump run side by side, on one clock that does not go back.  What they publish is traced to
the reading that its ID was made from (`Dated`, `identifiers_distinct_iff`).  A hold and its
approval are of one form, and nothing keeps an approval from coming in the second of the hold
(`promptApproval_collides`).
-/

namespace Beats.Identifiers

open Lib Monitor List Prog Machine Digits Thump.KillSwitch

variable {second : Int} {o : Thump.Order} {now : Time} {oc : Outcome}

/-! ## Texts -/

def decisionID (fingerprint : String) (second : Int) : String :=
  "dec:" ++ fingerprint ++ ":" ++ toString second

/-- What an outcome tells of: an execution, the window that ran out, or the release. -/
inductive Form where
  | execution
  | convergence
  | acceptance
deriving DecidableEq

/-- What stands before the second. -/
def Form.tag : Form → String
  | .execution => ":"
  | .convergence => ":conv:"
  | .acceptance => ":accept:"

def outcomeID (form : Form) (fingerprint : String) (second : Int) : String :=
  "out:" ++ fingerprint ++ form.tag ++ toString second

variable {time clock : Time} {f : String} {second' : Int} {form : Form}
  {t : List (Answered iface)} {es : List Event} {i : Nat} {d : Decision}

theorem decisionID_inj : decisionID f second = decisionID f second' ↔ second = second' := by
  refine ⟨fun h => ?_, fun h => h ▸ rfl⟩
  have hlist := congrArg String.toList ((String.append_right_inj _).mp h)
  rw [toList_toString, toList_toString] at hlist
  exact decimal_injective hlist

/-- A numeral does not start as a tag goes on. -/
theorem decimal_ne_letter {c : Char} (hc : c.isDigit = false) (hminus : c ≠ '-')
    {cs : List Char} : decimal second ≠ c :: cs := by
  intro h
  have hm : c ∈ decimal second := by rw [h]; exact mem_cons_self
  rcases mem_decimal hm with hd | hd
  · exact hminus hd
  · rw [hc] at hd
    cases hd

theorem outcomeID_inj {form' : Form} :
    outcomeID form f second = outcomeID form' f second' ↔ form = form' ∧ second = second' := by
  refine ⟨fun h => ?_, fun ⟨h, h'⟩ => h ▸ h' ▸ rfl⟩
  simp only [outcomeID, String.append_assoc, String.append_right_inj] at h
  have hlist := congrArg String.toList h
  rw [String.toList_append, String.toList_append, toList_toString, toList_toString] at hlist
  cases form <;> cases form'
  case execution.execution | convergence.convergence | acceptance.acceptance =>
    exact ⟨rfl, decimal_injective (append_cancel_left hlist)⟩
  case execution.convergence =>
    exact absurd (cons.inj hlist).2 (decimal_ne_letter (by decide) (by decide))
  case execution.acceptance =>
    exact absurd (cons.inj hlist).2 (decimal_ne_letter (by decide) (by decide))
  case convergence.execution =>
    exact absurd (cons.inj hlist).2.symm (decimal_ne_letter (by decide) (by decide))
  case acceptance.execution =>
    exact absurd (cons.inj hlist).2.symm (decimal_ne_letter (by decide) (by decide))
  case convergence.acceptance | acceptance.convergence =>
    have hletter := (cons.inj (cons.inj hlist).2).1
    exact absurd hletter (by decide)

/-! ## Executors -/

/-- What the executor came to. -/
inductive Executed where
  /-- The dry run. -/
  | rendered
  /-- The gate was shut. -/
  | blocked
  /-- The runner was run. -/
  | ran (res : Except String Outcome.Result)

/-- The outcome that the actuator reports. -/
def Executed.outcome (o : Thump.Order) (now : Time) : Executed → Outcome
  | .rendered => Thump.DryRun.execute o now
  | .blocked => blockedOutcome o now
  | .ran res => Thump.liveReport o now res

theorem executed_of_live {r : Actuate.Runner} {u : List (Answered Actuate.iface)}
    (h : (Thump.Live.execute r o now).Exits u (.ok oc)) :
    ∃ x : Executed, oc = x.outcome o now := by
  obtain ⟨res, -, rfl⟩ := Thump.exits_execute h
  exact ⟨.ran res, rfl⟩

theorem gated_cases (h : (GatedExecutor.execute o now).Exits t (.ok oc)) :
    oc = blockedOutcome o now ∨
      (⟨.inner o now, oc⟩ : Answered iface) ∈ t := by
  have inner {t' : List (Answered iface)}
      (hx : (@Prog.ask iface String (.inner o now)).Exits t' (.ok oc)) :
      ⟨.inner o now, oc⟩ ∈ t' := by
    obtain ⟨oc', u, rfl, hu⟩ := exits_call.mp hx
    obtain ⟨rfl, hoc⟩ := exits_ret.mp hu
    cases hoc
    exact mem_cons_self
  by_cases hk : o.kind = .reversal
  · rw [execute_of_reversal hk] at h
    exact .inr (inner h)
  · rw [execute_of_forward hk] at h
    obtain ⟨armed, u, rfl, hu⟩ := exits_ask_bind.mp h
    cases armed with
    | false =>
      obtain ⟨-, hoc⟩ := exits_ret.mp hu
      cases hoc
      exact .inl rfl
    | true => exact .inr (mem_cons_of_mem _ (inner hu))

theorem executed_of_gated (h : (GatedExecutor.execute o now).Exits t (.ok oc))
    (hinner : ∀ oc', (⟨.inner o now, oc'⟩ : Answered iface) ∈ t →
      ∃ x : Executed, oc' = x.outcome o now) :
    ∃ x : Executed, oc = x.outcome o now := by
  rcases gated_cases h with rfl | hm
  · exact ⟨.blocked, rfl⟩
  · exact hinner oc hm

theorem outcome_id (o : Thump.Order) (now : Time) (x : Executed) :
    (x.outcome o now).id = outcomeID .execution (x.outcome o now).signalRef now.unix := by
  rcases x with _ | _ | _ | _ <;> rfl

/-! ## The machine -/

/-- A delivery to thump, or a goroutine that one started. -/
inductive Job where
  | enact (g : Decision.Governed)
  | tend (w : Thump.Watch)
deriving DecidableEq

def Job.prog (tr : Thump.Transport) : Job → Prog Thump.iface Empty Unit
  | .enact g => do
    let _ ← (tr.handle g).attempt
    return ()
  | .tend w => Thump.Transport.background w

/-- The clock, and the history of `thump.outcomes`. -/
structure Shared where
  clock : Time
  outcomes : List Outcome := []

/-- How thump's calls are answered. -/
structure Oracle where
  time : Time := Time.zero
  executed : Executed := .rendered
  reply : Except String Unit := .ok ()
  /-- Whether the stream has what was published, whatever the reply. -/
  stored : Bool := true
  elapsed : Bool := true
  cancelled : Bool := false
  probe : Bool × Option Rat := (true, none)
  withdraw : Except String Bool := .ok true

/-- How the calls of thump are answered. -/
def serve (oracle : Oracle) (s : Shared) :
    (c : Thump.Call) → Option (Thump.iface.Answer c × Shared)
  | .now =>
    if s.clock ≤ oracle.time then some (oracle.time, { s with clock := oracle.time }) else none
  | .execute o now => some (oracle.executed.outcome o now, s)
  | .go _ => some ((), s)
  | .publish (.outcome oc) =>
    some (oracle.reply, if oracle.stored then { s with outcomes := s.outcomes ++ [oc] } else s)
  | .publish _ => some (oracle.reply, s)
  | .notify _ => some (oracle.reply, s)
  | .record _ => some ((), s)
  | .window _ => some (oracle.elapsed, s)
  | .cancelled => some (oracle.cancelled, s)
  | .probe _ => some (oracle.probe, s)
  | .withdraw _ => some (oracle.withdraw, s)

structure World where
  docket : Hiss.Docket := {}
  /-- The decisions that were made, each with the reading that its ID was made from. -/
  made : List (Decision × Time) := []
  thump : Pool Thump.iface Job Empty Unit Shared

inductive Event where
  /-- A handler of hiss makes a step. -/
  | hiss (e : Hiss.DocketEvent)
  /-- A decision is delivered to thump, for the first time or again. -/
  | deliver (g : Decision.Governed)
  /-- A goroutine starts. -/
  | start (w : Thump.Watch)
  /-- A job of thump makes its next call. -/
  | act (i : Nat) (oracle : Oracle)

/-- The step does not turn the clock back. -/
def timely (clock : Time) : Hiss.DocketEvent → Bool
  | .propose _ w => decide (clock ≤ w.now)
  | .approve _ w => decide (clock ≤ w.now ∧ w.now ≤ w.later)
  | .send _ _ => true

/-- The clock after a step.  The second reading of an approval is no part of an ID, and other
handlers may read the clock before it. -/
def clockAfter (clock : Time) : Hiss.DocketEvent → Time
  | .propose _ w => w.now
  | .approve _ w => w.now
  | .send _ _ => clock

/-- The decision that a step makes, and the reading of its ID. -/
def decided (tr : Hiss.Transport) (s : Hiss.Docket) : Hiss.DocketEvent → Option (Decision × Time)
  | .propose ps w => some ((tr.judged ps w).decision, w.now)
  | .approve a w => (s.holds.holds a.signalRef).map fun held => (tr.reissue held a w, w.now)
  | .send _ _ => none

namespace World

/-- The goroutines of the watch that were started by a call, and those that run. -/
def launched (s : World) (w : Thump.Watch) : Nat :=
  s.thump.log.countP fun p =>
    match p.2 with
    | ⟨.go w', _⟩ => w' == w
    | _ => false

def running (s : World) (w : Thump.Watch) : Nat :=
  s.thump.tasks.countP fun task => task.1 == .tend w

variable (hiss : Hiss.Transport) (thump : Thump.Transport)

def step (s : World) : Event → Option World
  | .hiss e =>
    if timely s.thump.shared.clock e then
      (s.docket.step hiss e).map fun docket =>
        { docket
          made := s.made ++ (decided hiss s.docket e).toList
          thump := { s.thump with
            shared := { s.thump.shared with clock := clockAfter s.thump.shared.clock e } } }
    else none
  | .deliver g => some { s with thump := s.thump.spawn (Job.prog thump) (.enact g) }
  | .start w =>
    if s.running w < s.launched w then
      some { s with thump := s.thump.spawn (Job.prog thump) (.tend w) }
    else none
  | .act i oracle => (s.thump.act (serve oracle) i).map fun pool => { s with thump := pool }

def machine : Machine World Event where
  step := step hiss thump

/-- Nothing has happened. -/
def start (clock : Time) : World := { thump := { shared := { clock } } }

/-- The history of `thump.decisions`. -/
def decisions (s : World) : List Decision :=
  s.docket.published.map fun e => e.governed.decision

def outcomes (s : World) : List Outcome := s.thump.shared.outcomes

end World

section

variable {oracle : Oracle} {s s' : Shared}

theorem id_of_serve {o : Thump.Order} {oc : Outcome}
    (h : serve oracle s (.execute o time) = some (oc, s')) :
    oc.id = outcomeID .execution oc.signalRef time.unix := by
  cases h
  exact outcome_id o time oracle.executed

theorem outcomes_of_serve {c : Thump.Call} {r : Thump.iface.Answer c}
    (h : serve oracle s c = some (r, s')) {oc : Outcome} (hoc : oc ∈ s'.outcomes) :
    oc ∈ s.outcomes ∨ ∃ r', (⟨c, r⟩ : Answered Thump.iface) = ⟨.publish (.outcome oc), r'⟩ := by
  cases c with
  | now =>
    rw [serve] at h
    split at h
    · cases h
      exact .inl hoc
    · cases h
  | publish m =>
    cases m with
    | outcome oc' =>
      obtain ⟨-, rfl⟩ := Prod.mk.inj (Option.some.inj h)
      cases hs : oracle.stored with
      | false =>
        rw [hs] at hoc
        exact .inl hoc
      | true =>
        rw [hs] at hoc
        rcases mem_append.mp hoc with hoc | hoc
        · exact .inl hoc
        · obtain rfl := mem_singleton.mp hoc
          exact .inr ⟨r, rfl⟩
    | _ => cases h; exact .inl hoc
  | _ => cases h; exact .inl hoc

end

namespace World

variable {hiss : Hiss.Transport} {thump : Thump.Transport} {s s' : World} {e : Event}

theorem log_of_step (h : s.step hiss thump e = some s') :
    s'.thump.log = s.thump.log ∨ ∃ i c r oracle shared,
      serve oracle s.thump.shared c = some (r, shared) ∧
        s'.thump.log = (i, ⟨c, r⟩) :: s.thump.log := by
  cases e with
  | hiss e =>
    rw [step] at h
    split at h
    · obtain ⟨docket, -, rfl⟩ := Option.map_eq_some_iff.mp h
      exact .inl rfl
    · cases h
  | deliver g =>
    cases h
    exact .inl rfl
  | start w =>
    rw [step] at h
    split at h
    · cases h
      exact .inl rfl
    · cases h
  | act i oracle =>
    obtain ⟨pool, hact, rfl⟩ := Option.map_eq_some_iff.mp h
    obtain ⟨j, c, k, r, shared, -, hserve, rfl⟩ := Pool.act_cases hact
    exact .inr ⟨i, c, r, oracle, shared, hserve, rfl⟩

theorem executed_of_log (h : (machine hiss thump).run (start clock) es = some s) {o : Thump.Order}
    {oc : Outcome} (hm : (i, (⟨.execute o time, oc⟩ : Answered Thump.iface)) ∈ s.thump.log) :
    ∃ x : Executed, oc = x.outcome o time := by
  refine run_invariant (P := fun s : World => ∀ i o time oc,
    (i, ⟨.execute o time, oc⟩) ∈ s.thump.log →
      ∃ x : Executed, oc = x.outcome o time) ?_ (fun _ _ _ _ hm => by cases hm)
    (along_trivial _ _ _) h i o time oc hm
  intro s e s' hs _ hstep i o time oc hm
  rcases log_of_step hstep with hlog | ⟨i', c, r, oracle, shared, hserve, hlog⟩
  · rw [hlog] at hm
    exact hs i o time oc hm
  · rw [hlog] at hm
    rcases mem_cons.mp hm with heq | hm
    · cases heq
      cases hserve
      exact ⟨oracle.executed, rfl⟩
    · exact hs i o time oc hm

end World

/-! ## What an outcome is dated by -/

/-- The outcome that is published after the calls `t` is dated by a reading: the one that the
executor was handed, or the first of the last two. -/
inductive Stamp (t : List (Answered Thump.iface)) (oc : Outcome) : Form → Time → Prop where
  | executed {o : Thump.Order} {time : Time}
      (h : (⟨.execute o time, oc⟩ : Answered Thump.iface) ∈ t) : Stamp t oc .execution time
  | read {form : Form} {t₀ : List (Answered Thump.iface)} {time executedAt : Time}
      (h : t = t₀ ++ [⟨.now, time⟩, ⟨.now, executedAt⟩])
      (hid : oc.id = outcomeID form oc.signalRef time.unix) : Stamp t oc form time

/-- The monitor of a goroutine: what it publishes is dated by the calls it has made. -/
def dating : Monitor Thump.iface (List (Answered Thump.iface)) where
  permits t
    | .publish (.outcome oc) => ∃ form time, Stamp t oc form time
    | _ => True
  next t c r := t ++ [⟨c, r⟩]

theorem dating_background (w : Thump.Watch) :
    dating.Allows (fun _ _ => True) (Thump.Transport.background w) [] := by
  refine Allows.of_imp ?_ ((Thump.tends_background w).mono fun _ _ _ => trivial)
  rintro t c ⟨-, hc⟩
  cases c with
  | publish m =>
    cases m with
    | outcome oc =>
      cases hc with
      | report now at' hm => exact ⟨.execution, at', .executed hm⟩
      | convergence ht => exact ⟨.convergence, _, .read ht rfl⟩
      | acceptance _ ht => exact ⟨.acceptance, _, .read ht rfl⟩
    | _ => trivial
  | _ => trivial

/-- A delivery makes the calls of `handle`. -/
theorem enacts_enact (tr : Thump.Transport) (g : Decision.Governed) :
    Thump.enacts.Allows (Thump.NothingDue Thump.delivered?) ((Job.enact g).prog tr) [] := by
  have hattempt : Thump.enacts.Allows (Thump.NothingDue Thump.delivered?)
      ((tr.handle g).attempt : Prog Thump.iface Empty _) [] :=
    allows_attempt (Thump.enacts_handle tr g)
  exact hattempt.bind (fun _ _ h => h) fun _ e => e.elim

theorem stamp_of_steps {tr : Thump.Transport} {j : Job} {t t₁ t₂ : List (Answered Thump.iface)}
    {q : Prog Thump.iface Empty Unit} (h : (j.prog tr).Steps t q) {oc : Outcome}
    {r : Thump.iface.Answer (.publish (.outcome oc))}
    (ht : t = t₁ ++ ⟨.publish (.outcome oc), r⟩ :: t₂) :
    ∃ form time, Stamp t₁ oc form time := by
  cases j with
  | enact g =>
    obtain ⟨-, o, time, hm⟩ := (enacts_enact tr g).of_steps h ht
    exact ⟨.execution, time, .executed hm⟩
  | tend w =>
    exact Allows.of_steps (dating_background w) h ht

/-! ## Dated histories -/

section

open Hiss (Docket DocketEvent)

variable {tr : Hiss.Transport}

theorem decided_id {s : Docket} {e : DocketEvent} (h : decided tr s e = some (d, time)) :
    d.id = decisionID d.signalRef time.unix := by
  cases e with
  | propose ps w =>
    cases h
    obtain ⟨hid, hsig, -⟩ := Hiss.Authority.evaluate_stamped ps tr.policy w.now
    change (Hiss.Authority.evaluate ps tr.policy w.now).id = decisionID (Hiss.Authority.evaluate
      ps tr.policy w.now).signalRef w.now.unix
    rw [hid, hsig]
    rfl
  | approve a w =>
    obtain ⟨held, -, hd⟩ := Option.map_eq_some_iff.mp h
    cases hd
    rfl
  | send k stored => cases h

theorem emissions_of_step {s s' : Docket} {e : DocketEvent} (h : s.step tr e = some s')
    {m : Hiss.Emission} (hm : m ∈ s'.emissions) :
    m ∈ s.emissions ∨ ∃ time, decided tr s e = some (m.governed.decision, time) := by
  have launched {s₁ : Docket} {m' : Hiss.Emission} (hs : s₁.emissions = s.emissions)
      (hd : ∃ time, decided tr s e = some (m'.governed.decision, time))
      (hm : m ∈ (s₁.launch m').emissions) :
      m ∈ s.emissions ∨ ∃ time, decided tr s e = some (m.governed.decision, time) := by
    rcases mem_cons.mp ((Docket.emissions_launch s₁ m').mem_iff.mp hm) with rfl | hm
    · exact .inr hd
    · exact .inl (hs ▸ hm)
  cases e with
  | propose ps w =>
    rw [Docket.step] at h
    split at h
    · split at h
      · cases h
        exact .inl hm
      · cases h
        exact launched rfl ⟨w.now, rfl⟩ hm
    · cases h
      exact launched rfl ⟨w.now, rfl⟩ hm
  | approve a w =>
    rw [Docket.step] at h
    split at h
    · cases h
      exact .inl hm
    · rename_i held hheld
      split at h
      · cases h
        exact launched rfl ⟨w.now, by rw [decided, hheld]; rfl⟩ hm
      · cases h
        exact .inl hm
  | send k stored =>
    obtain ⟨m', hm', rfl⟩ := Option.map_eq_some_iff.mp h
    exact .inl ((Docket.subperm_send hm' stored).subset hm)

end

namespace World

/-- The outcome's ID was made from that reading. -/
def DatedBy (s : World) (oc : Outcome) (form : Form) (time : Time) : Prop :=
  ∃ i t₁ r t₂, Stamp t₁ oc form time ∧
    own i s.thump.log = t₁ ++ (⟨.publish (.outcome oc), r⟩ : Answered Thump.iface) :: t₂

variable (hiss : Hiss.Transport) (thump : Thump.Transport)

/-- The IDs, and which readings they were made from. -/
structure Dated (s : World) : Prop where
  ran : s.thump.Ran (Job.prog thump)
  made : ∀ d time, (d, time) ∈ s.made → d.id = decisionID d.signalRef time.unix
  emitted : ∀ m ∈ s.docket.emissions, ∃ time, (m.governed.decision, time) ∈ s.made
  reported : ∀ i o time (oc : Outcome),
    (i, (⟨.execute o time, oc⟩ : Answered Thump.iface)) ∈ s.thump.log →
      oc.id = outcomeID .execution oc.signalRef time.unix
  published : ∀ oc ∈ s.outcomes, ∃ i r,
    (i, (⟨.publish (.outcome oc), r⟩ : Answered Thump.iface)) ∈ s.thump.log

variable {hiss thump} {s s' : World}

theorem dated_start (clock : Time) : Dated thump (start clock) where
  ran := Pool.ran_init _
  made d time h := by cases h
  emitted m h := by cases h
  reported i o time oc h := by cases h
  published oc h := by cases h

theorem Dated.docket (h : Dated thump s) {e : Hiss.DocketEvent} {docket : Hiss.Docket}
    (hstep : s.docket.step hiss e = some docket) (clock : Time) :
    Dated thump
      { docket
        made := s.made ++ (decided hiss s.docket e).toList
        thump := { s.thump with shared := { s.thump.shared with clock := clock } } } where
  ran := ⟨h.ran.steps, h.ran.fresh⟩
  made d time hd := by
    rcases mem_append.mp hd with hd | hd
    · exact h.made d time hd
    · exact decided_id (Option.mem_toList.mp hd)
  emitted m hm := by
    rcases emissions_of_step hstep hm with hm | ⟨time, hd⟩
    · obtain ⟨time, hd⟩ := h.emitted m hm
      exact ⟨time, mem_append_left _ hd⟩
    · exact ⟨time, mem_append_right _ (Option.mem_toList.mpr hd)⟩
  reported := h.reported
  published := h.published

theorem Dated.spawn (h : Dated thump s) (j : Job) :
    Dated thump { s with thump := s.thump.spawn (Job.prog thump) j } :=
  { h with ran := h.ran.spawn j }

theorem Dated.act (h : Dated thump s) {oracle : Oracle}
    {pool : Pool Thump.iface Job Empty Unit Shared}
    (hact : s.thump.act (serve oracle) i = some pool) : Dated thump { s with thump := pool } := by
  have hran := h.ran.act hact
  obtain ⟨j, c, k, r, shared, hi, hserve, rfl⟩ := Pool.act_cases hact
  refine ⟨hran, h.made, h.emitted, ?_, ?_⟩
  · intro i' o time oc hm
    rcases mem_cons.mp hm with heq | hm
    · cases heq
      exact id_of_serve hserve
    · exact h.reported i' o time oc hm
  · intro oc hoc
    rcases outcomes_of_serve hserve hoc with hoc | ⟨r', heq⟩
    · obtain ⟨i', r', hm⟩ := h.published oc hoc
      exact ⟨i', r', mem_cons_of_mem _ hm⟩
    · exact ⟨i, r', by rw [heq]; exact mem_cons_self⟩

theorem Dated.step (h : Dated thump s) {e : Event} (hs : s.step hiss thump e = some s') :
    Dated thump s' := by
  cases e with
  | hiss e =>
    rw [World.step] at hs
    split at hs
    · obtain ⟨docket, hstep, rfl⟩ := Option.map_eq_some_iff.mp hs
      exact h.docket hstep _
    · cases hs
  | deliver g =>
    cases hs
    exact h.spawn _
  | start w =>
    rw [World.step] at hs
    split at hs
    · cases hs
      exact h.spawn _
    · cases hs
  | act i oracle =>
    obtain ⟨pool, hact, rfl⟩ := Option.map_eq_some_iff.mp hs
    exact h.act hact

theorem dated_run (h : (machine hiss thump).run (start clock) es = some s) : Dated thump s :=
  run_invariant (fun _ _ _ hd _ => hd.step) (dated_start clock) (along_trivial _ _ _) h

theorem Dated.decision (h : Dated thump s) (hd : d ∈ s.decisions) : ∃ time, (d, time) ∈ s.made := by
  obtain ⟨m, hm, rfl⟩ := mem_map.mp hd
  exact h.emitted m (mem_append_right _ hm)

theorem Dated.outcome (h : Dated thump s) {oc : Outcome} (hoc : oc ∈ s.outcomes) :
    ∃ form time, s.DatedBy oc form time := by
  obtain ⟨i, r, hm⟩ := h.published oc hoc
  obtain ⟨t₁, t₂, ht⟩ := append_of_mem (mem_own.mpr hm)
  obtain ⟨form, time, hstamp⟩ := stamp_of_steps
    (h.ran.steps (getElem?_eq_getElem (h.ran.lt_of_mem hm))) ht
  exact ⟨form, time, i, t₁, r, t₂, hstamp, ht⟩

theorem Dated.id_of_datedBy (h : Dated thump s) {oc : Outcome} (hd : s.DatedBy oc form time) :
    oc.id = outcomeID form oc.signalRef time.unix := by
  obtain ⟨i, t₁, r, t₂, hstamp, ht⟩ := hd
  cases hstamp with
  | @executed o time hm =>
    have hown : ⟨.execute o time, oc⟩ ∈ own i s.thump.log := by
      rw [ht]
      exact mem_append_left _ hm
    exact h.reported i o time oc (mem_own.mp hown)
  | read _ hid => exact hid

/-! ## Uniqueness -/

/-- No two decisions of a fingerprint, and no two outcomes of a fingerprint, have one ID. -/
structure Distinct (s : World) : Prop where
  decisions : ∀ d ∈ s.decisions, ∀ d' ∈ s.decisions, d.signalRef = d'.signalRef → d ≠ d' →
    d.id ≠ d'.id
  outcomes : ∀ oc ∈ s.outcomes, ∀ oc' ∈ s.outcomes, oc.signalRef = oc'.signalRef → oc ≠ oc' →
    oc.id ≠ oc'.id

/-- No two decisions of a fingerprint, and no two outcomes of a fingerprint and a form, are
dated by readings of one second. -/
structure Apart (s : World) : Prop where
  decisions : ∀ d ∈ s.decisions, ∀ d' ∈ s.decisions, d.signalRef = d'.signalRef → d ≠ d' →
    ∀ time time', (d, time) ∈ s.made → (d', time') ∈ s.made → time.unix ≠ time'.unix
  outcomes : ∀ oc ∈ s.outcomes, ∀ oc' ∈ s.outcomes, oc.signalRef = oc'.signalRef → oc ≠ oc' →
    ∀ form time time', s.DatedBy oc form time → s.DatedBy oc' form time' →
      time.unix ≠ time'.unix

theorem Dated.distinct_iff (h : Dated thump s) : s.Distinct ↔ s.Apart := by
  constructor
  · intro hdist
    refine ⟨?_, ?_⟩
    · intro d hd d' hd' hsig hne time time' ht ht' hsecond
      refine hdist.decisions d hd d' hd' hsig hne ?_
      rw [h.made d time ht, h.made d' time' ht', hsig, hsecond]
    · intro oc hoc oc' hoc' hsig hne form time time' ht ht' hsecond
      refine hdist.outcomes oc hoc oc' hoc' hsig hne ?_
      rw [h.id_of_datedBy ht, h.id_of_datedBy ht', hsig, hsecond]
  · intro hapart
    refine ⟨?_, ?_⟩
    · intro d hd d' hd' hsig hne hid
      obtain ⟨time, ht⟩ := h.decision hd
      obtain ⟨time', ht'⟩ := h.decision hd'
      rw [h.made d time ht, h.made d' time' ht', hsig, decisionID_inj] at hid
      exact hapart.decisions d hd d' hd' hsig hne time time' ht ht' hid
    · intro oc hoc oc' hoc' hsig hne hid
      obtain ⟨form, time, ht⟩ := h.outcome hoc
      obtain ⟨form', time', ht'⟩ := h.outcome hoc'
      rw [h.id_of_datedBy ht, h.id_of_datedBy ht', hsig, outcomeID_inj] at hid
      obtain ⟨rfl, hsecond⟩ := hid
      exact hapart.outcomes oc hoc oc' hoc' hsig hne form time time' ht ht' hsecond

end World

/-- In every run of hiss and thump each published decision and each published outcome is dated
by a reading of the clock.  The IDs of a fingerprint are distinct exactly if no two decisions of
it, and no two outcomes of it that are of one form, are dated by readings of one second. -/
theorem identifiers_distinct_iff {hiss : Hiss.Transport} {thump : Thump.Transport} {clock : Time}
    {es : List Event} {s : World}
    (hrun : (World.machine hiss thump).run (World.start clock) es = some s) :
    (∀ d ∈ s.decisions, ∃ time, (d, time) ∈ s.made) ∧
    (∀ oc ∈ s.outcomes, ∃ form time, s.DatedBy oc form time) ∧
    (s.Distinct ↔ s.Apart) := by
  have h := World.dated_run hrun
  exact ⟨fun d hd => h.decision hd, fun oc hoc => h.outcome hoc, h.distinct_iff⟩

/-- A set is held, and approved `pause` later.  An approval is delivered to thump twice, with
`pause` between the two, and is executed twice. -/
def approvedAfter (pause : Time) : List Event :=
  let a : Approval := { signalRef := "checkout", approver := "operator" }
  let enacted (i : Nat) (time : Time) : List Event :=
    [.deliver Thump.throttleApproval, .act i { time }, .act i { time },
      .act i { executed := .ran (.ok .applied) }, .act i {}, .act i {}]
  [.hiss (.propose Hiss.Consent.checkoutSet { now := 0 }), .hiss (.send 0 true),
    .hiss (.approve a { now := pause, later := pause }), .hiss (.send 0 true)] ++
    enacted 0 (2 * pause) ++ enacted 1 (3 * pause)

def approvedRun (pause : Time) : Option World :=
  (World.machine Hiss.Consent.strictTransport { catalog := Thump.throttleCatalog }).run
    (World.start 0) (approvedAfter pause)

/-- A second apart everything has an ID of its own. -/
theorem slowApproval_apart : ∃ s, approvedRun 1000000000 = some s ∧ s.decisions.length = 2 ∧
    s.outcomes.length = 2 ∧ s.Distinct ∧ s.Apart := by
  obtain ⟨s, hrun, hd, hoc, hdecisions, houtcomes⟩ : ∃ s, approvedRun 1000000000 = some s ∧
      s.decisions.length = 2 ∧ s.outcomes.length = 2 ∧
      (∀ d ∈ s.decisions, ∀ d' ∈ s.decisions, d.signalRef = d'.signalRef → d ≠ d' →
        d.id ≠ d'.id) ∧
      ∀ oc ∈ s.outcomes, ∀ oc' ∈ s.outcomes, oc.signalRef = oc'.signalRef → oc ≠ oc' →
        oc.id ≠ oc'.id :=
    exists_run (by decide +kernel)
  have hdistinct : s.Distinct := ⟨hdecisions, houtcomes⟩
  exact ⟨s, hrun, hd, hoc, hdistinct, (identifiers_distinct_iff hrun).2.2.mp hdistinct⟩

/-- Within a second the approval has the ID of the hold, and the second execution the ID of the
first. -/
theorem promptApproval_collides : ∃ s, approvedRun 300000000 = some s ∧
    (∃ d ∈ s.decisions, ∃ d' ∈ s.decisions, d.signalRef = d'.signalRef ∧ d.verdict = .hold ∧
      d'.verdict = .approved ∧ d.id = d'.id) ∧
    ∃ oc ∈ s.outcomes, ∃ oc' ∈ s.outcomes, oc.signalRef = oc'.signalRef ∧ oc ≠ oc' ∧
      oc.id = oc'.id :=
  exists_run (by decide +kernel)

end Beats.Identifiers
