import Beats.Identifiers

/-!
# The log and the stream

thump publishes its outcomes on `thump.outcomes` and records them in its own log.  `handle` gives
up where the publish of its outcome fails, and records nothing.  The goroutines report the failure
and record the outcome nonetheless.

Over any run, what was recorded and what is about to be is what was delivered together with what a
goroutine lost (`World.recorded_perm`).  So the log of a thump that has come to rest agrees with the
stream exactly if no goroutine lost an outcome (`recorded_agrees_iff`).
-/

namespace Beats.Identifiers

open Lib Thump Thump.Transport List

/-! ## One job -/

/-- What an answered call of a job makes due to be recorded. -/
def Job.due? : Job → Answered Thump.iface → Option Outcome
  | .enact _ => delivered?
  | .tend _ => published?

def failed? : Answered Thump.iface → Option Outcome
  | ⟨.publish (.outcome oc), (r : Except String Unit)⟩ => if r.isOk then none else some oc
  | _ => none

/-- The outcome that an answered call of a job lost: it is recorded and was not delivered. -/
def Job.lost? : Job → Answered Thump.iface → Option Outcome
  | .enact _, _ => none
  | .tend _, a => failed? a

theorem Job.filterMap_due (j : Job) (t : List (Answered iface)) :
    (t.filterMap j.due?).Perm (t.filterMap delivered? ++ t.filterMap j.lost?) := by
  cases j with
  | enact g =>
    have hlost : t.filterMap (Job.enact g).lost? = [] := filterMap_eq_nil_iff.mpr fun _ _ => rfl
    rw [hlost, append_nil]
    exact .refl _
  | tend w =>
    induction t with
    | nil => rfl
    | cons a t ih =>
      obtain ⟨c, r⟩ := a
      cases c with
      | publish m =>
        cases m with
        | outcome oc =>
          cases r with
          | ok _ => exact ih.cons oc
          | error e => exact (ih.cons oc).trans perm_middle.symm
        | _ => exact ih
      | _ => exact ih

theorem keeps_prog (tr : Transport) (j : Job) :
    (Monitor.history (Keeps j.due?)).Allows (NothingDue j.due?) (j.prog tr) [] := by
  cases j with
  | enact g =>
    exact (enacts_enact tr g).of_imp fun _ _ h => h.1
  | tend w => exact (tends_background w).of_imp fun _ _ h => h.1

theorem Job.recorded_perm {tr : Transport} {j : Job} {t : List (Answered iface)}
    {q : Prog iface Empty Unit} (ht : (j.prog tr).Steps t q) :
    (recorded t ++ (due j.due? t).toList).Perm (t.filterMap delivered? ++ t.filterMap j.lost?) := by
  rw [recorded_append_due fun _ _ _ _ he => (keeps_prog tr j).of_steps ht he]
  exact j.filterMap_due t

/-! ## The whole run -/

namespace World

def recorded (s : World) : List Outcome := s.thump.log.filterMap fun e => e.2.1.recorded?

/-- The outcomes that were delivered, the newest first. -/
def delivered (s : World) : List Outcome := s.thump.log.filterMap fun e => delivered? e.2

/-- The outcomes that the goroutines published and that were not delivered, the newest first. -/
def lost (s : World) : List Outcome :=
  s.thump.log.filterMap fun e => (s.thump.tasks[e.1]?).bind fun task => task.1.lost? e.2

def ended : Prog Thump.iface Empty Unit → Bool
  | .ret _ => true
  | _ => false

def AtRest (s : World) : Prop := ∀ task ∈ s.thump.tasks, ended task.2 = true

instance (s : World) : Decidable s.AtRest :=
  inferInstanceAs (Decidable (∀ task ∈ s.thump.tasks, ended task.2 = true))

/-- The outcomes that a job has published and is to record. -/
def pending (s : World) : List Outcome :=
  (List.range s.thump.tasks.length).flatMap fun i =>
    ((s.thump.tasks[i]?).bind fun task => due task.1.due? (own i s.thump.log)).toList

variable {thump : Transport} {s : World}

theorem recorded_perm (h : s.thump.Ran (Job.prog thump)) :
    (s.recorded ++ s.pending).Perm (s.delivered ++ s.lost) := by
  have hlt : ∀ e ∈ s.thump.log, e.1 < s.thump.tasks.length := fun _ he => h.lt_of_mem he
  have hrecorded := filterMap_log_perm (fun _ (a : Answered iface) => a.1.recorded?) hlt
  have hdelivered := filterMap_log_perm (fun _ a => delivered? a) hlt
  have hlost := filterMap_log_perm
    (fun i a => (s.thump.tasks[i]?).bind fun task => task.1.lost? a) hlt
  -- job by job
  refine (hrecorded.append_right _).trans ?_
  refine (flatMap_append_perm ..).trans ?_
  refine (Perm.flatMap_left _ fun i hi => ?_).trans
    ((flatMap_append_perm ..).symm.trans (hdelivered.symm.append hlost.symm))
  have htask := getElem?_eq_getElem (mem_range.mp hi)
  simp only [htask, Option.bind_some]
  exact Job.recorded_perm (h.steps htask)

theorem pending_eq_nil (h : s.thump.Ran (Job.prog thump)) (hrest : s.AtRest) : s.pending = [] := by
  refine flatMap_eq_nil_iff.mpr fun i hi => ?_
  obtain ⟨⟨j, q⟩, htask⟩ : ∃ task, s.thump.tasks[i]? = some task :=
    ⟨_, getElem?_eq_getElem (mem_range.mp hi)⟩
  have hended : ended q = true := hrest (j, q) (mem_of_getElem? htask)
  obtain rfl : q = .ret () := by
    cases q with
    | ret _ => rfl
    | fail e => exact e.elim
    | call c k => cases hended
  have hexits : (j.prog thump).Exits (own i s.thump.log) (.ok ()) := h.steps htask
  rw [htask, Option.bind_some, Option.toList_eq_nil_iff]
  exact (keeps_prog thump j).of_exits hexits

end World

/-- In every run of hiss and thump, whichever publishes fail: once the jobs have ended, the outcomes
in the log are the delivered ones exactly if no goroutine failed to deliver one.  Before that, if
none did, the log has no outcome more often than it was delivered. -/
theorem recorded_agrees_iff {hiss : Hiss.Transport} {thump : Thump.Transport} {clock : Time}
    {es : List Event} {s : World}
    (hrun : (World.machine hiss thump).run (World.start clock) es = some s) :
    (s.AtRest → (s.recorded.Perm s.delivered ↔ s.lost = [])) ∧
    (s.lost = [] → ∀ oc, s.recorded.count oc ≤ s.delivered.count oc) := by
  have hran := (World.dated_run hrun).ran
  have hperm := World.recorded_perm hran
  refine ⟨fun hrest => ?_, fun hlost oc => ?_⟩
  · rw [World.pending_eq_nil hran hrest, append_nil] at hperm
    constructor
    · intro h
      have hlen := (hperm.symm.trans h).length_eq
      rw [length_append] at hlen
      exact length_eq_zero_iff.mp (Nat.add_eq_left.mp hlen)
    · intro hlost
      rwa [hlost, append_nil] at hperm
  · rw [hlost, append_nil] at hperm
    have hcount := hperm.count_eq oc
    rw [count_append] at hcount
    omega

def throttleOrder : Thump.Order :=
  orderOf throttleApproval.decision throttleApproval.set
    { id := "c1", contractRef := "throttle" }
    { name := "throttle", successCriteria := { window := 300000000000 } } 1

/-- A delivery of the throttle, which the job `i` applies. -/
def throttledBy (i : Nat) : List Event :=
  [.deliver throttleApproval, .act i { time := 1 }, .act i { time := 1 },
    .act i { executed := .ran (.ok .applied) }, .act i {}, .act i {}, .act i {}, .act i {}]

/-- Its window is met, and the publisher replies to the outcome that says so. -/
def throttledAndMet (reply : Except String Unit) : List Event :=
  throttledBy 0 ++
    [.start (.settle throttleOrder), .act 1 {}, .act 1 {}, .act 1 {}, .act 1 { time := 2 },
      .act 1 { time := 2 }, .act 1 { reply }, .act 1 {}]

def watching : Machine World Event :=
  World.machine Hiss.Consent.strictTransport { catalog := throttleCatalog, reversal := true }

theorem throttledAndMet_agrees :
    ∃ s, watching.run (World.start 0) (throttledAndMet (.ok ())) = some s ∧
      s.recorded.length = 2 ∧ s.recorded.Perm s.delivered := by
  exact Machine.exists_run_of (P := fun s => s.recorded.length = 2 ∧ s.AtRest ∧ s.lost = [])
    (by decide +kernel) fun s hrun ⟨hlen, hrest, hlost⟩ =>
      ⟨hlen, ((recorded_agrees_iff hrun).1 hrest).mpr hlost⟩

/-- A convergence outcome that could not be published is in the log. -/
theorem throttledAndMet_unpublished : ∃ s,
    watching.run (World.start 0) (throttledAndMet (.error "nats: no responders")) = some s ∧
      s.AtRest ∧ ∃ oc ∈ s.recorded, oc.result = .success ∧ oc ∉ s.delivered :=
  Machine.exists_run (by decide +kernel)

end Beats.Identifiers
