import Beats.Thump.Actuator
import Beats.Lib.Machine
import Beats.Lib.Pool

/-!
# The kill switch

`FileSwitch` and `GatedExecutor` of `internal/thump`.  A reload reads the switch file and
then stores a flag, and an execution reads the flag once before it calls the inner
executor.  Any number of both run at the same time, over one flag.

The log of a pool says which reload stored last, and so which file the flag stands for
(`latest`).  `Sound` ties the flag to it, and every reading of the flag to the reload that
was the latest then.
-/

namespace Beats.Thump.KillSwitch

open Lib Prog List

/-! ## The switch and the gate -/

/-- What a reload finds on disk. -/
inductive FileState where
  /-- The file cannot be read. -/
  | missing (err : String)
  /-- The contents are not the shape of the configuration. -/
  | malformed (err : String)
  /-- A well-formed file, in which the key may be absent. -/
  | parsed (armed : Option Bool)
deriving DecidableEq

/-- The calls of the switch and of the gate. -/
inductive Call where
  | readFile
  | set (armed : Bool)
  | armed
  | inner (o : Order) (now : Time)

/-- The interface of the switch and of the gate. -/
def iface : Iface where
  Call := Call
  Answer
    | .readFile => FileState
    | .set _ => Unit
    | .armed => Bool
    | .inner _ _ => Outcome

/-- The file is read, and the switch is set as it says. -/
def FileSwitch.reload : Prog iface String Unit := do
  match ← @Prog.ask iface String .readFile with
  | .missing err =>
    @Prog.ask iface String (.set false)
    .fail ("kill-switch read: " ++ err)
  | .malformed err =>
    @Prog.ask iface String (.set false)
    .fail ("kill-switch parse: " ++ err)
  | .parsed armed => @Prog.ask iface String (.set (armed.getD false))

/-- What is reported where the switch is off. -/
def blockedOutcome (o : Order) (now : Time) : Outcome where
  id := "out:" ++ o.signalRef ++ ":" ++ toString now.unix
  decisionRef := o.decisionRef
  signalRef := o.signalRef
  contractRef := o.contractRef
  mode := .live
  result := .blocked
  executedAt := now

/-- A forward order is executed if the switch is on. -/
def GatedExecutor.execute (o : Order) (now : Time) : Prog iface String Outcome :=
  if o.kind = .reversal then @Prog.ask iface String (.inner o now)
  else do
    let armed : Bool ← @Prog.ask iface String .armed
    if !armed then return blockedOutcome o now
    @Prog.ask iface String (.inner o now)

section

variable {o : Order}

theorem execute_of_reversal (h : o.kind = .reversal) (now : Time) :
    GatedExecutor.execute o now = @Prog.ask iface String (.inner o now) :=
  if_pos h

theorem execute_of_forward (h : o.kind ≠ .reversal) (now : Time) :
    GatedExecutor.execute o now = @Prog.ask iface String .armed >>= fun (armed : Bool) =>
      if !armed then pure (blockedOutcome o now) else @Prog.ask iface String (.inner o now) :=
  if_neg h

end

/-! ## The machine -/

inductive Job where
  | reload
  | execute (o : Order) (now : Time)

def Job.prog : Job → Prog iface String (Option Outcome)
  | .reload => do
    FileSwitch.reload
    return none
  | .execute o now => do
    let oc ← GatedExecutor.execute o now
    return some oc

/-- How the calls are answered that the flag does not answer. -/
structure Oracle where
  file : FileState := .missing "no such file"
  outcome : Outcome := {}

/-- How the calls are answered, from the flag. -/
def serve (oracle : Oracle) (flag : Bool) : (c : Call) → Option (iface.Answer c × Bool)
  | .readFile => some (oracle.file, flag)
  | .set armed => some ((), armed)
  | .armed => some (flag, flag)
  | .inner _ _ => some (oracle.outcome, flag)

abbrev World := Pool iface Job String (Option Outcome) Bool

/-- A fresh switch is disarmed. -/
def start : World := { shared := false }

inductive Event where
  | spawn (j : Job)
  | act (i : Nat) (oracle : Oracle)

def machine : Machine World Event where
  step w
    | .spawn j => some (w.spawn Job.prog j)
    | .act i oracle => w.act (serve oracle) i

/-! ## The latest reload -/

/-- The file as the goroutine last read it. -/
def readBy (i : Nat) : List (Nat × Answered iface) → Option FileState
  | [] => none
  | (j, ⟨.readFile, (file : FileState)⟩) :: log => if j = i then some file else readBy i log
  | _ :: log => readBy i log

/-- The file that the latest completed reload read.  A reload is complete once it has stored
the flag. -/
def latest : List (Nat × Answered iface) → Option FileState
  | [] => none
  | (i, ⟨.set _, _⟩) :: log => readBy i log
  | _ :: log => latest log

def saysArmed : Option FileState → Bool
  | some (.parsed (some armed)) => armed
  | _ => false

@[simp] theorem latest_set (i : Nat) (armed : Bool) (u : Unit) (log : List (Nat × Answered iface)) :
    latest ((i, ⟨.set armed, u⟩) :: log) = readBy i log := rfl

/-- A job that has read the file, and nothing else, is known to have. -/
theorem readBy_of_own {i : Nat} {file : FileState} : ∀ {log : List (Nat × Answered iface)},
      own i log = [⟨.readFile, file⟩] → readBy i log = some file
  | [], h => by simp at h
  | (j, ⟨c, r⟩) :: log, h => by
    by_cases hj : j = i
    · subst hj
      rw [own_cons_self] at h
      cases append_singleton_inj.mp (h.trans (nil_append _).symm) |>.2
      simp [readBy]
    · rw [own_cons_of_ne hj] at h
      have ih := readBy_of_own h
      cases c with
      | readFile => simpa [readBy, hj] using ih
      | _ => exact ih

/-! ## Runs of the jobs -/

variable {t : List (Answered iface)} {q : Prog iface String (Option Outcome)}

/-- The runs of an execution. -/
inductive Gated (o : Order) (now : Time) :
    List (Answered iface) → Prog iface String (Option Outcome) → Prop where
  | start (h : o.kind ≠ .reversal) (k : Bool → Prog iface String (Option Outcome)) :
      Gated o now [] (.call .armed k)
  | blocked (h : o.kind ≠ .reversal) :
      Gated o now [⟨.armed, false⟩] (.ret (some (blockedOutcome o now)))
  | passed (h : o.kind ≠ .reversal) (k : Outcome → Prog iface String (Option Outcome)) :
      Gated o now [⟨.armed, true⟩] (.call (.inner o now) k)
  | executed (h : o.kind ≠ .reversal) (oc : Outcome) :
      Gated o now [⟨.armed, true⟩, ⟨.inner o now, oc⟩] (.ret (some oc))
  | exempt (h : o.kind = .reversal) (k : Outcome → Prog iface String (Option Outcome)) :
      Gated o now [] (.call (.inner o now) k)
  | undone (h : o.kind = .reversal) (oc : Outcome) :
      Gated o now [⟨.inner o now, oc⟩] (.ret (some oc))

theorem steps_execute {o : Order} {now : Time} (h : (Job.execute o now).prog.Steps t q) :
    Gated o now t q := by
  by_cases hk : o.kind = .reversal
  · rw [Job.prog, execute_of_reversal hk] at h
    rcases steps_call.mp h with ⟨rfl, rfl⟩ | ⟨oc, u, rfl, hu⟩
    · exact .exempt hk _
    · obtain ⟨rfl, rfl⟩ := steps_ret.mp hu
      exact .undone hk oc
  · rw [Job.prog, execute_of_forward hk] at h
    rcases steps_call.mp h with ⟨rfl, rfl⟩ | ⟨armed, u, rfl, hu⟩
    · exact .start hk _
    · cases armed with
      | false =>
        obtain ⟨rfl, rfl⟩ := steps_ret.mp hu
        exact .blocked hk
      | true =>
        rcases steps_call.mp hu with ⟨rfl, rfl⟩ | ⟨oc, v, rfl, hv⟩
        · exact .passed hk _
        · obtain ⟨rfl, rfl⟩ := steps_ret.mp hv
          exact .executed hk oc

/-- A job that is about to store the flag is a reload, and stores what its file says. -/
theorem steps_set {j : Job} {armed : Bool} {k : Unit → Prog iface String (Option Outcome)}
    (h : j.prog.Steps t (.call (.set armed) k)) :
    ∃ file : FileState, t = [⟨.readFile, file⟩] ∧ armed = saysArmed (some file) := by
  cases j with
  | reload =>
    rcases steps_call.mp h with ⟨-, hq⟩ | ⟨file, u, rfl, hu⟩
    · cases hq
    · refine ⟨file, ?_⟩
      cases file with
      | missing err =>
        rcases steps_call.mp hu with ⟨rfl, hq⟩ | ⟨_, v, rfl, hv⟩
        · cases hq
          exact ⟨rfl, rfl⟩
        · cases (steps_fail.mp hv).2
      | malformed err =>
        rcases steps_call.mp hu with ⟨rfl, hq⟩ | ⟨_, v, rfl, hv⟩
        · cases hq
          exact ⟨rfl, rfl⟩
        · cases (steps_fail.mp hv).2
      | parsed armed =>
        rcases steps_call.mp hu with ⟨rfl, hq⟩ | ⟨_, v, rfl, hv⟩
        · cases hq
          cases armed <;> exact ⟨rfl, rfl⟩
        · cases (steps_ret.mp hv).2
  | execute o now =>
    cases steps_execute h

/-! ## The flag and the log -/

/-- The flag stands for the file of the latest reload, and so did every reading of it. -/
structure Sound (w : World) : Prop where
  ran : w.Ran Job.prog
  flag : w.shared = saysArmed (latest w.log)
  readings : ∀ later i (armed : Bool) earlier, w.log = later ++ (i, ⟨.armed, armed⟩) :: earlier →
    armed = saysArmed (latest earlier)

variable {w w' : World}

theorem sound_start : Sound start where
  ran := Pool.ran_init _
  flag := rfl
  readings := by simp [start]

/-- A call that is no reading of the flag adds no reading. -/
theorem Sound.readings_cons (h : Sound w) {i : Nat} {a : Answered iface}
    (ha : ∀ armed : Bool, a = ⟨.armed, armed⟩ → armed = saysArmed (latest w.log)) :
    ∀ later j (armed : Bool) earlier, (i, a) :: w.log = later ++ (j, ⟨.armed, armed⟩) :: earlier →
      armed = saysArmed (latest earlier) := by
  intro later j armed earlier hlog
  cases later with
  | nil =>
    cases hlog
    exact ha armed rfl
  | cons b later =>
    injection hlog with _ hlog
    exact h.readings later j armed earlier hlog

theorem Sound.step (h : Sound w) {e : Event} (hs : machine.step w e = some w') : Sound w' := by
  cases e with
  | spawn j =>
    cases hs
    exact ⟨h.ran.spawn j, h.flag, h.readings⟩
  | act i oracle =>
    have hran := h.ran.act hs
    obtain ⟨j, c, k, r, flag, hi, hserve, rfl⟩ := Pool.act_cases hs
    cases c with
    | readFile =>
      cases hserve
      exact ⟨hran, h.flag, h.readings_cons nofun⟩
    | set armed =>
      cases hserve
      obtain ⟨file, hown, harmed⟩ := steps_set (h.ran.steps hi)
      refine ⟨hran, ?_, h.readings_cons nofun⟩
      rw [latest_set, readBy_of_own hown]
      exact harmed
    | armed =>
      cases hserve
      refine ⟨hran, h.flag, h.readings_cons ?_⟩
      intro armed harmed
      cases harmed
      exact h.flag
    | inner o now =>
      cases hserve
      exact ⟨hran, h.flag, h.readings_cons nofun⟩

theorem sound_of_run {es : List Event} (h : machine.run start es = some w) : Sound w :=
  Machine.run_invariant (fun _ _ _ hs _ => hs.step) sound_start (machine.along_trivial _ es) h

/-! ## What reaches the executor -/

/-- A call of the inner executor, with its outcome. -/
def inner? : Answered iface → List (Order × Time × Outcome)
  | ⟨.inner o now, (oc : Outcome)⟩ => [(o, now, oc)]
  | _ => []

/-- The calls of the inner executor that the job `i` made. -/
def inners (w : World) (i : Nat) : List (Order × Time × Outcome) := (own i w.log).flatMap inner?

/-- The job `i` read the flag when the latest completed reload had read a well-formed file
that says armed. -/
def ReadArmed (w : World) (i : Nat) : Prop :=
  ∃ later earlier, w.log = later ++ (i, ⟨.armed, true⟩) :: earlier ∧
    latest earlier = some (.parsed (some true))

/-- The job `i` read the flag when no reload was complete, or the latest one had read
something else. -/
def ReadDisarmed (w : World) (i : Nat) : Prop :=
  ∃ later earlier, w.log = later ++ (i, ⟨.armed, false⟩) :: earlier ∧
    latest earlier ≠ some (.parsed (some true))

theorem saysArmed_eq_true {file : Option FileState} :
    saysArmed file = true ↔ file = some (.parsed (some true)) := by
  rcases file with _ | _ | _ | _ | _ | _ <;> simp [saysArmed]

theorem Sound.readArmed (h : Sound w) {i : Nat}
    (hm : ⟨.armed, true⟩ ∈ own i w.log) : ReadArmed w i := by
  obtain ⟨later, earlier, hlog⟩ := append_of_mem (mem_own.mp hm)
  exact ⟨later, earlier, hlog, saysArmed_eq_true.mp (h.readings _ _ _ _ hlog).symm⟩

theorem Sound.readDisarmed (h : Sound w) {i : Nat}
    (hm : ⟨.armed, false⟩ ∈ own i w.log) : ReadDisarmed w i := by
  obtain ⟨later, earlier, hlog⟩ := append_of_mem (mem_own.mp hm)
  refine ⟨later, earlier, hlog, fun hfile => ?_⟩
  exact Bool.false_ne_true ((h.readings _ _ _ _ hlog).trans (saysArmed_eq_true.mpr hfile))

/-- Whatever the interleaving, a forward order reaches the inner executor only if its one
reading of the flag came when the latest completed reload had read armed.  Any other ends
blocked and does not reach it.  A reversal reaches it. -/
theorem forward_gated {es : List Event} (h : machine.run start es = some w) {i : Nat} {o : Order}
    {now : Time} {q : Prog iface String (Option Outcome)}
    (ht : w.tasks[i]? = some (.execute o now, q)) :
    (o.kind ≠ .reversal →
      (inners w i ≠ [] → ReadArmed w i) ∧
      ∀ out, q = .ofExcept out →
        (∃ oc, inners w i = [(o, now, oc)] ∧ out = .ok (some oc) ∧ ReadArmed w i) ∨
        (inners w i = [] ∧ out = .ok (some (blockedOutcome o now)) ∧ ReadDisarmed w i)) ∧
    (o.kind = .reversal →
      (∃ k, inners w i = [] ∧ q = .call (.inner o now) k) ∨
      ∃ oc, inners w i = [(o, now, oc)] ∧ q = .ret (some oc)) := by
  have hw := sound_of_run h
  have hg := steps_execute (hw.ran.steps ht)
  unfold inners
  generalize hown : own i w.log = t at hg
  have armed : ⟨.armed, true⟩ ∈ t → ReadArmed w i := fun hm =>
    hw.readArmed (hown ▸ hm)
  have disarmed : ⟨.armed, false⟩ ∈ t → ReadDisarmed w i := fun hm =>
    hw.readDisarmed (hown ▸ hm)
  cases hg with
  | start hk k =>
    exact ⟨fun _ => ⟨fun h => absurd rfl h, fun _ hq => absurd hq call_ne_ofExcept⟩,
      fun h => absurd h hk⟩
  | blocked hk =>
    refine ⟨fun _ => ⟨fun h => absurd rfl h, fun out hout => ?_⟩, fun h => absurd h hk⟩
    exact .inr ⟨rfl, ret_eq_ofExcept.mp hout, disarmed (.head _)⟩
  | passed hk k =>
    exact ⟨fun _ => ⟨fun h => absurd rfl h, fun _ hq => absurd hq call_ne_ofExcept⟩,
      fun h => absurd h hk⟩
  | executed hk oc =>
    refine ⟨fun _ => ⟨fun _ => armed (.head _), fun out hout => ?_⟩, fun h => absurd h hk⟩
    exact .inl ⟨oc, rfl, ret_eq_ofExcept.mp hout, armed (.head _)⟩
  | exempt hk k => exact ⟨fun h => absurd hk h, fun _ => .inl ⟨k, rfl, rfl⟩⟩
  | undone hk oc => exact ⟨fun h => absurd hk h, fun _ => .inr ⟨oc, rfl, rfl⟩⟩

def throttle : Order := { signalRef := "checkout", contractRef := "throttle" }

/-- A switch that is armed and then loses its file.  One execution reads the flag before the
second reload stores and one after. -/
def lostFile : List Event :=
  [.spawn .reload, .act 0 { file := .parsed (some true) }, .act 0 {},
    .spawn .reload, .act 1 { file := .missing "no such file" },
    .spawn (.execute throttle 0), .act 2 {}, .act 1 {}, .act 2 { outcome := { mode := .live } },
    .spawn (.execute throttle 1), .act 3 {}]

theorem lostFile_gated : ∃ w, machine.run start lostFile = some w ∧
    ReadArmed w 2 ∧ ReadDisarmed w 3 ∧ inners w 3 = [] := by
  obtain ⟨w, hw, q₂, h₂, hi₂, h₃, hi₃⟩ : ∃ w, machine.run start lostFile = some w ∧
      ∃ q₂, w.tasks[2]? = some (.execute throttle 0, q₂) ∧ inners w 2 ≠ [] ∧
        w.tasks[3]? = some (.execute throttle 1, .ret (some (blockedOutcome throttle 1))) ∧
        inners w 3 = [] :=
    ⟨_, rfl, _, rfl, nofun, rfl, rfl⟩
  refine ⟨w, hw, ((forward_gated hw h₂).1 nofun).1 hi₂, ?_⟩
  rcases ((forward_gated hw h₃).1 nofun).2 (.ok _) rfl with ⟨oc, hoc, -⟩ | ⟨-, -, hd⟩
  · rw [hi₃] at hoc
    cases hoc
  · exact ⟨hd, hi₃⟩

/-- The execution that read the flag in time reaches the inner executor when the reload of the
missing file is complete. -/
theorem lostFile_reaches_inner : ∃ w later earlier oc, machine.run start lostFile = some w ∧
    throttle.kind = .forward ∧ w.log = later ++ (2, ⟨.inner throttle 0, oc⟩) :: earlier ∧
    latest earlier = some (.missing "no such file") :=
  ⟨_, [(3, ⟨.armed, false⟩)], _, _, rfl, rfl, rfl, rfl⟩

end Beats.Thump.KillSwitch
