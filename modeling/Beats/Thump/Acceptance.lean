import Beats.Forge.Github
import Beats.Lib.Machine
import Beats.Lib.Pool
import Beats.Thump.Live

/-!
# Releases and their polls

A release-mode order leaves a pull request and is polled for its acceptance.  The key of both is the
contract of the order, so every order of a contract shares one branch.

The world has the pull requests and any number of cuts and polls over them, which move one request
at a time.  `Isolated` is what the orders may expect of one another.  It holds in every run in which
no release is cut on a branch while another order's release is outstanding there
(`releases_isolated`), and two orders of one contract break it (`sharedThrottle_withdrawn`).
-/

namespace Beats.Thump.Acceptance

open Lib Forge Monitor List Pool

/-! ## Releases -/

def keyOf (o : Order) : String := Actuate.releaseKey o.contractRef (o.kind == .reversal)

def branch (o : Order) : String := branchFor (keyOf o)

def releaseOf (o : Order) (path content : String) : Actuate.Release :=
  { key := keyOf o, path, content, notes := o.notes }

/-! ## What the runner cuts -/

/-- A cut is of the order's release. -/
def CutsFor (o : Order) : Actuate.Call → Prop
  | .cut rel => ∃ path content, rel = releaseOf o path content
  | _ => True

section

open Actuate

variable {o : Order} {d : Dispatch}

theorem cutsFor_last {c : Actuate.Call} {x : Actuate.iface.Answer c → Except String Unit}
    (hc : CutsFor o c) :
    MakesOnly (CutsFor o) (@Prog.ask Actuate.iface String c >>= fun r => Prog.orFail id (x r)) := by
  refine allows_ask_bind hc fun r => ?_
  cases x r <;> trivial

theorem cutsFor_orFail {α β ε' : Type} {wrap : ε' → String} {x : Except ε' α}
    {f : α → Prog Actuate.iface String β}
    (hf : ∀ a, MakesOnly (CutsFor o) (f a)) :
    MakesOnly (CutsFor o) (Prog.orFail wrap x >>= f) := by
  cases x with
  | ok a => exact hf a
  | error err => trivial

theorem cutsFor_mechanism (hkey : releaseKey d.ref d.reverse = keyOf o) (hnotes : d.notes = o.notes)
    (m : Mechanism) : MakesOnly (CutsFor o) (m.run d) := by
  cases m with
  | exec _ _ _ | scale _ _ _ => exact cutsFor_last trivial
  | restart ns deployment =>
    refine allows_ask_bind trivial fun now => ?_
    exact cutsFor_last trivial
  | flagVariant ns configMap dataKey flag variant =>
    refine allows_ask_bind trivial fun r => ?_
    refine cutsFor_orFail fun current => cutsFor_orFail fun updated => ?_
    exact cutsFor_last trivial
  | maintenanceRelease path flag variant =>
    rw [Mechanism.run]
    split
    · trivial
    · refine allows_ask_bind trivial fun r => ?_
      refine cutsFor_orFail fun current => cutsFor_orFail fun content => ?_
      have hrel : CutsFor o
          (.cut { key := releaseKey d.ref d.reverse, path, content, notes := d.notes }) :=
        ⟨path, content, by rw [hkey, hnotes, releaseOf]⟩
      refine allows_ask_bind hrel fun url => ?_
      exact cutsFor_orFail fun _ => trivial

theorem cutsFor_doAll (hkey : releaseKey d.ref d.reverse = keyOf o) (hnotes : d.notes = o.notes)
    (ms : List Mechanism) :
    MakesOnly (CutsFor o) (doAll d ms) := by
  induction ms with
  | nil => trivial
  | cons m ms ih =>
    exact (cutsFor_mechanism hkey hnotes m).bind (fun _ _ _ => ih) fun _ _ _ => trivial

/-- Whatever the executor cuts for an order is a release of the order. -/
theorem release_of_execute {r : Runner} {now : Time} {u : List (Answered Actuate.iface)}
    {q : Prog Actuate.iface Empty Outcome} (h : (Live.execute r o now).Steps u q)
    {rel : Release} {x : Except String String}
    (hm : (⟨.cut rel, x⟩ : Answered Actuate.iface) ∈ u) :
    ∃ path content, rel = releaseOf o path content := by
  have hop (op : Operation) : MakesOnly (CutsFor o)
      (op.run (r.dispatch o.contractRef (o.kind == .reversal) o.notes)) := by
    cases op with
    | one m => exact cutsFor_mechanism rfl rfl m
    | seq ms => exact cutsFor_doAll rfl rfl ms
  have hrun : MakesOnly (CutsFor o) (r.run o.contractRef (o.kind == .reversal) o.notes) := by
    rw [Runner.run]
    split
    · trivial
    · refine (allows_attempt (Q := fun _ _ => True) (hop _)).bind ?_
        fun _ _ _ => trivial
      intro _ res _
      cases res <;> trivial
  have hexec : MakesOnly (CutsFor o) (Live.execute r o now) :=
    (allows_attempt (Q := fun _ _ => True) hrun).bind (fun _ _ _ => trivial) fun _ e => e.elim
  exact hexec.of_mem_only h hm

end

/-! ## Jobs over the pull requests -/

/-- What a job comes to. -/
inductive Reply where
  /-- The number of the pull request. -/
  | released (number : Nat)
  | answered (accepted : Bool)
deriving DecidableEq

inductive Job where
  | cut (o : Order) (path content : String)
  | poll (i : Nat) (o : Order)

def Job.order : Job → Order
  | .cut o _ _ => o
  | .poll _ o => o

/-- What a job has left to do. -/
abbrev Left := Prog Forge.iface ForgeError Reply

def Job.prog (client : Forge.Client) : Job → Left
  | .cut o path content => do
    let number ← client.cut (releaseOf o path content)
    return .released number
  | .poll _ o => do
    let accepted ← withdraw o.contractRef
    return .answered accepted

/-! ## The world -/

/-- The pull requests, and the orders that each was cut for. -/
structure Desk where
  hub : Hub := {}
  cuts : List (Nat × Order) := []

/-- The orders that a pull request was cut for, after a request for the order `o`. -/
def record (o : Order) (before after : Hub) (cuts : List (Nat × Order)) :
    (c : Forge.Call) → Forge.iface.Answer c → List (Nat × Order)
  | .findPull _ true, .ok (some p) => (p.number, o) :: cuts
  | .createPull _ _ _, _ =>
    if after.opened = before.opened then cuts else (after.opened, o) :: cuts
  | _, _ => cuts

/-- The hub answers, and what was cut is recorded. -/
def serve (o : Order) (luck : Luck) (desk : Desk) (c : Forge.Call) :
    Option (Forge.iface.Answer c × Desk) :=
  let served := desk.hub.serve luck c
  some (served.1,
    { hub := served.2, cuts := record o desk.hub served.2 desk.cuts c served.1 })

/-- The pull requests and the jobs over them. -/
abbrev World := Pool Forge.iface Job ForgeError Reply Desk

def polled (w : World) (i : Nat) : Bool :=
  w.tasks.any fun task =>
    match task.1 with
    | .poll i' _ => i' == i
    | .cut _ _ _ => false

def settled (w : World) (i : Nat) : Bool :=
  w.tasks.any fun task =>
    match task with
    | (.poll _ _, .call _ _) => false
    | (.poll i' _, _) => i' == i
    | (.cut _ _ _, _) => false

inductive Event where
  | release (o : Order) (path content : String)
  | poll (i : Nat)
  | act (i : Nat) (luck : Luck)
  | review (r : Review)

/-- The releases and their reviewers, as a machine. -/
def machine (client : Forge.Client) : Machine World Event where
  step w
    | .release o path content => some (w.spawn (Job.prog client) (.cut o path content))
    | .poll i =>
      match w.tasks[i]? with
      | some (.cut o _ _, .ret (.released _)) =>
        if o.kind = .forward ∧ polled w i = false then
          some (w.spawn (Job.prog client) (.poll i o))
        else none
      | _ => none
    | .act i luck => w.tasks[i]?.bind fun task => w.act (serve task.1.order luck) i
    | .review r => some { w with shared := { w.shared with hub := w.shared.hub.review r } }

/-- The order that the job `i` has a release outstanding for.  A forward order has one until
its poll is over.  The release of a reversal is not polled, so it stays outstanding. -/
def outstanding (w : World) (i : Nat) : Option Order :=
  match w.tasks[i]? with
  | some (.cut o _ _, .call _ _) => some o
  | some (.cut o _ _, .ret _) => if o.kind = .forward ∧ settled w i = true then none else some o
  | _ => none

/-- Two different orders would share a pull request that is polled for. -/
def Clash (o o' : Order) : Prop :=
  branch o = branch o' ∧ o ≠ o' ∧ (o.kind = .forward ∨ o'.kind = .forward)

instance (o o' : Order) : Decidable (Clash o o') := inferInstanceAs (Decidable (_ ∧ _))

/-- No release is cut on a branch while another order's release is outstanding there. -/
def Separate (w : World) : Event → Prop
  | .release o _ _ => ∀ i < w.tasks.length, ∀ o' ∈ (outstanding w i).toList, ¬ Clash o o'
  | _ => True

instance (w : World) : (e : Event) → Decidable (Separate w e)
  | .release _ _ _ | .poll _ | .act _ _ | .review _ => by
    dsimp only [Separate]
    infer_instance

/-! ## Isolation -/

/-- The request withdraws, closes or reports on the pull request `n`. -/
def Touches (h : Hub) (n : Nat) : Forge.Call → Prop
  | .findPull b false => h.newest b = some n
  | .closePull number => number = n
  | .deleteRef b => n ∈ h.numbers b
  | _ => False

/-- The orders do not get into one another's way. -/
structure Isolated (w : World) : Prop where
  /-- A poll does not touch a pull request that was cut for another outstanding order. -/
  apart : ∀ {k i i' : Nat} {o o' : Order} {c : Forge.Call}
    {rest : Forge.iface.Answer c → Left} {n : Nat},
    w.tasks[k]? = some (.poll i o, .call c rest) → Touches w.shared.hub n c →
    outstanding w i' = some o' → o' ≠ o → (n, o') ∉ w.shared.cuts
  /-- The verdict of a poll is about a pull request that was cut for its order. -/
  verdict : ∀ {k i : Nat} {o : Order} {accepted : Bool},
    w.tasks[k]? = some (.poll i o, .ret (.answered accepted)) →
    ∃ p : Pull, (k, ⟨.findPull (branch o) false, .ok (some p)⟩) ∈ w.log ∧ accepted = p.merged ∧
      (p.number, o) ∈ w.shared.cuts

/-! ## Steps -/

section

variable {client : Forge.Client} {w w' : World} {e : Event} {i : Nat} {o : Order}

/-- What can happen in one step. -/
inductive Moves (client : Forge.Client) (w : World) : Event → World → Prop where
  | release (o : Order) (path content : String) :
      Moves client w (.release o path content)
        (w.spawn (Job.prog client) (.cut o path content))
  | poll {i n : Nat} {o : Order} {path content : String}
      (cut : w.tasks[i]? = some (.cut o path content, .ret (.released n)))
      (forward : o.kind = .forward) (once : polled w i = false) :
      Moves client w (.poll i) (w.spawn (Job.prog client) (.poll i o))
  | act {i : Nat} {luck : Luck} {j : Job} {c : Forge.Call}
      {rest : Forge.iface.Answer c → Left}
      {r : Forge.iface.Answer c} {desk : Desk} (task : w.tasks[i]? = some (j, .call c rest))
      (served : serve j.order luck w.shared c = some (r, desk)) :
      Moves client w (.act i luck)
        { shared := desk, tasks := w.tasks.set i (j, rest r), log := (i, ⟨c, r⟩) :: w.log }
  | review (r : Review) :
      Moves client w (.review r)
        { w with shared := { w.shared with hub := w.shared.hub.review r } }

theorem moves_of_step (h : (machine client).step w e = some w') : Moves client w e w' := by
  cases e with
  | release o path content =>
    cases h
    exact .release o path content
  | poll i =>
    simp only [machine] at h
    split at h
    next o path content n hi =>
      split at h
      next hc =>
        cases h
        exact .poll hi hc.1 hc.2
      next => cases h
    next => cases h
  | act i luck =>
    obtain ⟨task, hi, hact⟩ := Option.bind_eq_some_iff.mp h
    obtain ⟨j, c, k, r, s, hi', hs, rfl⟩ := act_cases hact
    obtain rfl := Option.some.inj (hi.symm.trans hi')
    exact .act hi hs
  | review r =>
    cases h
    exact .review r

/-! ## Jobs -/

theorem polled_iff : polled w i = true ↔
    ∃ (k : Nat) (o : Order) (q : Left),
      w.tasks[k]? = some (.poll i o, q) := by
  rw [polled, any_eq_true]
  constructor
  · rintro ⟨⟨j, q⟩, hm, hj⟩
    obtain ⟨k, hk⟩ := mem_iff_getElem?.mp hm
    cases j with
    | cut o path content => cases hj
    | poll i' o =>
      obtain rfl : i' = i := by simpa using hj
      exact ⟨k, o, q, hk⟩
  · rintro ⟨k, o, q, hk⟩
    exact ⟨_, mem_of_getElem? hk, by simp⟩

/-- What is left of a job that is not over. -/
def Running (q : Left) : Prop := ∃ c rest, q = .call c rest

theorem settled_iff : settled w i = true ↔
    ∃ (k : Nat) (o : Order) (q : Left),
      w.tasks[k]? = some (.poll i o, q) ∧ ¬ Running q := by
  rw [settled, any_eq_true]
  constructor
  · rintro ⟨⟨j, q⟩, hm, hj⟩
    obtain ⟨k, hk⟩ := mem_iff_getElem?.mp hm
    cases j with
    | cut o path content => cases q <;> cases hj
    | poll i' o =>
      cases q with
      | call c rest => cases hj
      | ret a =>
        obtain rfl : i' = i := by simpa using hj
        exact ⟨k, o, _, hk, nofun⟩
      | fail e =>
        obtain rfl : i' = i := by simpa using hj
        exact ⟨k, o, _, hk, nofun⟩
  · rintro ⟨k, o, q, hk, hq⟩
    refine ⟨_, mem_of_getElem? hk, ?_⟩
    cases q with
    | call c rest => exact absurd ⟨c, rest, rfl⟩ hq
    | ret a => simp
    | fail e => simp

theorem outstanding_iff : outstanding w i = some o ↔
    ∃ (path content : String) (q : Left),
      w.tasks[i]? = some (.cut o path content, q) ∧
        (Running q ∨ (∃ a, q = .ret a) ∧ (o.kind = .forward → settled w i = false)) := by
  constructor
  · intro h
    rw [outstanding] at h
    split at h
    next o' path content c rest hi =>
      cases h
      exact ⟨path, content, _, hi, .inl ⟨c, rest, rfl⟩⟩
    next o' path content a hi =>
      split at h
      next => cases h
      next hn =>
        cases h
        refine ⟨path, content, _, hi, .inr ⟨⟨a, rfl⟩, fun hf => ?_⟩⟩
        exact Bool.eq_false_iff.mpr fun hs => hn ⟨hf, hs⟩
    next => cases h
  · rintro ⟨path, content, q, hi, ⟨c, rest, rfl⟩ | ⟨⟨a, rfl⟩, hs⟩⟩
    · rw [outstanding, hi]
    · rw [outstanding, hi]
      refine if_neg fun hn => ?_
      rw [hs hn.1] at hn
      cases hn.2

theorem outstanding_of_running {path content : String} {c : Forge.Call}
    {rest : Forge.iface.Answer c → Left}
    (hi : w.tasks[i]? = some (.cut o path content, .call c rest)) : outstanding w i = some o :=
  outstanding_iff.mpr ⟨path, content, _, hi, .inl ⟨c, rest, rfl⟩⟩

theorem settled_of_moves (h : Moves client w e w') (hs : settled w i = true) :
    settled w' i = true := by
  obtain ⟨k, o, q, hk, hq⟩ := settled_iff.mp hs
  refine settled_iff.mpr ⟨k, o, q, ?_, hq⟩
  cases h with
  | release o path content => exact getElem?_spawn.mpr (.inl hk)
  | poll cut forward once => exact getElem?_spawn.mpr (.inl hk)
  | act task served =>
    refine (getElem?_set task).mpr (.inr ⟨?_, hk⟩)
    rintro rfl
    cases hk.symm.trans task
    exact hq ⟨_, _, rfl⟩
  | review r => exact hk

/-- A release is outstanding because it was, or because it is the new one. -/
theorem outstanding_of_moves (h : Moves client w e w') (ho : outstanding w' i = some o) :
    outstanding w i = some o ∨
      (∃ path content, e = .release o path content) ∧ i = w.tasks.length := by
  obtain ⟨path, content, q, hi, hq⟩ := outstanding_iff.mp ho
  have before (hi : w.tasks[i]? = some (.cut o path content, q)) : outstanding w i = some o := by
    refine outstanding_iff.mpr ⟨path, content, q, hi, hq.imp_right fun ⟨ha, hs⟩ => ⟨ha, ?_⟩⟩
    intro hf
    refine Bool.eq_false_iff.mpr fun hset => ?_
    rw [settled_of_moves h hset] at hs
    cases hs hf
  cases h with
  | release o' path' content' =>
    rcases getElem?_spawn.mp hi with hi | ⟨hlen, ht⟩
    · exact .inl (before hi)
    · cases ht
      exact .inr ⟨⟨path, content, rfl⟩, hlen⟩
  | poll cut forward once =>
    rcases getElem?_spawn.mp hi with hi | ⟨-, ht⟩
    · exact .inl (before hi)
    · cases ht
  | act task served =>
    rcases (getElem?_set task).mp hi with ⟨rfl, ht⟩ | ⟨-, hi⟩
    · cases ht
      exact .inl (outstanding_of_running task)
    · exact .inl (before hi)
  | review r => exact .inl (before hi)

end

/-! ## Requests -/

/-- A new pull request is named by its number. -/
theorem opening_of_named {luck : Luck} {h : Hub} {b base notes : String} {n : Nat}
    (hn : named ⟨.createPull b base notes, (h.serve luck (.createPull b base notes)).1⟩ = some n) :
    n = h.opened + 1 ∧ (h.serve luck (.createPull b base notes)).2 = h.opening b := by
  cases luck with
  | refused _ | lost _ => cases hn
  | fine =>
    rw [Hub.serve, Hub.effect] at hn ⊢
    split at hn
    next hc =>
      cases hn
      exact ⟨rfl, by rw [if_pos hc]⟩
    next => cases hn

/-- What a request for an order does: it settles pull requests at most, it finds the order an
open one, or it opens one for it. -/
theorem serve_cases {o : Order} {luck : Luck} {d d' : Desk} {c : Forge.Call}
    {r : Forge.iface.Answer c} (h : serve o luck d c = some (r, d')) :
    (d.hub.Keeps d'.hub ∧ d'.cuts = d.cuts ∧ named ⟨c, r⟩ = none) ∨
    (∃ b p, (⟨c, r⟩ : Answered Forge.iface) = ⟨.findPull b true, .ok (some p)⟩ ∧
      (d.hub.pulls b).find? (fun p => !true || p.isOpen) = some p ∧
      d' = { d with cuts := (p.number, o) :: d.cuts }) ∨
    (∃ b base notes, c = .createPull b base notes ∧ (∀ p ∈ d.hub.pulls b, p.isOpen = false) ∧
      (∀ n, named ⟨c, r⟩ = some n → n = d.hub.opened + 1) ∧
      d' = { hub := d.hub.opening b, cuts := (d.hub.opened + 1, o) :: d.cuts }) := by
  obtain ⟨rfl, rfl⟩ := Prod.mk.inj (Option.some.inj h)
  cases c with
  | findPull b onlyOpen =>
    cases luck with
    | refused _ | lost _ => cases onlyOpen <;> exact .inl ⟨.refl _, rfl, rfl⟩
    | fine =>
      cases onlyOpen with
      | false => exact .inl ⟨.refl _, rfl, rfl⟩
      | true =>
        simp only [Hub.serve, Hub.effect]
        cases hf : (d.hub.pulls b).find? fun p => !true || p.isOpen with
        | none => exact .inl ⟨.refl _, rfl, rfl⟩
        | some p => exact .inr (.inl ⟨b, p, rfl, hf, rfl⟩)
  | createPull b base notes =>
    rcases Hub.serve_cases luck d.hub (.createPull b base notes) with
      hk | ⟨_, _, _, hc, hclosed, hopen⟩
    · refine .inl ⟨hk, if_pos hk.opened, Option.eq_none_iff_forall_ne_some.mpr fun n hn => ?_⟩
      rw [(opening_of_named hn).2] at hk
      exact Nat.succ_ne_self _ hk.opened
    · cases hc
      refine .inr (.inr ⟨b, base, notes, rfl, hclosed, fun n hn => (opening_of_named hn).1, ?_⟩)
      rw [hopen]
      exact congrArg _ (if_neg (Nat.succ_ne_self _))
  | _ =>
    refine .inl ⟨?_, rfl, rfl⟩
    rcases Hub.serve_cases luck d.hub _ with hk | ⟨b, base, notes, hc, -, -⟩
    · exact hk
    · cases hc

theorem serve_findPull {o : Order} {luck : Luck} {d d' : Desk} {b : String} {found : Option Pull}
    (h : serve o luck d (.findPull b false) = some (.ok found, d')) :
    found.map Pull.number = d.hub.newest b := by
  have hr := (Prod.mk.inj (Option.some.inj h)).1
  cases luck with
  | fine =>
    cases hr
    exact Hub.find_newest d.hub b
  | refused err => cases hr
  | lost err => cases hr

/-! ## Soundness -/

/-- What holds of the jobs and the pull requests in every run whose releases are separate. -/
structure Sound (client : Forge.Client) (w : World) : Prop where
  ran : w.Ran (Job.prog client)
  wf : w.shared.hub.Wf
  /-- A pull request that was cut for an order is on its branch. -/
  cuts : ∀ {n : Nat} {o : Order}, (n, o) ∈ w.shared.cuts → n ∈ w.shared.hub.numbers (branch o)
  /-- A cut returns a pull request that was cut for its order. -/
  released : ∀ {i n : Nat} {o : Order} {path content : String},
    w.tasks[i]? = some (.cut o path content, .ret (.released n)) → (n, o) ∈ w.shared.cuts
  /-- A poll is of a forward order whose cut has returned. -/
  polls : ∀ {k i : Nat} {o : Order} {q : Left},
    w.tasks[k]? = some (.poll i o, q) →
    o.kind = .forward ∧
      ∃ path content n, w.tasks[i]? = some (.cut o path content, .ret (.released n))
  once : ∀ {k k' i : Nat} {o o' : Order} {q q' : Left},
    w.tasks[k]? = some (.poll i o, q) → w.tasks[k']? = some (.poll i o', q') → k = k'
  apart : ∀ {i i' : Nat} {o o' : Order},
    outstanding w i = some o → outstanding w i' = some o' → ¬ Clash o o'
  /-- The newest pull request of a branch that is waited for was cut for the order that waits
  for it. -/
  awaited : ∀ {i n : Nat} {o : Order} {path content : String},
    w.tasks[i]? = some (.cut o path content, .ret (.released n)) → o.kind = .forward →
    outstanding w i = some o →
    ∃ n', w.shared.hub.newest (branch o) = some n' ∧ (n', o) ∈ w.shared.cuts
  /-- So was every pull request that a poll found. -/
  found : ∀ {k i : Nat} {o : Order} {q : Left} {b : String}
    {p : Option Pull}, w.tasks[k]? = some (.poll i o, q) →
    (k, ⟨.findPull b false, .ok p⟩) ∈ w.log →
    ∃ p' : Pull, p = some p' ∧ (p'.number, o) ∈ w.shared.cuts

section

variable {client : Forge.Client} {w w' : World}

variable {o : Order} {i k : Nat} {path content : String} {c : Forge.Call}
  {rest : Forge.iface.Answer c → Left}

/-- While a poll runs, its release is outstanding. -/
theorem Sound.outstanding_of_poll (h : Sound client w)
    (hk : w.tasks[k]? = some (.poll i o, .call c rest)) : outstanding w i = some o := by
  obtain ⟨-, path, content, n, hi⟩ := h.polls hk
  refine outstanding_iff.mpr ⟨path, content, _, hi, .inr ⟨⟨.released n, rfl⟩, fun _ => ?_⟩⟩
  refine Bool.eq_false_iff.mpr fun hs => ?_
  obtain ⟨k', o', q, hk', hq⟩ := settled_iff.mp hs
  obtain rfl := h.once hk hk'
  cases hk.symm.trans hk'
  exact hq ⟨c, rest, rfl⟩

theorem cutting_prog :
    (cutting (branch o)).Allows (fun s out => ∀ n, out = .ok (.released n) → s = some n)
      (Job.prog client (.cut o path content)) none := by
  refine (cutting_cut client (releaseOf o path content)).bind ?_ nofun
  intro s number hs n hn
  cases hn
  exact hs number rfl

theorem branch_of_forward (h : o.kind = .forward) : branch o = branchFor o.contractRef := by
  rw [branch, keyOf, h]
  rfl

theorem polling_prog (ho : o.kind = .forward) : (polling (branch o)).Allows
      (fun found out => ∀ accepted, out = .ok (.answered accepted) →
        ∃ p, found = some p ∧ accepted = (p.map Pull.merged).getD false)
      (Job.prog client (.poll i o)) none := by
  rw [branch_of_forward ho]
  refine (polling_withdraw o.contractRef).bind ?_ nofun
  intro s accepted hs accepted' ha
  cases ha
  exact hs accepted rfl

/-- What a running cut asks for next, and what it returns. -/
theorem Sound.cut_permits (h : Sound client w)
    (hi : w.tasks[i]? = some (.cut o path content, .call c rest)) :
    (∃ s, (cutting (branch o)).permits s c) ∧
      ∀ r n, rest r = .ret (.released n) → named ⟨c, r⟩ = some n := by
  obtain ⟨hp, hr⟩ := (cutting_prog.steps (h.ran.steps hi)).1
  refine ⟨⟨_, hp⟩, fun r n hn => ?_⟩
  have hret := hr r
  rw [hn] at hret
  exact hret n rfl

theorem Sound.poll_permits (h : Sound client w)
    (hk : w.tasks[k]? = some (.poll i o, .call c rest)) :
    (polling (branch o)).permits ((polling (branch o)).after none (own k w.log)) c :=
  ((polling_prog (h.polls hk).1).steps (h.ran.steps hk)).1.1

variable {p : Option Pull} {e : Event} {n : Nat}

theorem Sound.found_of_polling (h : Sound client w) {q : Left}
    (hk : w.tasks[k]? = some (.poll i o, q))
    (hp : (polling (branch o)).after none (own k w.log) = some p) :
    (k, ⟨.findPull (branch o) false, .ok p⟩) ∈ w.log := by
  rcases mem_of_polling hp with hn | ⟨b, onlyOpen, hm⟩
  · cases hn
  · obtain ⟨t, -, rfl, rfl⟩ :=
      (polling_prog (h.polls hk).1).permits_of_mem (h.ran.steps hk) hm
    exact mem_own.mp hm

theorem Sound.isolated (h : Sound client w) : Isolated w where
  apart := by
    intro k i i' o o' c rest n hk ht ho' hne hcut
    have hn : n ∈ w.shared.hub.numbers (branch o) := by
      have hp := h.poll_permits hk
      cases c with
      | findPull b onlyOpen =>
        obtain ⟨rfl, rfl⟩ := hp
        exact Hub.mem_numbers_of_newest ht
      | closePull number =>
        obtain ⟨p, hfound, rfl⟩ := hp
        obtain ⟨p', hp', hown⟩ := h.found hk (h.found_of_polling hk hfound)
        cases hp'
        cases ht
        exact h.cuts hown
      | deleteRef b =>
        obtain rfl : b = branch o := hp
        exact ht
      | _ => exact ht.elim
    have hb : branch o = branch o' := h.wf.apart hn (h.cuts hcut)
    exact h.apart (h.outstanding_of_poll hk) ho' ⟨hb, hne.symm, .inl (h.polls hk).1⟩
  verdict := by
    intro k i o accepted hk
    obtain ⟨p, hp, rfl⟩ := (polling_prog (h.polls hk).1).exits (h.ran.steps hk) accepted rfl
    have hm := h.found_of_polling hk hp
    obtain ⟨p', rfl, hcut⟩ := h.found hk hm
    exact ⟨p', hm, rfl, hcut⟩

/-! ## Steps keep soundness -/

theorem running_prog (j : Job) : Running (Job.prog client j) := by
  cases j with
  | cut _ _ _ | poll _ _ => exact ⟨_, _, rfl⟩

theorem getElem?_spawn_ret {j j' : Job} {a : Reply} :
    (w.spawn (Job.prog client) j).tasks[i]? = some (j', .ret a) ↔
      w.tasks[i]? = some (j', .ret a) := by
  rw [getElem?_spawn]
  refine or_iff_left ?_
  rintro ⟨-, ht⟩
  obtain ⟨c, rest, hq⟩ : Running (Job.prog client j) := running_prog j
  rw [hq] at ht
  cases ht

theorem Sound.not_mem_log (h : Sound client w) {a : Answered Forge.iface} :
    (w.tasks.length, a) ∉ w.log := by
  intro hm
  have := mem_own.mpr hm
  rw [h.ran.fresh (Nat.le_refl _)] at this
  cases this

/-- A separate release keeps soundness. -/
theorem Sound.release (h : Sound client w) (hsep : Separate w (.release o path content)) :
    Sound client (w.spawn (Job.prog client) (.cut o path content)) where
  ran := h.ran.spawn _
  wf := h.wf
  cuts := h.cuts
  released hi := h.released (getElem?_spawn_ret.mp hi)
  polls hk := by
    rcases getElem?_spawn.mp hk with hk | ⟨-, ht⟩
    · obtain ⟨hf, path', content', a, hi⟩ := h.polls hk
      exact ⟨hf, path', content', a, getElem?_spawn_ret.mpr hi⟩
    · cases ht
  once hk hk' := by
    rcases getElem?_spawn.mp hk with hk | ⟨-, ht⟩
    · rcases getElem?_spawn.mp hk' with hk' | ⟨-, ht⟩
      · exact h.once hk hk'
      · cases ht
    · cases ht
  apart := by
    have fresh {i : Nat} {o' : Order} (ho' : outstanding w i = some o') : ¬ Clash o o' := by
      obtain ⟨_, _, _, hi, -⟩ := outstanding_iff.mp ho'
      exact hsep i (List.getElem?_eq_some_iff.mp hi).1 o' (by simp [ho'])
    intro i i' o₁ o₂ h₁ h₂
    rcases outstanding_of_moves (.release o path content) h₁ with h₁ | ⟨⟨_, _, he⟩, -⟩ <;>
      rcases outstanding_of_moves (.release o path content) h₂ with h₂ | ⟨⟨_, _, he'⟩, -⟩
    · exact h.apart h₁ h₂
    · cases he'
      exact fun hc => fresh h₁ ⟨hc.1.symm, hc.2.1.symm, hc.2.2.symm⟩
    · cases he
      exact fresh h₂
    · cases he
      cases he'
      exact fun hc => hc.2.1 rfl
  awaited hi hf ho := by
    have hi := getElem?_spawn_ret.mp hi
    rcases outstanding_of_moves (.release o path content) ho with ho | ⟨-, rfl⟩
    · exact h.awaited hi hf ho
    · simp at hi
  found hk hm := by
    rcases getElem?_spawn.mp hk with hk | ⟨-, ht⟩
    · exact h.found hk hm
    · cases ht

theorem outstanding_of_moves_ne (hm : Moves client w e w')
    (he : ∀ o path content, e ≠ .release o path content) (ho : outstanding w' i = some o) :
    outstanding w i = some o := by
  rcases outstanding_of_moves hm ho with ho | ⟨⟨path, content, hr⟩, -⟩
  · exact ho
  · exact absurd hr (he o path content)

theorem Sound.poll (h : Sound client w)
    (cut : w.tasks[i]? = some (.cut o path content, .ret (.released n)))
    (forward : o.kind = .forward) (once : polled w i = false) :
    Sound client (w.spawn (Job.prog client) (.poll i o)) where
  ran := h.ran.spawn _
  wf := h.wf
  cuts := h.cuts
  released hi := h.released (getElem?_spawn_ret.mp hi)
  polls hk := by
    rcases getElem?_spawn.mp hk with hk | ⟨-, ht⟩
    · obtain ⟨hf, path', content', a, hi⟩ := h.polls hk
      exact ⟨hf, path', content', a, getElem?_spawn_ret.mpr hi⟩
    · cases ht
      exact ⟨forward, path, content, n, getElem?_spawn_ret.mpr cut⟩
  once := by
    have unpolled {k : Nat} {o' : Order} {q : Left}
        (hk : w.tasks[k]? = some (.poll i o', q)) : False := by
      rw [polled_iff.mpr ⟨k, o', q, hk⟩] at once
      cases once
    intro k k' i' o₁ o₂ q q' hk hk'
    rcases getElem?_spawn.mp hk with hk | ⟨hlen, ht⟩ <;>
      rcases getElem?_spawn.mp hk' with hk' | ⟨hlen', ht'⟩
    · exact h.once hk hk'
    · cases ht'
      exact (unpolled hk).elim
    · cases ht
      exact (unpolled hk').elim
    · rw [hlen, hlen']
  apart h₁ h₂ :=
    h.apart (outstanding_of_moves_ne (.poll cut forward once) (by simp) h₁)
      (outstanding_of_moves_ne (.poll cut forward once) (by simp) h₂)
  awaited hi hf ho :=
    h.awaited (getElem?_spawn_ret.mp hi) hf
      (outstanding_of_moves_ne (.poll cut forward once) (by simp) ho)
  found hk hm := by
    rcases getElem?_spawn.mp hk with hk | ⟨rfl, -⟩
    · exact h.found hk hm
    · exact absurd hm h.not_mem_log

theorem Sound.review (h : Sound client w) (r : Review) :
    Sound client { w with shared := { w.shared with hub := w.shared.hub.review r } } := by
  have hk := Hub.keeps_review w.shared.hub r
  exact { h with
    ran := ⟨h.ran.steps, h.ran.fresh⟩
    wf := h.wf.keeps hk
    cuts := fun hc => by
      rw [hk.numbers_eq]
      exact h.cuts hc
    awaited := fun hi hf ho => by
      rw [hk.newest_eq]
      exact h.awaited hi hf ho }

section

variable {i : Nat} {j : Job} {c : Forge.Call} {rest : Forge.iface.Answer c → Left}
  {r : Forge.iface.Answer c} {luck : Luck} {desk : Desk}

/-- Nothing is forgotten about the pull requests. -/
theorem serve_grows (served : serve j.order luck w.shared c = some (r, desk)) :
    (∀ b, w.shared.hub.numbers b ⊆ desk.hub.numbers b) ∧ w.shared.cuts ⊆ desk.cuts := by
  rcases serve_cases served with ⟨hk, hc, -⟩ | ⟨b, p, -, -, rfl⟩ | ⟨b, base, notes, -, -, -, rfl⟩
  · refine ⟨fun b => ?_, ?_⟩
    · rw [hk.numbers_eq]
      exact Subset.refl _
    · rw [hc]
      exact Subset.refl _
  · exact ⟨fun _ => Subset.refl _, subset_cons_self _ _⟩
  · exact ⟨w.shared.hub.numbers_subset_opening b, subset_cons_self _ _⟩

theorem Sound.branch_of_findPull (h : Sound client w) {b : String}
    (task : w.tasks[i]? = some (j, .call c rest))
    (hc : (⟨c, r⟩ : Answered Forge.iface) = ⟨.findPull b true, .ok p⟩) : b = branch j.order := by
  cases hc
  cases j with
  | cut o path content =>
    obtain ⟨s, hb, -⟩ := (h.cut_permits task).1
    exact hb
  | poll i' o => cases (h.poll_permits task).2

theorem Sound.cut_of_createPull (h : Sound client w) {b base notes : String}
    (task : w.tasks[i]? = some (j, .call c rest)) (hc : c = .createPull b base notes) :
    b = branch j.order ∧ outstanding w i = some j.order := by
  subst hc
  cases j with
  | cut o path content =>
    obtain ⟨s, hb⟩ := (h.cut_permits task).1
    exact ⟨hb, outstanding_of_running task⟩
  | poll i' o => exact (h.poll_permits task).elim

theorem Sound.desk_act (h : Sound client w) (task : w.tasks[i]? = some (j, .call c rest))
    (served : serve j.order luck w.shared c = some (r, desk)) :
    desk.hub.Wf ∧ ∀ {n o}, (n, o) ∈ desk.cuts → n ∈ desk.hub.numbers (branch o) := by
  have hgrow := serve_grows served
  rcases serve_cases served with
    ⟨hk, hc, -⟩ | ⟨b, p, hc, hp, rfl⟩ | ⟨b, base, notes, hc, hclosed, -, rfl⟩
  · refine ⟨h.wf.keeps hk, fun hm => hgrow.1 _ (h.cuts ?_)⟩
    rwa [hc] at hm
  · refine ⟨h.wf, fun {n o} hm => ?_⟩
    rcases mem_cons.mp hm with he | hm
    · cases he
      rw [← h.branch_of_findPull task hc]
      exact Hub.mem_numbers_of_newest (h.wf.newest_of_open hp)
    · exact h.cuts hm
  · refine ⟨h.wf.opening hclosed, fun {n o} hm => ?_⟩
    rcases mem_cons.mp hm with he | hm
    · cases he
      rw [← (h.cut_of_createPull task hc).1]
      exact Hub.mem_numbers_of_newest (Hub.newest_opening _ _)
    · exact hgrow.1 _ (h.cuts hm)

theorem Sound.released_act (h : Sound client w) {o : Order} {path content : String}
    (task : w.tasks[i]? = some (.cut o path content, .call c rest))
    (served : serve o luck w.shared c = some (r, desk)) (hr : rest r = .ret (.released n)) :
    (n, o) ∈ desk.cuts ∧ desk.hub.newest (branch o) = some n := by
  have hn := (h.cut_permits task).2 r n hr
  rcases serve_cases served with
    ⟨-, -, hnone⟩ | ⟨b, p, hc, hp, rfl⟩ | ⟨b, base, notes, hc, -, hnew, rfl⟩
  · rw [hnone] at hn
    cases hn
  · have hb := h.branch_of_findPull task hc
    rw [hc] at hn
    obtain rfl : p.number = n := Option.some.inj hn
    refine ⟨mem_cons_self, ?_⟩
    rw [show branch o = b from hb.symm]
    exact h.wf.newest_of_open hp
  · obtain rfl := hnew n hn
    refine ⟨mem_cons_self, ?_⟩
    rw [show branch o = b from (h.cut_of_createPull task hc).1.symm]
    exact Hub.newest_opening _ _

theorem Sound.awaited_act (h : Sound client w) (task : w.tasks[i]? = some (j, .call c rest))
    (served : serve j.order luck w.shared c = some (r, desk)) {i' : Nat} {o : Order}
    (ho : outstanding w i' = some o) (hf : o.kind = .forward)
    (hn : ∃ n, w.shared.hub.newest (branch o) = some n ∧ (n, o) ∈ w.shared.cuts) :
    ∃ n, desk.hub.newest (branch o) = some n ∧ (n, o) ∈ desk.cuts := by
  obtain ⟨n, hnew, hcut⟩ := hn
  have hcut' := (serve_grows served).2 hcut
  rcases serve_cases served with
    ⟨hk, -, -⟩ | ⟨b, p, -, -, rfl⟩ | ⟨b, base, notes, hc, -, -, rfl⟩
  · exact ⟨n, by rw [hk.newest_eq, hnew], hcut'⟩
  · exact ⟨n, hnew, hcut'⟩
  · obtain ⟨rfl, hj⟩ := h.cut_of_createPull task hc
    by_cases hb : branch o = branch j.order
    · -- The new pull request is of an order on the same branch, so of the same order.
      obtain rfl : o = j.order := by
        by_contra hne
        exact h.apart ho hj ⟨hb, hne, .inl hf⟩
      exact ⟨_, Hub.newest_opening _ _, mem_cons_self⟩
    · exact ⟨n, by rw [Hub.newest_opening_of_ne hb, hnew], hcut'⟩

theorem Sound.found_act (h : Sound client w) {i' : Nat} {o : Order} {b : String}
    (task : w.tasks[i]? = some (.poll i' o, .call c rest))
    (served : serve o luck w.shared c = some (r, desk))
    (hc : (⟨c, r⟩ : Answered Forge.iface) = ⟨.findPull b false, .ok p⟩) :
    ∃ p' : Pull, p = some p' ∧ (p'.number, o) ∈ w.shared.cuts := by
  cases hc
  obtain ⟨hf, path, content, a, hi'⟩ := h.polls task
  obtain ⟨n, hnew, hcut⟩ := h.awaited hi' hf (h.outstanding_of_poll task)
  obtain ⟨rfl, -⟩ := h.poll_permits task
  have hp := serve_findPull served
  rw [hnew] at hp
  obtain ⟨p', rfl, rfl⟩ := Option.map_eq_some_iff.mp hp
  exact ⟨p', rfl, hcut⟩

/-- So does every request of a job. -/
theorem Sound.act (h : Sound client w) (task : w.tasks[i]? = some (j, .call c rest))
    (served : serve j.order luck w.shared c = some (r, desk)) :
    Sound client
      { shared := desk, tasks := w.tasks.set i (j, rest r), log := (i, ⟨c, r⟩) :: w.log } := by
  have hgrow := serve_grows served
  have hdesk := h.desk_act task served
  have hmoves : Moves client w (.act i luck) _ := .act task served
  -- A job that moved is still the same job, and one that had returned did not move.
  have job {k : Nat} {j' : Job} {q : Left}
      (hk : (w.tasks.set i (j, rest r))[k]? = some (j', q)) :
      ∃ q', w.tasks[k]? = some (j', q') := by
    rcases (getElem?_set task).mp hk with ⟨rfl, ht⟩ | ⟨-, hk⟩
    · cases ht
      exact ⟨_, task⟩
    · exact ⟨q, hk⟩
  have ret {k : Nat} {j' : Job} {a : Reply} (hk : w.tasks[k]? = some (j', .ret a)) :
      (w.tasks.set i (j, rest r))[k]? = some (j', .ret a) := by
    refine (getElem?_set task).mpr (.inr ⟨?_, hk⟩)
    rintro rfl
    cases hk.symm.trans task
  refine {
    ran := ?_
    wf := hdesk.1
    cuts := hdesk.2
    released := ?_
    polls := ?_
    once := ?_
    apart := fun h₁ h₂ => h.apart (outstanding_of_moves_ne hmoves (by simp) h₁)
      (outstanding_of_moves_ne hmoves (by simp) h₂)
    awaited := ?_
    found := ?_ }
  · exact h.ran.answer task r desk
  · intro i' n o path content hi'
    rcases (getElem?_set task).mp hi' with ⟨rfl, ht⟩ | ⟨-, hi'⟩
    · obtain ⟨rfl, hr⟩ := Prod.mk.inj ht
      exact (h.released_act task served hr.symm).1
    · exact hgrow.2 (h.released hi')
  · intro k i' o q hk
    obtain ⟨q', hk⟩ := job hk
    obtain ⟨hf, path, content, a, hi'⟩ := h.polls hk
    exact ⟨hf, path, content, a, ret hi'⟩
  · intro k k' i' o o' q q' hk hk'
    obtain ⟨_, hk⟩ := job hk
    obtain ⟨_, hk'⟩ := job hk'
    exact h.once hk hk'
  · intro i' n o path content hi' hf ho
    have ho := outstanding_of_moves_ne hmoves (by simp) ho
    rcases (getElem?_set task).mp hi' with ⟨rfl, ht⟩ | ⟨-, hi'⟩
    · obtain ⟨rfl, hr⟩ := Prod.mk.inj ht
      obtain ⟨hcut, hnew⟩ := h.released_act task served hr.symm
      exact ⟨n, hnew, hcut⟩
    · exact h.awaited_act task served ho hf (h.awaited hi' hf ho)
  · intro k i' o q b p hk hm
    obtain ⟨q', hk'⟩ := job hk
    rcases mem_cons.mp hm with he | hm
    · obtain ⟨rfl, hc⟩ := Prod.mk.inj he
      cases hk'.symm.trans task
      exact (h.found_act task served hc.symm).imp fun _ ⟨hp, hcut⟩ => ⟨hp, hgrow.2 hcut⟩
    · exact (h.found hk' hm).imp fun _ ⟨hp, hcut⟩ => ⟨hp, hgrow.2 hcut⟩

end

theorem Sound.step (h : Sound client w) (hsep : Separate w e)
    (hs : (machine client).step w e = some w') : Sound client w' := by
  cases moves_of_step hs with
  | release o path content => exact h.release hsep
  | poll cut forward once => exact h.poll cut forward once
  | act task served => exact h.act task served
  | review r => exact h.review r

theorem sound_start {hub : Hub} (hw : hub.Wf) : Sound client { shared := { hub } } where
  ran := ran_init _
  wf := hw
  cuts hc := by cases hc
  released hi := by simp at hi
  polls hk := by simp at hk
  once hk := by simp at hk
  apart h₁ := by simp [outstanding] at h₁
  awaited hi := by simp at hi
  found hk := by simp at hk

end

/-- In every run in which no release is cut on a branch while another order's release is
outstanding there, the orders are isolated in every state reached. -/
theorem releases_isolated (client : Forge.Client) {hub : Hub} (hw : hub.Wf) {es : List Event}
    {w : World}
    (hsep : (machine client).Along Separate { shared := { hub } } es)
    (hrun : (machine client).run { shared := { hub } } es = some w) : Isolated w :=
  (Machine.run_invariant (fun _ _ _ h hsep hs => h.step hsep hs) (sound_start hw) hsep
    hrun).isolated

/-- A repository with one flag file on its main branch. -/
def flagsHub : Hub where
  refs
    | "main" => some (.root fun path => if path = "flags.json" then some "off" else none)
    | _ => none

def checkoutThrottle : Order := { signalRef := "checkout", contractRef := "throttle" }

def cartThrottle : Order := { signalRef := "cart", contractRef := "throttle-cart" }

/-- Two contracts: one release is withdrawn by its poll, the other is merged. -/
def apartReleases : List Event :=
  [Event.release checkoutThrottle "flags.json" "on"] ++ List.replicate 7 (Event.act 0 .fine) ++
    [Event.release cartThrottle "flags.json" "on"] ++ List.replicate 7 (Event.act 1 .fine) ++
    [Event.poll 0] ++ List.replicate 3 (Event.act 2 .fine) ++
    [Event.review (.merge 2), .poll 1, .act 3 .fine]

theorem apartReleases_isolated :
    ∃ w, (machine {}).run { shared := { hub := flagsHub } } apartReleases = some w ∧
      w.tasks[2]? = some (.poll 0 checkoutThrottle, .ret (.answered false)) ∧
      w.tasks[3]? = some (.poll 1 cartThrottle, .ret (.answered true)) ∧ Isolated w := by
  have hsep : (machine {}).Along Separate { shared := { hub := flagsHub } } apartReleases := by
    decide +kernel
  exact ⟨_, rfl, rfl, rfl, releases_isolated {} (Hub.wf_of_refs _) hsep rfl⟩

def sharedThrottle : Order := { checkoutThrottle with signalRef := "cart" }

/-- Two orders of one contract are cut, and the first is polled. -/
def sharedReleases : List Event :=
  [Event.release checkoutThrottle "flags.json" "on"] ++ List.replicate 7 (Event.act 0 .fine) ++
    [Event.release sharedThrottle "flags.json" "on"] ++ List.replicate 3 (Event.act 1 .fine) ++
    [Event.poll 0, .act 2 .fine]

/-- The cuts of two orders of one contract return the same pull request, and the poll of the
one is about to close it while the other is outstanding. -/
theorem sharedThrottle_withdrawn :
    ∃ w rest, (machine {}).run { shared := { hub := flagsHub } } sharedReleases = some w ∧
      w.tasks[0]? = some (.cut checkoutThrottle "flags.json" "on", .ret (.released 1)) ∧
      w.tasks[1]? = some (.cut sharedThrottle "flags.json" "on", .ret (.released 1)) ∧
      w.tasks[2]? = some (.poll 0 checkoutThrottle, .call (.closePull 1) rest) ∧
      outstanding w 1 = some sharedThrottle ∧ ¬ Isolated w := by
  refine ⟨_, _, rfl, rfl, rfl, rfl, rfl, fun h => ?_⟩
  exact @Isolated.apart _ h 2 0 1 _ _ _ _ 1 rfl rfl rfl (by decide) (.head _)

end Beats.Thump.Acceptance
