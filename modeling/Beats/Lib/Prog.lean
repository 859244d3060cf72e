import Mathlib.Logic.Basic

/-!
# Programs that call their environment

A *program* over an interface is a tree.  It returns, fails, or makes a call and goes on with the
answer.  Every answer of the right type is possible, so a statement about all runs of a program is a
statement about every environment.

`Prog.Steps p t q` says that `p` becomes `q` over the answered calls `t`, and `Prog.Exits` that it
ends.

A *monitor* watches the calls of a run.  It has a state of its own, says which calls are permitted
in which states, and moves with every answer.  `Monitor.Allows` is a weakest precondition, and it
has the rules of one: sequencing (`Monitor.allows_bind`), consequence (`Monitor.Allows.mono`) and a
rule for a finalizer (`Monitor.allows_attempt`). `Monitor.Allows.steps` carries it along a run.
-/

namespace Lib

open List

/-- The calls a program may make, and the type of the answer to each. -/
structure Iface where
  /-- The calls. -/
  Call : Type
  /-- What a call is answered with. -/
  Answer : Call → Type

/-- A call with its answer. -/
abbrev Answered (I : Iface) := (c : I.Call) × I.Answer c

/-- A program over `I` that returns an `α` or fails with an `ε`. -/
inductive Prog (I : Iface) (ε α : Type) where
  | ret : α → Prog I ε α
  | fail : ε → Prog I ε α
  | call : (c : I.Call) → (I.Answer c → Prog I ε α) → Prog I ε α

namespace Prog

variable {I : Iface} {ε ε' α β : Type}

variable {c : I.Call} {t : List (Answered I)} {q : Prog I ε α}

/-- Go on with `f` where the program returns. -/
def bind : Prog I ε α → (α → Prog I ε β) → Prog I ε β
  | .ret a, f => f a
  | .fail e, _ => .fail e
  | .call c k, f => .call c fun r => (k r).bind f

instance : Monad (Prog I ε) where
  pure := .ret
  bind := Prog.bind

/-- Make one call and return its answer. -/
def ask (c : I.Call) : Prog I ε (I.Answer c) := .call c .ret

/-- Return the value of an `Except`, or fail with its error wrapped. -/
def orFail (wrap : ε' → ε) : Except ε' α → Prog I ε α
  | .ok a => .ret a
  | .error e => .fail (wrap e)

/-- The leaf of an outcome. -/
def ofExcept : Except ε α → Prog I ε α
  | .ok a => .ret a
  | .error e => .fail e

@[simp] theorem ret_eq_ofExcept {a : α} {out : Except ε α} :
    (ret a : Prog I ε α) = ofExcept out ↔ out = .ok a := by
  cases out <;> simp [ofExcept, eq_comm]

@[simp] theorem call_ne_ofExcept {k : I.Answer c → Prog I ε α} {out : Except ε α} :
    call c k ≠ ofExcept out := by
  cases out <;> exact nofun

/-- Run a program to its outcome, which is returned as a value. -/
def attempt : Prog I ε α → Prog I ε' (Except ε α)
  | .ret a => .ret (.ok a)
  | .fail e => .ret (.error e)
  | .call c k => .call c fun r => (k r).attempt

@[simp] theorem pure_eq (a : α) : (pure a : Prog I ε α) = .ret a := rfl

@[simp] theorem ret_bind (a : α) (f : α → Prog I ε β) : (ret a >>= f) = f a := rfl

@[simp] theorem call_bind (c : I.Call) (k : I.Answer c → Prog I ε α) (f : α → Prog I ε β) :
    (call c k >>= f) = .call c fun r => k r >>= f := rfl

@[simp] theorem ask_bind (c : I.Call) (f : I.Answer c → Prog I ε β) :
    (ask c >>= f) = .call c f := rfl

/-! ## Runs -/

/-- `Steps p t q`: over the answered calls `t` the program `p` becomes `q`. -/
inductive Steps : Prog I ε α → List (Answered I) → Prog I ε α → Prop where
  | refl {p : Prog I ε α} : Steps p [] p
  | call {c : I.Call} {k : I.Answer c → Prog I ε α} {r : I.Answer c}
      {t : List (Answered I)} {q : Prog I ε α} :
      Steps (k r) t q → Steps (.call c k) (⟨c, r⟩ :: t) q

theorem steps_ret {a : α} : (ret a : Prog I ε α).Steps t q ↔ t = [] ∧ q = ret a := by
  constructor
  · intro h
    cases h
    exact ⟨rfl, rfl⟩
  · rintro ⟨rfl, rfl⟩
    exact .refl

theorem steps_fail {e : ε} : (fail e : Prog I ε α).Steps t q ↔ t = [] ∧ q = fail e := by
  constructor
  · intro h
    cases h
    exact ⟨rfl, rfl⟩
  · rintro ⟨rfl, rfl⟩
    exact .refl

theorem steps_call {k : I.Answer c → Prog I ε α} : (call c k).Steps t q ↔
      (t = [] ∧ q = call c k) ∨ ∃ r u, t = ⟨c, r⟩ :: u ∧ (k r).Steps u q := by
  constructor
  · intro h
    cases h with
    | refl => exact .inl ⟨rfl, rfl⟩
    | call h => exact .inr ⟨_, _, rfl, h⟩
  · rintro (⟨rfl, rfl⟩ | ⟨r, u, rfl, h⟩)
    · exact .refl
    · exact .call h

/-- A run can be carried one call further. -/
theorem Steps.snoc {p : Prog I ε α}
    {k : I.Answer c → Prog I ε α} (r : I.Answer c) (h : p.Steps t (.call c k)) :
    p.Steps (t ++ [⟨c, r⟩]) (k r) := by
  generalize hq : Prog.call c k = q at h
  induction h with
  | refl =>
    subst hq
    exact .call .refl
  | call _ ih => exact .call (ih hq)

/-- The run over `t` ends with the outcome `out`. -/
def Exits (p : Prog I ε α) (t : List (Answered I)) (out : Except ε α) : Prop :=
  Steps p t (ofExcept out)

/-- Play a program against an environment with a state of its own, which says how each
call is answered.  The result is the outcome and the answered calls. -/
def play {σ : Type} (answer : σ → (c : I.Call) → I.Answer c × σ) :
    σ → Prog I ε α → Except ε α × List (Answered I)
  | _, .ret a => (.ok a, [])
  | _, .fail e => (.error e, [])
  | s, .call c k =>
    let (r, s') := answer s c
    let (out, t) := play answer s' (k r)
    (out, ⟨c, r⟩ :: t)

/-- What is played is a run. -/
theorem exits_play {σ : Type} (answer : σ → (c : I.Call) → I.Answer c × σ) :
    ∀ (p : Prog I ε α) (s : σ), p.Exits (play answer s p).2 (play answer s p).1
  | .ret _, _ => .refl
  | .fail _, _ => .refl
  | .call c k, s => .call (exits_play answer (k (answer s c).1) (answer s c).2)

/-- A script that answers each call in one way answers so in all that is played. -/
theorem eq_of_mem_play {script : (c : I.Call) → I.Answer c} {r : I.Answer c} :
    ∀ {p : Prog I ε α}, ⟨c, r⟩ ∈ (play (fun _ c => (script c, ())) () p).2 →
      r = script c
  | .ret _, h => by cases h
  | .fail _, h => by cases h
  | .call c' k, h => by
    rcases mem_cons.mp h with he | hm
    · cases he
      rfl
    · exact eq_of_mem_play hm

/-- Run a program in an environment with a state of its own.  The result is the outcome and
the state that the environment is left in. -/
def runIn {σ : Type} (answer : σ → (c : I.Call) → I.Answer c × σ) :
    σ → Prog I ε α → Except ε α × σ
  | s, .ret a => (.ok a, s)
  | s, .fail e => (.error e, s)
  | s, .call c k => runIn answer (answer s c).2 (k (answer s c).1)

section

variable {σ : Type} {answer : σ → (c : I.Call) → I.Answer c × σ} {s s' : σ}

@[simp] theorem runIn_ret (a : α) : runIn answer s (.ret a : Prog I ε α) = (.ok a, s) := rfl

@[simp] theorem runIn_call (c : I.Call) (k : I.Answer c → Prog I ε α) :
    runIn answer s (.call c k) = runIn answer (answer s c).2 (k (answer s c).1) := rfl

/-- The rule of a call. -/
theorem runIn_ask {c : I.Call} {f : I.Answer c → Prog I ε α} {r : I.Answer c}
    (h : answer s c = (r, s')) : runIn answer s (ask c >>= f) = runIn answer s' (f r) := by
  rw [ask_bind, runIn_call, h]

/-- A sequence runs its first part and goes on where that one left the environment. -/
theorem runIn_bind {f : α → Prog I ε β} {a : α} :
    ∀ {p : Prog I ε α} {s : σ}, runIn answer s p = (.ok a, s') →
      runIn answer s (p >>= f) = runIn answer s' (f a)
  | .ret b, s, h => by
    cases h
    rfl
  | .fail e, s, h => by cases h
  | .call c k, s, h => runIn_bind (p := k (answer s c).1) h

/-- A caught program runs as the program does. -/
theorem runIn_attempt {out : Except ε α} : ∀ {p : Prog I ε α} {s : σ},
    runIn answer s p = (out, s') →
      runIn answer s (p.attempt : Prog I ε' (Except ε α)) = (.ok out, s')
  | .ret a, s, h => by
    cases h
    rfl
  | .fail e, s, h => by
    cases h
    rfl
  | .call c k, s, h => runIn_attempt (p := k (answer s c).1) h

end

variable {out : Except ε α} {t : List (Answered I)} {f : α → Prog I ε β}

theorem exits_ret {a : α} : (ret a : Prog I ε α).Exits t out ↔ t = [] ∧ out = .ok a := by
  constructor
  · intro h
    cases out <;> cases h
    exact ⟨rfl, rfl⟩
  · rintro ⟨rfl, rfl⟩
    exact .refl

theorem exits_fail {e : ε} : (fail e : Prog I ε α).Exits t out ↔ t = [] ∧ out = .error e := by
  constructor
  · intro h
    cases out <;> cases h
    exact ⟨rfl, rfl⟩
  · rintro ⟨rfl, rfl⟩
    exact .refl

theorem exits_ofExcept {out' : Except ε α} :
    (ofExcept out : Prog I ε α).Exits t out' ↔ t = [] ∧ out' = out := by
  cases out with
  | ok a => exact exits_ret
  | error e => exact exits_fail

theorem exits_call {c : I.Call} {k : I.Answer c → Prog I ε α} :
    (call c k).Exits t out ↔ ∃ r u, t = ⟨c, r⟩ :: u ∧ (k r).Exits u out := by
  constructor
  · intro h
    cases out <;> cases h <;> exact ⟨_, _, rfl, ‹_›⟩
  · rintro ⟨r, u, rfl, h⟩
    exact .call h

theorem exits_ask_bind {c : I.Call} {f : I.Answer c → Prog I ε α} :
    (ask c >>= f).Exits t out ↔ ∃ r u, t = ⟨c, r⟩ :: u ∧ (f r).Exits u out :=
  exits_call

/-- A run of a sequence that ends is a run of its first part, and where that one returned
a run of the rest. -/
theorem exits_bind {out : Except ε β} :
    ∀ {p : Prog I ε α} {t : List (Answered I)}, (p >>= f).Exits t out →
      (∃ a u v, t = u ++ v ∧ p.Exits u (.ok a) ∧ (f a).Exits v out) ∨
        ∃ e, p.Exits t (.error e) ∧ out = .error e
  | .ret a, t, h => .inl ⟨a, [], t, rfl, .refl, h⟩
  | .fail e, t, h => by
    obtain ⟨rfl, rfl⟩ := exits_fail.mp h
    exact .inr ⟨e, .refl, rfl⟩
  | .call c k, t, h => by
    obtain ⟨r, u, rfl, hk⟩ := exits_call.mp h
    rcases exits_bind hk with ⟨a, v, w, rfl, hv, hw⟩ | ⟨e, he, rfl⟩
    · exact .inl ⟨a, ⟨c, r⟩ :: v, w, rfl, .call hv, hw⟩
    · exact .inr ⟨e, .call he, rfl⟩

/-- Where a sequence has returned, its first part has. -/
theorem exits_bind_ok {p : Prog I ε α} {b : β} (h : (p >>= f).Exits t (.ok b)) :
    ∃ a u v, t = u ++ v ∧ p.Exits u (.ok a) ∧ (f a).Exits v (.ok b) :=
  (exits_bind h).resolve_right fun ⟨_, _, he⟩ => by cases he

theorem exits_bind_ret {p : Prog I ε α} {g : α → β} {b : β}
    (h : (p >>= fun a => ret (g a)).Exits t (.ok b)) : ∃ a, p.Exits t (.ok a) ∧ b = g a := by
  obtain ⟨a, u, v, rfl, hu, hv⟩ := exits_bind_ok h
  obtain ⟨rfl, hb⟩ := exits_ret.mp hv
  exact ⟨a, by rwa [append_nil], Except.ok.inj hb⟩

/-- Where a program has returned, an answer that would have failed it was none. -/
theorem exits_orFail_ok {wrap : ε' → ε} {x : Except ε' α} {b : β}
    (h : (orFail wrap x >>= f).Exits t (.ok b)) : ∃ a, x = .ok a ∧ (f a).Exits t (.ok b) := by
  cases x with
  | ok a => exact ⟨a, rfl, h⟩
  | error e => cases (exits_fail.mp h).2

/-- A run of the first part and a run of the rest make a run of the sequence. -/
theorem Exits.bind {a : α} {out : Except ε β} {v : List (Answered I)} (hv : (f a).Exits v out) :
    ∀ {p : Prog I ε α} {u : List (Answered I)}, p.Exits u (.ok a) → (p >>= f).Exits (u ++ v) out
  | .ret b, u, hu => by
    obtain ⟨rfl, hb⟩ := exits_ret.mp hu
    cases hb
    exact hv
  | .fail e, u, hu => by cases (exits_fail.mp hu).2
  | .call c k, u, hu => by
    obtain ⟨r, u, rfl, hk⟩ := exits_call.mp hu
    exact exits_call.mpr ⟨r, u ++ v, rfl, Exits.bind hv hk⟩

/-- A first part that fails ends the sequence. -/
theorem Exits.bind_error {e : ε} :
    ∀ {p : Prog I ε α} {u : List (Answered I)}, p.Exits u (.error e) → (p >>= f).Exits u (.error e)
  | .ret b, u, hu => by cases (exits_ret.mp hu).2
  | .fail e', u, hu => by
    obtain ⟨rfl, he⟩ := exits_fail.mp hu
    cases he
    exact .refl
  | .call c k, u, hu => by
    obtain ⟨r, u, rfl, hk⟩ := exits_call.mp hu
    exact exits_call.mpr ⟨r, u, rfl, Exits.bind_error hk⟩

/-- A run of a caught program is a run of the program. -/
theorem exits_attempt {out : Except ε' (Except ε α)} : ∀ {p : Prog I ε α} {t : List (Answered I)},
      (p.attempt : Prog I ε' (Except ε α)).Exits t out ↔ ∃ x, out = .ok x ∧ p.Exits t x
  | .ret a, t => by
    rw [attempt, exits_ret]
    constructor
    · rintro ⟨rfl, rfl⟩
      exact ⟨_, rfl, .refl⟩
    · rintro ⟨x, rfl, h⟩
      obtain ⟨rfl, rfl⟩ := exits_ret.mp h
      exact ⟨rfl, rfl⟩
  | .fail e, t => by
    rw [attempt, exits_ret]
    constructor
    · rintro ⟨rfl, rfl⟩
      exact ⟨_, rfl, .refl⟩
    · rintro ⟨x, rfl, h⟩
      obtain ⟨rfl, rfl⟩ := exits_fail.mp h
      exact ⟨rfl, rfl⟩
  | .call c k, t => by
    rw [attempt, exits_call]
    constructor
    · rintro ⟨r, u, rfl, h⟩
      obtain ⟨x, rfl, hx⟩ := exits_attempt.mp h
      exact ⟨x, rfl, exits_call.mpr ⟨r, u, rfl, hx⟩⟩
    · rintro ⟨x, rfl, h⟩
      obtain ⟨r, u, rfl, hk⟩ := exits_call.mp h
      exact ⟨r, u, rfl, exits_attempt.mpr ⟨x, rfl, hk⟩⟩

/-- The answers decide where a run ends, and with what outcome. -/
theorem Exits.eq_of_append {out' : Except ε α} {v v' : List (Answered I)} :
    ∀ {p : Prog I ε α} {t t' : List (Answered I)}, p.Exits t out → p.Exits t' out' →
      t ++ v = t' ++ v' → t = t' ∧ out = out'
  | .ret _, _, _, h, h', _ => by
    obtain ⟨rfl, rfl⟩ := exits_ret.mp h
    obtain ⟨rfl, rfl⟩ := exits_ret.mp h'
    exact ⟨rfl, rfl⟩
  | .fail _, _, _, h, h', _ => by
    obtain ⟨rfl, rfl⟩ := exits_fail.mp h
    obtain ⟨rfl, rfl⟩ := exits_fail.mp h'
    exact ⟨rfl, rfl⟩
  | .call c k, _, _, h, h', he => by
    obtain ⟨r, u, rfl, hk⟩ := exits_call.mp h
    obtain ⟨r', u', rfl, hk'⟩ := exits_call.mp h'
    injection he with ha he
    cases ha
    obtain ⟨rfl, rfl⟩ := Exits.eq_of_append hk hk' he
    exact ⟨rfl, rfl⟩

/-- The answers decide the outcome. -/
theorem Exits.unique {out' : Except ε α} {p : Prog I ε α} (h : p.Exits t out)
    (h' : p.Exits t out') : out = out' :=
  (h.eq_of_append h' (Eq.refl (t ++ []))).2

end Prog

/-! ## Marks -/

/-- The interface with marks: calls that do nothing but show in a run. -/
def Iface.marked (I : Iface) (M : Type) : Iface where
  Call := M ⊕ I.Call
  Answer
    | .inl _ => Unit
    | .inr c => I.Answer c

namespace Prog

variable {I : Iface} {ε α M : Type}

/-- A program that sets no marks. -/
def unmarked : Prog I ε α → Prog (I.marked M) ε α
  | .ret a => .ret a
  | .fail e => .fail e
  | .call c k => .call (.inr c) fun r => (k r).unmarked

/-- The program, after a mark. -/
def mark (m : M) (p : Prog I ε α) : Prog (I.marked M) ε α := .call (.inl m) fun _ => p.unmarked

def marks : List (Answered (I.marked M)) → List M
  | [] => []
  | ⟨.inl m, _⟩ :: t => m :: marks t
  | ⟨.inr _, _⟩ :: t => marks t

theorem marks_unmarked : ∀ {p : Prog I ε α} {t : List (Answered (I.marked M))}
    {out : Except ε α}, (p.unmarked : Prog (I.marked M) ε α).Exits t out → marks t = []
  | .ret a, t, out, h => by
    obtain ⟨rfl, -⟩ := exits_ret.mp h
    rfl
  | .fail e, t, out, h => by
    obtain ⟨rfl, -⟩ := exits_fail.mp h
    rfl
  | .call c k, t, out, h => by
    obtain ⟨r, u, rfl, hk⟩ := exits_call.mp h
    change marks u = []
    exact marks_unmarked hk

theorem marks_mark {m : M} {p : Prog I ε α} {t : List (Answered (I.marked M))}
    {out : Except ε α} (h : (p.mark m).Exits t out) : marks t = [m] := by
  obtain ⟨r, u, rfl, hu⟩ := exits_call.mp h
  exact congrArg (cons m) (marks_unmarked hu)

end Prog

/-! ## Monitors -/

/-- A monitor of the calls of a run, with a state of its own. -/
structure Monitor (I : Iface) (σ : Type) where
  /-- The calls that may be made in a state. -/
  permits : σ → I.Call → Prop
  /-- The state after a call was answered. -/
  next : σ → (c : I.Call) → I.Answer c → σ

namespace Monitor

variable {I : Iface} {σ ε ε' α β : Type}

/-- The state of the monitor after the answered calls `t`. -/
def after (M : Monitor I σ) : σ → List (Answered I) → σ
  | s, [] => s
  | s, ⟨c, r⟩ :: t => M.after (M.next s c r) t

/-- From `s` every call of the program is permitted, whatever the answers are, and `Q`
holds of the monitor's state and the outcome at every exit. -/
def Allows (M : Monitor I σ) (Q : σ → Except ε α → Prop) : Prog I ε α → σ → Prop
  | .ret a, s => Q s (.ok a)
  | .fail e, s => Q s (.error e)
  | .call c k, s => M.permits s c ∧ ∀ r, M.Allows Q (k r) (M.next s c r)

variable {M : Monitor I σ} {s : σ}

variable {Q : σ → Except ε α → Prop} {p q : Prog I ε α} {c : I.Call} {t : List (Answered I)}
  {P : List (Answered I) → I.Call → Prop} {f : α → Prog I ε β}

@[simp] theorem allows_call {k : I.Answer c → Prog I ε α} :
    M.Allows Q (.call c k) s ↔ M.permits s c ∧ ∀ r, M.Allows Q (k r) (M.next s c r) := Iff.rfl

/-- What the rest of a program has to meet once its first part has come to `out`. -/
def andThen (M : Monitor I σ) (Q : σ → Except ε β → Prop) (f : α → Prog I ε β) :
    σ → Except ε α → Prop
  | s, .ok a => M.Allows Q (f a) s
  | s, .error e => Q s (.error e)

/-- Sequencing. -/
theorem allows_bind {Q : σ → Except ε β → Prop} :
    ∀ {p : Prog I ε α} {s : σ}, M.Allows Q (p >>= f) s ↔ M.Allows (M.andThen Q f) p s
  | .ret _, _ => Iff.rfl
  | .fail _, _ => Iff.rfl
  | .call c k, s => by
    exact and_congr Iff.rfl (forall_congr' fun r => allows_bind)

/-- The rule of a call. -/
theorem allows_ask_bind {Q : σ → Except ε β → Prop} {f : I.Answer c → Prog I ε β}
    (hc : M.permits s c) (hf : ∀ r, M.Allows Q (f r) (M.next s c r)) :
    M.Allows Q (Prog.ask c >>= f) s :=
  ⟨hc, hf⟩

/-- The answers of a call that may fail. -/
theorem either {E A : Type} {p : Except E A → Prop} (herr : ∀ e, p (.error e))
    (hok : ∀ a, p (.ok a)) : ∀ r, p r
  | .error e => herr e
  | .ok a => hok a

/-- The rule of a call at the end of a program. -/
theorem allows_ask {Q : σ → Except ε (I.Answer c) → Prop} (hc : M.permits s c)
    (hQ : ∀ r, Q (M.next s c r) (.ok r)) : M.Allows Q (Prog.ask c) s :=
  ⟨hc, hQ⟩

/-- Consequence. -/
theorem Allows.mono {Q' : σ → Except ε α → Prop} (hQ : ∀ s out, Q s out → Q' s out) :
    ∀ {p : Prog I ε α} {s : σ}, M.Allows Q p s → M.Allows Q' p s
  | .ret _, _, h => hQ _ _ h
  | .fail _, _, h => hQ _ _ h
  | .call _ _, _, h => ⟨h.1, fun r => Allows.mono hQ (h.2 r)⟩

/-- Sequencing with a specification of the first part. -/
theorem Allows.bind {Q' : σ → Except ε β → Prop} (h : M.Allows Q p s)
    (hok : ∀ s a, Q s (.ok a) → M.Allows Q' (f a) s)
    (herr : ∀ s e, Q s (.error e) → Q' s (.error e)) : M.Allows Q' (p >>= f) s := by
  refine allows_bind.mpr (h.mono ?_)
  intro s out hout
  cases out with
  | ok a => exact hok s a hout
  | error e => exact herr s e hout

/-- A program whose outcome is caught meets what the outcome as a value meets. -/
theorem allows_attempt {Q : σ → Except ε' (Except ε α) → Prop} :
    ∀ {p : Prog I ε α} {s : σ}, M.Allows (fun s out => Q s (.ok out)) p s →
      M.Allows Q (p.attempt : Prog I ε' (Except ε α)) s
  | .ret _, _, h => h
  | .fail _, _, h => h
  | .call _ _, _, h => ⟨h.1, fun r => allows_attempt (h.2 r)⟩

/-- Sequencing with a program whose outcome is caught. -/
theorem Allows.attempt_bind {Q' : σ → Except ε' β → Prop} {f : Except ε α → Prog I ε' β}
    (h : M.Allows Q p s)
    (hf : ∀ s out, Q s out → M.Allows Q' (f out) s) : M.Allows Q' (p.attempt >>= f) s :=
  allows_bind.mpr (allows_attempt (h.mono hf))

/-- What the monitor allows, it allows along every run, and every call of the run was
permitted when it was made. -/
theorem Allows.steps (h : M.Allows Q p s) (ht : p.Steps t q) : M.Allows Q q (M.after s t) ∧
      ∀ t₁ c r t₂, t = t₁ ++ ⟨c, r⟩ :: t₂ → M.permits (M.after s t₁) c := by
  induction ht generalizing s with
  | refl => exact ⟨h, fun t₁ c r t₂ he => by simp at he⟩
  | @call c₀ k r₀ t q _ ih =>
    obtain ⟨hq, hp⟩ := ih (h.2 r₀)
    refine ⟨hq, fun t₁ c r t₂ he => ?_⟩
    cases t₁ with
    | nil =>
      injection he with h₁ h₂
      injection h₁ with h₃ h₄
      subst h₃
      exact h.1
    | cons a t₁ =>
      injection he with h₁ h₂
      subst h₁
      exact hp t₁ c r t₂ h₂

/-- Every call of a run was permitted after some part of the run. -/
theorem Allows.permits_of_mem (h : M.Allows Q p s) (ht : p.Steps t q) {r : I.Answer c}
    (hm : ⟨c, r⟩ ∈ t) : ∃ t₁, t₁ ⊆ t ∧ M.permits (M.after s t₁) c := by
  obtain ⟨t₁, t₂, rfl⟩ := append_of_mem hm
  exact ⟨t₁, subset_append_left _ _, (h.steps ht).2 t₁ c r t₂ rfl⟩

/-- What every permitted call keeps of the environment, a run keeps. -/
theorem Allows.runIn_invariant {τ : Type} {answer : τ → (c : I.Call) → I.Answer c × τ}
    {P : τ → Prop} (hP : ∀ s x c, M.permits s c → P x → P (answer x c).2)
    (h : M.Allows Q p s) {x : τ} (hx : P x) : P (p.runIn answer x).2 := by
  induction p generalizing s x with
  | ret a => exact hx
  | fail e => exact hx
  | call c k ih => exact ih _ (h.2 _) (hP s x c h.1 hx)

/-- At the end of a run the postcondition holds. -/
theorem Allows.exits
    {out : Except ε α} (h : M.Allows Q p s) (ht : p.Exits t out) : Q (M.after s t) out := by
  have := (h.steps ht).1
  cases out <;> exact this

theorem after_snoc (M : Monitor I σ) (c : I.Call) (r : I.Answer c) :
    ∀ (s : σ) (t : List (Answered I)), M.after s (t ++ [⟨c, r⟩]) = M.next (M.after s t) c r
  | _, [] => rfl
  | s, ⟨c', r'⟩ :: t => after_snoc M c r (M.next s c' r') t

/-- The monitor whose state is the run.  `P` says which calls may come after which. -/
def history (P : List (Answered I) → I.Call → Prop) : Monitor I (List (Answered I)) where
  permits := P
  next t c r := t ++ [⟨c, r⟩]

theorem history_after : ∀ t t₀ : List (Answered I), (history P).after t₀ t = t₀ ++ t
  | [], t₀ => (append_nil t₀).symm
  | a :: t, t₀ => (history_after t (t₀ ++ [a])).trans (append_assoc t₀ [a] t)

/-- What is said of the run says what every other monitor makes of it. -/
theorem Allows.of_history {M : Monitor I σ} {s : σ}
    {Q : List (Answered I) → Except ε α → Prop} {Q' : σ → Except ε α → Prop}
    (hP : ∀ t c, P t c → M.permits (M.after s t) c)
    (hQ : ∀ t out, Q t out → Q' (M.after s t) out) :
    ∀ {p : Prog I ε α} {t : List (Answered I)}, (history P).Allows Q p t →
      M.Allows Q' p (M.after s t)
  | .ret _, t, h => hQ t _ h
  | .fail _, t, h => hQ t _ h
  | .call c k, t, h => by
    refine ⟨hP t c h.1, fun r => ?_⟩
    rw [← after_snoc]
    exact Allows.of_history hP hQ (h.2 r)

/-- What is said of the run may be said more weakly. -/
theorem Allows.of_imp {P' : List (Answered I) → I.Call → Prop}
    {Q : List (Answered I) → Except ε α → Prop} (h : ∀ t c, P t c → P' t c) :
    ∀ {p : Prog I ε α} {t : List (Answered I)}, (history P).Allows Q p t → (history P').Allows Q p t
  | .ret _, _, hp => hp
  | .fail _, _, hp => hp
  | .call c _, t, hp => ⟨h t c hp.1, fun r => Allows.of_imp h (hp.2 r)⟩

/-- The calls of a run came after what came before them. -/
theorem Allows.of_steps {Q : List (Answered I) → Except ε α → Prop}
    (h : (history P).Allows Q p []) (ht : p.Steps t q) {t₁ t₂ : List (Answered I)}
    {r : I.Answer c} (he : t = t₁ ++ ⟨c, r⟩ :: t₂) : P t₁ c := by
  have hp := (h.steps ht).2 t₁ c r t₂ he
  rwa [history_after] at hp

/-- A call of a run came after some part of it. -/
theorem Allows.of_mem {Q : List (Answered I) → Except ε α → Prop}
    (h : (history P).Allows Q p []) (ht : p.Steps t q) {r : I.Answer c}
    (hm : ⟨c, r⟩ ∈ t) : ∃ t₁, t₁ ⊆ t ∧ P t₁ c := by
  obtain ⟨t₁, t₂, rfl⟩ := append_of_mem hm
  exact ⟨t₁, subset_append_left _ _, h.of_steps ht rfl⟩

/-- What is said of a run at its end. -/
theorem Allows.of_exits {Q : List (Answered I) → Except ε α → Prop}
    {out : Except ε α} (h : (history P).Allows Q p []) (ht : p.Exits t out) : Q t out := by
  have hQ := h.exits ht
  rwa [history_after] at hQ

/-- The monitor that permits the calls of a kind and nothing else. -/
def only (P : I.Call → Prop) : Monitor I Unit where
  permits _ c := P c
  next _ _ _ := ()

/-- The program makes calls of that kind and no others. -/
abbrev MakesOnly (P : I.Call → Prop) (p : Prog I ε α) : Prop :=
  (only P).Allows (fun _ _ => True) p ()

/-- A program that keeps to one kind of calls keeps to every wider one. -/
theorem Allows.widen {P P' : I.Call → Prop} {Q : Unit → Except ε α → Prop}
    (h : ∀ c, P c → P' c) : ∀ {p : Prog I ε α}, (only P).Allows Q p () → (only P').Allows Q p ()
  | .ret _, hp => hp
  | .fail _, hp => hp
  | .call c _, hp => ⟨h c hp.1, fun r => Allows.widen h (hp.2 r)⟩

/-- A program whose calls leave the environment as it is, and are answered alike in all its states,
comes to one outcome. -/
theorem Allows.runIn_eq {τ : Type} {answer : τ → (c : I.Call) → I.Answer c × τ}
    {script : (c : I.Call) → I.Answer c} {P : I.Call → Prop} {Q : Unit → Except ε α → Prop}
    (h : ∀ s c, P c → answer s c = (script c, s)) :
    ∀ {p : Prog I ε α}, (only P).Allows Q p () → ∀ s s',
      Prog.runIn answer s p = ((Prog.runIn answer s' p).1, s)
  | .ret _, _, _, _ => rfl
  | .fail _, _, _, _ => rfl
  | .call c k, hp, s, s' => by
    rw [Prog.runIn_call, Prog.runIn_call, h s c hp.1, h s' c hp.1]
    exact Allows.runIn_eq h (hp.2 (script c)) s s'

/-- The calls of a run are of the kind that is permitted. -/
theorem Allows.of_mem_only {P : I.Call → Prop} {Q : Unit → Except ε α → Prop}
    (h : (only P).Allows Q p ()) (ht : p.Steps t q)
    {r : I.Answer c} (hm : ⟨c, r⟩ ∈ t) : P c := by
  obtain ⟨t₁, -, hc⟩ := h.permits_of_mem ht hm
  exact hc

end Monitor

end Lib
