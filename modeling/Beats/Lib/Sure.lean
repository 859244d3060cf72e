import Beats.Lib.Machine
import Beats.Lib.Pool

/-!
# Total correctness

A program is run in an environment that has a state and is subject to chance.  `Prog.Sure` says that
whatever good chance every call meets, it is answered, and that the program comes to an outcome.  It
is proved along the program, with a rule for a call and one for a sequence.  It gives a run of a
pool in which the job is over (`Prog.Sure.run`), and what holds wherever it is
(`Prog.Sure.outcome`).
-/

namespace Lib

open List

variable {I : Iface} {ε ε' α β σ Λ J E : Type}

namespace Prog

/-- Every call is answered where chance is good, and `Q` holds of the state and the outcome that the
program comes to. -/
def Sure (serve : Λ → σ → (c : I.Call) → Option (I.Answer c × σ)) (good : Λ → Prop)
    (Q : σ → Except ε α → Prop) : Prog I ε α → σ → Prop
  | .ret a, s => Q s (.ok a)
  | .fail e, s => Q s (.error e)
  | .call c k, s =>
    ∀ l, good l → ∃ r s', serve l s c = some (r, s') ∧ Sure serve good Q (k r) s'

variable {serve : Λ → σ → (c : I.Call) → Option (I.Answer c × σ)} {good : Λ → Prop} {s : σ}

variable {Q : σ → Except ε α → Prop}

theorem sure_ask_bind {Q : σ → Except ε β → Prop} {c : I.Call} {f : I.Answer c → Prog I ε β}
    (h : ∀ l, good l → ∃ r s', serve l s c = some (r, s') ∧ (f r).Sure serve good Q s') :
    (ask c >>= f).Sure serve good Q s := h

theorem Sure.mono {Q' : σ → Except ε α → Prop} : ∀ {p : Prog I ε α} {s : σ},
    p.Sure serve good Q s → (∀ s out, Q s out → Q' s out) → p.Sure serve good Q' s
  | .ret a, s, h, hq => hq s (.ok a) h
  | .fail e, s, h, hq => hq s (.error e) h
  | .call c k, s, h, hq => fun l hl => by
    obtain ⟨r, s', hs, hr⟩ := h l hl
    exact ⟨r, s', hs, Sure.mono hr hq⟩

theorem Sure.bind {Q' : σ → Except ε β → Prop}
    {f : α → Prog I ε β} : ∀ {p : Prog I ε α} {s : σ}, p.Sure serve good Q s →
      (∀ s a, Q s (.ok a) → (f a).Sure serve good Q' s) →
      (∀ s e, Q s (.error e) → Q' s (.error e)) → (p >>= f).Sure serve good Q' s
  | .ret a, s, h, hok, _ => hok s a h
  | .fail e, s, h, _, herror => herror s e h
  | .call c k, s, h, hok, herror => fun l hl => by
    obtain ⟨r, s', hs, hr⟩ := h l hl
    exact ⟨r, s', hs, Sure.bind hr hok herror⟩

theorem sure_attempt {Q : σ → Except ε' (Except ε α) → Prop} : ∀ {p : Prog I ε α} {s : σ},
    p.Sure serve good (fun s out => Q s (.ok out)) s →
      (p.attempt : Prog I ε' (Except ε α)).Sure serve good Q s
  | .ret _, _, h => h
  | .fail _, _, h => h
  | .call c k, s, h => fun l hl => by
    obtain ⟨r, s', hs, hr⟩ := h l hl
    exact ⟨r, s', hs, sure_attempt hr⟩

theorem Sure.attempt_bind {Q' : σ → Except ε' β → Prop}
    {p : Prog I ε α} {f : Except ε α → Prog I ε' β} (h : p.Sure serve good Q s)
    (hf : ∀ s out, Q s out → (f out).Sure serve good Q' s) :
    (p.attempt >>= f).Sure serve good Q' s := by
  refine Sure.bind (Q := fun s x => ∃ out, x = .ok out ∧ Q s out)
    (sure_attempt (h.mono fun _ out hout => ⟨out, rfl, hout⟩)) ?_ ?_
  · rintro s out ⟨_, ⟨⟩, hout⟩
    exact hf s out hout
  · rintro s e ⟨out, ⟨⟩, -⟩

variable {M : Machine (Pool I J ε α σ) E} {act : Λ → E} {i : Nat} {j : J}

/-- A job that is sure of its outcome comes to it in as many moves as it has calls to make. -/
theorem Sure.run (hact : ∀ p l, M.step p (act l) = p.act (serve l) i) :
    ∀ {q : Prog I ε α} {p : Pool I J ε α σ} {f : Nat → Λ}, (∀ k, good (f k)) →
      p.tasks[i]? = some (j, q) → q.Sure serve good Q p.shared →
      ∃ n p', M.run p ((range n).map fun k => act (f k)) = some p' ∧
        ∃ out, p'.tasks[i]? = some (j, ofExcept out) ∧ Q p'.shared out
  | .ret a, p, _, _, hi, h => ⟨0, p, rfl, .ok a, hi, h⟩
  | .fail e, p, _, _, hi, h => ⟨0, p, rfl, .error e, hi, h⟩
  | .call c k, p, f, hgood, hi, h => by
    obtain ⟨r, s', hs, hr⟩ := h (f 0) (hgood 0)
    have hstep := (hact p (f 0)).trans (Pool.act_eq hi hs)
    have hlt : i < p.tasks.length := (List.getElem?_eq_some_iff.mp hi).1
    obtain ⟨n, p', hrun, hout⟩ := Sure.run hact
      (p := { shared := s', tasks := p.tasks.set i (j, k r), log := (i, ⟨c, r⟩) :: p.log })
      (fun k => hgood (k + 1)) (getElem?_set_self hlt) hr
    refine ⟨n + 1, p', ?_, hout⟩
    rw [range_succ_eq_map, map_cons, map_map]
    exact Machine.run_cons_eq_some.mpr ⟨_, hstep, hrun⟩

/-- It comes to no other outcome. -/
theorem Sure.outcome {j' : J} (hact : ∀ p l, M.step p (act l) = p.act (serve l) i)
    {p' : Pool I J ε α σ} {out : Except ε α} (hout : p'.tasks[i]? = some (j', ofExcept out)) :
    ∀ {n : Nat} {q : Prog I ε α} {p : Pool I J ε α σ} {f : Nat → Λ}, (∀ k, good (f k)) →
      p.tasks[i]? = some (j, q) → q.Sure serve good Q p.shared →
      M.run p ((range n).map fun k => act (f k)) = some p' → Q p'.shared out
  | 0, q, p, f, _, hi, h, hrun => by
    obtain rfl : p = p' := Option.some.inj hrun
    obtain rfl : q = ofExcept out := (Prod.mk.inj (Option.some.inj (hi.symm.trans hout))).2
    cases out <;> exact h
  | n + 1, q, p, f, hgood, hi, h, hrun => by
    rw [range_succ_eq_map, map_cons, map_map] at hrun
    obtain ⟨p₁, hstep, hrun⟩ := Machine.run_cons_eq_some.mp hrun
    obtain ⟨_, c, k, r, s', hi', hs, rfl⟩ := Pool.act_cases ((hact p (f 0)).symm.trans hstep)
    have hlt : i < p.tasks.length := (List.getElem?_eq_some_iff.mp hi).1
    cases hi.symm.trans hi'
    obtain ⟨r', t, ht, hr⟩ := h (f 0) (hgood 0)
    cases hs.symm.trans ht
    exact Sure.outcome hact hout (fun k => hgood (k + 1)) (getElem?_set_self hlt) hr hrun

end Prog

end Lib
