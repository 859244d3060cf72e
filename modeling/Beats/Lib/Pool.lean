import Mathlib.Data.List.Perm.Basic
import Beats.Lib.Prog

/-!
# Programs that share a state

A pool runs any number of programs over one shared state.  A job is started, and from then
on its program makes one call at a time.  Which job moves next is not decided here, so a
statement about every sequence of moves is one about every interleaving.

The pool keeps a log of the answered calls of all jobs, the newest first.  `own i` reads off
the calls of one job, and `Pool.Ran` says that they are a run of its program.
-/

namespace Lib

open List

variable {I : Iface} {J ε α σ : Type}

/-- Jobs over a shared state.  A job is known by its place in `tasks`, which has what is left
of its program. -/
structure Pool (I : Iface) (J ε α σ : Type) where
  shared : σ
  tasks : List (J × Prog I ε α) := []
  log : List (Nat × Answered I) := []

/-- The calls of the job `i`, the oldest first. -/
def own (i : Nat) : List (Nat × Answered I) → List (Answered I)
  | [] => []
  | (j, a) :: log => if j = i then own i log ++ [a] else own i log

@[simp] theorem own_nil (i : Nat) : own i ([] : List (Nat × Answered I)) = [] := rfl

@[simp] theorem own_cons_self (i : Nat) (a : Answered I) (log : List (Nat × Answered I)) :
    own i ((i, a) :: log) = own i log ++ [a] := by
  simp [own]

theorem own_cons_of_ne {i j : Nat} (h : j ≠ i) (a : Answered I) (log : List (Nat × Answered I)) :
    own i ((j, a) :: log) = own i log := by
  simp [own, h]

variable {a : Answered I} {β : Type}

/-- An answered call changes what is read off the calls of its job, and of no other. -/
theorem own_cons_update {τ : Type} {f : Nat → List (Answered I) → τ} {x : τ} {i : Nat}
    {log : List (Nat × Answered I)} (hx : f i (own i log ++ [a]) = x) :
    (fun k => f k (own k ((i, a) :: log))) = Function.update (fun k => f k (own k log)) i x := by
  funext k
  by_cases hk : k = i
  · subst hk
    rw [Function.update_self, own_cons_self, hx]
  · rw [Function.update_of_ne hk, own_cons_of_ne (Ne.symm hk)]

theorem mem_own {i : Nat} : ∀ {log : List (Nat × Answered I)}, a ∈ own i log ↔ (i, a) ∈ log
  | [] => by simp
  | (j, b) :: log => by
    by_cases h : j = i
    · subst h
      have ih : a ∈ own j log ↔ (j, a) ∈ log := mem_own
      simp [ih, or_comm]
    · rw [own_cons_of_ne h, mem_own]
      simp [Ne.symm h]

/-- Lists that are the same but for one, which has more. -/
theorem flatMap_perm_of_update {g g' : Nat → List β} {x : List β} {i : Nat}
    (hne : ∀ j, j ≠ i → g' j = g j) (hself : g' i = g i ++ x) :
    ∀ {l : List Nat}, l.Nodup → i ∈ l → (l.flatMap g').Perm (x ++ l.flatMap g)
  | [], _, hi => by cases hi
  | j :: l, hl, hi => by
    obtain ⟨hj, hl⟩ := nodup_cons.mp hl
    rw [flatMap_cons, flatMap_cons]
    by_cases h : j = i
    · subst h
      have hrest : l.flatMap g' = l.flatMap g :=
        flatMap_congr fun k hk => hne k fun he => hj (he ▸ hk)
      rw [hself, hrest, append_assoc]
      exact perm_append_comm_assoc _ _ _
    · have hi : i ∈ l := (mem_cons.mp hi).resolve_left (Ne.symm h)
      rw [hne j h]
      exact ((flatMap_perm_of_update hne hself hl hi).append_left _).trans
        (perm_append_comm_assoc _ _ _)

/-- What a log says is what the runs of its jobs say. -/
theorem filterMap_log_perm (f : Nat → Answered I → Option β) {n : Nat} :
    ∀ {log : List (Nat × Answered I)}, (∀ e ∈ log, e.1 < n) →
      (log.filterMap fun e => f e.1 e.2).Perm
        ((range n).flatMap fun i => (own i log).filterMap (f i))
  | [], _ => by simp
  | (j, a) :: log, h => by
    have ih := filterMap_log_perm f fun e he => h e (mem_cons_of_mem _ he)
    have hother : ∀ i, i ≠ j →
        (own i ((j, a) :: log)).filterMap (f i) = (own i log).filterMap (f i) := by
      intro i hi
      rw [own_cons_of_ne hi.symm]
    have hself : (own j ((j, a) :: log)).filterMap (f j) =
        (own j log).filterMap (f j) ++ (f j a).toList := by
      cases hf : f j a <;> simp [hf]
    have hj : j ∈ range n := mem_range.mpr (h (j, a) mem_cons_self)
    refine Perm.trans ?_ (flatMap_perm_of_update hother hself nodup_range hj).symm
    cases hf : f j a with
    | none => simpa [hf] using ih
    | some b => simpa [hf] using ih.cons b

namespace Pool

/-- Start a job. -/
def spawn (prog : J → Prog I ε α) (p : Pool I J ε α σ) (j : J) : Pool I J ε α σ :=
  { p with tasks := p.tasks ++ [(j, prog j)] }

/-- Let the job `i` make its next call, which the shared state answers. -/
def act (serve : σ → (c : I.Call) → Option (I.Answer c × σ)) (p : Pool I J ε α σ) (i : Nat) :
    Option (Pool I J ε α σ) :=
  p.tasks[i]?.bind fun task =>
    match task.2 with
    | .call c k => (serve p.shared c).map fun served =>
      { shared := served.2
        tasks := p.tasks.set i (task.1, k served.1)
        log := (i, ⟨c, served.1⟩) :: p.log }
    | .ret _ => none
    | .fail _ => none

variable {j : J} {c : I.Call} {k : I.Answer c → Prog I ε α} {t : J × Prog I ε α}

section

variable {serve : σ → (c : I.Call) → Option (I.Answer c × σ)} {p p' : Pool I J ε α σ} {i : Nat}

/-- A job moves where it has a call to make that the shared state answers. -/
theorem act_cases (h : p.act serve i = some p') :
    ∃ (j : J) (c : I.Call) (k : I.Answer c → Prog I ε α) (r : I.Answer c) (s : σ),
      p.tasks[i]? = some (j, .call c k) ∧ serve p.shared c = some (r, s) ∧
      p' = { shared := s, tasks := p.tasks.set i (j, k r), log := (i, ⟨c, r⟩) :: p.log } := by
  obtain ⟨⟨j, q⟩, hi, h⟩ := Option.bind_eq_some_iff.mp h
  cases q with
  | ret a => cases h
  | fail e => cases h
  | call c k =>
    obtain ⟨⟨r, s⟩, hs, rfl⟩ := Option.map_eq_some_iff.mp h
    exact ⟨j, c, k, r, s, hi, hs, rfl⟩

/-- A job that has a call to make moves where the shared state answers it. -/
theorem act_eq {r : I.Answer c} {s : σ} (hi : p.tasks[i]? = some (j, .call c k))
    (hs : serve p.shared c = some (r, s)) :
    p.act serve i =
      some { shared := s, tasks := p.tasks.set i (j, k r), log := (i, ⟨c, r⟩) :: p.log } := by
  rw [act, hi, Option.bind_some]
  change (serve p.shared c).map _ = _
  rw [hs]
  rfl

end

/-- The jobs after one was started. -/
theorem getElem?_spawn {prog : J → Prog I ε α} {p : Pool I J ε α σ} {i : Nat} :
    (p.spawn prog j).tasks[i]? = some t ↔
      p.tasks[i]? = some t ∨ i = p.tasks.length ∧ t = (j, prog j) := by
  rcases Nat.lt_trichotomy i p.tasks.length with hlt | rfl | hgt
  · simp [spawn, getElem?_append_left hlt, Nat.ne_of_lt hlt]
  · simp [spawn, eq_comm]
  · have hout : (p.tasks ++ [(j, prog j)])[i]? = none :=
      getElem?_eq_none (by simp; omega)
    simp [spawn, hout, Nat.ne_of_gt hgt, Nat.le_of_lt hgt]

/-- The jobs after one has moved. -/
theorem getElem?_set {p : Pool I J ε α σ} {i i' : Nat} {t₀ t' : J × Prog I ε α}
    (hi : p.tasks[i]? = some t₀) :
    (p.tasks.set i t)[i']? = some t' ↔ i' = i ∧ t' = t ∨ i' ≠ i ∧ p.tasks[i']? = some t' := by
  have hlt : i < p.tasks.length := (List.getElem?_eq_some_iff.mp hi).1
  by_cases h : i = i'
  · subst h
    simp [getElem?_set_self hlt, eq_comm]
  · simp [getElem?_set_ne h, Ne.symm h]

/-- The log has the runs of the jobs. -/
structure Ran (prog : J → Prog I ε α) (p : Pool I J ε α σ) : Prop where
  steps : ∀ {i : Nat} {j : J} {q : Prog I ε α}, p.tasks[i]? = some (j, q) →
    (prog j).Steps (own i p.log) q
  fresh : ∀ {i : Nat}, p.tasks.length ≤ i → own i p.log = []

variable {prog : J → Prog I ε α} {p p' : Pool I J ε α σ}

theorem ran_init (s : σ) : Ran prog ({ shared := s } : Pool I J ε α σ) where
  steps h := by simp at h
  fresh _ := rfl

/-- A job that has made a call is there. -/
theorem Ran.lt_of_mem (h : Ran prog p) {i : Nat} (hm : (i, a) ∈ p.log) : i < p.tasks.length := by
  by_contra hlt
  have hown := mem_own.mpr hm
  rw [h.fresh (Nat.le_of_not_lt hlt)] at hown
  cases hown

theorem Ran.spawn (h : Ran prog p) (j : J) : Ran prog (p.spawn prog j) where
  steps := by
    intro i j' q hi
    rcases getElem?_spawn.mp hi with hi | ⟨rfl, ht⟩
    · exact h.steps hi
    · cases ht
      change Prog.Steps _ (own _ p.log) _
      rw [h.fresh (Nat.le_refl _)]
      exact .refl
  fresh := by
    intro i hi
    refine h.fresh (Nat.le_trans ?_ hi)
    simp [Pool.spawn]

/-- A job that was answered has run one call further. -/
theorem Ran.answer (h : Ran prog p) {i : Nat} (hi : p.tasks[i]? = some (j, .call c k))
    (r : I.Answer c) (s : σ) :
    Ran prog { shared := s, tasks := p.tasks.set i (j, k r), log := (i, ⟨c, r⟩) :: p.log } where
  steps := by
    intro i' j' q hi'
    rcases (getElem?_set hi).mp hi' with ⟨rfl, ht⟩ | ⟨hne, hi'⟩
    · cases ht
      rw [own_cons_self]
      exact (h.steps hi).snoc r
    · rw [own_cons_of_ne (Ne.symm hne)]
      exact h.steps hi'
  fresh := by
    intro i' hi'
    have hlt : i < p.tasks.length := (List.getElem?_eq_some_iff.mp hi).1
    rw [length_set] at hi'
    rw [own_cons_of_ne (by omega)]
    exact h.fresh hi'

theorem Ran.act {serve : σ → (c : I.Call) → Option (I.Answer c × σ)} (h : Ran prog p) {i : Nat}
    (hp : p.act serve i = some p') : Ran prog p' := by
  obtain ⟨j, c, k, r, s, hi, -, rfl⟩ := act_cases hp
  exact h.answer hi r s

end Pool

end Lib
