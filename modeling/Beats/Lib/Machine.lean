import Mathlib.Logic.Basic

/-!
# Machines driven by events

A machine has a state and moves with events.  Everything that is not decided by the machine, an
answer of the environment or the order of the steps, is part of the event, so a run is a list of
events.  An event that cannot happen in a state has no successor there.

`Machine.Along C s es` says that every step of the run meets the condition `C`, which speaks of the
state before the step and of its event.  `Machine.run_invariant` is the induction over a run.
-/

namespace Lib

/-- A system whose events happen or do not. -/
structure Machine (σ ε : Type) where
  /-- The state after an event, where the event can happen. -/
  step : σ → ε → Option σ

namespace Machine

variable {σ ε : Type}

variable {M : Machine σ ε} {P : σ → Prop}

/-- The state after a list of events. -/
def run (M : Machine σ ε) : σ → List ε → Option σ
  | s, [] => some s
  | s, e :: es => (M.step s e).bind fun s' => M.run s' es

/-- Every step of the run of `es` from `s` meets `C`. -/
def Along (M : Machine σ ε) (C : σ → ε → Prop) : σ → List ε → Prop
  | _, [] => True
  | s, e :: es => C s e ∧ ∀ s', M.step s e = some s' → M.Along C s' es

/-- Whether a run meets a condition can be computed. -/
def decideAlong (M : Machine σ ε) (C : σ → ε → Prop) [∀ s e, Decidable (C s e)] :
    (s : σ) → (es : List ε) → Decidable (M.Along C s es)
  | _, [] => .isTrue trivial
  | s, e :: es =>
    match hs : M.step s e with
    | none =>
      decidable_of_iff (C s e)
        ⟨fun h => ⟨h, fun s' h' => (by rw [hs] at h'; cases h')⟩, And.left⟩
    | some s₁ =>
      have := M.decideAlong C s₁ es
      decidable_of_iff (C s e ∧ M.Along C s₁ es)
        (and_congr_right fun _ => ⟨fun h s' h' => by rw [hs] at h'; cases h'; exact h,
          fun h => h s₁ hs⟩)

instance (M : Machine σ ε) (C : σ → ε → Prop) [∀ s e, Decidable (C s e)] (s : σ) (es : List ε) :
    Decidable (M.Along C s es) :=
  M.decideAlong C s es

@[simp] theorem run_nil (M : Machine σ ε) (s : σ) : M.run s [] = some s := rfl

variable {s s' : σ} {es : List ε} {C : σ → ε → Prop}

theorem run_cons_eq_some {e : ε} :
    M.run s (e :: es) = some s' ↔ ∃ s₁, M.step s e = some s₁ ∧ M.run s₁ es = some s' := by
  simp only [run, Option.bind_eq_some_iff]

theorem run_append (M : Machine σ ε) (s : σ) (es₁ es₂ : List ε) :
    M.run s (es₁ ++ es₂) = (M.run s es₁).bind fun s' => M.run s' es₂ := by
  induction es₁ generalizing s with
  | nil => rfl
  | cons e es₁ ih =>
    rw [List.cons_append, run, run, Option.bind_assoc]
    exact Option.bind_congr fun s' _ => ih s'

/-- A run on fixed events is found by computing it. -/
theorem exists_run [DecidablePred P] (h : (M.run s es).any (fun s' => decide (P s')) = true) :
    ∃ s', M.run s es = some s' ∧ P s' := by
  obtain ⟨s', hr, hs⟩ := (Option.any_eq_true _ _).mp h
  exact ⟨s', hr, of_decide_eq_true hs⟩

/-- What holds at the end of such a run is derived from what is computed of it. -/
theorem exists_run_of [DecidablePred P] {Q : σ → Prop}
    (h : (M.run s es).any (fun s' => decide (P s')) = true)
    (hQ : ∀ s', M.run s es = some s' → P s' → Q s') : ∃ s', M.run s es = some s' ∧ Q s' :=
  (exists_run h).imp fun s' hs => ⟨hs.1, hQ s' hs.1 hs.2⟩

/-- Every run meets the condition that asks for nothing. -/
theorem along_trivial (M : Machine σ ε) (s : σ) (es : List ε) : M.Along (fun _ _ => True) s es := by
  induction es generalizing s with
  | nil => trivial
  | cons e es ih => exact ⟨trivial, fun s' _ => ih s'⟩

/-- What the start has and every step that meets `C` keeps, every state of a run along
`C` has. -/
theorem run_invariant (keep : ∀ s e s', P s → C s e → M.step s e = some s' → P s') :
    ∀ {es : List ε} {s s' : σ}, P s → M.Along C s es → M.run s es = some s' → P s'
  | [], s, s', hs, _, hr => by
    rw [run_nil, Option.some.injEq] at hr
    exact hr ▸ hs
  | e :: es, s, s', hs, ha, hr => by
    obtain ⟨s₁, h₁, h₂⟩ := run_cons_eq_some.mp hr
    exact run_invariant keep (keep s e s₁ hs ha.1 h₁) (ha.2 s₁ h₁) h₂

/-- Where a step keeps `P` exactly if it meets `C`, a run meets `C` exactly if it never leaves
`P`. -/
theorem along_iff (keep : ∀ s e s', P s → M.step s e = some s' → (P s' ↔ C s e)) :
    ∀ {es : List ε} {s s' : σ}, P s → M.run s es = some s' →
      (M.Along C s es ↔ ∀ es₁ es₂ s₁, es = es₁ ++ es₂ → M.run s es₁ = some s₁ → P s₁)
  | [], s, s', hs, _ => by
    refine ⟨fun _ es₁ es₂ s₁ he h₁ => ?_, fun _ => trivial⟩
    obtain ⟨rfl, -⟩ := List.append_eq_nil_iff.mp he.symm
    rw [run_nil, Option.some.injEq] at h₁
    exact h₁ ▸ hs
  | e :: es, s, s', hs, hr => by
    obtain ⟨s₁, hstep, hrest⟩ := run_cons_eq_some.mp hr
    constructor
    · rintro ⟨hc, ha⟩ es₁ es₂ s₂ he h₂
      have hs₁ := (keep s e s₁ hs hstep).mpr hc
      cases es₁ with
      | nil =>
        rw [run_nil, Option.some.injEq] at h₂
        exact h₂ ▸ hs
      | cons e' es₁ =>
        injection he with he he'
        subst he
        obtain ⟨s₃, h₃, h₂⟩ := run_cons_eq_some.mp h₂
        rw [hstep, Option.some.injEq] at h₃
        subst h₃
        exact (along_iff keep hs₁ hrest).mp (ha s₁ hstep) es₁ es₂ s₂ he' h₂
    · intro h
      have hs₁ : P s₁ := h [e] es s₁ rfl (run_cons_eq_some.mpr ⟨s₁, hstep, rfl⟩)
      refine ⟨(keep s e s₁ hs hstep).mp hs₁, fun s₂ h₂ => ?_⟩
      rw [hstep, Option.some.injEq] at h₂
      subst h₂
      refine (along_iff keep hs₁ hrest).mpr fun es₁ es₂ s₂ he h₂ => ?_
      exact h (e :: es₁) es₂ s₂ (congrArg _ he) (run_cons_eq_some.mpr ⟨s₁, hstep, h₂⟩)

/-- What every step does to the state, a run does, if it is a preorder. -/
theorem run_rel {R : σ → σ → Prop} (refl : ∀ s, R s s)
    (trans : ∀ {s₁ s₂ s₃}, R s₁ s₂ → R s₂ s₃ → R s₁ s₃)
    (step : ∀ s e s', M.step s e = some s' → R s s') :
    ∀ {es : List ε} {s s' : σ}, M.run s es = some s' → R s s'
  | [], s, s', hr => by
    rw [run_nil, Option.some.injEq] at hr
    exact hr ▸ refl s
  | e :: es, s, s', hr => by
    obtain ⟨s₁, h₁, h₂⟩ := run_cons_eq_some.mp hr
    exact trans (step s e s₁ h₁) (run_rel refl trans step h₂)

end Machine

end Lib
