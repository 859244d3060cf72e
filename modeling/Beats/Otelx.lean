import Beats.Api.Proposal

/-!
# The breaker of the metrics exporter

`breakerExporter` of `internal/otelx`.  After a permanent failure it does not ask the exporter it
wraps until the probe interval has passed, and a call that it skips returns nil.

The two fields of the breaker say no more than the last answer that was a success or a permanent
failure (`Reflects`), so that answer decides which calls are skipped (`export_history`).
-/

namespace Beats.Otelx

/-- `codes.Code`. -/
inductive Code where
  | ok
  | canceled
  | unknown
  | invalidArgument
  | deadlineExceeded
  | notFound
  | alreadyExists
  | permissionDenied
  | resourceExhausted
  | failedPrecondition
  | aborted
  | outOfRange
  | unimplemented
  | internal
  | unavailable
  | dataLoss
  | unauthenticated
  | other (n : Nat)

/-- What the wrapped exporter fails with, and what `status.Code` says of it: `unknown`, where it is
not of gRPC. -/
structure ExportError where
  code : Code
  text : String := ""

/-- A retry would not help. -/
def permanentGRPCFailure (err : ExportError) : Bool :=
  match err.code with
  | .canceled | .deadlineExceeded | .aborted | .outOfRange | .unavailable | .dataLoss
  | .resourceExhausted | .ok => false
  | _ => true

def probeInterval : Duration := 300000000000

/-- The fields that the mutex guards. -/
structure Breaker where
  isOpen : Bool := false
  nextProbe : Time := Time.zero

/-- A call of `Export`: the clock when it begins, what the wrapped exporter would return, and the
clock after that. -/
structure Attempt where
  now : Time
  result : Option ExportError := none
  after : Time

namespace Breaker

def skips (b : Breaker) (now : Time) : Prop := b.isOpen = true ∧ now < b.nextProbe

instance (b : Breaker) (now : Time) : Decidable (b.skips now) :=
  inferInstanceAs (Decidable (_ ∧ _))

/-- `breakerExporter.Export`. -/
def «export» (b : Breaker) (a : Attempt) : Breaker × Option ExportError :=
  if b.skips a.now then (b, none)
  else match a.result with
    | none => ({ b with isOpen := false }, none)
    | some err =>
      (if permanentGRPCFailure err then
        { isOpen := true, nextProbe := a.after + probeInterval } else b, some err)

/-- The breaker after calls that were made one after another. -/
def after (b : Breaker) (as : List Attempt) : Breaker := as.foldl (fun b a => (b.export a).1) b

/-- The calls that reach the wrapped exporter. -/
def reaching (b : Breaker) : List Attempt → List Attempt
  | [] => []
  | a :: as => (if b.skips a.now then [] else [a]) ++ (b.export a).1.reaching as

end Breaker

/-- The answer of the wrapped exporter is a success or a permanent failure. -/
def Attempt.decisive (a : Attempt) : Bool := a.result.all permanentGRPCFailure

/-- The last answer that says something. -/
def lastDecisive (answered : List Attempt) : Option Attempt :=
  (answered.filter Attempt.decisive).getLast?

/-- The last decisive answer was a permanent failure, less than the probe interval ago. -/
def HeldBack (answered : List Attempt) (now : Time) : Prop :=
  ∃ a ∈ lastDecisive answered, a.result ≠ none ∧ now - a.after < probeInterval

/-- The breaker says what the last decisive answer was. -/
structure Reflects (b : Breaker) (answered : List Attempt) : Prop where
  isOpen : b.isOpen = true ↔ ∃ a ∈ lastDecisive answered, a.result ≠ none
  nextProbe : ∀ a ∈ lastDecisive answered, a.result ≠ none →
    b.nextProbe = a.after + probeInterval

variable {b : Breaker} {answered : List Attempt} {a : Attempt}

theorem lastDecisive_concat (answered : List Attempt) (a : Attempt) :
    lastDecisive (answered ++ [a]) = if a.decisive then some a else lastDecisive answered := by
  cases h : a.decisive <;> simp [lastDecisive, h]

theorem Breaker.export_of_transient (h : a.decisive = false) : (b.export a).1 = b := by
  unfold Breaker.export
  split
  · rfl
  · cases hr : a.result with
    | none => simp [Attempt.decisive, hr] at h
    | some err =>
      have herr : permanentGRPCFailure err = false := by simpa [Attempt.decisive, hr] using h
      simp [herr]

theorem Reflects.skips_iff (h : Reflects b answered) (now : Time) :
    b.skips now ↔ HeldBack answered now := by
  constructor
  · rintro ⟨hopen, hlt⟩
    obtain ⟨a, ha, hr⟩ := h.isOpen.mp hopen
    rw [h.nextProbe a ha hr] at hlt
    exact ⟨a, ha, hr, Int.sub_left_lt_of_lt_add hlt⟩
  · rintro ⟨a, ha, hr, hlt⟩
    refine ⟨h.isOpen.mpr ⟨a, ha, hr⟩, ?_⟩
    rw [h.nextProbe a ha hr]
    exact Int.lt_add_of_sub_left_lt hlt

/-- A call that reaches the wrapped exporter leaves the breaker as its answer says. -/
theorem Reflects.reached (h : Reflects b answered) (hs : ¬ b.skips a.now) :
    Reflects (b.export a).1 (answered ++ [a]) := by
  cases hd : a.decisive with
  | false =>
    rw [Breaker.export_of_transient hd]
    exact ⟨by rw [lastDecisive_concat, hd]; exact h.isOpen,
      by rw [lastDecisive_concat, hd]; exact h.nextProbe⟩
  | true =>
    have hlast : lastDecisive (answered ++ [a]) = some a := by rw [lastDecisive_concat, if_pos hd]
    rw [Breaker.export, if_neg hs]
    cases hr : a.result with
    | none => exact ⟨by simp [hlast, hr], by simp [hlast, hr]⟩
    | some err =>
      have herr : permanentGRPCFailure err = true := by simpa [Attempt.decisive, hr] using hd
      exact ⟨by simp [hlast, hr, herr], by simp [hlast, hr, herr]⟩

theorem Reflects.run {as : List Attempt} (h : Reflects b answered) :
    Reflects (b.after as) (answered ++ b.reaching as) := by
  induction as generalizing b answered with
  | nil => simpa [Breaker.reaching, Breaker.after] using h
  | cons a as ih =>
    rw [Breaker.reaching, ← List.append_assoc]
    refine ih ?_
    by_cases hs : b.skips a.now
    · simpa [Breaker.export, hs] using h
    · simpa [hs] using h.reached hs

/-- A call is skipped exactly if the last decisive answer was a permanent failure, less than the
probe interval ago.  A call that is skipped returns nil and changes nothing, one that is not returns
what it was answered, and a transient failure changes no later call. -/
theorem export_history (as : List Attempt) (a : Attempt) :
    let b := Breaker.after {} as
    (b.skips a.now ↔ HeldBack (Breaker.reaching {} as) a.now) ∧
    (b.skips a.now → b.export a = (b, none)) ∧
    (¬ b.skips a.now → (b.export a).2 = a.result) ∧
    (a.decisive = false → ∀ later, (b.export a).1.reaching later = b.reaching later) := by
  have hstart : Reflects {} [] := ⟨by simp [lastDecisive], by simp [lastDecisive]⟩
  refine ⟨hstart.run.skips_iff a.now, fun hs => if_pos hs, fun hs => ?_, fun hd later => ?_⟩
  · rw [Breaker.export, if_neg hs]
    split <;> simp [*]
  · rw [Breaker.export_of_transient hd]

end Beats.Otelx
