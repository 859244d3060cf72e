import Beats.Api.Decision
import Beats.Lib.Keyed

/-!
# The operator's view

`internal/incident`: the boundary objects that the beats emit, folded into one record for each
fingerprint.  A record has the line of an incident and the objects themselves.

`Projection.apply` is a fold by key (`records_projected`), so the records are independent of how
the objects of different fingerprints lie between each other (`records_of_interleaving`).

A record holds every outcome that came, in the order in which they came (`settled_projected`).
An object that is delivered again leaves it as it is unless it is an outcome
(`redelivery_unchanged_iff`).
-/

namespace Beats

open Lib List Keyed

/-! ## Objects -/

namespace Incident

/-- The types that the folds have a case for. -/
inductive Boundary where
  | detection (d : Signal.Detection)
  | set (ps : Proposal.Set)
  | governed (g : Decision.Governed)
  | decision (d : Decision)
  | outcome (oc : Outcome)
deriving DecidableEq

/-- The type as Go prints it. -/
def Boundary.typeName : Boundary → String
  | .detection _ => "signal.Detection"
  | .set _ => "proposal.Set"
  | .governed _ => "decision.Governed"
  | .decision _ => "decision.Decision"
  | .outcome _ => "outcome.Outcome"

/-- What `Apply` may be handed: a boundary object, a pointer to one, or anything else, a nil
pointer among them. -/
inductive Object where
  | value (b : Boundary)
  | pointer (b : Boundary)
  | other (typeName : String)
deriving DecidableEq

/-- `%T`. -/
def Object.typeName : Object → String
  | .value b => b.typeName
  | .pointer b => "*" ++ b.typeName
  | .other typeName => typeName

/-! ## Incidents -/

/-- Where the engine stands on a fingerprint. -/
inductive Stage where
  | detected
  | proposed
  | decided
  | applied
  | settled
  | other (s : String)
deriving DecidableEq

end Incident

open Incident in
/-- `incident.Incident`: the journey of a fingerprint, collapsed to where it stands. -/
structure Incident where
  fingerprint : String := ""
  stage : Stage := .other ""
  service : String := ""
  updatedAt : Time := Time.zero
  governed : Option Decision.Governed := none
  severity : Option Rat := none
deriving DecidableEq

namespace Incident

/-- Where a result leaves the incident. -/
def stageOf : Outcome.Result → Stage
  | .applied => .applied
  | _ => .settled

/-- `Fold`.  A pointer is not one of its types, and a bare decision is none. -/
def fold (prior : Incident) : Object → Incident
  | .value (.detection d) =>
    { prior with
      fingerprint := d.fingerprint, service := d.originService, stage := .detected
      updatedAt := d.detectedAt }
  | .value (.set ps) =>
    { prior with
      fingerprint := ps.signalRef, stage := .proposed
      updatedAt :=
        match ps.saoSnapshot with
        | some sao => sao.assembledAt
        | none => prior.updatedAt }
  | .value (.governed g) =>
    { prior with
      fingerprint := g.decision.signalRef, updatedAt := g.decision.evaluatedAt
      stage := .decided, governed := some g }
  | .value (.outcome oc) =>
    { prior with
      fingerprint := oc.signalRef, updatedAt := oc.executedAt
      severity := oc.observedSeverity, stage := stageOf oc.result }
  | _ => prior

theorem fold_fold (prior : Incident) (obj : Object) :
    fold (fold prior obj) obj = fold prior obj := by
  cases obj with
  | value b =>
    cases b with
    | set ps => cases hs : ps.saoSnapshot <;> simp [fold, hs]
    | _ => rfl
  | _ => rfl

/-! ## Records -/

/-- `incident.Record`: the incident, and the objects it was folded from. -/
structure Record extends Incident where
  detected : Option Signal.Detection := none
  proposed : Option Proposal.Set := none
  decided : Option Decision := none
  settled : List Outcome := []
deriving DecidableEq

/-- The record with an object in its place. -/
def Record.keep (r : Record) : Boundary → Record
  | .detection d => { r with detected := some d }
  | .set ps => { r with proposed := some ps }
  | .governed g => { r with decided := some g.decision }
  | .decision d => { r with decided := some d }
  | .outcome oc => { r with settled := r.settled ++ [oc] }

/-- The record after an object. -/
def foldRecord (prior : Record) (obj : Object) : Record :=
  let next := { prior with toIncident := fold prior.toIncident obj }
  match obj with
  | .value b => next.keep b
  | .pointer b => next.keep b
  | .other _ => next

def Object.outcome? : Object → Option Outcome
  | .value (.outcome oc) => some oc
  | .pointer (.outcome oc) => some oc
  | _ => none

theorem settled_foldRecord (r : Record) (obj : Object) :
    (foldRecord r obj).settled = r.settled ++ obj.outcome?.toList := by
  cases obj with
  | other typeName => exact (append_nil _).symm
  | value b | pointer b => cases b <;> simp [foldRecord, Record.keep, Object.outcome?]

/-- A record does not change by an object it holds already, but for an outcome, which it holds
once more. -/
theorem foldRecord_twice_iff (r : Record) (obj : Object) :
    foldRecord (foldRecord r obj) obj = foldRecord r obj ↔ obj.outcome? = none := by
  constructor
  · intro h
    have hs := congrArg Record.settled h
    rw [settled_foldRecord] at hs
    exact Option.toList_eq_nil_iff.mp (append_right_eq_self.mp hs)
  · intro h
    cases obj with
    | other typeName => rfl
    | value b | pointer b =>
      cases b with
      | outcome oc => cases h
      | _ => simp [foldRecord, Record.keep, fold_fold]

/-! ## The projection -/

/-- `fingerprintOf`, where there is one. -/
def fingerprintOf : Object → Option String
  | .value (.detection d) => if d.fingerprint ≠ "" then some d.fingerprint else none
  | .value (.set ps) => if ps.signalRef ≠ "" then some ps.signalRef else none
  | .value (.governed g) =>
    if g.decision.signalRef ≠ "" then some g.decision.signalRef else none
  | .value (.outcome oc) => if oc.signalRef ≠ "" then some oc.signalRef else none
  | _ => none

def errNoFingerprint : String := "incident: object carries no fingerprint"

structure Projection where
  records : String → Option Record := fun _ => none

namespace Projection

/-- `Projection.Apply`.  What it refuses leaves the projection as it was. -/
def apply (p : Projection) (obj : Object) : Except String Projection :=
  match fingerprintOf obj with
  | none => .error ("incident: apply " ++ obj.typeName ++ ": " ++ errNoFingerprint)
  | some fp =>
    .ok { records :=
      Function.update p.records fp (some (foldRecord ((p.records fp).getD {}) obj)) }

/-- The projection after an object, refused or not. -/
def after (p : Projection) (obj : Object) : Projection := (p.apply obj).toOption.getD p

def getRecord (p : Projection) (fingerprint : String) : Option Record := p.records fingerprint

def get (p : Projection) (fingerprint : String) : Option Incident :=
  (p.records fingerprint).map Record.toIncident

end Projection

def projected (objs : List Object) : Projection := objs.foldl Projection.after {}

def keyed : Keyed Object String Record where
  key := fingerprintOf
  init := {}
  fold := foldRecord

theorem records_after (p : Projection) (obj : Object) :
    (p.after obj).records = keyed.apply p.records obj := by
  cases h : fingerprintOf obj <;>
    simp [Projection.after, Projection.apply, apply, keyed, h, Except.toOption]

theorem records_projected (objs : List Object) : (projected objs).records = keyed.table objs := by
  induction objs using reverseRecOn with
  | nil => rfl
  | append_singleton objs obj ih =>
    rw [table_concat, ← ih, ← records_after, projected, foldl_append]
    rfl

theorem projected_concat (objs : List Object) (obj : Object) :
    projected (objs ++ [obj]) = (projected objs).after obj := by
  simp [projected, foldl_append]

theorem getRecord_projected (objs : List Object) (f : String) :
    (projected objs).getRecord f = keyed.value (keyed.at' f objs) := by
  rw [Projection.getRecord, records_projected, table_eq]

variable {f : String} {objs : List Object} {obj : Object}

theorem getRecord_after_of_ne {p : Projection} (h : fingerprintOf obj ≠ some f) :
    (p.after obj).getRecord f = p.getRecord f := by
  rw [Projection.getRecord, records_after]
  exact apply_of_ne h

/-- The outcomes of a fingerprint, in the order of the sequence. -/
def outcomesOf (f : String) (objs : List Object) : List Outcome :=
  (keyed.at' f objs).filterMap Object.outcome?

theorem mem_outcomesOf {oc : Outcome} : oc ∈ outcomesOf f objs ↔
      ∃ obj ∈ objs, fingerprintOf obj = some f ∧ obj.outcome? = some oc := by
  simp only [outcomesOf, mem_filterMap, mem_at, and_assoc]
  rfl

theorem settled_projected {r : Record} (h : (projected objs).getRecord f = some r) :
    r.settled = outcomesOf f objs := by
  rw [getRecord_projected] at h
  unfold outcomesOf
  generalize keyed.at' f objs = own at h
  induction own using reverseRecOn generalizing r with
  | nil => cases h
  | append_singleton own obj ih =>
    rw [value_concat, Option.some.injEq] at h
    subst h
    change (foldRecord _ obj).settled = _
    have hobj : [obj].filterMap Object.outcome? = obj.outcome?.toList := by
      cases hoc : obj.outcome? <;> simp [hoc]
    rw [settled_foldRecord, filterMap_append, hobj]
    congr 1
    cases hv : keyed.value own with
    | none =>
      cases own with
      | nil => rfl
      | cons o own => simp [value] at hv
    | some r' => exact ih hv

/-! ## Interleavings -/

/-- The records of two sequences that have the same objects of each fingerprint, in the same
order, are the same.  An object of another fingerprint, or one that is refused for lack of one,
changes no record. -/
theorem records_of_interleaving {objs objs' : List Object}
    (h : ∀ f, keyed.at' f objs = keyed.at' f objs') :
    (∀ f, (projected objs).getRecord f = (projected objs').getRecord f) ∧
    ∀ (p : Projection) (obj : Object) (f : String), fingerprintOf obj ≠ some f →
      (p.after obj).getRecord f = p.getRecord f := by
  refine ⟨fun f => ?_, fun p obj f hf => getRecord_after_of_ne hf⟩
  rw [getRecord_projected, getRecord_projected, h f]

def detectionOf (service : String) : Object :=
  .value (.detection { fingerprint := service, originService := service })

def twoServices : List Object :=
  [detectionOf "checkout", .value (.outcome {}), detectionOf "cart"]

theorem twoServices_interleaved :
    (projected twoServices).getRecord "checkout" =
      (projected [detectionOf "cart", detectionOf "checkout"]).getRecord "checkout" := by
  refine (records_of_interleaving (fun f => ?_)).1 "checkout"
  by_cases hf : f = "checkout"
  · subst hf
    rfl
  · -- the other service is in both, and the outcome in neither
    have hcheckout : keyed.key (detectionOf "checkout") ≠ some f := fun h =>
      hf (Option.some.inj h).symm
    have hbare : keyed.key (.value (.outcome {})) ≠ some f := nofun
    change keyed.at' f ([detectionOf "checkout"] ++ ([.value (.outcome {})] ++
      [detectionOf "cart"])) = keyed.at' f ([detectionOf "cart"] ++ [detectionOf "checkout"])
    rw [at_append, at_append, at_append, at_singleton_of_ne hcheckout,
      at_singleton_of_ne hbare]
    simp

/-! ## Redelivery -/

/-- An object that is delivered again, before the next object of its fingerprint, changes the
record of the fingerprint exactly if it is an outcome. -/
theorem getRecord_redelivered_iff {between : List Object} (hf : fingerprintOf obj = some f)
    (h : ∀ o ∈ between, fingerprintOf o ≠ some f) :
    ((projected (objs ++ obj :: between)).after obj).getRecord f =
      (projected (objs ++ obj :: between)).getRecord f ↔ obj.outcome? = none := by
  -- the objects of the fingerprint end with the one that comes again
  have hown : keyed.at' f (objs ++ obj :: between) = keyed.at' f objs ++ [obj] := by
    have hnone : keyed.at' f between = [] := at_eq_nil h
    rw [← singleton_append, ← append_assoc, at_append, at_append,
      at_singleton_self hf, hnone, append_nil]
  rw [← projected_concat, getRecord_projected, getRecord_projected, at_append, hown,
    at_singleton_self hf, value_concat, value_concat, Option.some.injEq]
  exact foldRecord_twice_iff _ obj

/-- `isTerminal` of `internal/harvest`: the results that settle an order.  The word of an
execution, applied or proposed, is none of them. -/
def isTerminal : Outcome.Result → Bool
  | .success | .failure | .partialNonConverging | .blocked | .unknown | .rendered => true
  | .applied | .proposed | .other _ => false

/-- An object that is delivered again, before the next object of its fingerprint, changes no
record exactly if it is no outcome.  A record holds the outcomes that came, so that it holds
terminal ones only exactly if no other came. -/
theorem redelivery_unchanged_iff {objs between : List Object} {obj : Object}
    (h : ∀ o ∈ between, ∀ f, fingerprintOf obj = some f → fingerprintOf o ≠ some f) :
    ((∀ f, ((projected (objs ++ obj :: between)).after obj).getRecord f =
        (projected (objs ++ obj :: between)).getRecord f) ↔
      (fingerprintOf obj = none ∨ obj.outcome? = none)) ∧
    ∀ f r, (projected objs).getRecord f = some r → r.settled = outcomesOf f objs ∧
      ((∀ oc ∈ r.settled, isTerminal oc.result = true) ↔
        ∀ o ∈ objs, ∀ oc, fingerprintOf o = some f → o.outcome? = some oc →
          isTerminal oc.result = true) := by
  constructor
  · cases hf : fingerprintOf obj with
    | none =>
      refine iff_of_true (fun f => getRecord_after_of_ne ?_) (.inl rfl)
      rw [hf]
      exact nofun
    | some f =>
      have hagain := @getRecord_redelivered_iff _ objs _ _ hf fun o ho => h o ho f hf
      constructor
      · intro hsame
        exact .inr (hagain.mp (hsame f))
      · rintro (hnone | hnone) f'
        · cases hnone
        · by_cases hf' : f' = f
          · subst hf'
            exact hagain.mpr hnone
          · refine getRecord_after_of_ne fun hc => hf' ?_
            rw [hf] at hc
            exact (Option.some.inj hc).symm
  · intro f r hr
    have hs := settled_projected hr
    refine ⟨hs, ?_⟩
    rw [hs]
    constructor
    · intro hall o ho oc hof hoc
      exact hall oc (mem_outcomesOf.mpr ⟨o, ho, hof, hoc⟩)
    · intro hall oc hoc
      obtain ⟨o, ho, hof, hoc⟩ := mem_outcomesOf.mp hoc
      exact hall o ho oc hof hoc

/-- A detection that is delivered twice. -/
theorem detectedTwice_unchanged :
    ((projected [detectionOf "checkout", detectionOf "cart"]).after
      (detectionOf "checkout")).getRecord "checkout" =
      (projected [detectionOf "checkout", detectionOf "cart"]).getRecord "checkout" := by
  have hcart : ∀ o ∈ [detectionOf "cart"], ∀ f,
      fingerprintOf (detectionOf "checkout") = some f → fingerprintOf o ≠ some f := by
    rintro o ho f hf
    obtain rfl := mem_singleton.mp ho
    cases hf
    decide
  exact (@redelivery_unchanged_iff [] _ _ hcart).1.mpr (.inr rfl) "checkout"

def appliedOutcome : Object :=
  .value (.outcome
    { id := "out:checkout:1", decisionRef := "dec:checkout:0", signalRef := "checkout"
      mode := .live, result := .applied, executedAt := 1 })

/-- The outcome of an execution is kept, and kept twice where it is delivered twice. -/
theorem appliedTwice_settled :
    (((projected [appliedOutcome]).getRecord "checkout").map fun r => r.settled.length) = some 1 ∧
    ((((projected [appliedOutcome]).after appliedOutcome).getRecord "checkout").map
      fun r => r.settled.map Outcome.result) = some [.applied, .applied] := by
  decide

end Incident

end Beats
