import Beats.Actuate.Runner

/-!
# Two checks of a contract

`validateActionContract` of `internal/validate` checks a contract where it is authored, and
`bindingFor` of `internal/actuate` checks it where it is bound.  Both look at the steps.

The validator looks at the verbs of the steps alone, and the actuator also at the targets that a
verb needs.  The actuator has one verb more, the maintenance release.  So each accepts contracts
that the other refuses (`validate_bind_agree_iff`).
-/

namespace Beats.Validate

open Lib Contract Proposal List

variable {act : ActionContract} {d : Direction} {f : Finding}

/-! ## The validator -/

/-- The two step lists of a contract. -/
inductive Direction where
  | forward
  | reverse
deriving DecidableEq

def Direction.text : Direction → String
  | .forward => "forward"
  | .reverse => "reverse"

def stepsOf (act : ActionContract) : Direction → List Step
  | .forward => act.execution.forward
  | .reverse => act.execution.reverse

/-- The errors of `validateActionContract`. -/
inductive Finding where
  | emptyName
  | noFailureClasses
  | foreignFailureClass (cls : FailureClass)
  | noTiers
  | foreignBlastTier (tier : BlastTier)
  | incompleteReversal
  | noSteps (d : Direction)
  | uncompiledVerb (d : Direction) (i : Nat) (verb : String)
  | noMetric
  | emptyWindow
  | pctOutOfRange (pct : Rat)
deriving DecidableEq

def Finding.text : Finding → String
  | .emptyName => "empty name"
  | .noFailureClasses => "no applicableFailureClasses"
  | .foreignFailureClass cls =>
    "applicableFailureClasses has " ++ Fmt.quote cls.text ++ ", not a FailureClass const"
  | .noTiers => "no applicableTiers"
  | .foreignBlastTier tier => "blastTier " ++ Fmt.quote tier.text ++ " not in [low, med, high]"
  | .incompleteReversal => "reversal missing method or fallback"
  | .noSteps d => "no " ++ d.text ++ " execution steps"
  | .uncompiledVerb d i verb =>
    d.text ++ " step " ++ toString i ++ " uses uncompiled verb " ++ Fmt.quote verb
  | .noMetric => "successCriteria missing metric"
  | .emptyWindow => "successCriteria window must be positive duration"
  | .pctOutOfRange pct => "severityReductionPct " ++ Fmt.fixed 2 pct ++ " must be in [0.0, 1.0]"

def canonicalFailureClasses : List FailureClass :=
  [.dependencySaturation, .trafficShift, .resourceExhaustion, .redundancyDegraded, .serviceFailure,
    .unknown]

def canonicalBlastTiers : List BlastTier := [.low, .med, .high]

def canonicalVerbs : List String := ["scale", "restart", "flagVariant", "exec"]

/-- A finding, where there is something to find. -/
def report (p : Prop) [Decidable p] (f : Finding) : List Finding := if p then [f] else []

/-- The steps whose verbs are not compiled. -/
def uncompiledVerbs (act : ActionContract) (d : Direction) : List Finding :=
  (stepsOf act d).zipIdx.flatMap fun (step, i) =>
    report (step.verb ∉ canonicalVerbs) (.uncompiledVerb d i step.verb)

/-- What is wrong with a contract. -/
def validateActionContract (act : ActionContract) : List Finding :=
  report (act.name = "") .emptyName ++
  report (act.applicableFailureClasses = []) .noFailureClasses ++
  (act.applicableFailureClasses.flatMap fun cls =>
    report (cls ∉ canonicalFailureClasses) (.foreignFailureClass cls)) ++
  report (act.applicableTiers = []) .noTiers ++
  report (act.blastTier ∉ canonicalBlastTiers) (.foreignBlastTier act.blastTier) ++
  report (act.reversal.method = "" ∨ act.reversal.fallback = "") .incompleteReversal ++
  report (act.execution.forward.isEmpty) (.noSteps .forward) ++
  report (act.execution.reverse.isEmpty) (.noSteps .reverse) ++
  uncompiledVerbs act .forward ++
  uncompiledVerbs act .reverse ++
  report (act.successCriteria.metric = "") .noMetric ++
  report (act.successCriteria.window ≤ 0) .emptyWindow ++
  report (act.successCriteria.severityReductionPct ≠ 0 ∧
      (act.successCriteria.severityReductionPct < 0 ∨ act.successCriteria.severityReductionPct > 1))
    (.pctOutOfRange act.successCriteria.severityReductionPct)

/-- The finding is about the steps. -/
def Finding.AboutSteps : Finding → Prop
  | .noSteps _ => True
  | .uncompiledVerb _ _ _ => True
  | _ => False

theorem mem_report {p : Prop} [Decidable p] {f' : Finding} : f' ∈ report p f ↔ p ∧ f' = f := by
  unfold report
  split <;> simp [*]

theorem report_eq_nil {p : Prop} [Decidable p] : report p f = [] ↔ ¬ p := by
  unfold report
  split <;> simp [*]

theorem mem_uncompiledVerbs :
    f ∈ uncompiledVerbs act d ↔ ∃ step i, (stepsOf act d)[i]? = some step ∧
      step.verb ∉ canonicalVerbs ∧ f = .uncompiledVerb d i step.verb := by
  simp only [uncompiledVerbs, mem_flatMap, mem_report, Prod.exists, mem_zipIdx_iff_getElem?]

theorem uncompiledVerbs_eq_nil :
    uncompiledVerbs act d = [] ↔ ∀ step ∈ stepsOf act d, step.verb ∈ canonicalVerbs := by
  rw [eq_nil_iff_forall_not_mem]
  constructor
  · intro h step hstep
    by_contra hverb
    obtain ⟨i, hi⟩ := mem_iff_getElem?.mp hstep
    exact h _ (mem_uncompiledVerbs.mpr ⟨step, i, hi, hverb, rfl⟩)
  · intro h f hf
    obtain ⟨step, i, hi, hverb, -⟩ := mem_uncompiledVerbs.mp hf
    exact hverb (h step (mem_of_getElem? hi))

theorem noSteps_mem_iff : .noSteps d ∈ validateActionContract act ↔ stepsOf act d = [] := by
  cases d <;>
    simp [validateActionContract, mem_report, mem_uncompiledVerbs, stepsOf]

theorem uncompiledVerb_mem_iff {i : Nat} {verb : String} :
    .uncompiledVerb d i verb ∈ validateActionContract act ↔
      .uncompiledVerb d i verb ∈ uncompiledVerbs act d := by
  cases d <;> simp [validateActionContract, mem_report, mem_uncompiledVerbs]

/-- The validator has nothing to say about the steps exactly if there are steps in both directions
and their verbs are canonical. -/
theorem noStepFinding_iff (act : ActionContract) :
    (∀ f ∈ validateActionContract act, ¬ f.AboutSteps) ↔
      ∀ d, stepsOf act d ≠ [] ∧ ∀ step ∈ stepsOf act d, step.verb ∈ canonicalVerbs := by
  constructor
  · intro h d
    refine ⟨fun hnil => h _ (noSteps_mem_iff.mpr hnil) trivial, uncompiledVerbs_eq_nil.mp ?_⟩
    refine eq_nil_iff_forall_not_mem.mpr fun f hf => ?_
    obtain ⟨step, i, -, -, rfl⟩ := mem_uncompiledVerbs.mp hf
    exact h _ (uncompiledVerb_mem_iff.mpr hf) trivial
  · intro h f hf hsteps
    cases f with
    | noSteps d => exact (h d).1 (noSteps_mem_iff.mp hf)
    | uncompiledVerb d i verb =>
      have hnil := uncompiledVerbs_eq_nil.mpr (h d).2
      rw [uncompiledVerb_mem_iff, hnil] at hf
      cases hf
    | _ => exact hsteps

/-- What the validator asks of a contract. -/
structure Complete (act : ActionContract) : Prop where
  name : act.name ≠ ""
  classes : act.applicableFailureClasses ≠ []
  knownClasses : ∀ cls ∈ act.applicableFailureClasses, cls ∈ canonicalFailureClasses
  tiers : act.applicableTiers ≠ []
  blastTier : act.blastTier ∈ canonicalBlastTiers
  reversal : act.reversal.method ≠ "" ∧ act.reversal.fallback ≠ ""
  steps : ∀ d, stepsOf act d ≠ [] ∧ ∀ step ∈ stepsOf act d, step.verb ∈ canonicalVerbs
  metric : act.successCriteria.metric ≠ ""
  window : 0 < act.successCriteria.window
  pct : 0 ≤ act.successCriteria.severityReductionPct ∧
    act.successCriteria.severityReductionPct ≤ 1

theorem validateActionContract_eq_nil : validateActionContract act = [] ↔ Complete act := by
  simp only [validateActionContract, List.append_eq_nil_iff, report_eq_nil,
    List.flatMap_eq_nil_iff, uncompiledVerbs_eq_nil, not_or, not_not, not_and, Int.not_le,
    List.isEmpty_iff, Rat.not_lt, gt_iff_lt]
  constructor
  · rintro ⟨⟨⟨⟨⟨⟨⟨⟨⟨⟨⟨⟨name, classes⟩, known⟩, tiers⟩, blast⟩, reversal⟩, forward⟩, reverse⟩,
      verbs⟩, verbs'⟩, metric⟩, window⟩, pct⟩
    refine ⟨name, classes, known, tiers, blast, reversal, fun d => ?_, metric, window, ?_⟩
    · cases d with
      | forward => exact ⟨forward, verbs⟩
      | reverse => exact ⟨reverse, verbs'⟩
    · by_cases hzero : act.successCriteria.severityReductionPct = 0
      · rw [hzero]
        decide
      · exact pct hzero
  · intro h
    exact ⟨⟨⟨⟨⟨⟨⟨⟨⟨⟨⟨⟨h.name, h.classes⟩, h.knownClasses⟩, h.tiers⟩, h.blastTier⟩, h.reversal⟩,
      (h.steps .forward).1⟩, (h.steps .reverse).1⟩, (h.steps .forward).2⟩,
      (h.steps .reverse).2⟩, h.metric⟩, h.window⟩, fun _ => h.pct⟩

/-! ## The actuator -/

/-- The step names all that its verb needs. -/
inductive Targeted (s : Step) : Prop where
  | exec (hv : s.verb = "exec")
      (h : s.namespace ≠ "" ∧ s.selector ≠ "" ∧ s.command ≠ [])
  | scale (hv : s.verb = "scale")
      (h : s.namespace ≠ "" ∧ s.deployment ≠ "" ∧ s.replicas ≠ none)
  | restart (hv : s.verb = "restart") (h : s.namespace ≠ "" ∧ s.deployment ≠ "")
  | flagVariant (hv : s.verb = "flagVariant")
      (h : s.namespace ≠ "" ∧ s.configMap ≠ "" ∧ s.dataKey ≠ "" ∧ s.flag ≠ "" ∧ s.variant ≠ "")
  | maintenanceRelease (hv : s.verb = "maintenanceRelease")
      (h : s.path ≠ "" ∧ s.flag ≠ "" ∧ s.variant ≠ "")

/-- The contract can be bound where a forge is wired. -/
def Binds (act : ActionContract) : Prop := ∃ b, Actuate.bindingFor act true = .ok b

theorem mechanismFor_ok_iff (s : Step) :
    (∃ m, Actuate.mechanismFor s true = .ok m) ↔ Targeted s := by
  constructor
  · rintro ⟨m, hm⟩
    unfold Actuate.mechanismFor at hm
    split at hm
    next hv =>
      split at hm
      · cases hm
      next h => exact .exec hv (by simpa [not_or] using h)
    split at hm
    next hv =>
      split at hm
      · cases hm
      next n hn =>
        split at hm
        · cases hm
        next h => exact .scale hv (by simpa [not_or, hn] using h)
    split at hm
    next hv =>
      split at hm
      · cases hm
      next h => exact .restart hv (by simpa [not_or] using h)
    split at hm
    next hv =>
      split at hm
      · cases hm
      next h => exact .flagVariant hv (by simpa [not_or] using h)
    split at hm
    next hv =>
      simp only [Bool.not_true, Bool.false_eq_true, if_false] at hm
      split at hm
      · cases hm
      next h => exact .maintenanceRelease hv (by simpa [not_or] using h)
    · cases hm
  · rintro h
    cases h with
    | exec hv h => simp [Actuate.mechanismFor, hv, h]
    | scale hv h =>
      obtain ⟨n, hn⟩ := Option.ne_none_iff_exists'.mp h.2.2
      simp [Actuate.mechanismFor, hv, h, hn]
    | restart hv h => simp [Actuate.mechanismFor, hv, h]
    | flagVariant hv h => simp [Actuate.mechanismFor, hv, h]
    | maintenanceRelease hv h => simp [Actuate.mechanismFor, hv, h]

theorem mechanismsFor_ok_iff (steps : List Step) : ∀ i,
    (∃ ms, Actuate.mechanismsFor true i steps = .ok ms) ↔ ∀ s ∈ steps, Targeted s := by
  induction steps with
  | nil => exact fun i => iff_of_true ⟨[], rfl⟩ nofun
  | cons s steps ih =>
    intro i
    rw [forall_mem_cons, ← mechanismFor_ok_iff, ← ih (i + 1), Actuate.mechanismsFor]
    cases Actuate.mechanismFor s true with
    | error err => simp
    | ok m =>
      cases Actuate.mechanismsFor true (i + 1) steps <;> simp [Except.map]

theorem opFor_ok_iff (steps : List Step) :
    (∃ op, Actuate.opFor steps true = .ok op) ↔ steps ≠ [] ∧ ∀ s ∈ steps, Targeted s := by
  match steps with
  | [] => simp [Actuate.opFor]
  | [s] =>
    rw [Actuate.opFor, forall_mem_singleton, ← mechanismFor_ok_iff]
    cases Actuate.mechanismFor s true <;> simp [Except.map]
  | s :: s' :: steps =>
    change (∃ op, (Actuate.mechanismsFor true 1 (s :: s' :: steps)).map Actuate.Operation.seq =
      .ok op) ↔ _
    rw [← mechanismsFor_ok_iff _ 1]
    cases Actuate.mechanismsFor true 1 (s :: s' :: steps) <;> simp [Except.map]

/-- A contract can be bound exactly if there are steps in both directions and each has what its
verb needs. -/
theorem binds_iff (act : ActionContract) :
    Binds act ↔ ∀ d, stepsOf act d ≠ [] ∧ ∀ s ∈ stepsOf act d, Targeted s := by
  have hboth : (∀ d, stepsOf act d ≠ [] ∧ ∀ s ∈ stepsOf act d, Targeted s) ↔
      (∃ op, Actuate.opFor act.execution.forward true = .ok op) ∧
        ∃ op, Actuate.opFor act.execution.reverse true = .ok op := by
    rw [opFor_ok_iff, opFor_ok_iff]
    refine ⟨fun h => ⟨h .forward, h .reverse⟩, fun h d => ?_⟩
    cases d with
    | forward => exact h.1
    | reverse => exact h.2
  rw [hboth, Binds, Actuate.bindingFor]
  cases Actuate.opFor act.execution.forward true with
  | error err => simp
  | ok forward => cases Actuate.opFor act.execution.reverse true <;> simp

/-! ## Agreement -/

theorem Targeted.canonical_iff {s : Step} (h : Targeted s) :
    s.verb ∈ canonicalVerbs ↔ s.verb ≠ "maintenanceRelease" := by
  cases h with
  | _ hv => rw [hv]; decide

/-- The checks agree on a contract exactly if every step of it has what its verb needs where it is
complete, and no step is a maintenance release where each has what its verb needs. -/
theorem validate_bind_agree_iff (act : ActionContract) :
    ((validateActionContract act = [] → Binds act) ∧
      (Binds act → ∀ f ∈ validateActionContract act, ¬ f.AboutSteps)) ↔
    (Complete act → ∀ d, ∀ s ∈ stepsOf act d, Targeted s) ∧
      ((∀ d, stepsOf act d ≠ [] ∧ ∀ s ∈ stepsOf act d, Targeted s) →
        ∀ d, ∀ s ∈ stepsOf act d, s.verb ≠ "maintenanceRelease") := by
  rw [validateActionContract_eq_nil, binds_iff]
  refine and_congr (forall_congr' fun hcomplete => ?_) (forall_congr' fun htargets => ?_)
  · exact ⟨fun h d => (h d).2, fun h d => ⟨(hcomplete.steps d).1, h d⟩⟩
  · rw [noStepFinding_iff]
    constructor
    · intro h d s hs
      exact ((htargets d).2 s hs).canonical_iff.mp ((h d).2 s hs)
    · intro h d
      exact ⟨(htargets d).1, fun s hs => ((htargets d).2 s hs).canonical_iff.mpr (h d s hs)⟩

def contractOf (step : Step) : ActionContract where
  name := "throttle"
  applicableFailureClasses := [.dependencySaturation]
  applicableTiers := ["tier1"]
  blastTier := .low
  reversal := { method := "unthrottle", fallback := "page" }
  execution := { forward := [step], reverse := [step] }
  successCriteria := { metric := "latency", window := 300000000000 }

/-- The validator passes a scale that says neither where nor how far, and objects to a release that
can be bound. -/
theorem validate_bind_disagree :
    (validateActionContract (contractOf { verb := "scale" }) = [] ∧
      ¬ Binds (contractOf { verb := "scale" })) ∧
    let release : Step :=
      { verb := "maintenanceRelease", path := "flags.json", flag := "throttle", variant := "on" }
    Binds (contractOf release) ∧
      .uncompiledVerb .forward 0 "maintenanceRelease" ∈
        validateActionContract (contractOf release) := by
  refine ⟨⟨by decide, ?_⟩, ⟨_, rfl⟩, by decide⟩
  rintro ⟨b, hb⟩
  cases hb

end Beats.Validate
