import Beats.Api.Proposal
import Beats.Lib.Checked

/-!
# The action catalog

The authored action contracts of `internal/contract` and the three queries a beat asks
of them.  A precondition is a compiled predicate on the snapshot.  Resolution by name
takes the first contract of that name, and where names are distinct it is the only one
(`StaticCatalog.byName_of_mem`).

A catalog is loaded from a document (`load`).  Loading binds every precondition to the
predicate that a registry has under its name, and refuses a name that the registry does not
have.  It asks nothing of the names of the contracts.
-/

namespace Beats.Contract

open Proposal List

/-- A predicate on the snapshot that has to hold before the action may be proposed. -/
structure Precondition where
  name : String := ""
  ok : SAO → Bool

/-- The authored range of a parameter. -/
structure Range where
  min : Rat := 0
  max : Rat := 0
  default : Rat := 0

/-- What a contract's action is, and its scope. -/
structure ActionSpec where
  description : String := ""
  scopeParameters : List (String × Range) := []

/-- The label half of an authored undo. -/
structure Reversal where
  method : String := ""
  fallback : String := ""
  restoreOnSuccess : Bool := false
  holdOnMiss : Bool := false

/-- One bounded mechanism and its target.  Which of the fields a verb needs is the actuator's
to say. -/
structure Step where
  verb : String := ""
  «namespace» : String := ""
  selector : String := ""
  command : List String := []
  deployment : String := ""
  /-- Absent is not zero. -/
  replicas : Option Int := none
  configMap : String := ""
  dataKey : String := ""
  flag : String := ""
  variant : String := ""
  path : String := ""

/-- The mechanism half of an authored action. -/
structure Execution where
  forward : List Step := []
  reverse : List Step := []

/-- What the action has to achieve, and in which window. -/
structure SuccessCriteria where
  metric : String := ""
  target : String := ""
  window : Duration := 0
  abortConditions : List String := []
  severityQuery : String := ""
  severityReductionPct : Rat := 0
deriving DecidableEq

structure ActionContract where
  name : String := ""
  applicableFailureClasses : List FailureClass := []
  applicableTiers : List String := []
  blastTier : BlastTier := .other ""
  preconditions : List Precondition := []
  action : ActionSpec := {}
  reversal : Reversal := {}
  execution : Execution := {}
  successCriteria : SuccessCriteria := {}

/-- The meaning of a failure class, as authored for the prompt. -/
structure FailureClassDefinition where
  cls : FailureClass
  description : String := ""

/-- `contract.StaticCatalog`, in load order. -/
structure StaticCatalog where
  contracts : List ActionContract := []

def classMatches (c : ActionContract) (cls : FailureClass) : Bool :=
  c.applicableFailureClasses.contains cls

def tierMatches (c : ActionContract) (tier : String) : Bool :=
  c.applicableTiers.contains tier

/-- Every precondition holds of the snapshot. -/
def preconditionsMet (c : ActionContract) (sao : SAO) : Bool :=
  c.preconditions.all fun p => p.ok sao

variable {s : StaticCatalog}

namespace StaticCatalog

def applicable (s : StaticCatalog) (cls : FailureClass) (tier : String) (sao : SAO) :
    List ActionContract :=
  s.contracts.filter fun c =>
    classMatches c cls && tierMatches c tier && preconditionsMet c sao

/-- The contracts that apply, whatever the class. -/
def applicableToTier (s : StaticCatalog) (tier : String) (sao : SAO) : List ActionContract :=
  s.contracts.filter fun c => tierMatches c tier && preconditionsMet c sao

def byName (s : StaticCatalog) (name : String) : Option ActionContract :=
  s.contracts.find? fun c => c.name == name

def DistinctNames (s : StaticCatalog) : Prop :=
  (s.contracts.map ActionContract.name).Nodup

theorem mem_of_mem_applicable {cls : FailureClass} {tier : String} {sao : SAO}
    {c : ActionContract} (h : c ∈ s.applicable cls tier sao) : c ∈ s.contracts :=
  (mem_filter.mp h).1

theorem byName_of_mem (hd : s.DistinctNames) {c : ActionContract} (hc : c ∈ s.contracts) :
    s.byName c.name = some c := by
  unfold byName
  unfold DistinctNames at hd
  generalize s.contracts = l at hd hc
  induction l with
  | nil => cases hc
  | cons d l ih =>
    rw [map_cons, nodup_cons] at hd
    rw [find?_cons]
    cases mem_cons.mp hc with
    | inl he => subst he; simp
    | inr hm =>
      have hne : (d.name == c.name) = false := by
        refine beq_false_of_ne fun he => hd.1 ?_
        rw [he]
        exact mem_map_of_mem hm
      rw [hne]
      exact ih hd.2 hm

end StaticCatalog

variable {reg : PreconditionRegistry} {parse : String → Except String (List ActionContract)}
  {raw : String} {cat : StaticCatalog} {c c' : ActionContract}

/-! ## Loading -/

/-- `PreconditionRegistry`: the compiled predicates by name. -/
abbrev PreconditionRegistry := List (String × (SAO → Bool))

/-- `Preconditions`: the production registry. -/
def Preconditions : PreconditionRegistry := []

/-- One authored precondition of the contract `name`, bound against the registry. -/
def bindPrecondition (reg : PreconditionRegistry) (name : String) (p : Precondition) :
    Except String Precondition :=
  match reg.lookup p.name with
  | some ok => .ok { p with ok := ok }
  | none => .error ("catalog: contract " ++ Lib.Fmt.quote name ++ " names precondition "
      ++ Lib.Fmt.quote p.name ++ ", not in the registry")

def bindContract (reg : PreconditionRegistry) (c : ActionContract) :
    Except String ActionContract := do
  let preconditions ← c.preconditions.mapM (bindPrecondition reg c.name)
  return { c with preconditions := preconditions }

/-- `Load`, with the YAML parser as a parameter. -/
def load (parse : String → Except String (List ActionContract)) (raw : String)
    (reg : PreconditionRegistry) : Except String StaticCatalog :=
  match parse raw with
  | .error err => .error ("parse catalog: " ++ err)
  | .ok contracts => do
    let contracts ← contracts.mapM (bindContract reg)
    return { contracts := contracts }

/-- Without a registry nothing can be bound, so what is accepted has no preconditions. -/
theorem bindContract_nil (h : bindContract [] c = .ok c') : c' = c ∧ c.preconditions = [] := by
  cases hp : c.preconditions with
  | nil =>
    simp only [bindContract, hp, mapM_nil] at h
    cases h
    exact ⟨by cases c; cases hp; rfl, rfl⟩
  | cons p ps =>
    simp only [bindContract, hp, mapM_cons, bindPrecondition, lookup_nil] at h
    cases h

theorem bound_of_load (h : load parse raw reg = .ok cat) : ∃ doc, parse raw = .ok doc ∧
      Forall₂ (fun c c' => bindContract reg c = .ok c') doc cat.contracts := by
  unfold load at h
  cases hp : parse raw with
  | error err => rw [hp] at h; cases h
  | ok doc =>
    rw [hp] at h
    cases hm : doc.mapM (bindContract reg) with
    | error err => simp only [hm] at h; cases h
    | ok cs =>
      simp only [hm] at h
      cases h
      exact ⟨doc, rfl, Lib.forall₂_of_mapM hm⟩

/-- A catalog that is loaded against the production registry is the document's contracts,
and none of them has a precondition. -/
theorem load_preconditions (h : load parse raw Preconditions = .ok cat) :
    parse raw = .ok cat.contracts ∧ ∀ c ∈ cat.contracts, c.preconditions = [] := by
  obtain ⟨doc, hdoc, hbound⟩ := bound_of_load h
  rw [hdoc]
  generalize cat.contracts = cs at hbound
  clear hdoc
  induction hbound with
  | nil => exact ⟨rfl, fun c hc => by cases hc⟩
  | cons hb _ ih =>
    obtain ⟨rfl, hpre⟩ := bindContract_nil hb
    obtain ⟨hcs, hall⟩ := ih
    cases hcs
    exact ⟨rfl, forall_mem_cons.mpr ⟨hpre, hall⟩⟩

theorem bindContract_eq
    (h : bindContract reg c = .ok c') : ∃ ps, c' = { c with preconditions := ps } := by
  unfold bindContract at h
  cases hp : c.preconditions.mapM (bindPrecondition reg c.name) with
  | error err => rw [hp] at h; cases h
  | ok ps =>
    rw [hp] at h
    cases h
    exact ⟨ps, rfl⟩

theorem bindContract_name (h : bindContract reg c = .ok c') : c'.name = c.name := by
  obtain ⟨ps, rfl⟩ := bindContract_eq h
  rfl

/-- What a loaded catalog has under a name is the document's first contract of that name, bound. -/
theorem byName_of_load (h : load parse raw reg = .ok cat)
    {name : String} {ct : ActionContract} (hct : cat.byName name = some ct) :
    ∃ doc authored, parse raw = .ok doc ∧ doc.find? (fun c => c.name == name) = some authored ∧
      ∃ ps, ct = { authored with preconditions := ps } := by
  obtain ⟨doc, hdoc, hbound⟩ := bound_of_load h
  rw [StaticCatalog.byName] at hct
  generalize cat.contracts = cs at hbound hct
  suffices hfind : ∃ authored, doc.find? (fun c => c.name == name) = some authored ∧
      ∃ ps, ct = { authored with preconditions := ps } by
    obtain ⟨authored, hauthored, hps⟩ := hfind
    exact ⟨doc, authored, hdoc, hauthored, hps⟩
  clear hdoc
  induction hbound with
  | nil => cases hct
  | @cons c c' _ _ hb _ ih =>
    rw [find?_cons, bindContract_name hb] at hct
    rw [find?_cons]
    cases hn : c.name == name with
    | false =>
      rw [hn] at hct
      exact ih hct
    | true =>
      rw [hn] at hct
      cases hct
      exact ⟨c, rfl, bindContract_eq hb⟩

theorem names_of_load (h : load parse raw reg = .ok cat) : ∃ doc, parse raw = .ok doc ∧
      cat.contracts.map ActionContract.name = doc.map ActionContract.name := by
  obtain ⟨doc, hdoc, hbound⟩ := bound_of_load h
  refine ⟨doc, hdoc, ?_⟩
  generalize cat.contracts = cs at hbound
  clear hdoc
  induction hbound with
  | nil => rfl
  | cons hb _ ih => rw [map_cons, map_cons, bindContract_name hb, ih]

/-- Where no contract has a precondition, the snapshot plays no part in what is applicable. -/
theorem StaticCatalog.applicable_congr (h : ∀ c ∈ s.contracts, c.preconditions = [])
    (cls : FailureClass) (tier : String) (sao sao' : SAO) :
    s.applicable cls tier sao = s.applicable cls tier sao' := by
  refine filter_congr fun c hc => ?_
  simp [preconditionsMet, h c hc]

end Beats.Contract
