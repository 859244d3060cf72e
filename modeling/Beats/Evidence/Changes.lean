import Mathlib.Data.List.Dedup
import Mathlib.Data.List.Sort
import Beats.Actuate.Runner
import Beats.Evidence.Subjects

/-!
# The changes of the cluster

`KubeChangeSource` of `internal/evidence`: the recent rollouts of deployments and the recent edits
of config maps, in the namespaces that the subject rules name, as change events.

The writes of some field managers are not to count, those of the actuator among them: the engine's
own remediation would otherwise corroborate its next decision.  A config map is judged by its
managed fields, where each has its manager.  A deployment is judged by the condition that says when
its rollout last progressed, and that does not say who caused the rollout (`unreported_iff`).  So
the actuator's own scaling is reported (`ownScaling_reported`).

Who wrote to an object is its history, which the cluster does not keep.  An object here has its
history with it, and what it shows was written (`TrackedConfigMap`, `TrackedDeployment`).
-/

namespace Beats.Evidence

open Lib Proposal List Prog

/-! ## Objects -/

/-- `metav1.ManagedFieldsEntry`, as far as it is read. -/
structure ManagedFieldsEntry where
  manager : String := ""
  time : Option Time := none

/-- `corev1.ConfigMap`, as far as it is read. -/
structure ConfigMap where
  «namespace» : String := ""
  name : String := ""
  resourceVersion : String := ""
  managedFields : List ManagedFieldsEntry := []

/-- `appsv1.DeploymentConditionType`. -/
inductive ConditionType where
  | progressing
  | other (s : String)
deriving DecidableEq

/-- `appsv1.DeploymentCondition`, as far as it is read. -/
structure DeploymentCondition where
  type : ConditionType
  lastUpdateTime : Time := Time.zero

/-- `appsv1.Deployment`, as far as it is read. -/
structure Deployment where
  «namespace» : String := ""
  name : String := ""
  generation : Int := 0
  conditions : List DeploymentCondition := []

/-! ## The source -/

/-- The actuator's own managers. -/
def defaultIgnoredManagers : List String := ["beat", "thump-actuator"]

/-- `DefaultChangeLookback`: two hours. -/
def defaultChangeLookback : Duration := 7200000000000

structure KubeChangeSource where
  subjects : SubjectIndex := []
  changeLookback : Duration := 0
  ignoreManagers : Option (List String) := none

namespace Changes

inductive Call where
  | now
  /-- `Deployments(ns).List`. -/
  | deployments (ns : String)
  /-- `ConfigMaps(ns).List`. -/
  | configMaps (ns : String)

def iface : Iface where
  Call := Call
  Answer
    | .now => Time
    | .deployments _ => Except String (List Deployment)
    | .configMaps _ => Except String (List ConfigMap)

end Changes

namespace KubeChangeSource

def lookback (k : KubeChangeSource) : Duration :=
  if k.changeLookback ≤ 0 then defaultChangeLookback else k.changeLookback

def ignored (k : KubeChangeSource) : List String := k.ignoreManagers.getD defaultIgnoredManagers

def namespaces (k : KubeChangeSource) : List String :=
  ((k.subjects.map fun rule => rule.namespace).filter (· ≠ "")).dedup.insertionSort (· ≤ ·)

def Recent (k : KubeChangeSource) (now at' : Time) : Prop :=
  0 ≤ now.sub at' ∧ now.sub at' ≤ k.lookback

instance (k : KubeChangeSource) (now at' : Time) : Decidable (k.Recent now at') :=
  inferInstanceAs (Decidable (_ ∧ _))

def deploymentSubject (k : KubeChangeSource) (d : Deployment) : String :=
  k.subjects.for { «namespace» := d.namespace, kind := "Deployment", name := d.name }

def configMapSubject (k : KubeChangeSource) (cm : ConfigMap) : String :=
  k.subjects.for { «namespace» := cm.namespace, kind := "ConfigMap", name := cm.name }

def deployEvent (k : KubeChangeSource) (now : Time) (d : Deployment) (cond : DeploymentCondition) :
    Option ChangeEvent :=
  if cond.type ≠ .progressing ∨ cond.lastUpdateTime.isZero = true then none
  else if ¬ k.Recent now cond.lastUpdateTime then none
  else if k.deploymentSubject d = "" then none
  else some
    { id := "deploy/" ++ d.namespace ++ "/" ++ d.name ++ "/" ++ toString d.generation
      type := "deploy"
      target := k.deploymentSubject d
      age := now.sub cond.lastUpdateTime
      historicalStaleness := now.sub cond.lastUpdateTime }

def deployEvents (k : KubeChangeSource) (now : Time) (d : Deployment) : List ChangeEvent :=
  d.conditions.filterMap (k.deployEvent now d)

/-- One managed field: the latest time so far of those that are not ignored. -/
def laterField (k : KubeChangeSource) (maxTime : Time) (mf : ManagedFieldsEntry) : Time :=
  match mf.time with
  | none => maxTime
  | some at' =>
    if mf.manager ∈ k.ignored ∨ at'.isZero = true then maxTime
    else if maxTime.isZero = true ∨ maxTime < at' then at'
    else maxTime

/-- The last write that is not ignored. -/
def lastWrite (k : KubeChangeSource) (cm : ConfigMap) : Time :=
  cm.managedFields.foldl k.laterField Time.zero

def configEvent (k : KubeChangeSource) (now : Time) (cm : ConfigMap) : Option ChangeEvent :=
  if (k.lastWrite cm).isZero = true then none
  else if ¬ k.Recent now (k.lastWrite cm) then none
  else if k.configMapSubject cm = "" then none
  else some
    { id := "config/" ++ cm.namespace ++ "/" ++ cm.name ++ "/" ++ cm.resourceVersion
      type := "config"
      target := k.configMapSubject cm
      age := now.sub (k.lastWrite cm)
      historicalStaleness := now.sub (k.lastWrite cm) }

/-- The changes of the namespaces, in their order. -/
def collect (k : KubeChangeSource) (now : Time) :
    List String → Prog Changes.iface String (List ChangeEvent)
  | [] => return []
  | ns :: rest => do
    let deployments ← Prog.orFail (fun err => "list deployments in " ++ ns ++ ": " ++ err)
      (← @Prog.ask Changes.iface String (.deployments ns))
    let configMaps ← Prog.orFail (fun err => "list configmaps in " ++ ns ++ ": " ++ err)
      (← @Prog.ask Changes.iface String (.configMaps ns))
    let events ← k.collect now rest
    return deployments.flatMap (k.deployEvents now) ++ configMaps.filterMap (k.configEvent now)
      ++ events

/-- The clock is read once and the changes are collected. -/
def changes (k : KubeChangeSource) : Prog Changes.iface String ChangeSnapshot := do
  let now ← @Prog.ask Changes.iface String .now
  if k.namespaces = [] then return {}
  let events ← k.collect now k.namespaces
  return { events := events }

end KubeChangeSource

/-! ## Histories -/

/-- A write to an object.  The progress of a rollout is a write of the manager that caused it. -/
structure Write where
  manager : String
  time : Time
deriving DecidableEq

/-- A config map with its history: a managed field was written by its manager. -/
structure TrackedConfigMap where
  object : ConfigMap
  writes : List Write
  recorded : ∀ mf ∈ object.managedFields, ∀ at', mf.time = some at' →
    { manager := mf.manager, time := at' } ∈ writes

/-- A deployment with its history: its rollout progressed because of a write. -/
structure TrackedDeployment where
  object : Deployment
  writes : List Write
  recorded : ∀ cond ∈ object.conditions, cond.type = .progressing →
    cond.lastUpdateTime.isZero = false → ∃ w ∈ writes, w.time = cond.lastUpdateTime

namespace TrackedConfigMap

def write (manager : String) (now : Time) (resourceVersion : String) (x : TrackedConfigMap) :
    TrackedConfigMap where
  object :=
    { x.object with
      resourceVersion := resourceVersion
      managedFields := { manager := manager, time := some now } ::
        x.object.managedFields.filter (·.manager ≠ manager) }
  writes := { manager := manager, time := now } :: x.writes
  recorded := by
    intro mf hmf at' hat
    rcases mem_cons.mp hmf with rfl | hmf
    · cases hat
      exact mem_cons_self
    · exact mem_cons_of_mem _ (x.recorded mf (mem_filter.mp hmf).1 at' hat)

end TrackedConfigMap

namespace TrackedDeployment

def write (manager : String) (now : Time) (x : TrackedDeployment) : TrackedDeployment where
  object := { x.object with generation := x.object.generation + 1 }
  writes := { manager := manager, time := now } :: x.writes
  recorded := by
    intro cond hcond hprogressing hset
    obtain ⟨w, hw, hat⟩ := x.recorded cond hcond hprogressing hset
    exact ⟨w, mem_cons_of_mem _ hw, hat⟩

/-- The controller moves the rollout that the last write asked for. -/
def progress (now : Time) (x : TrackedDeployment) : TrackedDeployment where
  object :=
    { x.object with
      conditions := { type := .progressing, lastUpdateTime := now } ::
        x.object.conditions.filter (·.type ≠ .progressing) }
  writes := { manager := (x.writes.head?.map Write.manager).getD "", time := now } :: x.writes
  recorded := by
    intro cond hcond hprogressing _
    rcases mem_cons.mp hcond with rfl | hcond
    · exact ⟨_, mem_cons_self, rfl⟩
    · exact absurd hprogressing (of_decide_eq_true (mem_filter.mp hcond).2)

end TrackedDeployment

/-- The objects, and what has been written to them. -/
structure Cluster where
  clock : Time
  deployments : List TrackedDeployment := []
  configMaps : List TrackedConfigMap := []

inductive ObjectRef where
  | deployment (ns name : String)
  | configMap (ns name : String)

inductive ClusterEvent where
  | write (manager : String) (ref : ObjectRef) (resourceVersion : String)
  | progress (ns name : String)
  | wait (d : Nat)

namespace Cluster

def onDeployment (cl : Cluster) (ns name : String) (f : TrackedDeployment → TrackedDeployment) :
    Cluster :=
  { cl with deployments := cl.deployments.map fun x =>
      if x.object.namespace = ns ∧ x.object.name = name then f x else x }

def onConfigMap (cl : Cluster) (ns name : String) (f : TrackedConfigMap → TrackedConfigMap) :
    Cluster :=
  { cl with configMaps := cl.configMaps.map fun x =>
      if x.object.namespace = ns ∧ x.object.name = name then f x else x }

def next (cl : Cluster) : ClusterEvent → Cluster
  | .write manager (.deployment ns name) _ => cl.onDeployment ns name (.write manager cl.clock)
  | .write manager (.configMap ns name) version =>
    cl.onConfigMap ns name (.write manager cl.clock version)
  | .progress ns name => cl.onDeployment ns name (.progress cl.clock)
  | .wait d => { cl with clock := cl.clock + d }

def deploymentsIn (cl : Cluster) (ns : String) : List TrackedDeployment :=
  cl.deployments.filter (·.object.namespace = ns)

def configMapsIn (cl : Cluster) (ns : String) : List TrackedConfigMap :=
  cl.configMaps.filter (·.object.namespace = ns)

/-- The answer is the cluster's, or an error. -/
def Answers (cl : Cluster) : Answered Changes.iface → Prop
  | ⟨.now, at'⟩ => at' = cl.clock
  | ⟨.deployments ns, r⟩ => ∀ ds, r = Except.ok ds →
      ds = (cl.deploymentsIn ns).map TrackedDeployment.object
  | ⟨.configMaps ns, r⟩ => ∀ cms, r = Except.ok cms →
      cms = (cl.configMapsIn ns).map TrackedConfigMap.object

def serve (cl : Cluster) : (c : Changes.Call) → Changes.iface.Answer c
  | .now => cl.clock
  | .deployments ns => Except.ok ((cl.deploymentsIn ns).map TrackedDeployment.object)
  | .configMaps ns => Except.ok ((cl.configMapsIn ns).map TrackedConfigMap.object)

theorem answers_serve (cl : Cluster) (c : Changes.Call) : cl.Answers ⟨c, cl.serve c⟩ := by
  cases c with
  | now => exact rfl
  | deployments ns =>
    intro ds hds
    cases hds
    rfl
  | configMaps ns =>
    intro cms hcms
    cases hcms
    rfl

end Cluster

def patched : Actuate.Call → Option ObjectRef
  | .patch _ _ "deployments" ns name _ => some (.deployment ns name)
  | .patch _ _ "configmaps" ns name _ => some (.configMap ns name)
  | _ => none

/-- What a run of the actuator writes, as the field manager of `liveKube.Patch`. -/
def ownWrites (u : List (Answered Actuate.iface)) : List ClusterEvent :=
  (u.filter Actuate.mutates).filterMap fun a =>
    (patched a.1).map fun ref => .write "thump-actuator" ref ""

/-! ## What is reported -/

namespace KubeChangeSource

variable {k : KubeChangeSource} {cl : Cluster} {t : List (Answered Changes.iface)}

/-- The changes that the source sees in the namespaces. -/
def eventsIn (k : KubeChangeSource) (cl : Cluster) (namespaces : List String) :
    List ChangeEvent :=
  namespaces.flatMap fun ns =>
    (cl.deploymentsIn ns).flatMap (fun d => k.deployEvents cl.clock d.object) ++
      (cl.configMapsIn ns).filterMap fun cm => k.configEvent cl.clock cm.object

theorem exits_collect : ∀ {namespaces : List String} {t : List (Answered Changes.iface)}
    {events : List ChangeEvent}, (k.collect cl.clock namespaces).Exits t (.ok events) →
      (∀ a ∈ t, cl.Answers a) → events = k.eventsIn cl namespaces
  | [], t, events, h, _ => by
    obtain ⟨-, heq⟩ := exits_ret.mp h
    cases heq
    rfl
  | ns :: rest, t, events, h, ht => by
    obtain ⟨deployments, t₁, rfl, h₁⟩ := exits_ask_bind.mp h
    obtain ⟨ds, rfl, h₁⟩ := exits_orFail_ok h₁
    obtain ⟨configMaps, t₂, rfl, h₂⟩ := exits_ask_bind.mp h₁
    obtain ⟨cms, rfl, h₂⟩ := exits_orFail_ok h₂
    obtain ⟨events', hu, rfl⟩ := exits_bind_ret h₂
    obtain ⟨hds, hcms, hrest⟩ : ds = _ ∧ cms = _ ∧ ∀ a ∈ t₂, cl.Answers a := by
      refine ⟨ht _ (.head _) ds rfl, ht _ (.tail _ (.head _)) cms rfl, fun a ha => ?_⟩
      exact ht a (.tail _ (.tail _ ha))
    rw [exits_collect hu hrest, hds, hcms, flatMap_map, filterMap_map]
    rfl

theorem exits_changes {snapshot : ChangeSnapshot} (h : k.changes.Exits t (.ok snapshot))
    (ht : ∀ a ∈ t, cl.Answers a) : snapshot.events = k.eventsIn cl k.namespaces := by
  obtain ⟨now, t₁, rfl, h₁⟩ := exits_ask_bind.mp h
  have hnow : now = cl.clock := ht _ (.head _)
  subst hnow
  by_cases hns : k.namespaces = []
  · rw [if_pos hns] at h₁
    obtain ⟨-, heq⟩ := exits_ret.mp h₁
    cases heq
    rw [hns]
    rfl
  · rw [if_neg hns] at h₁
    obtain ⟨events, hu, rfl⟩ := exits_bind_ret h₁
    exact exits_collect hu fun a ha => ht a (.tail _ ha)

/-- In the lookback, only managers that are ignored wrote. -/
def SelfWritten (k : KubeChangeSource) (now : Time) (writes : List Write) : Prop :=
  ∀ w ∈ writes, k.Recent now w.time → w.manager ∈ k.ignored

theorem laterField_cases (k : KubeChangeSource) (maxTime : Time) (mf : ManagedFieldsEntry) :
    k.laterField maxTime mf = maxTime ∨
      (mf.manager ∉ k.ignored ∧ mf.time = some (k.laterField maxTime mf)) := by
  unfold laterField
  cases mf.time with
  | none => exact .inl rfl
  | some at' =>
    dsimp only
    split
    · exact .inl rfl
    · rename_i hskip
      split
      · exact .inr ⟨fun hm => hskip (.inl hm), rfl⟩
      · exact .inl rfl

instance (k : KubeChangeSource) (now : Time) (writes : List Write) :
    Decidable (k.SelfWritten now writes) :=
  inferInstanceAs (Decidable (∀ w ∈ writes, k.Recent now w.time → w.manager ∈ k.ignored))

theorem lastWrite_mem (k : KubeChangeSource) (cm : ConfigMap) : (k.lastWrite cm).isZero = true ∨
      ∃ mf ∈ cm.managedFields, mf.manager ∉ k.ignored ∧ mf.time = some (k.lastWrite cm) := by
  unfold lastWrite
  -- the loop keeps the time it has, or takes that of the field it is at
  have hloop (fields : List ManagedFieldsEntry) (maxTime : Time) :
      fields.foldl k.laterField maxTime = maxTime ∨ ∃ mf ∈ fields, mf.manager ∉ k.ignored ∧
          mf.time = some (fields.foldl k.laterField maxTime) := by
    induction fields generalizing maxTime with
    | nil => exact .inl rfl
    | cons mf fields ih =>
      rw [foldl_cons]
      rcases ih (k.laterField maxTime mf) with hsame | ⟨mf', hmf', hfield⟩
      · rw [hsame]
        rcases k.laterField_cases maxTime mf with hkeep | hnew
        · exact .inl hkeep
        · exact .inr ⟨mf, mem_cons_self, hnew⟩
      · exact .inr ⟨mf', mem_cons_of_mem _ hmf', hfield⟩
  rcases hloop cm.managedFields Time.zero with hzero | hfield
  · exact .inl (by rw [hzero]; rfl)
  · exact .inr hfield

theorem configEvent_of_selfWritten {x : TrackedConfigMap} {now : Time}
    (h : k.SelfWritten now x.writes) : k.configEvent now x.object = none := by
  unfold configEvent
  split
  · rfl
  · rename_i hset
    split
    · rfl
    · rename_i hrecent
      obtain ⟨mf, hmf, hforeign, htime⟩ := (k.lastWrite_mem x.object).resolve_left hset
      exact absurd (h _ (x.recorded mf hmf _ htime) (not_not.mp hrecent)) hforeign

/-- The rollout of the deployment progressed in the lookback. -/
def Progressed (k : KubeChangeSource) (now : Time) (d : Deployment) : Prop :=
  ∃ cond ∈ d.conditions, cond.type = .progressing ∧ cond.lastUpdateTime.isZero = false ∧
    k.Recent now cond.lastUpdateTime

theorem deployEvents_eq_nil_iff {now : Time} {d : Deployment} :
    k.deployEvents now d = [] ↔ ¬ k.Progressed now d ∨ k.deploymentSubject d = "" := by
  have hevent (cond : DeploymentCondition) : k.deployEvent now d cond = none ↔
      ¬ (cond.type = .progressing ∧ cond.lastUpdateTime.isZero = false ∧
        k.Recent now cond.lastUpdateTime) ∨ k.deploymentSubject d = "" := by
    unfold deployEvent
    by_cases htype : cond.type = .progressing <;>
      cases hzero : cond.lastUpdateTime.isZero <;>
      by_cases hrecent : k.Recent now cond.lastUpdateTime <;>
      by_cases hsubject : k.deploymentSubject d = "" <;> simp [htype, hrecent, hsubject]
  rw [deployEvents, filterMap_eq_nil_iff]
  simp only [hevent, Progressed, not_exists, not_and]
  by_cases hsubject : k.deploymentSubject d = ""
  · simp [hsubject]
  · simp [hsubject]

/-- Nothing that only ignored managers wrote to is reported. -/
structure Unreported (k : KubeChangeSource) (cl : Cluster) : Prop where
  deployments : ∀ d ∈ cl.deployments, d.object.namespace ∈ k.namespaces →
    k.SelfWritten cl.clock d.writes → k.deployEvents cl.clock d.object = []
  configMaps : ∀ cm ∈ cl.configMaps, cm.object.namespace ∈ k.namespaces →
    k.SelfWritten cl.clock cm.writes → k.configEvent cl.clock cm.object = none

/-- Of every cluster and every call that returns a snapshot: the snapshot is the events of the
objects in the namespaces of the rules, and nothing that only ignored managers wrote to has one
exactly if no such deployment with a subject progressed in the lookback. -/
theorem unreported_iff (k : KubeChangeSource) (cl : Cluster) {snapshot : ChangeSnapshot}
    (h : k.changes.Exits t (.ok snapshot)) (ht : ∀ a ∈ t, cl.Answers a) :
    snapshot.events = k.eventsIn cl k.namespaces ∧
    (k.Unreported cl ↔ ∀ d ∈ cl.deployments, d.object.namespace ∈ k.namespaces →
      k.SelfWritten cl.clock d.writes →
        ¬ k.Progressed cl.clock d.object ∨ k.deploymentSubject d.object = "") := by
  refine ⟨exits_changes h ht, fun hun d hd hns hself => ?_, fun hcond => ⟨?_, ?_⟩⟩
  · exact deployEvents_eq_nil_iff.mp (hun.deployments d hd hns hself)
  · exact fun d hd hns hself => deployEvents_eq_nil_iff.mpr (hcond d hd hns hself)
  · exact fun cm _ _ hself => configEvent_of_selfWritten hself

def shopSource : KubeChangeSource where
  subjects :=
    [{ «namespace» := "shop", kind := "Deployment", name := "checkout", subject := "checkout" },
      { «namespace» := "shop", kind := "ConfigMap", name := "flags", subject := "flagd" }]

def shopCluster : Cluster where
  clock := 0
  deployments :=
    [{ object := { «namespace» := "shop", name := "checkout", generation := 1 }, writes := []
       recorded := nofun }]
  configMaps :=
    [{ object := { «namespace» := "shop", name := "flags" }, writes := [], recorded := nofun }]

def snapshotOf (k : KubeChangeSource) (cl : Cluster) :
    Except String ChangeSnapshot × List (Answered Changes.iface) :=
  Prog.play (fun _ c => (cl.serve c, ())) () k.changes

def flippedCluster : Cluster :=
  (shopCluster.next (.write "thump-actuator" (.configMap "shop" "flags") "2")).next (.wait 1)

/-- It is not reported. -/
theorem ownFlip_unreported : shopSource.Unreported flippedCluster ∧
    (snapshotOf shopSource flippedCluster).1 = .ok {} := by
  have hexits := exits_play (fun _ c => (flippedCluster.serve c, ())) shopSource.changes ()
  have hsnap : (snapshotOf shopSource flippedCluster).1 = .ok {} := by decide +kernel
  refine ⟨(unreported_iff shopSource flippedCluster (hsnap ▸ hexits) ?_).2.mpr ?_, hsnap⟩
  · rintro ⟨c, r⟩ ha
    rw [eq_of_mem_play ha]
    exact flippedCluster.answers_serve c
  · intro d hd _ _
    refine .inl ?_
    rintro ⟨cond, hcond, -⟩
    cases mem_singleton.mp hd
    cases hcond

/-- A cluster that takes what it is given. -/
def accepting : (c : Actuate.Call) → Actuate.iface.Answer c
  | .exec _ _ _ => Except.ok ()
  | .patch _ _ _ _ _ _ => Except.ok ()
  | .getConfigMapKey _ _ _ => Except.ok ""
  | .read _ => Except.ok ""
  | .cut _ => Except.ok ""
  | .now => (0 : Int)

/-- The calls of the actuator that scales the deployment. -/
def scaling : List (Answered Actuate.iface) :=
  (Prog.play (fun _ c => (accepting c, ())) ()
    ((Actuate.Mechanism.scale "shop" "checkout" 1).run
      { setDefaultVariant := fun doc _ _ => .ok doc })).2

/-- The actuator scales the deployment, and its rollout progresses. -/
def scaledCluster : Cluster :=
  let rollout : List ClusterEvent := [.wait 1, .progress "shop" "checkout", .wait 1]
  (ownWrites scaling ++ rollout).foldl Cluster.next shopCluster

/-- The progress of its own scaling is reported as a change. -/
theorem ownScaling_reported :
    (∀ d ∈ scaledCluster.deployments,
      d.writes.map Write.manager = ["thump-actuator", "thump-actuator"] ∧
      shopSource.SelfWritten scaledCluster.clock d.writes) ∧
    (snapshotOf shopSource scaledCluster).1 = .ok { events :=
      [{ id := "deploy/shop/checkout/2", type := "deploy", target := "checkout", age := 1
         historicalStaleness := 1 }] } ∧
    ¬ shopSource.Unreported scaledCluster := by
  have hself : ∀ d ∈ scaledCluster.deployments,
      d.writes.map Write.manager = ["thump-actuator", "thump-actuator"] ∧
      shopSource.SelfWritten scaledCluster.clock d.writes := by decide +kernel
  refine ⟨hself, by decide +kernel, fun h => ?_⟩
  obtain ⟨d, hd, hns, hevents⟩ : ∃ d ∈ scaledCluster.deployments,
      d.object.namespace ∈ shopSource.namespaces ∧
        shopSource.deployEvents scaledCluster.clock d.object ≠ [] := by decide +kernel
  exact hevents (h.deployments d hd hns (hself d hd).2)

end KubeChangeSource

end Beats.Evidence
