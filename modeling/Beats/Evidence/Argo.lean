import Mathlib.Data.Int.ConditionallyCompleteOrder
import Mathlib.Order.Monotone.Basic
import Beats.Clank.Causal
import Beats.Evidence.Changes

/-!
# The syncs of ArgoCD

`ArgoChangeSource` of `internal/evidence`: the recent syncs of the Applications as change events,
one for each topology node that a sync touched.  The clock is read once for each Application.

Both change sources drop what is older than the lookback.  Only the source of the cluster drops what
lies ahead of the clock (`sane_iff`).  The scorer trusts the ages: a sync that finishes ahead of a
slow clock is more recent than one that finishes now (`skewedSync_insane`).

How a time is parsed is a parameter.
-/

namespace Beats.Evidence

open Lib Proposal Clank List Prog

/-! ## Applications -/

/-- An entry of the inventory of an Application. -/
structure ManagedResource where
  name : String := ""
  kind : String := ""
  «namespace» : String := ""

/-- An ArgoCD Application, as far as it is read.  A field that is missing or of another type reads
as its zero value, and an entry of the inventory that is no map is `none`. -/
structure Application where
  name : String := ""
  phase : String := ""
  finishedAt : String := ""
  automated : Bool := false
  revision : String := ""
  resources : List (Option ManagedResource) := []

structure ArgoChangeSource where
  subjects : SubjectIndex := []
  changeLookback : Duration := 0

namespace Argo

inductive Call where
  | now
  /-- The list of Applications of all namespaces. -/
  | applications

def iface : Iface where
  Call := Call
  Answer
    | .now => Time
    | .applications => Except String (List Application)

end Argo

/-! ## The source -/

/-- The subject of an entry of the inventory. -/
def resourceSubject (idx : SubjectIndex) (r : ManagedResource) : String :=
  idx.for { «namespace» := r.namespace, kind := r.kind, name := r.name }

/-- The loop of `managedSubjects`, with the names so far, which are those it has seen. -/
def managedSubjectsFrom (idx : SubjectIndex) :
    List String → List (Option ManagedResource) → List String
  | names, [] => names
  | names, none :: rest => managedSubjectsFrom idx names rest
  | names, some r :: rest =>
    if resourceSubject idx r = "" ∨ resourceSubject idx r ∈ names then
      managedSubjectsFrom idx names rest
    else managedSubjectsFrom idx (names ++ [resourceSubject idx r]) rest

def managedSubjects (app : Application) (idx : SubjectIndex) : List String :=
  managedSubjectsFrom idx [] app.resources

/-- The targets of the events of an Application.  Without a managed subject it names itself. -/
def syncTargets (app : Application) (idx : SubjectIndex) : List String :=
  let targets := managedSubjects app idx
  if targets = [] then [app.name] else targets

variable {now : Time} {snapshot : ChangeSnapshot}

section

variable (rfc3339 : String → Option Time)

def appEvents (app : Application) (now : Time) (lookback : Duration) (idx : SubjectIndex) :
    List ChangeEvent :=
  if app.phase ≠ "Succeeded" then []
  else
    match rfc3339 app.finishedAt with
    | none => []
    | some finishedAt =>
      let age := now.sub finishedAt
      if age > lookback then []
      else
        (syncTargets app idx).map fun target =>
          { id := app.revision
            type := if app.automated then "rollback" else "deploy"
            target := target
            age := age
            historicalStaleness := age }

namespace ArgoChangeSource

def lookback (a : ArgoChangeSource) : Duration :=
  if a.changeLookback ≤ 0 then defaultChangeLookback else a.changeLookback

/-- The changes of the applications, each at its own reading. -/
def collect (a : ArgoChangeSource) : List Application → Prog Argo.iface String (List ChangeEvent)
  | [] => return []
  | app :: rest => do
    let now ← @Prog.ask Argo.iface String .now
    let events ← a.collect rest
    return appEvents rfc3339 app now a.lookback a.subjects ++ events

/-- The applications are listed and their changes collected. -/
def changes (a : ArgoChangeSource) : Prog Argo.iface String ChangeSnapshot := do
  let apps ← Prog.orFail (fun err => "list argocd applications: " ++ err)
    (← @Prog.ask Argo.iface String .applications)
  let events ← a.collect rfc3339 apps
  return { events := events }

end ArgoChangeSource

/-! ## Ages -/

/-- A recency function: one at the age zero, and never larger for what is older. -/
structure Recency (decay : Decay) (halflife : Duration) : Prop where
  fresh : decay 0 halflife = 1
  antitone : Antitone fun age => decay age halflife

/-- The ages are in the lookback, and no recency function puts the temporal component of a score
above one. -/
structure Sane (lookback : Duration) (snapshot : ChangeSnapshot) : Prop where
  ages : ∀ e ∈ snapshot.events, 0 ≤ e.age ∧ e.age ≤ lookback
  temporal : ∀ (decay : Decay) (fingerprint : String) (topo : TopologySnapshot) (w : CausalWeights)
    (prior : Prior), Recency decay w.recencyHalfLife →
      ∀ s ∈ score decay fingerprint snapshot topo w prior, s.temporal ≤ 1

/-- The sync succeeded and is dated after the reading of the clock. -/
def Ahead (app : Application) (now : Time) : Prop :=
  app.phase = "Succeeded" ∧ ∃ finishedAt, rfc3339 app.finishedAt = some finishedAt ∧
    now < finishedAt

/-- The reading of the clock, where the call was one. -/
def reading : Answered Argo.iface → Option Time
  | ⟨.now, at'⟩ => some at'
  | ⟨.applications, _⟩ => none

/-- The Applications that a run listed, each with its reading of the clock. -/
def dated : List (Answered Argo.iface) → List (Application × Time)
  | ⟨.applications, .ok apps⟩ :: rest => apps.zip (rest.filterMap reading)
  | _ => []

variable {rfc3339}

variable {lookback : Duration} {app : Application}

theorem Sane.of_ages (h : ∀ e ∈ snapshot.events, 0 ≤ e.age ∧ e.age ≤ lookback) :
    Sane lookback snapshot where
  ages := h
  temporal := by
    intro decay fingerprint topo w prior hrec s hs
    obtain ⟨e, he, rfl⟩ := mem_map.mp hs
    calc decay e.age w.recencyHalfLife
      _ ≤ decay 0 w.recencyHalfLife := hrec.antitone (h e he).1
      _ = 1 := hrec.fresh

theorem syncTargets_ne_nil (app : Application) (idx : SubjectIndex) : syncTargets app idx ≠ [] := by
  unfold syncTargets
  intro h
  simp only at h
  split at h
  next => cases h
  next hne => exact hne h

/-- The events of an Application are there if its sync succeeded, is dated and is not too old, and
they have its age. -/
theorem mem_appEvents {idx : SubjectIndex} {age : Duration} :
    (∃ e ∈ appEvents rfc3339 app now lookback idx, e.age = age) ↔
      app.phase = "Succeeded" ∧ ∃ finishedAt, rfc3339 app.finishedAt = some finishedAt ∧
        age = now.sub finishedAt ∧ age ≤ lookback := by
  unfold appEvents
  by_cases hphase : app.phase = "Succeeded"
  · rw [if_neg (not_not.mpr hphase)]
    cases hfin : rfc3339 app.finishedAt with
    | none => simp
    | some finishedAt =>
      by_cases hold : now.sub finishedAt > lookback
      · simp only [if_pos hold, not_mem_nil, false_and, exists_false, hphase, true_and,
          Option.some.injEq, exists_eq_left', false_iff, not_and]
        rintro rfl
        exact not_le.mpr hold
      · obtain ⟨target, htarget⟩ := exists_mem_of_ne_nil _ (syncTargets_ne_nil app idx)
        simp only [if_neg hold, mem_map, hphase, true_and, Option.some.injEq, exists_eq_left']
        constructor
        · rintro ⟨e, ⟨target', -, rfl⟩, rfl⟩
          exact ⟨rfl, not_lt.mp hold⟩
        · rintro ⟨rfl, -⟩
          exact ⟨_, ⟨target, htarget, rfl⟩, rfl⟩
  · simp [hphase]

namespace ArgoChangeSource

variable {a : ArgoChangeSource}

theorem lookback_pos (a : ArgoChangeSource) : 0 < a.lookback := by
  unfold lookback
  split
  next => decide
  next hset => exact not_le.mp hset

/-- The ages of an Application's events are in range unless its sync is ahead of the clock. -/
theorem ages_appEvents_iff :
    (∀ e ∈ appEvents rfc3339 app now a.lookback a.subjects, 0 ≤ e.age ∧ e.age ≤ a.lookback) ↔
      ¬ Ahead rfc3339 app now := by
  constructor
  · rintro h ⟨hphase, finishedAt, hfin, hahead⟩
    have hneg : now.sub finishedAt < 0 := not_le.mp (mt Time.sub_nonneg.mp (not_le.mpr hahead))
    obtain ⟨e, he, hage⟩ := mem_appEvents.mpr
      ⟨hphase, finishedAt, hfin, rfl, hneg.le.trans a.lookback_pos.le⟩
    exact absurd (h e he).1 (hage ▸ not_le.mpr hneg)
  · intro hno e he
    obtain ⟨hphase, finishedAt, hfin, hage, hle⟩ := mem_appEvents.mp ⟨e, he, rfl⟩
    refine ⟨hage ▸ Time.sub_nonneg.mpr ?_, hle⟩
    exact not_lt.mp fun hahead => hno ⟨hphase, finishedAt, hfin, hahead⟩

theorem exits_collect : ∀ {apps : List Application} {t : List (Answered Argo.iface)}
    {events : List ChangeEvent}, (a.collect rfc3339 apps).Exits t (.ok events) →
      events = (apps.zip (t.filterMap reading)).flatMap fun p =>
        appEvents rfc3339 p.1 p.2 a.lookback a.subjects
  | [], t, events, h => by
    obtain ⟨-, heq⟩ := exits_ret.mp h
    cases heq
    rfl
  | app :: rest, t, events, h => by
    obtain ⟨now, t₁, rfl, h₁⟩ := exits_ask_bind.mp h
    obtain ⟨events', hu, rfl⟩ := exits_bind_ret h₁
    rw [exits_collect hu]
    rfl

/-- What a run returns is the events of the Applications, each at its reading of the clock. -/
theorem exits_changes {t : List (Answered Argo.iface)}
    (h : (a.changes rfc3339).Exits t (.ok snapshot)) : snapshot.events =
      (dated t).flatMap fun p => appEvents rfc3339 p.1 p.2 a.lookback a.subjects := by
  obtain ⟨apps, t₁, rfl, h₁⟩ := exits_ask_bind.mp h
  obtain ⟨apps, rfl, h₂⟩ := exits_orFail_ok h₁
  obtain ⟨events, hu, rfl⟩ := exits_bind_ret h₂
  exact exits_collect hu

end ArgoChangeSource

end

namespace KubeChangeSource

variable {k : KubeChangeSource}

theorem age_of_deployEvent {d : Deployment} {cond : DeploymentCondition} {e : ChangeEvent}
    (h : k.deployEvent now d cond = some e) : 0 ≤ e.age ∧ e.age ≤ k.lookback := by
  unfold deployEvent at h
  split at h
  · cases h
  · split at h
    · cases h
    · next hrecent =>
      split at h
      · cases h
      · cases h
        exact not_not.mp hrecent

theorem age_of_configEvent {cm : ConfigMap} {e : ChangeEvent} (h : k.configEvent now cm = some e) :
    0 ≤ e.age ∧ e.age ≤ k.lookback := by
  unfold configEvent at h
  split at h
  · cases h
  · split at h
    · cases h
    · next hrecent =>
      split at h
      · cases h
      · cases h
        exact not_not.mp hrecent

theorem ages_collect : ∀ {namespaces : List String}
    {t : List (Answered Changes.iface)} {events : List ChangeEvent},
    (k.collect now namespaces).Exits t (.ok events) → ∀ e ∈ events, 0 ≤ e.age ∧ e.age ≤ k.lookback
  | [], t, events, h => by
    obtain ⟨-, heq⟩ := exits_ret.mp h
    cases heq
    simp
  | ns :: rest, t, events, h => by
    obtain ⟨deployments, t₁, rfl, h₁⟩ := exits_ask_bind.mp h
    obtain ⟨ds, rfl, h₁⟩ := exits_orFail_ok h₁
    obtain ⟨configMaps, t₂, rfl, h₂⟩ := exits_ask_bind.mp h₁
    obtain ⟨cms, rfl, h₂⟩ := exits_orFail_ok h₂
    obtain ⟨events', hu, rfl⟩ := exits_bind_ret h₂
    intro e he
    rcases mem_append.mp he with he | he
    · rcases mem_append.mp he with he | he
      · obtain ⟨d, -, he⟩ := mem_flatMap.mp he
        obtain ⟨cond, -, he⟩ := mem_filterMap.mp he
        exact age_of_deployEvent he
      · obtain ⟨cm, -, he⟩ := mem_filterMap.mp he
        exact age_of_configEvent he
    · exact ages_collect hu e he

theorem ages_changes {t : List (Answered Changes.iface)} (h : k.changes.Exits t (.ok snapshot)) :
    ∀ e ∈ snapshot.events, 0 ≤ e.age ∧ e.age ≤ k.lookback := by
  obtain ⟨now, t₁, rfl, h₁⟩ := exits_ask_bind.mp h
  by_cases hns : k.namespaces = []
  · rw [if_pos hns] at h₁
    obtain ⟨-, heq⟩ := exits_ret.mp h₁
    cases heq
    simp
  · rw [if_neg hns] at h₁
    obtain ⟨events, hu, rfl⟩ := exits_bind_ret h₁
    exact ages_collect hu

end KubeChangeSource

/-- What the two sources return is sane exactly if no Application finished its sync after the
reading of the clock that it is dated by. -/
theorem sane_iff (rfc3339 : String → Option Time) (k : KubeChangeSource) (a : ArgoChangeSource)
    {t : List (Answered Changes.iface)} {u : List (Answered Argo.iface)}
    {rollouts syncs : ChangeSnapshot} (hk : k.changes.Exits t (.ok rollouts))
    (ha : (a.changes rfc3339).Exits u (.ok syncs)) :
    Sane k.lookback rollouts ∧ Sane a.lookback syncs ↔
      ∀ p ∈ dated u, ¬ Ahead rfc3339 p.1 p.2 := by
  have hages : (∀ e ∈ syncs.events, 0 ≤ e.age ∧ e.age ≤ a.lookback) ↔
      ∀ p ∈ dated u, ¬ Ahead rfc3339 p.1 p.2 := by
    rw [ArgoChangeSource.exits_changes ha]
    simp only [forall_mem_flatMap, ArgoChangeSource.ages_appEvents_iff]
  constructor
  · rintro ⟨-, hsane⟩
    exact hages.mp hsane.ages
  · intro hno
    exact ⟨.of_ages (KubeChangeSource.ages_changes hk), .of_ages (hages.mpr hno)⟩

/-- The first second of the epoch, the only time that is parsed. -/
def firstSecond (s : String) : Option Time :=
  if s = "1970-01-01T00:00:01Z" then some 1000000000 else none

def syncedApp : Application where
  name := "shop"
  phase := "Succeeded"
  finishedAt := "1970-01-01T00:00:01Z"
  revision := "abc123"

/-- The answers of a cluster with the Application, at a reading of the clock. -/
def syncServe (now : Time) : (c : Argo.Call) → Argo.iface.Answer c
  | .now => now
  | .applications => Except.ok [syncedApp]

/-- A run that reads the clock so. -/
def syncsAt (now : Time) : Except String ChangeSnapshot × List (Answered Argo.iface) :=
  Prog.play (fun _ c => (syncServe now c, ())) () (ArgoChangeSource.changes firstSecond {})

def syncOf (age : Duration) : ChangeSnapshot where
  events :=
    [{ id := "abc123", type := "deploy", target := "shop", age := age, historicalStaleness := age }]

/-- The clock is read a second after the sync, and what the two sources return is sane. -/
theorem syncedApp_sane : (syncsAt 2000000000).1 = .ok (syncOf 1000000000) ∧
    ∃ rollouts : ChangeSnapshot,
      (KubeChangeSource.snapshotOf KubeChangeSource.shopSource KubeChangeSource.scaledCluster).1 =
        .ok rollouts ∧
      Sane KubeChangeSource.shopSource.lookback rollouts ∧
      Sane (ArgoChangeSource.lookback {}) (syncOf 1000000000) := by
  have hsyncs : (syncsAt 2000000000).1 = .ok (syncOf 1000000000) := by decide +kernel
  obtain ⟨rollouts, hrollouts⟩ : ∃ rollouts, (KubeChangeSource.snapshotOf
      KubeChangeSource.shopSource KubeChangeSource.scaledCluster).1 = .ok rollouts := ⟨_, rfl⟩
  have hk := exits_play (fun _ c => (KubeChangeSource.scaledCluster.serve c, ()))
    KubeChangeSource.shopSource.changes ()
  have ha := exits_play (fun _ c => (syncServe 2000000000 c, ()))
    (ArgoChangeSource.changes firstSecond {}) ()
  refine ⟨hsyncs, rollouts, hrollouts,
    (sane_iff firstSecond KubeChangeSource.shopSource {} (hrollouts ▸ hk) (hsyncs ▸ ha)).mpr ?_⟩
  rintro p hp ⟨-, finishedAt, hfin, hahead⟩
  obtain rfl : p = (syncedApp, 2000000000) := mem_singleton.mp hp
  cases hfin
  exact absurd hahead (by decide)

/-- A recency function that falls by one in a nanosecond. -/
def linearDecay : Decay := fun age _ => 1 - age

theorem recency_linearDecay (halflife : Duration) : Recency linearDecay halflife where
  fresh := by simp [linearDecay]
  antitone := fun _ _ h => sub_le_sub_left (Int.cast_le.mpr h) 1

/-- The clock is a second slow.  The sync is reported with an age below zero, and its temporal
component is above one. -/
theorem skewedSync_insane : (syncsAt 0).1 = .ok (syncOf (-1000000000)) ∧
    Recency linearDecay 0 ∧
    (score linearDecay "checkout" (syncOf (-1000000000)) {} {} none).map CausalScore.temporal =
      [1000000001] ∧
    ¬ Sane (ArgoChangeSource.lookback {}) (syncOf (-1000000000)) := by
  refine ⟨by decide +kernel, recency_linearDecay 0, by decide +kernel, fun h => ?_⟩
  exact absurd (h.ages _ mem_cons_self).1 (by decide)

end Beats.Evidence
