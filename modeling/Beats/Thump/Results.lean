import Beats.Thump.Live

/-!
# What a run reports

`resultOf` of `internal/actuate`: a maintenance release leaves its change for review and reports
that it was proposed, every other mechanism changes the cluster and reports that it was applied, and
a sequence reports what its last step does.  `Transport.handle` starts the convergence watch on the
word `applied` (`run_reports_last`).

A run that changed the cluster before it cut its release is proposed, and not watched
(`scaledRelease_proposed`).
-/

namespace Beats.Actuate

open Lib Contract Mechanism

/-- The last step is a release. -/
def ReleaseLast (steps : List Step) : Prop :=
  ∃ s, steps.getLast? = some s ∧ s.verb = "maintenanceRelease"

section

variable {s : Step} {m : Mechanism} {forgeWired : Bool} {steps : List Step} {op : Operation}
  {d : Dispatch} {u : List (Answered iface)}

theorem direct_of_mechanismFor (h : mechanismFor s forgeWired = .ok m) :
    m.direct = true ↔ s.verb ≠ "maintenanceRelease" := by
  cases names_of_mechanismFor h with
  | exec hv => simp [direct, hv]
  | scale hv _ => simp [direct, hv]
  | restart hv => simp [direct, hv]
  | flagVariant hv => simp [direct, hv]
  | maintenanceRelease hv => simp [direct, hv]

theorem Mechanism.result_eq (m : Mechanism) :
    m.result = if m.direct then .applied else .proposed := by
  cases m <;> rfl

theorem resultOf_eq {before : List Mechanism} (h : op.mechanisms = before ++ [m]) :
    resultOf op = m.result := by
  cases op with
  | one m' =>
    cases before with
    | nil =>
      cases h
      rfl
    | cons _ before =>
      obtain ⟨-, hnil⟩ := List.cons.inj h
      exact absurd hnil (by simp)
  | seq ms =>
    change ms = before ++ [m] at h
    rw [resultOf, h, List.getLast?_concat, Option.map_some, Option.getD_some]

/-- An operation that succeeded changed the cluster exactly if one of its mechanisms does so. -/
theorem mutates_of_exits_ok (h : (op.run d).Exits u (.ok ())) :
    u.any mutates = op.mechanisms.any direct := by
  cases op with
  | one m =>
    rw [Operation.mechanisms, List.any_cons, List.any_nil, Bool.or_false]
    exact (did_of_exits h).direct rfl
  | seq ms => exact exits_doAll_ok h

theorem exists_last_of_forall₂ {α β : Type} {R : α → β → Prop} {as : List α} {bs : List β}
    (h : List.Forall₂ R as bs) (hne : as ≠ []) :
    ∃ a before b, as.getLast? = some a ∧ bs = before ++ [b] ∧ R a b := by
  induction h with
  | nil => exact absurd rfl hne
  | @cons a b as bs hab htail ih =>
    cases as with
    | nil =>
      cases htail
      exact ⟨a, [], b, rfl, rfl, hab⟩
    | cons a' as =>
      obtain ⟨last, before, b', hlast, rfl, hlastR⟩ := ih (List.cons_ne_nil _ _)
      exact ⟨last, b :: before, b', hlast, rfl, hlastR⟩

/-- What a list of steps that binds reports, and whether its last mechanism changes the cluster. -/
theorem opFor_last (h : opFor steps forgeWired = .ok op) :
    ∃ before m, op.mechanisms = before ++ [m] ∧ (m.direct = true ↔ ¬ ReleaseLast steps) := by
  obtain ⟨hne, hall⟩ := opFor_forall₂ h
  obtain ⟨s, before, m, hlast, hms, hm⟩ := exists_last_of_forall₂ hall hne
  refine ⟨before, m, hms, (direct_of_mechanismFor hm).trans (not_congr ?_)⟩
  constructor
  · intro hv
    exact ⟨s, hlast, hv⟩
  · rintro ⟨s', hlast', hv⟩
    cases hlast.symm.trans hlast'
    exact hv

end

end Beats.Actuate

namespace Beats.Thump

open Lib Actuate Contract Transport

/-- Of every list of steps that binds: a run of it that succeeds is proposed exactly if the last
step is a maintenance release, and applied otherwise.  So it is proposed exactly if all steps are
releases only where the last is none or all are.  A run that was applied changed the cluster, and
the transport that executes it live starts the convergence watch. -/
theorem run_reports_last {steps : List Step} {forgeWired : Bool} {op : Operation}
    (hop : opFor steps forgeWired = .ok op) {r : Runner} {b : Binding} {o : Order}
    (hb : r.bindings.lookup o.contractRef = some b) (hdir : b.op (o.kind == .reversal) = op)
    {u : List (Answered Actuate.iface)} {res : Outcome.Result}
    (h : (r.run o.contractRef (o.kind == .reversal) o.notes).Exits u (.ok res)) :
    (res = .proposed ↔ ReleaseLast steps) ∧ (res = .applied ↔ ¬ ReleaseLast steps) ∧
    ((res = .proposed ↔ ∀ s ∈ steps, s.verb = "maintenanceRelease") ↔
      (¬ ReleaseLast steps ∨ ∀ s ∈ steps, s.verb = "maintenanceRelease")) ∧
    (¬ ReleaseLast steps → u.any mutates = true ∧
      ∀ (tr : Transport) g t out at', tr.reversal = true → (tr.handle g).Exits t out →
        (⟨.execute o at', liveReport o at' (.ok res)⟩ : Answered iface) ∈ t →
        (⟨.go (.settle o), ()⟩ : Answered iface) ∈ t) := by
  obtain ⟨before, m, hms, hdirect⟩ := opFor_last hop
  have hall : (∀ s ∈ steps, s.verb = "maintenanceRelease") → ReleaseLast steps := fun hall =>
    have hne := (opFor_forall₂ hop).1
    ⟨steps.getLast hne, List.getLast?_eq_some_getLast hne, hall _ (List.getLast_mem hne)⟩
  rcases exits_run hb h with ⟨hrun, hres⟩ | ⟨err, -, hres⟩
  · rw [hdir] at hrun hres
    cases hres
    have hreport : resultOf op = if m.direct then .applied else .proposed :=
      (resultOf_eq hms).trans m.result_eq
    by_cases hlast : ReleaseLast steps
    · have hm : m.direct = false := by
        rw [← Bool.not_eq_true]
        exact mt hdirect.mp (not_not.mpr hlast)
      rw [hm] at hreport
      rw [hreport]
      exact ⟨iff_of_true rfl hlast, iff_of_false nofun (not_not.mpr hlast), by simp [hlast],
        fun h => absurd hlast h⟩
    · have hm : m.direct = true := hdirect.mpr hlast
      rw [hm] at hreport
      rw [hreport]
      refine ⟨iff_of_false nofun hlast, iff_of_true rfl hlast,
        iff_of_true (iff_of_false nofun (mt hall hlast)) (.inl hlast), fun _ => ⟨?_, ?_⟩⟩
      · rw [mutates_of_exits_ok hrun, hms, List.any_append, List.any_cons, hm, Bool.true_or,
          Bool.or_true]
      · intro tr g t out at' htr hhandle hexec
        obtain ⟨_, rest, -, rfl, -, hwatch⟩ := handle_executes hhandle hexec
        have hsettle := hwatch (.settle o) (by simp [watchFor, liveReport, liveOutcome, htr])
        exact List.mem_cons_of_mem _ (List.mem_cons_of_mem _ (List.mem_cons_of_mem _ hsettle))
  · cases hres

def scaleStep : Step where
  verb := "scale"
  «namespace» := "shop"
  deployment := "checkout"
  replicas := some 1

def releaseStep : Step where
  verb := "maintenanceRelease"
  path := "flags.json"
  flag := "throttle"
  variant := "on"

/-- A throttle that scales down and then asks for a review of the flag, or the other way round. -/
def reviewedThrottle (releaseLast : Bool) : ActionContract where
  name := "throttle"
  execution :=
    { forward := if releaseLast then [scaleStep, releaseStep] else [releaseStep, scaleStep]
      reverse := [scaleStep] }

def reviewedRunner (releaseLast : Bool) : Runner where
  bindings := ((Actuate.bind true [reviewedThrottle releaseLast]).toOption).getD []
  forgeWired := true
  setDefaultVariant doc _ _ := .ok doc

def reviewedOrder (releaseLast : Bool) : Order :=
  orderOf throttleApproval.decision throttleApproval.set { id := "c1", contractRef := "throttle" }
    (reviewedThrottle releaseLast) 0

/-- The run of its forward steps, in which nothing fails. -/
def reviewedRun (releaseLast : Bool) :
    Except String Outcome.Result × List (Answered Actuate.iface) :=
  Prog.play (fun _ c => (cluster false c, ())) ()
    ((reviewedRunner releaseLast).run "throttle" false (reviewedOrder releaseLast).notes)

/-- The environment of a transport whose executor reports a result. -/
def reportedWeather (res : Outcome.Result) : (c : Call) → iface.Answer c
  | .execute o at' => liveReport o at' (.ok res)
  | c => fairWeather c

def reviewedCalls (releaseLast : Bool) (res : Outcome.Result) :
    Except HandleError Unit × List (Answered iface) :=
  Prog.play (fun _ c => (reportedWeather res c, ())) ()
    (({ catalog := { contracts := [reviewedThrottle releaseLast] }, reversal := true
        acceptance := true } : Transport).handle throttleApproval)

theorem releasedScale_watched : (reviewedRun false).1 = .ok .applied ∧
    (⟨.go (.settle (reviewedOrder false)), ()⟩ : Answered iface) ∈
      (reviewedCalls false .applied).2 := by
  have hres : (reviewedRun false).1 = .ok .applied := rfl
  have hrun := Prog.exits_play (fun _ c => (cluster false c, ()))
    ((reviewedRunner false).run "throttle" false (reviewedOrder false).notes) ()
  have hop : opFor (reviewedThrottle false).execution.forward true =
      .ok (.seq [.maintenanceRelease "flags.json" "throttle" "on", .scale "shop" "checkout" 1]) :=
    rfl
  have hreports := run_reports_last hop (o := reviewedOrder false) rfl rfl (hres ▸ hrun)
  have hlast : ¬ ReleaseLast (reviewedThrottle false).execution.forward := by
    rintro ⟨s, hs, hv⟩
    cases hs
    exact absurd hv (by decide)
  exact ⟨hres, (hreports.2.2.2 hlast).2 _ _ _ _ 0 rfl (Prog.exits_play _ _ _)
    (.tail _ (.tail _ (.head _)))⟩

/-- The replicas are scaled down, the release is cut, and the run is proposed: the cluster has
changed, and no convergence watch is started for it. -/
theorem scaledRelease_proposed : ∃ u oc out,
    ((reviewedRunner true).run "throttle" false (reviewedOrder true).notes).Exits u
      (.ok .proposed) ∧
    (∃ s ∈ (reviewedThrottle true).execution.forward, s.verb ≠ "maintenanceRelease") ∧
    u.any mutates = true ∧ oc = liveReport (reviewedOrder true) 0 (.ok .proposed) ∧
    (({ catalog := { contracts := [reviewedThrottle true] }, reversal := true
        acceptance := true } : Transport).handle throttleApproval).Exits
      (reviewedCalls true .proposed).2 out ∧
    (⟨.execute (reviewedOrder true) (0 : Int), oc⟩ : Answered iface) ∈
      (reviewedCalls true .proposed).2 ∧
    (⟨.go (.settle (reviewedOrder true)), ()⟩ : Answered iface) ∉
      (reviewedCalls true .proposed).2 := by
  have hres : (reviewedRun true).1 = .ok .proposed := rfl
  have hrun := Prog.exits_play (fun _ c => (cluster false c, ()))
    ((reviewedRunner true).run "throttle" false (reviewedOrder true).notes) ()
  have hcalls := Prog.exits_play (fun _ c => (reportedWeather .proposed c, ()))
    (({ catalog := { contracts := [reviewedThrottle true] }, reversal := true
        acceptance := true } : Transport).handle throttleApproval) ()
  have hexec : (⟨.execute (reviewedOrder true) (0 : Int),
      liveReport (reviewedOrder true) 0 (.ok .proposed)⟩ : Answered iface) ∈
        (reviewedCalls true .proposed).2 := .tail _ (.tail _ (.head _))
  refine ⟨(reviewedRun true).2, _, _, hres ▸ hrun, ?_, by decide +kernel, rfl, hcalls, hexec, ?_⟩
  · exact ⟨_, List.mem_cons_self, by decide⟩
  · intro hgo
    rcases (handle_course hcalls hexec).2 _ hgo with hq | he | ⟨w, hw, hwatch⟩
    · exact hq
    · cases he
    · cases hw
      exact absurd hwatch (by simp [watchFor, liveReport])

end Beats.Thump
