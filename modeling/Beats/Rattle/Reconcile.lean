import Beats.Lib.Prog
import Beats.Rattle.Debounce
import Beats.Rattle.Detectors

/-!
# One pass over the objectives

`Reconciler.Reconcile` of `internal/rattle`.  A pass takes the watched objectives one after the
other, and the first source that fails ends it with an error and no detections.  The debouncer is
asked for each objective that fires, and what it allowed is stamped at once.

So what was allowed before the error is lost and stays stamped: the next pass is held to it
(`failed_pass_iff`).
-/

namespace Beats.Rattle

open Lib Monitor List Debouncer Prog

/-! ## The environment -/

structure TrafficSample where
  t : Time := Time.zero
  affectedPct : Rat := 0
deriving DecidableEq

/-- The calls of a pass: the sources, the clock and the debouncer. -/
inductive Call where
  | burnSamples (slo : SLO)
  | now
  | multiSignals (slo : SLO)
  | baselineSamples (slo : SLO)
  /-- `Debouncer.Allow`. -/
  | allow (fingerprint : String) (now : Time)
  | dependencyState (dep : Dependency)
  | trafficSamples (slo : SLO)

/-- The interface of a pass. -/
def iface : Iface where
  Call := Call
  Answer
    | .burnSamples _ => Except String (List Sample)
    | .now => Time
    | .multiSignals _ => Except String MultiSignalWindow
    | .baselineSamples _ => Except String (List Sample)
    | .allow _ _ => Bool
    | .dependencyState _ => Except String String
    | .trafficSamples _ => Except String (List TrafficSample)

/-- How a pass ends that returns no detections. -/
inductive Failure where
  | error (text : String)
  | panic
deriving DecidableEq

/-- `rattle.Reconciler`.  Of an optional source it has whether it is there. -/
structure Reconciler where
  slos : List SLO := []
  detector : AccelerationDetector := {}
  correlation : Option CorrelationDetector := none
  correlationSource : Bool := false
  envelopeDetector : Option EnvelopeDetector := none
  baselineSource : Bool := false
  sustained : Option SustainedBurnDetector := none
  debounce : Bool := false
  contract : Option SignalContract := none
  topologySource : Bool := false
  trafficSource : Bool := false

/-! ## Detections -/

def signalFor (slo : SLO) (detectorType : String) (accel : Rat) (traj : String) (now : Time)
    (contract : Option SignalContract) : Signal.Detection where
  name := slo.object ++ "-burn-accel"
  fingerprint := fingerprint slo
  originService := slo.object
  serviceTier := slo.tier
  detectorType := detectorType
  contractRef := slo.contractRef
  sloRef := slo.id
  detectedAt := now
  divergence :=
    { observed := accel
      trajectory := traj
      confidence :=
        match contract with
        | none => 0
        | some c => c.attenuated 1 now }

def enrichSeverity (d : Signal.Detection) (burnWindow : List Sample) (slo : SLO) :
    Signal.Detection :=
  let rates := burnRates burnWindow
  { d with
    impact := { d.impact with
      severity :=
        { trajectory := trajectory rates
          degradationPct :=
            match rates.getLast? with
            | none => d.impact.severity.degradationPct
            | some rate => min (rate * (1 - slo.objective)) 1 } } }

/-- `EnrichTraffic`.  It is called where there are samples only. -/
def enrichTraffic (d : Signal.Detection) (traffic : List TrafficSample) : Signal.Detection :=
  match traffic.getLast? with
  | none => d
  | some latest =>
    { d with
      traffic := { affectedPct := latest.affectedPct }
      impact := { d.impact with
        blastRadius :=
          { affectedPct := latest.affectedPct
            velocity := trajectory (traffic.map TrafficSample.affectedPct) } } }

/-! ## The pass -/

def sourceError (what : String) (slo : SLO) (err : String) : Failure :=
  .error (what ++ " for " ++ slo.id ++ ": " ++ err)

/-- The first of two that finds something. -/
def firstOf {α : Type} (p q : Prog iface Failure (Option α)) : Prog iface Failure (Option α) := do
  match ← p with
  | some a => return some a
  | none => q

namespace Reconciler

variable (r : Reconciler)

/-- The freshness gate. -/
def fresh (window : List Sample) (now : Time) : Bool :=
  match r.contract with
  | none => true
  | some c => c.fresh window now

def accelerates (window : List Sample) : Prog iface Failure (Option (String × Rat)) :=
  let (fired, accel) := r.detector.detect window
  return if fired then some ("burn_rate_acceleration", accel) else none

def sustains (window : List Sample) : Prog iface Failure (Option (String × Rat)) :=
  match r.sustained with
  | none => return none
  | some d =>
    match d.detect window with
    | none => .fail .panic
    | some (fired, level) => return if fired then some ("sustained_burn", level) else none

def correlates (slo : SLO) : Prog iface Failure (Option (String × Rat)) :=
  match r.correlation, r.correlationSource with
  | some d, true => do
    let ms ← orFail (sourceError "multi-signals" slo)
      (← @Prog.ask iface Failure (.multiSignals slo))
    return if d.fires ms then some ("multi_signal_correlation", 0) else none
  | _, _ => return none

def breaches (slo : SLO) (window : List Sample) : Prog iface Failure (Option (String × Rat)) :=
  match r.envelopeDetector, r.baselineSource with
  | some d, true => do
    let baseline ← orFail (sourceError "baseline samples" slo)
      (← @Prog.ask iface Failure (.baselineSamples slo))
    return if d.fires baseline window then some ("historical_envelope_breach", 0) else none
  | _, _ => return none

/-- The detectors in their order, up to the first that fires. -/
def detect (slo : SLO) (window : List Sample) : Prog iface Failure (Option (String × Rat)) :=
  firstOf (r.accelerates window) <| firstOf (r.sustains window) <|
    firstOf (r.correlates slo) (r.breaches slo window)

/-- Whether the debouncer lets the objective speak. -/
def allowed (slo : SLO) (now : Time) : Prog iface Failure Bool :=
  if r.debounce then @Prog.ask iface Failure (.allow (fingerprint slo) now) else return true

/-- `EnrichTopology`.  A dependency that cannot be queried is skipped. -/
def enrichTopology (d : Signal.Detection) : List Dependency → Prog iface Failure Signal.Detection
  | [] => return d
  | dep :: deps => do
    match ← @Prog.ask iface Failure (.dependencyState dep) with
    | .error _ => enrichTopology d deps
    | .ok state =>
      enrichTopology { d with topology := { d.topology with
        upstream := d.topology.upstream ++ [{ name := dep.name, state := state }] } } deps

/-- The detection with its neighbours, where there is a source. -/
def withTopology (d : Signal.Detection) (slo : SLO) : Prog iface Failure Signal.Detection :=
  if r.topologySource then enrichTopology d slo.dependencies else return d

/-- The detection with its traffic, where there is a source. -/
def withTraffic (d : Signal.Detection) (slo : SLO) : Prog iface Failure Signal.Detection :=
  if r.trafficSource then do
    let traffic ← orFail (sourceError "traffic samples" slo)
      (← @Prog.ask iface Failure (.trafficSamples slo))
    return if traffic.isEmpty then d else enrichTraffic d traffic
  else return d

/-- What follows where a detector has fired. -/
def speak (slo : SLO) (window : List Sample) (now : Time) (detectorType : String) (accel : Rat) :
    Prog iface Failure (Option Signal.Detection) := do
  if ← r.allowed slo now then
    let traj := trajectory (burnRates window)
    let d := signalFor slo detectorType accel traj now r.contract
    let d ← r.withTopology (enrichSeverity d window slo) slo
    let d ← r.withTraffic d slo
    return some d
  else return none

/-- The pass of one objective. -/
def turn (slo : SLO) : Prog iface Failure (Option Signal.Detection) := do
  let window ← orFail (sourceError "burn samples" slo)
    (← @Prog.ask iface Failure (.burnSamples slo))
  let now : Time ← @Prog.ask iface Failure .now
  if !r.fresh window now then return none
  else
    match ← r.detect slo window with
    | none => return none
    | some (detectorType, accel) => r.speak slo window now detectorType accel

def pass : List SLO → List Signal.Detection → Prog iface Failure (List Signal.Detection)
  | [], out => return out
  | slo :: slos, out => do
    let d ← r.turn slo
    pass slos (out ++ d.toList)

def reconcile : Prog iface Failure (List Signal.Detection) := r.pass r.slos []

end Reconciler

/-! ## What a pass asks the debouncer -/

/-- The call of the debouncer, with its answer. -/
def asked? : Answered iface → Option ((String × Time) × Bool)
  | ⟨.allow f now, (r : Bool)⟩ => some ((f, now), r)
  | _ => none

/-- What the debouncer was asked in a run, and what it answered. -/
def asked (t : List (Answered iface)) : List ((String × Time) × Bool) := t.filterMap asked?

/-- What the debouncer was asked in a run. -/
def asks (t : List (Answered iface)) : List (String × Time) := (asked t).map Prod.fst

/-- The signals that the run was allowed. -/
def spoken (t : List (Answered iface)) : List (String × Time) :=
  ((asked t).filter Prod.snd).map Prod.fst

/-- The debouncer's answers in the run are its own. -/
def Debouncer.Answers (d : Debouncer) (t : List (Answered iface)) : Prop :=
  (asked t).map Prod.snd = d.answers (asks t)

variable {t : List (Answered iface)}

theorem Debouncer.Answers.spoken_eq {d : Debouncer} (h : d.Answers t) :
    spoken t = d.allowed (asks t) := by
  rw [allowed, ← h, asks, zip_map', map_id', spoken]

theorem spoken_cons (a : Answered iface) (t : List (Answered iface)) :
    spoken (a :: t) = spoken [a] ++ spoken t := by
  simp only [spoken, asked, ← map_append, ← filter_append, ← filterMap_append, singleton_append]

/-- The monitor of what the debouncer has allowed.  `P` says what it may be asked about. -/
def speaking (P : String → Prop) : Monitor iface (List (String × Time)) where
  permits _ c := ∀ f now, c = Call.allow f now → P f
  next s c r := s ++ spoken [⟨c, r⟩]

theorem speaking_after {P : String → Prop} :
    ∀ (t : List (Answered iface)) (s : List (String × Time)), (speaking P).after s t = s ++ spoken t
  | [], s => (append_nil s).symm
  | a :: t, s => by
    rw [spoken_cons, ← append_assoc]
    exact speaking_after t _

/-- The signal of a detection, and its time. -/
def signalOf (d : Signal.Detection) : String × Time := (d.fingerprint, d.detectedAt)

/-- The calls that begin a turn or ask the debouncer. -/
def Call.marks : Call → Bool
  | .burnSamples _ | .allow _ _ => true
  | _ => false

/-- The program begins no turn and asks the debouncer nothing, and its outcome meets `Q`. -/
def Quiet {α : Type} (p : Prog iface Failure α) (Q : Except Failure α → Prop) : Prop :=
  (only fun c : Call => c.marks = false).Allows (fun _ => Q) p ()

section

variable {α β : Type} {p : Prog iface Failure α} {Q : Except Failure α → Prop}

theorem Quiet.bind {f : α → Prog iface Failure β} {Q' : Except Failure β → Prop} (h : Quiet p Q)
    (hok : ∀ a, Q (.ok a) → Quiet (f a) Q') (herr : ∀ e, Q (.error e) → Q' (.error e)) :
    Quiet (p >>= f) Q' :=
  Allows.bind h (fun _ a ha => hok a ha) fun _ e he => herr e he

theorem Quiet.speaking {P : String → Prop} {s : List (String × Time)} :
    ∀ {p : Prog iface Failure α}, Quiet p Q →
      (speaking P).Allows (fun s' out => s' = s ∧ Q out) p s
  | .ret a, h => ⟨rfl, h⟩
  | .fail e, h => ⟨rfl, h⟩
  | .call c k, h => by
    have hc : c.marks = false := h.1
    refine ⟨fun f now he => ?_, fun r => ?_⟩
    · subst he
      cases hc
    have hs : (Rattle.speaking P).next s c r = s := by
      cases c <;> first | exact append_nil s | cases hc
    rw [hs]
    exact Quiet.speaking (h.2 r)

end

theorem Quiet.marks_of_mem {α : Type} {p : Prog iface Failure α} {Q : Except Failure α → Prop}
    {out : Except Failure α} (h : Quiet p Q) (ht : p.Exits t out) :
    ∀ a ∈ t, Call.marks a.1 = false := fun _ ha => Allows.of_mem_only h ht ha

theorem asks_eq_nil (h : ∀ a ∈ t, Call.marks a.1 = false) : asks t = [] := by
  refine map_eq_nil_iff.mpr (filterMap_eq_nil_iff.mpr fun a ha => ?_)
  obtain ⟨c, r⟩ := a
  cases c with
  | allow f now => cases h _ ha
  | _ => rfl

theorem asks_append (t u : List (Answered iface)) : asks (t ++ u) = asks t ++ asks u := by
  rw [asks, asked, filterMap_append, map_append]
  rfl

theorem quiet_firstOf {α : Type} {p q : Prog iface Failure (Option α)}
    (hp : Quiet p fun _ => True) (hq : Quiet q fun _ => True) :
    Quiet (firstOf p q) fun _ => True := by
  refine hp.bind (fun a _ => ?_) fun _ _ => trivial
  cases a with
  | none => exact hq
  | some a => exact trivial

namespace Reconciler

variable {r : Reconciler} {slo : SLO} {window : List Sample}

theorem quiet_sustains : Quiet (r.sustains window) fun _ => True := by
  unfold sustains
  split
  next => exact trivial
  next => split <;> exact trivial

theorem quiet_correlates : Quiet (r.correlates slo) fun _ => True := by
  unfold correlates
  split
  next =>
    refine allows_ask_bind rfl fun ms => ?_
    cases ms <;> exact trivial
  next => exact trivial

theorem quiet_breaches : Quiet (r.breaches slo window) fun _ => True := by
  unfold breaches
  split
  next =>
    refine allows_ask_bind rfl fun baseline => ?_
    cases baseline <;> exact trivial
  next => exact trivial

theorem quiet_detect : Quiet (r.detect slo window) fun _ => True :=
  quiet_firstOf trivial <| quiet_firstOf quiet_sustains <|
    quiet_firstOf quiet_correlates quiet_breaches

def SignalOf (d : Signal.Detection) (out : Except Failure Signal.Detection) : Prop :=
  ∀ d', out = .ok d' → signalOf d' = signalOf d

theorem quiet_enrichTopology : ∀ (deps : List Dependency) (d : Signal.Detection),
    Quiet (enrichTopology d deps) (SignalOf d)
  | [], d => by
    rintro d' ⟨⟩
    rfl
  | dep :: deps, d => by
    refine allows_ask_bind rfl (either (fun _ => quiet_enrichTopology deps d) fun state => ?_)
    exact quiet_enrichTopology deps { d with topology := { d.topology with
      upstream := d.topology.upstream ++ [{ name := dep.name, state := state }] } }

theorem quiet_withTopology (d : Signal.Detection) : Quiet (r.withTopology d slo) (SignalOf d) := by
  unfold withTopology
  split
  next => exact quiet_enrichTopology _ _
  next =>
    rintro d' ⟨⟩
    rfl

theorem signalOf_enrichTraffic (d : Signal.Detection) (traffic : List TrafficSample) :
    signalOf (enrichTraffic d traffic) = signalOf d := by
  unfold enrichTraffic
  split <;> rfl

theorem quiet_withTraffic (d : Signal.Detection) : Quiet (r.withTraffic d slo) (SignalOf d) := by
  unfold withTraffic
  split
  next =>
    refine allows_ask_bind rfl fun traffic => ?_
    cases traffic with
    | error e =>
      intro d' h
      cases h
    | ok traffic =>
      rintro d' ⟨⟩
      split
      next => rfl
      next => exact signalOf_enrichTraffic d traffic
  next =>
    rintro d' ⟨⟩
    rfl

/-- What follows the debouncer's answer asks it nothing more and returns the signal that was
allowed. -/
theorem quiet_enrich (d : Signal.Detection) :
    Quiet (r.withTopology d slo >>= fun d => r.withTraffic d slo >>= fun d => return some d)
      fun out => ∀ x, out = .ok x → x.toList.map signalOf = [signalOf d] := by
  refine (quiet_withTopology d).bind (fun d₁ h₁ => ?_) fun e _ x h => by cases h
  refine (quiet_withTraffic d₁).bind (fun d₂ h₂ => ?_) fun e _ x h => by cases h
  rintro x ⟨⟩
  rw [Option.toList_some, map_singleton, h₂ d₂ rfl, h₁ d₁ rfl]

variable {P : String → Prop} {now : Time} {s : List (String × Time)}

theorem speaking_speak (hP : P (fingerprint slo)) (detectorType : String) (accel : Rat) :
    (speaking P).Allows (fun s' out => r.debounce = true → ∀ d, out = .ok d →
      s' = s ++ d.toList.map signalOf) (r.speak slo window now detectorType accel) s := by
  have henrich (s' : List (String × Time)) :=
    (@quiet_enrich r slo (enrichSeverity (signalFor slo detectorType accel
      (trajectory (burnRates window)) now r.contract) window slo)).speaking (P := P) (s := s')
  cases hd : r.debounce with
  | false =>
    have hall : r.allowed slo now = .ret true := by
      rw [allowed, hd]
      rfl
    rw [speak, hall]
    exact (henrich s).mono fun s' out _ h => by cases h
  | true =>
    have hall : r.allowed slo now = @Prog.ask iface _ (.allow (fingerprint slo) now) := by
      rw [allowed, hd]
      rfl
    rw [speak, hall]
    refine allows_ask_bind (by rintro f now' ⟨⟩; exact hP) fun a => ?_
    cases a with
    | false =>
      rintro - d ⟨⟩
      rfl
    | true =>
      refine (henrich _).mono ?_
      rintro s' out ⟨rfl, hout⟩ - d rfl
      rw [hout d rfl]
      rfl

/-- A turn asks the debouncer about its own objective, and what it returns is what it was
allowed. -/
theorem speaking_turn (hP : P (fingerprint slo)) (s : List (String × Time)) :
    (speaking P).Allows (fun s' out => r.debounce = true → ∀ d, out = .ok d →
      s' = s ++ d.toList.map signalOf) (r.turn slo) s := by
  refine allows_ask_bind nofun (either (fun _ => fun _ d h => by cases h) fun _ => ?_)
  refine allows_ask_bind nofun fun now => ?_
  change (speaking P).Allows _ _ (s ++ [] ++ [])
  rw [append_nil, append_nil]
  have hnone : r.debounce = true → ∀ d : Option Signal.Detection,
      (.ok none : Except Failure _) = .ok d → s = s ++ d.toList.map signalOf := by
    rintro - d ⟨⟩
    exact (append_nil s).symm
  split
  next => exact hnone
  next =>
    refine Allows.bind quiet_detect.speaking (fun s' fired h => ?_) fun s' e _ _ d h => by cases h
    rw [h.1]
    cases fired with
    | none => exact hnone
    | some fired => exact speaking_speak hP fired.1 fired.2

/-- A pass asks about the objectives that are watched, and what it returns is what it was
allowed. -/
theorem speaking_pass : ∀ {slos : List SLO} {ds : List Signal.Detection}
    {s : List (String × Time)}, (∀ slo ∈ slos, P (fingerprint slo)) →
    (r.debounce = true → s = ds.map signalOf) →
    (speaking P).Allows (fun s' out => r.debounce = true → ∀ ds', out = .ok ds' →
      s' = ds'.map signalOf) (r.pass slos ds) s
  | [], ds, s, _, hs => by
    rintro hd ds' ⟨⟩
    exact hs hd
  | slo :: slos, ds, s, hP, hs => by
    refine (speaking_turn (hP slo mem_cons_self) s).bind (fun s' d h => ?_)
      fun s' e _ _ ds' h => by cases h
    refine speaking_pass (fun slo' hm => hP slo' (mem_cons_of_mem _ hm)) fun hd => ?_
    rw [h hd d rfl, hs hd, map_append]

theorem speaking_reconcile (hP : ∀ slo ∈ r.slos, P (fingerprint slo)) :
    (speaking P).Allows (fun s' out => r.debounce = true → ∀ ds, out = .ok ds →
      s' = ds.map signalOf) r.reconcile [] :=
  speaking_pass hP fun _ => rfl

/-- A pass that ends well returns the signals that it was allowed, and no others. -/
theorem reconcile_spoken {ds : List Signal.Detection} (hd : r.debounce = true)
    (h : r.reconcile.Exits t (.ok ds)) : ds.map signalOf = spoken t := by
  have hs := (speaking_reconcile (P := fun _ => True) fun _ _ => trivial).exits h hd ds rfl
  rw [speaking_after] at hs
  exact hs.symm

/-! ## What fires -/

/-- The run begins with answers of the sources on which the objective fires: its window is fresh,
and a detector finds something. -/
def Heads (r : Reconciler) (slo : SLO) (now : Time) (t : List (Answered iface)) : Prop :=
  ∃ (window : List Sample) (u v : List (Answered iface)) (x : String × Rat),
    t = ⟨.burnSamples slo, (.ok window : Except _ _)⟩ :: ⟨.now, now⟩ :: (u ++ v) ∧
      r.fresh window now = true ∧ (r.detect slo window).Exits u (.ok (some x))

/-- The objective fires in the run. -/
def Fires (r : Reconciler) (slo : SLO) (now : Time) (t : List (Answered iface)) : Prop :=
  ∃ t', t' <:+ t ∧ r.Heads slo now t'

theorem fires_cons {a : Answered iface} :
    r.Fires slo now (a :: t) ↔ r.Heads slo now (a :: t) ∨ r.Fires slo now t := by
  simp only [Fires, suffix_cons_iff, or_and_right, exists_or, exists_eq_left]

theorem fires_append {u : List (Answered iface)} (hu : ∀ a ∈ u, ∀ slo, a.1 ≠ .burnSamples slo) :
    r.Fires slo now (u ++ t) ↔ r.Fires slo now t := by
  induction u with
  | nil => rfl
  | cons a u ih =>
    obtain ⟨ha, hu⟩ := forall_mem_cons.mp hu
    rw [cons_append, fires_cons, ih hu, or_iff_right]
    rintro ⟨window, v, w, x, he, -⟩
    exact ha slo (congrArg Sigma.fst (head_eq_of_cons_eq he))

variable {out : Except Failure (Option Signal.Detection)}

theorem ne_burnSamples (h : ∀ a ∈ t, Call.marks a.1 = false) :
    ∀ a ∈ t, ∀ slo, a.1 ≠ .burnSamples slo := by
  intro a ha slo he
  have hm := h a ha
  rw [he] at hm
  cases hm

theorem exits_allowed {out : Except Failure Bool} (h : (r.allowed slo now).Exits t out) :
    (∃ b, out = .ok b) ∧ (∀ a ∈ t, ∀ slo, a.1 ≠ .burnSamples slo) ∧
      asks t = if r.debounce then [(fingerprint slo, now)] else [] := by
  rw [allowed] at h
  cases hd : r.debounce with
  | true =>
    rw [hd] at h
    obtain ⟨b, u, rfl, hu⟩ := exits_call.mp h
    obtain ⟨rfl, rfl⟩ := exits_ret.mp hu
    exact ⟨⟨b, rfl⟩, forall_mem_singleton.mpr nofun, rfl⟩
  | false =>
    rw [hd] at h
    obtain ⟨rfl, rfl⟩ := exits_ret.mp h
    exact ⟨⟨true, rfl⟩, nofun, rfl⟩

theorem asks_speak {fired : String × Rat}
    (h : (r.speak slo window now fired.1 fired.2).Exits t out) :
    asks t = (if r.debounce then [(fingerprint slo, now)] else []) ∧
      ∀ a ∈ t, ∀ slo, a.1 ≠ .burnSamples slo := by
  rcases exits_bind h with ⟨b, u, v, rfl, hu, hv⟩ | ⟨e, hu, -⟩
  · obtain ⟨-, hcalls, hasks⟩ := exits_allowed hu
    have hquiet : ∀ a ∈ v, Call.marks a.1 = false := by
      cases b with
      | false =>
        obtain ⟨rfl, -⟩ := exits_ret.mp hv
        nofun
      | true => exact (quiet_enrich _).marks_of_mem hv
    rw [asks_append, asks_eq_nil hquiet, append_nil]
    exact ⟨hasks, forall_mem_append.mpr ⟨hcalls, ne_burnSamples hquiet⟩⟩
  · obtain ⟨⟨b, hb⟩, -⟩ := exits_allowed hu
    cases hb

/-- On the answers of the sources, and whatever follows them, no detector finds anything. -/
theorem not_heads {u rest : List (Answered iface)} {x : Except Failure (Option (String × Rat))}
    (hu : (r.detect slo window).Exits u x) (hx : ∀ y, x ≠ .ok (some y)) (now' : Time) :
    ¬ r.Heads slo now' (⟨.burnSamples slo, (.ok window : Except _ _)⟩ :: ⟨.now, now⟩ ::
      (u ++ rest)) := by
  rintro ⟨window', v, w, y, he, -, hv⟩
  injection he with hwindow he
  injection he with _ he
  cases hwindow
  exact hx y (hu.eq_of_append hv he).2

/-- A turn reads the window of its objective first, and asks the debouncer about it exactly where
it fires. -/
theorem turn_fires (h : (r.turn slo).Exits t out) :
    ∃ a u, t = ⟨.burnSamples slo, a⟩ :: u ∧ (∀ a ∈ u, ∀ slo, a.1 ≠ .burnSamples slo) ∧
      ∀ rest q, q ∈ asks t ↔
        r.debounce = true ∧ q.1 = fingerprint slo ∧ r.Heads slo q.2 (t ++ rest) := by
  obtain ⟨a, t, rfl, h₁⟩ := exits_ask_bind.mp h
  refine ⟨a, t, rfl, ?_⟩
  cases a with
  | error e =>
    obtain ⟨rfl, -⟩ := exits_fail.mp h₁
    refine ⟨nofun, fun rest q => iff_of_false not_mem_nil ?_⟩
    rintro ⟨-, -, window, u, v, x, he, -⟩
    cases he
  | ok window =>
  obtain ⟨now, t, rfl, h₂⟩ := exits_ask_bind.mp h₁
  have hnow {u : List (Answered iface)} (hu : ∀ a ∈ u, ∀ slo, a.1 ≠ .burnSamples slo) :
      ∀ a ∈ (⟨.now, now⟩ : Answered iface) :: u, ∀ slo, a.1 ≠ .burnSamples slo :=
    forall_mem_cons.mpr ⟨nofun, hu⟩
  change Exits (if _ then _ else _) t out at h₂
  split at h₂
  next hstale =>
    obtain ⟨rfl, -⟩ := exits_ret.mp h₂
    refine ⟨hnow nofun, fun rest q => iff_of_false not_mem_nil ?_⟩
    rintro ⟨-, -, window, u, v, x, he, hfresh, -⟩
    cases he
    rw [hfresh] at hstale
    cases hstale
  next hfresh =>
    rcases exits_bind h₂ with ⟨fired, u, v, rfl, hu, hv⟩ | ⟨e, hu, -⟩
    · have hquiet := quiet_detect.marks_of_mem hu
      cases fired with
      | none =>
        obtain ⟨rfl, -⟩ := exits_ret.mp hv
        rw [append_nil]
        refine ⟨hnow (ne_burnSamples hquiet), fun rest q => iff_of_false ?_ fun hq => ?_⟩
        · change q ∉ asks u
          rw [asks_eq_nil hquiet]
          exact not_mem_nil
        · exact not_heads hu nofun _ hq.2.2
      | some y =>
        obtain ⟨hasks, hcalls⟩ := asks_speak hv
        refine ⟨hnow (forall_mem_append.mpr ⟨ne_burnSamples hquiet, hcalls⟩), fun rest q => ?_⟩
        change q ∈ asks (u ++ v) ↔ _
        rw [asks_append, asks_eq_nil hquiet, hasks, nil_append]
        constructor
        · intro hq
          split at hq
          next hd =>
            cases mem_singleton.mp hq
            refine ⟨hd, rfl, window, u, v ++ rest, y, ?_, by simpa using hfresh, hu⟩
            rw [← append_assoc]
            rfl
          next => cases hq
        · rintro ⟨hd, hf, window', u', v', y', he, -⟩
          rw [if_pos hd, mem_singleton]
          injection he with _ he
          injection he with hnow' _
          cases hnow'
          exact Prod.ext hf rfl
    · have hquiet := quiet_detect.marks_of_mem hu
      refine ⟨hnow (ne_burnSamples hquiet), fun rest q => iff_of_false ?_ fun hq => ?_⟩
      · change q ∉ asks t
        rw [asks_eq_nil hquiet]
        exact not_mem_nil
      · exact not_heads hu nofun _ hq.2.2

/-- What a turn adds to what the rest of the pass asks. -/
theorem mem_asks_turn {q : String × Time} {rest : List (Answered iface)}
    (h : (r.turn slo).Exits t out) (hrest : q ∈ asks rest ↔
      r.debounce = true ∧ ∃ slo, q.1 = fingerprint slo ∧ r.Fires slo q.2 rest) :
    q ∈ asks (t ++ rest) ↔
      r.debounce = true ∧ ∃ slo, q.1 = fingerprint slo ∧ r.Fires slo q.2 (t ++ rest) := by
  obtain ⟨a, u, rfl, hu, hasks⟩ := turn_fires h
  have hfires (slo' : SLO) : r.Fires slo' q.2 (⟨.burnSamples slo, a⟩ :: u ++ rest) ↔
      r.Heads slo' q.2 (⟨.burnSamples slo, a⟩ :: u ++ rest) ∨ r.Fires slo' q.2 rest := by
    rw [cons_append, fires_cons, fires_append hu]
  rw [asks_append, mem_append, hasks rest, hrest]
  simp only [hfires]
  constructor
  · rintro (⟨hd, hf, hheads⟩ | ⟨hd, slo', hf, hfires⟩)
    · exact ⟨hd, slo, hf, .inl hheads⟩
    · exact ⟨hd, slo', hf, .inr hfires⟩
  · rintro ⟨hd, slo', hf, hheads | hfires⟩
    · obtain rfl : slo = slo' := by
        obtain ⟨window, v, w, x, he, -⟩ := hheads
        injection he with he _
        exact Call.burnSamples.inj (congrArg Sigma.fst he)
      exact .inl ⟨hd, hf, hheads⟩
    · exact .inr ⟨hd, slo', hf, hfires⟩

/-- A pass asks the debouncer about the objectives that fire. -/
theorem mem_asks_pass {q : String × Time} : ∀ {slos : List SLO} {ds : List Signal.Detection}
    {t : List (Answered iface)} {out : Except Failure (List Signal.Detection)},
    (r.pass slos ds).Exits t out → (q ∈ asks t ↔
      r.debounce = true ∧ ∃ slo, q.1 = fingerprint slo ∧ r.Fires slo q.2 t)
  | [], ds, t, out, h => by
    obtain ⟨rfl, -⟩ := exits_ret.mp h
    simp [asks, asked, Fires, Heads]
  | slo :: slos, ds, t, out, h => by
    rcases exits_bind h with ⟨d, u, v, rfl, hu, hv⟩ | ⟨e, hu, -⟩
    · exact mem_asks_turn hu (mem_asks_pass hv)
    · have hempty : q ∈ asks [] ↔
          r.debounce = true ∧ ∃ slo, q.1 = fingerprint slo ∧ r.Fires slo q.2 [] := by
        simp [asks, asked, Fires, Heads]
      have hnil := mem_asks_turn hu hempty
      rwa [append_nil] at hnil

/-- The debouncer holds back all that fires in the run. -/
def AllHeld (r : Reconciler) (d : Debouncer) (t : List (Answered iface)) : Prop :=
  r.debounce = true → ∀ slo now, r.Fires slo now t → d.holds (fingerprint slo) now = true

theorem fingerprint_of_mem_asks {q : Prog iface Failure (List Signal.Detection)}
    (h : r.reconcile.Steps t q) {x : String × Time} (hx : x ∈ asks t) :
    ∃ slo ∈ r.slos, x.1 = fingerprint slo := by
  obtain ⟨y, hy, rfl⟩ := mem_map.mp hx
  obtain ⟨⟨c, a⟩, ha, hca⟩ := mem_filterMap.mp hy
  have hr := @speaking_reconcile r (fun f => ∃ slo ∈ r.slos, f = fingerprint slo)
    fun slo hm => ⟨slo, hm, rfl⟩
  obtain ⟨t₁, -, hc⟩ := hr.permits_of_mem h ha
  cases c with
  | allow f now =>
    cases hca
    exact hc f now rfl
  | _ => cases hca

end Reconciler

/-- Where a pass fails, the debouncer is left with what it allowed in the pass.

* It was asked about the objectives that fired on the answers of the sources.
* It is as it was exactly where each stamp of the pass was there already.  With a hold, that is
  where it held back all that fired before the error.
* It has let nothing through there, and elsewhere it has.
* Each fingerprint that it did allow is that of a watched objective that fired, whose detection was
  dropped with the pass.  It is held until `hold` after the stamp. -/
theorem failed_pass_iff {r : Reconciler} {d : Debouncer} {t : List (Answered iface)} {e : String}
    (h : r.reconcile.Exits t (.error (.error e))) (hd : d.Answers t) :
    (∀ f now, (f, now) ∈ asks t ↔
        r.debounce = true ∧ ∃ slo, f = fingerprint slo ∧ r.Fires slo now t) ∧
      (d.after (asks t) = d ↔
        ∀ f s, d.lastAllowed (asks t) f = some s → d.last f = some s) ∧
      (0 < d.hold → (d.after (asks t) = d ↔ r.AllHeld d t)) ∧
      (spoken t = [] ↔ r.AllHeld d t) ∧
      ∀ f s, d.lastAllowed (asks t) f = some s →
        (∃ slo ∈ r.slos, f = fingerprint slo) ∧ (∃ slo, f = fingerprint slo ∧ r.Fires slo s t) ∧
          ∀ now, ((d.after (asks t)).allow f now).1 = true ↔ d.hold ≤ now - s := by
  have hasks (q : String × Time) := r.mem_asks_pass (q := q) h
  have hheld : (∀ q ∈ asks t, d.holds q.1 q.2 = true) ↔ r.AllHeld d t := by
    constructor
    · exact fun hq hdb slo now hf => hq _ ((hasks (_, _)).mpr ⟨hdb, slo, rfl, hf⟩)
    · intro hall q hq
      obtain ⟨hdb, slo, hfp, hf⟩ := (hasks q).mp hq
      rw [hfp]
      exact hall hdb slo q.2 hf
  refine ⟨fun f now => hasks (f, now), after_eq_iff, fun hpos => ?_, ?_, fun f s hs => ?_⟩
  · rw [after_eq_iff_of_pos hpos, allowed_eq_nil_iff, hheld]
  · rw [hd.spoken_eq, allowed_eq_nil_iff, hheld]
  · have hmem := mem_asks_of_lastAllowed hs
    exact ⟨r.fingerprint_of_mem_asks h hmem, ((hasks _).mp hmem).2,
      fun now => allow_after_iff hs⟩

/-! ## One pass after another -/

/-- What a pass returns.  A failed one returns nothing. -/
def returned : Except Failure (List Signal.Detection) → List Signal.Detection
  | .ok ds => ds
  | .error _ => []

section

variable {r : Reconciler}
  {passes : List (Except Failure (List Signal.Detection) × List (Answered iface))}

theorem returned_sublist (hr : r.debounce = true) (h : ∀ p ∈ passes, r.reconcile.Exits p.2 p.1) :
    (passes.flatMap fun p => returned p.1).map signalOf <+ spoken (passes.flatMap Prod.snd) := by
  induction passes with
  | nil => exact .slnil
  | cons p passes ih =>
    have hp : (returned p.1).map signalOf <+ spoken p.2 := by
      obtain ⟨out, t⟩ := p
      cases out with
      | ok ds => exact r.reconcile_spoken hr (h (.ok ds, t) mem_cons_self) ▸ .refl _
      | error e => exact nil_sublist _
    have hrest := ih fun p' hp' => h p' (mem_cons_of_mem p hp')
    simpa [spoken, asked] using hp.append hrest

/-- Passes that share a debouncer return the detections of a fingerprint at least a hold apart,
whichever of them fail. -/
theorem returned_spaced {d : Debouncer} (hr : r.debounce = true) (hhold : 0 ≤ d.hold)
    (h : ∀ p ∈ passes, r.reconcile.Exits p.2 p.1) (hd : d.Answers (passes.flatMap Prod.snd))
    (f : String) :
    (own f ((passes.flatMap fun p => returned p.1).map signalOf)).Pairwise
      fun a b => d.hold ≤ b.2 - a.2 := by
  have hsub := returned_sublist hr h
  rw [hd.spoken_eq] at hsub
  exact (allowed_apart hhold).sublist (hsub.filter _)

end

/-! ## Two passes -/

def Debouncer.answering (script : (c : Call) → iface.Answer c) (d : Debouncer) :
    (c : Call) → iface.Answer c × Debouncer
  | .allow f now => d.allow f now
  | c => (script c, d)

theorem Debouncer.answers_play {α : Type} (script : (c : Call) → iface.Answer c)
    (p : Prog iface Failure α) (d : Debouncer) :
    d.Answers (play (answering script) d p).2 := by
  induction p generalizing d with
  | ret a => rfl
  | fail e => rfl
  | call c k ih =>
    cases c with
    | allow f now =>
      exact congrArg (cons (d.allow f now).1) (ih (d.allow f now).1 (d.allow f now).2)
    | _ => exact ih _ d

/-- Two objectives, of which one fires. -/
def pair : Reconciler where
  slos := [{ id := "a", object := "a" }, { id := "b", object := "b" }]
  sustained := some { minSamples := 1 }
  debounce := true

/-- The sources at a time.  The second objective can be down. -/
def sources (now : Time) (down : String → Bool) : (c : Call) → iface.Answer c
  | .burnSamples slo =>
    (if down slo.id then .error "down" else if slo.id = "a" then .ok [{}] else .ok [] :
      Except String (List Sample))
  | .now => now
  | .multiSignals _ => (.ok [] : Except String MultiSignalWindow)
  | .baselineSamples _ => (.ok [] : Except String (List Sample))
  | .allow _ _ => true
  | .dependencyState _ => (.ok "" : Except String String)
  | .trafficSamples _ => (.ok [] : Except String (List TrafficSample))

def passAt (now : Time) (down : String → Bool) (d : Debouncer) :
    Except Failure (List Signal.Detection) × List (Answered iface) :=
  play (answering (sources now down)) d pair.reconcile

theorem passAt_exits (now : Time) (down : String → Bool) (d : Debouncer) :
    pair.reconcile.Exits (passAt now down d).2 (passAt now down d).1 :=
  exits_play _ _ _

/-- The second objective is down half a minute after the first pass, and up again after another
half. -/
theorem returned_spaced_of_three :
    let t (d : Debouncer) (now : Time) := passAt now (fun o => o == "b" && now == 30) d
    let d : Debouncer := { hold := 60 }
    let passes := [t d 0, t (d.stamp "slo_burn:a" 0) 30, t (d.stamp "slo_burn:a" 0) 60]
    (passes.flatMap fun p => returned p.1).map signalOf = [("slo_burn:a", 0), ("slo_burn:a", 60)] ∧
      (own "slo_burn:a" ((passes.flatMap fun p => returned p.1).map signalOf)).Pairwise
        fun a b => d.hold ≤ b.2 - a.2 := by
  refine ⟨by decide +kernel, returned_spaced (r := pair) rfl (by decide) ?_ ?_ _⟩
  · simp [passAt_exits]
  · unfold Answers
    decide +kernel

/-- The first source fails, and the debouncer is as it was. -/
theorem failed_first_keeps : ∃ t : List (Answered iface), ∃ e : String,
    pair.reconcile.Exits t (.error (.error e)) ∧
      after { hold := 60 } (asks t) = { hold := 60 } := by
  refine ⟨(passAt 0 (fun _ => true) { hold := 60 }).2, "burn samples for a: down", ?_⟩
  have h : pair.reconcile.Exits (passAt 0 (fun _ => true) { hold := 60 }).2
      (.error (.error "burn samples for a: down")) := passAt_exits 0 (fun _ => true) { hold := 60 }
  have hd := answers_play (sources 0 fun _ => true) pair.reconcile { hold := 60 }
  have hnone : asks (passAt 0 (fun _ => true) { hold := 60 }).2 = [] := by decide +kernel
  obtain ⟨hfires, -, hkeeps, -⟩ := failed_pass_iff h hd
  refine ⟨h, (hkeeps (by decide)).mpr fun hdebounce slo now hf => ?_⟩
  have hmem := (hfires _ _).mpr ⟨hdebounce, slo, rfl, hf⟩
  rw [hnone] at hmem
  cases hmem

/-- The first objective fires and is stamped, the second source fails, and the pass returns
nothing.  A second later both sources are up.  The debouncer that the failed pass left holds the
first objective back, and the one from before it would not have. -/
theorem failed_pass_stamps : ∃ t t' t'' : List (Answered iface), ∃ e : String,
    ∃ x : Signal.Detection,
    pair.reconcile.Exits t (.error (.error e)) ∧ Answers { hold := 60 } t ∧
      after { hold := 60 } (asks t) ≠ { hold := 60 } ∧
      (pair.reconcile.Exits t' (.ok []) ∧
        (after { hold := 60 } (asks t)).Answers t') ∧
      pair.reconcile.Exits t'' (.ok [x]) ∧ Answers { hold := 60 } t'' := by
  let d : Debouncer := { hold := 60 }
  let d' : Debouncer := d.after (asks (passAt 0 (· == "b") d).2)
  have h : (passAt 0 (· == "b") d).1 = .error (.error "burn samples for b: down") := by
    decide +kernel
  have h' : (passAt 1 (fun _ => false) d').1 = .ok [] := by decide +kernel
  let slo : SLO := { id := "a", object := "a" }
  let x := enrichSeverity (signalFor slo "sustained_burn" 0 "stable" 1 none) [{}] slo
  have h'' : (passAt 1 (fun _ => false) d).1 = .ok [x] := by decide +kernel
  refine ⟨(passAt 0 (· == "b") d).2, (passAt 1 (fun _ => false) d').2,
    (passAt 1 (fun _ => false) d).2, "burn samples for b: down", x, h ▸ passAt_exits _ _ _,
    answers_play _ _ d, fun he => ?_,
    ⟨h' ▸ passAt_exits _ _ _, answers_play _ _ d'⟩,
    h'' ▸ passAt_exits _ _ _, answers_play _ _ d⟩
  have hl := congrArg (fun d : Debouncer => d.last "slo_burn:a") he
  revert hl
  decide +kernel

end Beats.Rattle
