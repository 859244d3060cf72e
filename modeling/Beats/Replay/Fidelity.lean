import Beats.Clank.Conduct
import Beats.Evidence.Metrics
import Beats.Replay.Course

/-!
# The fidelity of a replay

A replay comes to the evidence, the candidates and the recommendation of the run that it replays
(`propose_faithful`).  The parts of a set that it shares are `Shared`, and what the engine does to a
formed set before the gate is `judged`, for a live run and for a replayed one alike.  What a replay
does not restore (the name, the metric, the severity and the blast radius of the detection) has no
part in `judged`, since no candidate has a forecast yet.

Everything rests on the evidence naming the tool that it was asked of.  A response that the metrics
tool cannot decode leaves evidence that names none (`undecodable_diverges`).
-/

namespace Beats.Replay

open Proposal Clank Contract Lib List Prog Engine Player

/-! ## What scoring reads -/

/-- The two snapshots agree in what scoring reads. -/
structure SameView (sao sao' : SAO) : Prop where
  confidence : sao'.signal.confidence = sao.signal.confidence
  originService : sao'.signal.originService = sao.signal.originService
  topology : sao'.topology = sao.topology
  change : sao'.change = sao.change

section

variable {sao sao' : SAO}

theorem SameView.coherentSubject (h : SameView sao sao') (ref : EvidenceRef) :
    coherentSubject ref (some sao') = coherentSubject ref (some sao) := by
  simp only [Clank.coherentSubject, inTopology, h.originService, h.topology]

theorem SameView.coherentLiveCitations (h : SameView sao sao') (cand : Candidate)
    (evidence : List EvidenceRef) :
    coherentLiveCitations cand evidence (some sao') =
      coherentLiveCitations cand evidence (some sao) := by
  simp only [Clank.coherentLiveCitations, h.coherentSubject]

theorem SameView.scoreConfidences (h : SameView sao sao') (cands : List Candidate)
    (evidence : List EvidenceRef) (scores : List CausalScore) (alignment : Rat × Bool)
    (w : ScoringWeights) :
    scoreConfidences cands evidence sao' scores alignment w =
      scoreConfidences cands evidence sao scores alignment w := by
  refine map_congr_left fun c _ => ?_
  unfold scoreCandidate gradeCandidate
  rw [h.coherentLiveCitations, h.confidence]

end

theorem timeToEffect_enrich {cand : Candidate} (h : cand.predictedImpact = none)
    (cat : StaticCatalog) : timeToEffect (enrich cat cand) = 0 := by
  unfold enrich
  cases cat.byName cand.contractRef with
  | none => simp [timeToEffect, h]
  | some c =>
    by_cases hs : c.successCriteria.severityReductionPct = 0
    · simp [stamp, timeToEffect, h, hs]
    · simp [stamp, timeToEffect, h, hs, leadingNumber]

/-! ## What becomes of a formed set -/

/-- What the engine makes of a formed set before the gate. -/
def judged (e : Engine) (scorer : Scorer) (sig : Signal.Detection) (sao : SAO) (l : Loop)
    (set : Proposal.Set) : Proposal.Set :=
  if l.proposed then
    match e.enforceCatalog set sao, enforceCitations set with
    | none, none =>
      e.scored sig sao (scorer set.signalRef sao.change sao.topology)
        (CaseBase.alignment {} sig.fingerprint) set
    | _, _ => set
  else set

/-- The sets differ at most in gate and status. -/
def Keeps (a set : Proposal.Set) : Prop := set = { a with gate := set.gate, status := set.status }

/-- The causal scorer and the prior of a run are those of an empty case base. -/
structure EmptyCaseBase (scorer : Scorer) (t : List (Answered iface)) : Prop where
  scores : ∀ fingerprint change topo r,
    ⟨.score fingerprint change topo, r⟩ ∈ t → r = scorer fingerprint change topo
  prior : ∀ fingerprint r, ⟨.alignment fingerprint, r⟩ ∈ t →
    r = CaseBase.alignment {} fingerprint

section

variable {e : Engine} {scorer : Scorer} {sig : Signal.Detection} {sao : SAO} {l : Loop}
  {set set' : Set} {t : List (Answered iface)} {runID reason : String} {phase : Phase}

/-! ### In a live run -/

theorem decline_of_exits (h : (e.decline set phase reason).Exits t (.ok set')) :
    set' = { set with status := some { phase := phase, reason := reason } } := by
  obtain ⟨-, -, hset⟩ := exits_bind_ret h
  exact hset

theorem recordAndPublish_of_exits (h : (e.recordAndPublish set).Exits t (.ok set')) :
    set' = set := by
  obtain ⟨-, u, v, -, -, h⟩ := exits_bind_ok h
  cases hp : set.gatePassed && e.pub with
  | false =>
    simp only [hp] at h
    cases (exits_ret.mp h).2
    rfl
  | true =>
    simp only [hp, if_true] at h
    obtain ⟨r, w, -, hk⟩ := exits_ask_bind.mp h
    obtain ⟨-, -, hk⟩ := exits_orFail_ok hk
    cases (exits_ret.mp hk).2
    rfl

theorem gateAndPublish_of_exits (h : (e.gateAndPublish sig reason set).Exits t (.ok set')) :
    Keeps set set' := by
  obtain ⟨now, u, -, h⟩ := exits_ask_bind.mp h
  obtain ⟨r, v, -, h⟩ := exits_ask_bind.mp h
  obtain ⟨dupes, -, h⟩ := exits_orFail_ok h
  rw [recordAndPublish_of_exits h]
  rfl

theorem alignment_of_exits {al : Rat × Bool} (hcb : EmptyCaseBase scorer t)
    (h : (e.alignment sig).Exits t (.ok al)) : al = CaseBase.alignment {} sig.fingerprint := by
  unfold alignment at h
  cases hp : e.prior with
  | false =>
    simp only [hp] at h
    cases (exits_ret.mp h).2
    rfl
  | true =>
    simp only [hp] at h
    obtain ⟨r, u, rfl, hk⟩ := exits_call.mp h
    cases (exits_ret.mp hk).2
    exact hcb.prior _ _ mem_cons_self

theorem emit_of_exits (hcb : EmptyCaseBase scorer t)
    (h : (e.emit sig sao reason set).Exits t (.ok set')) :
    Keeps (e.scored sig sao (scorer set.signalRef sao.change sao.topology)
      (CaseBase.alignment {} sig.fingerprint) set) set' := by
  obtain ⟨scores, u, rfl, hk⟩ := exits_ask_bind.mp h
  obtain ⟨al, v, w, rfl, hal, hg⟩ := exits_bind_ok hk
  have hscores := hcb.scores _ _ _ _ mem_cons_self
  have hcbv : EmptyCaseBase scorer v :=
    ⟨fun _ _ _ _ hm => hcb.scores _ _ _ _ (by simp [hm]),
      fun _ _ hm => hcb.prior _ _ (by simp [hm])⟩
  have hal' := alignment_of_exits hcbv hal
  subst hscores hal'
  exact gateAndPublish_of_exits hg

theorem settle_of_exits (hcb : EmptyCaseBase scorer t)
    (h : (e.settle sig runID sao l).Exits t (.ok set)) :
    Keeps (judged e scorer sig sao l (formed sig runID sao l)) set := by
  unfold settle at h
  cases hp : l.proposed with
  | false =>
    cases hd : l.declined with
    | false =>
      simp only [hp, hd] at h
      rw [decline_of_exits h, judged, hp]
      rfl
    | true =>
      simp only [hp, hd] at h
      rw [decline_of_exits h, judged, hp]
      rfl
  | true =>
    simp only [hp, Bool.not_true, Bool.false_and] at h
    cases hcat : e.enforceCatalog (formed sig runID sao l) sao with
    | some refusal =>
      simp only [hcat] at h
      rw [decline_of_exits h]
      simp only [judged, hp, hcat, if_true]
      rfl
    | none =>
      cases hcit : enforceCitations (formed sig runID sao l) with
      | some refusal =>
        simp only [hcat, hcit] at h
        rw [decline_of_exits h]
        simp only [judged, hp, hcat, hcit, if_true]
        rfl
      | none =>
        simp only [hcat, hcit] at h
        simp only [judged, hp, hcat, hcit, if_true]
        exact emit_of_exits hcb h

/-! ### In a replay -/

variable {recorded : Set}

theorem runIn_recordAndPublish (e : Engine) (scorer : Scorer) (recorded set : Set)
    (p : Player) : ∃ p', runIn (answer scorer) p
    ((engine e recorded).recordAndPublish set) = (.ok set, p') := by
  have hpub : (set.gatePassed && (engine e recorded).pub) = false := Bool.and_false _
  unfold recordAndPublish
  rw [hpub]
  exact ⟨_, rfl⟩

/-- A replay comes to the set that it scores, whatever its gate says. -/
theorem runIn_emit (p : Player) : ∃ set' p', runIn (answer scorer) p
        ((engine e recorded).emit sig sao reason set) = (.ok set', p') ∧
      Keeps ((engine e recorded).scored sig sao (scorer set.signalRef sao.change sao.topology)
        (CaseBase.alignment {} sig.fingerprint) set) set' := by
  obtain ⟨p', hp'⟩ := runIn_recordAndPublish e scorer recorded _
    { p with readings := p.readings + 1 }
  exact ⟨_, p', hp', rfl⟩

theorem runIn_settle (e : Engine) (recorded : Set) (p : Player) :
    ∃ set' p', runIn (answer scorer) p
        ((engine e recorded).settle sig runID sao l) = (.ok set', p') ∧
      Keeps (judged (engine e recorded) scorer sig sao l (formed sig runID sao l)) set' := by
  unfold settle
  cases hp : l.proposed with
  | false =>
    cases hd : l.declined with
    | false | true => exact ⟨_, _, rfl, by rw [judged, hp]; rfl⟩
  | true =>
    simp only [Bool.not_true, Bool.false_and]
    cases hcat : (engine e recorded).enforceCatalog (formed sig runID sao l) sao with
    | some refusal =>
      refine ⟨_, _, rfl, ?_⟩
      simp only [judged, hp, hcat, if_true]
      rfl
    | none =>
      cases hcit : enforceCitations (formed sig runID sao l) with
      | some refusal =>
        refine ⟨_, _, rfl, ?_⟩
        simp only [judged, hp, hcat, hcit, if_true]
        rfl
      | none =>
        simp only [judged, hp, hcat, hcit, if_true]
        exact runIn_emit p

/-! ### The same in both -/

/-- The part of a set that its replay has in common with it. -/
structure Shared (set set' : Proposal.Set) : Prop where
  evidence : set'.evidence = set.evidence
  proposals : set'.proposals = set.proposals
  recommended : set'.recommended = set.recommended

theorem Shared.of_keeps {a b : Set} (h : Shared a b) (ha : Keeps a set)
    (hb : Keeps b set') : Shared set set' := by
  rw [ha, hb]
  exact ⟨h.evidence, h.proposals, h.recommended⟩

variable {sig' : Signal.Detection} {sao' : SAO}

theorem enforceCatalog_engine (hpre : ∀ c ∈ e.catalog.contracts, c.preconditions = [])
    (hclass : set'.failureClass = set.failureClass) (htier : set'.serviceTier = set.serviceTier)
    (hcands : set'.proposals = set.proposals) :
    (engine e recorded).enforceCatalog set' sao' = e.enforceCatalog set sao := by
  have happ := e.catalog.applicable_congr hpre set.failureClass set.serviceTier sao' sao
  simp only [enforceCatalog, hclass, htier, hcands]
  rw [← happ]
  rfl

/-- The candidates that are scored keep the order in which the model proposed them. -/
theorem scored_proposals (hl : Unforecast l) (scores : List CausalScore) (al : Rat × Bool) :
    (e.scored sig sao scores al (formed sig runID sao l)).proposals =
      renumber 1 (scoreConfidences (enrichFromCatalog e.catalog l.proposals) l.evidence sao
        scores al e.weights) := by
  refine rank_of_timeToEffect (fun c hc => ?_) _
  obtain ⟨d, hd, rfl⟩ := mem_map.mp hc
  obtain ⟨cand, hcand, rfl⟩ := mem_map.mp hd
  exact timeToEffect_enrich (hl cand hcand) e.catalog

theorem scored_recommended (scores : List CausalScore) (al : Rat × Bool) :
    (e.scored sig sao scores al (formed sig runID sao l)).recommended =
      match (e.scored sig sao scores al (formed sig runID sao l)).proposals with
      | [] => ""
      | c :: _ => c.id := rfl

/-- What the replayed engine makes of its formed set is what the live one makes of its own. -/
theorem judged_shared (hpre : ∀ c ∈ e.catalog.contracts, c.preconditions = [])
    (hview : SameView sao sao') (hfp : sig'.fingerprint = sig.fingerprint)
    (htier : sig'.serviceTier = sig.serviceTier) (hl : Unforecast l) (runID' : String)
    (msgs : List Message) :
    Shared (judged e scorer sig sao l (formed sig runID sao l))
      (judged (engine e recorded) scorer sig' sao' (saying l msgs)
        (formed sig' runID' sao' (saying l msgs))) := by
  have hcat : (engine e recorded).enforceCatalog
      (formed sig' runID' sao' (saying l msgs)) sao' =
      e.enforceCatalog (formed sig runID sao l) sao :=
    enforceCatalog_engine hpre rfl htier rfl
  have hcit : enforceCitations (formed sig' runID' sao' (saying l msgs)) =
      enforceCitations (formed sig runID sao l) := rfl
  have hprop : (saying l msgs).proposed = l.proposed := rfl
  have hunf : Unforecast (saying l msgs) := hl
  unfold judged
  rw [hcat, hcit, hprop]
  cases l.proposed with
  | false => exact ⟨rfl, rfl, rfl⟩
  | true =>
    cases e.enforceCatalog (formed sig runID sao l) sao with
    | some refusal => exact ⟨rfl, rfl, rfl⟩
    | none =>
      cases enforceCitations (formed sig runID sao l) with
      | some refusal => exact ⟨rfl, rfl, rfl⟩
      | none =>
        have hscores : scorer (formed sig' runID' sao' (saying l msgs)).signalRef
            sao'.change sao'.topology =
            scorer (formed sig runID sao l).signalRef sao.change sao.topology := by
          rw [hview.change, hview.topology]
          exact congrArg (fun fp => scorer fp sao.change sao.topology) hfp
        simp only [if_true, hscores, hfp]
        generalize scorer (formed sig runID sao l).signalRef sao.change sao.topology = scores
        have hcands : ((engine e recorded).scored sig' sao' scores
            (CaseBase.alignment {} sig.fingerprint)
            (formed sig' runID' sao' (saying l msgs))).proposals =
            (e.scored sig sao scores (CaseBase.alignment {} sig.fingerprint)
              (formed sig runID sao l)).proposals := by
          rw [scored_proposals hunf, scored_proposals hl, hview.scoreConfidences]
          rfl
        refine ⟨rfl, hcands, ?_⟩
        rw [scored_recommended, scored_recommended, hcands]

end

/-! ## The detection -/

theorem assemble_of_exits {sig : Signal.Detection} {sao : SAO} {t : List (Answered iface)}
    (h : (assemble sig).Exits t (.ok sao)) :
    sao.signal.confidence = sig.divergence.confidence ∧
      sao.signal.originService = sig.originService := by
  obtain ⟨r, u, -, h⟩ := exits_ask_bind.mp h
  obtain ⟨topo, -, h⟩ := exits_orFail_ok h
  obtain ⟨r, v, -, h⟩ := exits_ask_bind.mp h
  obtain ⟨change, -, h⟩ := exits_orFail_ok h
  obtain ⟨now, w, -, h⟩ := exits_ask_bind.mp h
  cases (exits_ret.mp h).2
  exact ⟨rfl, rfl⟩

theorem runIn_assemble {sao : SAO} (scorer : Scorer) (p : Player)
    (hsao : p.set.saoSnapshot = some sao) :
    ∃ sao', runIn (answer scorer) p (assemble (detectionFrom p.set)) =
        (.ok sao', { p with readings := p.readings + 1 }) ∧ SameView sao sao' := by
  have hd : detectionFrom p.set =
      { fingerprint := p.set.signalRef, serviceTier := p.set.serviceTier, sloRef := p.set.sloRef
        originService := sao.signal.originService
        divergence := { confidence := sao.signal.confidence } } := by
    simp only [detectionFrom, hsao]
  have htopo : answer scorer p (.topology (detectionFrom p.set)) =
      (.ok sao.topology, p) := by simp [answer, hsao]
  have hchange : answer scorer p (.changes (detectionFrom p.set)) =
      (.ok sao.change, p) := by simp [answer, hsao]
  -- An empty recorded topology falls back on the detection's, which is empty as well.
  have hfall : (if sao.topology.upstream = [] ∧ sao.topology.downstream = [] then
      topologyFromSignal (detectionFrom p.set).topology else sao.topology) = sao.topology := by
    split
    · next h =>
        rw [hd]
        cases htop : sao.topology with
        | mk up down =>
          rw [htop] at h
          obtain ⟨rfl, rfl⟩ := h
          rfl
    · rfl
  refine ⟨{ version := 1, assembledAt := p.clock p.readings
            signal := { confidence := sao.signal.confidence
                        originService := sao.signal.originService }
            topology := sao.topology, change := sao.change }, ?_, ⟨rfl, rfl, rfl, rfl⟩⟩
  refine (runIn_ask htopo).trans ?_
  simp only [orFail, ret_bind, hfall]
  refine (runIn_ask hchange).trans ?_
  rw [hd]
  rfl

/-! ## The calls around the loop -/

/-- The call leaves nothing in the transcript. -/
def Quiet : iface.Call → Prop
  | .checkpoint _ => False
  | .finish _ _ => False
  | _ => True

theorem quiet_of_intakeCall {c : iface.Call} (h : IntakeCall c) : Quiet c := by
  cases c <;> first | exact h.elim | trivial

theorem quiet_of_settleCall {c : iface.Call} (h : SettleCall c) : Quiet c := by
  cases c <;> first | exact h.elim | trivial

theorem transcriptLines_of_quiet : ∀ {t : List (Answered iface)},
    (∀ c r, ⟨c, r⟩ ∈ t → Quiet c) → transcriptLines t = []
  | [], _ => rfl
  | ⟨c, r⟩ :: t, h => by
    have hc := h c r mem_cons_self
    have ht := transcriptLines_of_quiet fun c r hm => h c r (mem_cons_of_mem _ hm)
    cases c <;> first | exact ht | exact hc.elim

/-! ## The run -/

section

variable {e : Engine} {sig : Signal.Detection} {set : Set} {t : List (Answered iface)}
  {scorer : Scorer} {runID : String}

/-- What a replay needs of a live run: the tools name themselves, the model's messages have
their role, and the case base is empty. -/
structure Replayable (scorer : Scorer) (t : List (Answered iface)) : Prop where
  stamped : Stamped t
  assistant : Assistant t
  caseBase : EmptyCaseBase scorer t

theorem Replayable.of_subset {u : List (Answered iface)} (h : Replayable scorer t) (hu : u ⊆ t) :
    Replayable scorer u :=
  ⟨h.stamped.of_subset hu, h.assistant.of_subset hu,
    ⟨fun fp change topo r hm => h.caseBase.scores fp change topo r (hu hm),
      fun fp r hm => h.caseBase.prior fp r (hu hm)⟩⟩

/-- The course of a run past the precheck. -/
structure Ran (e : Engine) (scorer : Scorer) (sig : Signal.Detection) (runID : String)
    (t : List (Answered iface)) (set : Proposal.Set) (sao : SAO) (comps : List Completion)
    (l : Loop) : Prop where
  confidence : sao.signal.confidence = sig.divergence.confidence
  originService : sao.signal.originService = sig.originService
  loop : ∃ prompt, Reasons e e.maxSteps.toNat 0 (Loop.start prompt) comps l
  lines : e.maxSteps.toNat ≠ 0 → LastTurn runID l t
  keeps : Keeps (judged e scorer sig sao l (formed sig runID sao l)) set

theorem ran_of_exits (hr : Replayable scorer t) (h : (e.run sig runID).Exits t (.ok set)) :
    ∃ sao comps l, Ran e scorer sig runID t set sao comps l := by
  obtain ⟨sao, u, v, rfl, hsao, h⟩ := exits_bind_ok h
  obtain ⟨l, w, x, rfl, hl, hx⟩ := exits_bind_ok h
  have hrw := hr.of_subset (u := w) (by simp)
  have hrx := hr.of_subset (u := x) (by simp)
  obtain ⟨comps, hreasons, hlines⟩ := reasons_of_exits hl hrw.stamped hrw.assistant
  obtain ⟨hconf, horigin⟩ := assemble_of_exits hsao
  refine ⟨sao, comps, l, hconf, horigin, ⟨_, hreasons⟩, fun hn => ?_,
    settle_of_exits hrx.caseBase hx⟩
  have hlast : LastTurn runID l w := by
    rcases hlines with ⟨h0, -⟩ | hlast
    · exact absurd h0 hn
    · exact hlast
  have hu : transcriptLines u = [] := transcriptLines_of_quiet fun c r hm =>
    quiet_of_intakeCall ((intakeCall_assemble sig).of_mem_only hsao hm)
  have hx' : transcriptLines x = [] := transcriptLines_of_quiet fun c r hm =>
    quiet_of_settleCall ((settleCall_settle e sig runID sao l).of_mem_only hx hm)
  obtain ⟨turn, hturn, hcomps⟩ := hlast.last
  have heq : transcriptLines (u ++ (w ++ x)) = transcriptLines w := by
    rw [transcriptLines_append, transcriptLines_append, hu, hx', nil_append, append_nil]
  exact ⟨heq ▸ hlast.ofRun, turn, heq ▸ hturn, hcomps⟩

theorem judged_formed (e : Engine) (scorer : Scorer) (sig : Signal.Detection) (runID : String)
    (sao : SAO) (l : Loop) :
    let set := judged e scorer sig sao l (formed sig runID sao l)
    set.evidence = l.evidence ∧ set.saoSnapshot = some sao ∧ set.signalRef = sig.fingerprint ∧
      set.serviceTier = sig.serviceTier := by
  dsimp only
  unfold judged
  split
  · split <;> exact ⟨rfl, rfl, rfl, rfl⟩
  · exact ⟨rfl, rfl, rfl, rfl⟩

theorem Ran.replay {sao : SAO} {comps : List Completion} {l : Loop}
    (hpre : ∀ c ∈ e.catalog.contracts, c.preconditions = []) (hsteps : e.maxSteps = maxSteps)
    (h : Ran e scorer sig runID t set sao comps l) (runID' : String) (p : Player)
    (hp : p.set = set) :
    ∃ set' p', runIn (answer scorer) (p.holding comps set.evidence)
        ((engine e set).run (detectionFrom set) runID') = (.ok set', p') ∧ Shared set set' := by
  obtain ⟨hevid, hsnap, hfp, htier⟩ := judged_formed e scorer sig runID sao l
  have hset_evid : set.evidence = l.evidence := (congrArg Set.evidence h.keeps).trans hevid
  have hset_sao : set.saoSnapshot = some sao :=
    (congrArg Set.saoSnapshot h.keeps).trans hsnap
  have hset_fp : set.signalRef = sig.fingerprint :=
    (congrArg Set.signalRef h.keeps).trans hfp
  have hset_tier : set.serviceTier = sig.serviceTier :=
    (congrArg Set.serviceTier h.keeps).trans htier
  obtain ⟨prompt, hloop⟩ := h.loop
  obtain ⟨new, hnew, htools⟩ := hloop.evidence
  have hnew' : set.evidence = new := hset_evid.trans (by simpa [Loop.start] using hnew)
  have hof : OfTools e set := fun ref href => htools ref (hnew' ▸ href)
  subst hp
  obtain ⟨sao', hassemble, hview⟩ := runIn_assemble scorer (p.holding comps p.set.evidence) hset_sao
  have hsig : (detectionFrom p.set).fingerprint = sig.fingerprint ∧
      (detectionFrom p.set).serviceTier = sig.serviceTier := by
    simp [detectionFrom, hset_sao, hset_fp, hset_tier]
  rw [hsteps] at hloop
  have hgathered : l.evidence = (Loop.start prompt).evidence ++ p.set.evidence := by
    rw [hnew, hnew']
  obtain ⟨msgs, hturns⟩ := hloop.replay scorer runID' hof { p with readings := p.readings + 1 } _
    hgathered fun ref href => href
  obtain ⟨set', p', hsettle, hkeeps⟩ := runIn_settle e p.set _
  refine ⟨set', p', (runIn_bind hassemble).trans ((runIn_bind hturns).trans hsettle), ?_⟩
  have hunf : Unforecast l := hloop.unforecast (by simp [Unforecast, Loop.start])
  exact (judged_shared hpre hview hsig.1 hsig.2 hunf runID' msgs).of_keeps h.keeps hkeeps

theorem runID_ne (fingerprint : String) (n : Int) : fingerprint ++ "/" ++ toString n ≠ "" := by
  intro h
  have hlen := congrArg String.length h
  have h₁ : "/".length = 1 := rfl
  simp only [String.length_append, h₁, String.length_empty] at hlen
  omega

/-- A run that returns stopped at the precheck, or it is a run past it and its terminal
record. -/
theorem run_of_exits (h : (e.propose sig).Exits t (.ok set)) :
    (∃ now opened since, t = [⟨.now, now⟩, ⟨.opened sig.fingerprint since, opened⟩]) ∨
      ∃ pre runID u err r, t = pre ++ (u ++ [⟨.finish runID err, r⟩]) ∧ transcriptLines pre = [] ∧
        runID ≠ "" ∧ (e.run sig runID).Exits u (.ok set) := by
  obtain ⟨now, u, rfl, h₁⟩ := exits_ask_bind.mp h
  obtain ⟨r, u, rfl, h₂⟩ := exits_ask_bind.mp h₁
  obtain ⟨opened, rfl, h₂⟩ := exits_orFail_ok h₂
  change (if opened ≠ [] then _ else _ : Prog iface String Set).Exits u (.ok set) at h₂
  by_cases hnil : opened ≠ []
  · rw [if_pos hnil] at h₂
    obtain ⟨rfl, -⟩ := exits_ret.mp h₂
    exact .inl ⟨now, _, _, rfl⟩
  · rw [if_neg hnil] at h₂
    obtain ⟨minted, u, rfl, h₃⟩ := exits_ask_bind.mp h₂
    obtain ⟨out, v, w, rfl, hv, h₄⟩ := exits_bind_ok h₃
    obtain ⟨x, hx, hrun⟩ := exits_attempt.mp hv
    cases hx
    obtain ⟨r, w, rfl, h₅⟩ := exits_ask_bind.mp h₄
    cases out with
    | error err => cases (exits_fail.mp h₅).2
    | ok set' =>
      obtain ⟨rfl, hset⟩ := exits_ret.mp h₅
      cases hset
      exact .inr ⟨[_, _, _], _, v, _, r, rfl, rfl, runID_ne _ _, hrun⟩

/-- The transcript of a run has the completions of its loop.  Its terminal record is passed
over. -/
theorem load_of_lastTurn {l : Loop} {u tail : List (Answered iface)} (hid : runID ≠ "")
    (h : LastTurn runID l u) (htail : ∀ turn ∈ transcriptLines tail, turn.runID = "")
    (path : String) :
    loadTranscript path (transcriptLines (u ++ tail)) (some set) =
      .ok { runID := runID, completions := completionsFrom l.msgs, set := set } := by
  obtain ⟨turn, hturn, hcomps⟩ := h.last
  have hfilter : ((transcriptLines (u ++ tail)).filter fun turn => turn.runID != "") =
      transcriptLines u := by
    rw [transcriptLines_append, filter_append, filter_eq_self.mpr fun turn hm => ?_,
      filter_eq_nil_iff.mpr fun turn hm => ?_, append_nil]
    · simp [htail turn hm]
    · simp [h.ofRun turn hm, hid]
  unfold loadTranscript
  rw [hfilter, hturn]
  simp only [hcomps, h.ofRun turn (mem_of_getLast? hturn), Option.getD_some]

/-- The ledger of a replay is empty, so the replay passes its precheck. -/
theorem propose_of_run {clock : Nat → Time} {tr : Transcript} {set' : Set} {p' : Player}
    (h : runIn (answer scorer) { player clock tr with readings := 2 }
      ((engine e tr.set).run (detectionFrom tr.set)
        ((detectionFrom tr.set).fingerprint ++ "/" ++ toString (clock 1).unixNano)) =
          (.ok set', p')) : propose e scorer clock tr = .ok set' := by
  exact congrArg Prod.fst ((runIn_bind (runIn_attempt h)).trans rfl)

/-- A completed run that recorded its set can be replayed from its transcript and that set:
the replay has the evidence of the run, its candidates in their order with their
confidences, and its recommendation. -/
theorem propose_faithful {parse : String → Except String (List ActionContract)} {raw : String}
    (hload : load parse raw Preconditions = .ok e.catalog) (hsteps : e.maxSteps = maxSteps)
    (hr : Replayable scorer t) (h : (e.propose sig).Exits t (.ok set))
    (hrec : ⟨.record set, (Except.ok () : Except String Unit)⟩ ∈ t)
    (path : String) (clock : Nat → Time) :
    ∃ tr set', loadTranscript path (transcriptLines t) (some set) = .ok tr ∧
      propose e scorer clock tr = .ok set' ∧ set'.evidence = set.evidence ∧
      set'.proposals = set.proposals ∧ set'.recommended = set.recommended := by
  obtain ⟨now, opened, since, rfl⟩ | ⟨pre, runID, u, err, r, rfl, hpre, hid, hrun⟩ := run_of_exits h
  · rcases mem_cons.mp hrec with he | he
    · cases he
    · cases mem_singleton.mp he
  obtain ⟨sao, comps, l, hran⟩ := ran_of_exits (hr.of_subset (by simp)) hrun
  have hlast := hran.lines (by rw [hsteps]; decide)
  obtain ⟨prompt, hloop⟩ := hran.loop
  have hcomps : completionsFrom l.msgs = comps := hloop.completions
  have htail : ∀ turn ∈ transcriptLines [⟨.finish runID err, r⟩], turn.runID = "" := by
    cases r <;> simp [transcriptLines]
  have hlines : transcriptLines (pre ++ (u ++ [⟨.finish runID err, r⟩])) =
      transcriptLines (u ++ [⟨.finish runID err, r⟩]) := by
    rw [transcriptLines_append, hpre, nil_append]
  obtain ⟨set', p', hreplay, hshared⟩ := hran.replay (load_preconditions hload).2 hsteps
    ((detectionFrom set).fingerprint ++ "/" ++ toString (clock 1).unixNano)
    { player clock { runID := runID, completions := comps, set := set } with readings := 2 } rfl
  refine ⟨{ runID := runID, completions := comps, set := set }, set', ?_, propose_of_run hreplay,
    hshared.evidence, hshared.proposals, hshared.recommended⟩
  rw [hlines, load_of_lastTurn hid hlast htail path, hcomps]

end

/-! ### A run of the metrics tool -/

def metricsEngine : Engine where
  tools := [("metrics", { name := "metrics" })]
  catalog :=
    { contracts :=
        [{ name := "throttle", applicableFailureClasses := [.dependencySaturation]
           applicableTiers := ["tier1"], reversal := { method := "unthrottle" } }] }
  weights := { groundingNone := 1 / 4, groundingOne := 1 / 2, groundingMany := 1 }
  dedupeWindow := 600000000000
  maxSteps := maxSteps
  prior := true
  journal := true
  pub := true
  decodePropose := fun cite =>
    .ok { failureClass := .dependencySaturation
          proposals := [{ id := "c1", contractRef := "throttle", citations := [cite] }] }
  decodeInsufficient := fun _ => .ok {}

def metricsDetection : Signal.Detection where
  name := "ps:checkout"
  fingerprint := "checkout"
  originService := "checkout"
  serviceTier := "tier1"
  divergence := { metric := "latency", confidence := 1 }

/-- The metrics tool with one query, over a backend that gives one answer. -/
def metricsAnswer (answer : Except Evidence.InstantQueryError (List String)) (args : String) :
    Except String EvidenceRef :=
  Evidence.MetricsTool.run { queries := [("up", { query := "up", subject := "checkout" })] }
    { decodeArgs := .ok, instantQuery := fun _ => answer, decodeValue := .ok } args

/-- The model asks the tool and proposes with a citation, and nothing fails. -/
def metricsScript (answer : Except Evidence.InstantQueryError (List String)) (cite : String) :
    (c : iface.Call) → iface.Answer c
  | .now => (0 : Int)
  | .opened _ _ => (.ok [] : Except String (List Proposal.Set))
  | .topology _ => (.ok {} : Except String TopologySnapshot)
  | .changes _ => (.ok {} : Except String ChangeSnapshot)
  | .complete _ _ =>
    (.ok { message := { role := "assistant" }
           toolCalls :=
             [{ name := "metrics", args := "up" }, { name := "propose", args := cite }] } :
      Except String Completion)
  | .checkpoint _ => (.ok () : Except String Unit)
  | .runTool name args =>
    (if name = "metrics" then metricsAnswer answer args else .error "" :
      Except String EvidenceRef)
  | .score _ _ _ => ([] : List CausalScore)
  | .alignment fingerprint => CaseBase.alignment {} fingerprint
  | .record _ => (.ok () : Except String Unit)
  | .journal _ => (.ok () : Except String Unit)
  | .publish _ _ => (.ok () : Except String Unit)
  | .finish _ _ => (.ok () : Except String Unit)

def metricsRun (answer : Except Evidence.InstantQueryError (List String)) (cite : String) :
    Except String Proposal.Set × List (Answered iface) :=
  Prog.play (fun _ c => (metricsScript answer cite c, ())) ()
    (metricsEngine.propose metricsDetection)

theorem assistant_metricsRun (answer : Except Evidence.InstantQueryError (List String))
    (cite : String) : Assistant (metricsRun answer cite).2 := by
  intro msgs specs comp hm
  cases eq_of_mem_play hm
  rfl

theorem emptyCaseBase_metricsRun (answer : Except Evidence.InstantQueryError (List String))
    (cite : String) : EmptyCaseBase (fun _ _ _ => []) (metricsRun answer cite).2 :=
  ⟨fun _ _ _ _ hm => eq_of_mem_play hm, fun _ _ hm => eq_of_mem_play hm⟩

/-- Where the backend's response decodes, the tool names itself. -/
theorem stamped_metricsRun {answer : Except Evidence.InstantQueryError (List String)}
    (h : ∀ err, answer ≠ .error (.decode err)) (cite : String) :
    Stamped (metricsRun answer cite).2 := by
  intro name args ref hm
  have hans : (Except.ok ref : Except String EvidenceRef) =
      if name = "metrics" then metricsAnswer answer args else .error "" := eq_of_mem_play hm
  by_cases hname : name = "metrics"
  · rw [if_pos hname] at hans
    rcases Evidence.MetricsTool.run_tool hans.symm with htool | ⟨-, _, _, err, -, -, hdec⟩
    · rw [htool, hname]
    · exact absurd hdec (h err)
  · rw [if_neg hname] at hans
    cases hans

/-- A response with one sample is evidence of the metrics tool, and the run is replayed. -/
theorem sampled_faithful : ∃ set, (metricsRun (.ok ["0"]) "up").1 = .ok set ∧
    ∃ tr set', loadTranscript "run.jsonl" (transcriptLines (metricsRun (.ok ["0"]) "up").2)
        (some set) = .ok tr ∧
      propose metricsEngine (fun _ _ _ => []) (fun n => n) tr = .ok set' ∧
      set'.evidence = set.evidence ∧ set'.proposals = set.proposals ∧
      set'.recommended = set.recommended := by
  obtain ⟨set, hset, hrec⟩ : ∃ set, (metricsRun (.ok ["0"]) "up").1 = .ok set ∧
      ⟨.record set, (Except.ok () : Except String Unit)⟩ ∈
        (metricsRun (.ok ["0"]) "up").2 :=
    ⟨_, rfl, mem_of_getElem? (i := 13) rfl⟩
  have hload : load (fun _ => .ok metricsEngine.catalog.contracts) "" Preconditions =
      .ok metricsEngine.catalog := rfl
  have hr : Replayable (fun _ _ _ => []) (metricsRun (.ok ["0"]) "up").2 :=
    ⟨stamped_metricsRun (fun err he => by cases he) "up", assistant_metricsRun _ _,
      emptyCaseBase_metricsRun _ _⟩
  exact ⟨set, hset, propose_faithful hload rfl hr (hset ▸ exits_play _ _ _) hrec "run.jsonl"
    fun n => n⟩

/-- A response that does not decode is evidence of no tool.  The model's messages have their
role, the case base is empty and the run records its set.  But its replay does not have the
tool, so it has no evidence, refuses the candidate that cites it and recommends nothing. -/
theorem undecodable_diverges :
    Assistant (metricsRun (.error (.decode "unexpected EOF")) "metrics-0").2 ∧
    EmptyCaseBase (fun _ _ _ => []) (metricsRun (.error (.decode "unexpected EOF")) "metrics-0").2 ∧
    ∃ set tr set', (metricsRun (.error (.decode "unexpected EOF")) "metrics-0").1 = .ok set ∧
      ⟨.record set, (Except.ok () : Except String Unit)⟩ ∈
        (metricsRun (.error (.decode "unexpected EOF")) "metrics-0").2 ∧
      loadTranscript "run.jsonl"
        (transcriptLines (metricsRun (.error (.decode "unexpected EOF")) "metrics-0").2)
        (some set) = .ok tr ∧
      propose metricsEngine (fun _ _ _ => []) (fun n => n) tr = .ok set' ∧
      set.evidence = [{ key := "metrics-0" }] ∧ set'.evidence = [] ∧
      set.recommended = "c1" ∧ set'.recommended = "" ∧
      set.proposals.map Candidate.computedConfidence = [1 / 4] ∧
      set'.proposals.map Candidate.computedConfidence = [0] := by
  refine ⟨assistant_metricsRun _ _, emptyCaseBase_metricsRun _ _, _, _, _, rfl,
    mem_of_getElem? (i := 13) rfl, rfl, rfl, ?_⟩
  decide +kernel

end Beats.Replay
