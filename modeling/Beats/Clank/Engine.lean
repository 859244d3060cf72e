import Beats.Api.Decision
import Beats.Contract
import Beats.Clank.Gate
import Beats.Lib.Prog

/-!
# The reason loop

`Engine.Propose` of `internal/clank`, as a program.  The clock, the ledger, the two sources of the
snapshot, the model, the tools, the checkpoint store, the causal scorer, the case base, the journal
and the publisher are its environment.

The program follows the source in four parts.  `propose` is the dedupe precheck, the run and its
terminal store record.  `run` assembles the snapshot, drives the loop and settles what came of it.
`turns` is the loop, bounded by `maxSteps`, and `dispatch` the tool calls of one turn.  `settle` is
everything after the loop.
-/

namespace Beats.Clank

open Proposal Contract Lib

/-! ## The conversation -/

/-- `reason.ToolCall`. -/
structure ToolCall where
  id : String := ""
  name : String := ""
  args : String := ""
deriving DecidableEq

/-- `reason.ToolResult`. -/
structure ToolResult where
  callID : String := ""
  digest : String := ""
  name : String := ""
  isError : Bool := false
deriving DecidableEq

/-- `reason.Message`. -/
structure Message where
  role : String := ""
  content : String := ""
  toolCalls : List ToolCall := []
  toolResults : List ToolResult := []
deriving DecidableEq

/-- `reason.Completion`, without its token counts. -/
structure Completion where
  message : Message := {}
  toolCalls : List ToolCall := []
deriving DecidableEq

/-- `reason.ToolSpec`. -/
structure ToolSpec where
  name : String := ""
  description : String := ""
  inputSchema : String := ""
deriving DecidableEq

/-- `Turn`: one checkpointed step. -/
structure Turn where
  runID : String := ""
  step : Nat := 0
  msgs : List Message := []
deriving DecidableEq

/-! ## The terminal tools -/

/-- `proposeCandidate`: what the model authors of a candidate. -/
structure ProposeCandidate where
  id : String := ""
  contractRef : String := ""
  confidence : Option Rat := none
  citations : List String := []
deriving DecidableEq

/-- `proposeInput`: the arguments of the tool `propose`. -/
structure ProposeInput where
  failureClass : FailureClass := .other ""
  hypotheses : List Hypothesis := []
  proposals : List ProposeCandidate := []
deriving DecidableEq

/-- `proposeInput.candidates`.  An unstated confidence is no ceiling. -/
def ProposeInput.candidates (p : ProposeInput) : List Candidate :=
  p.proposals.map fun c =>
    { id := c.id, contractRef := c.contractRef, confidence := c.confidence.getD 1,
      citations := c.citations }

/-- `insufficientInput`: the arguments of the tool `insufficient`. -/
structure InsufficientInput where
  reason : String := ""
  failureClass : FailureClass := .other ""
deriving DecidableEq

/-! ## The environment -/

/-- What the engine asks of its surroundings. -/
inductive Call where
  /-- `time.Now`. -/
  | now
  /-- `MemProposalLog.Open`. -/
  | opened (fingerprint : String) (since : Time)
  /-- `TopologySource.Topology`. -/
  | topology (sig : Signal.Detection)
  /-- `ChangeSource.Changes`. -/
  | changes (sig : Signal.Detection)
  /-- `Model.Complete`. -/
  | complete (msgs : List Message) (specs : List ToolSpec)
  /-- `Store.Checkpoint`. -/
  | checkpoint (t : Turn)
  /-- `Tool.Run` of the tool with the given name. -/
  | runTool (name args : String)
  /-- `CausalScorer.Score`. -/
  | score (fingerprint : String) (change : ChangeSnapshot) (topo : TopologySnapshot)
  /-- `Prior.Alignment`. -/
  | alignment (fingerprint : String)
  /-- `MemProposalLog.Record`. -/
  | record (set : Proposal.Set)
  /-- `Journal.Publish`. -/
  | journal (set : Proposal.Set)
  /-- `Pub.Publish`. -/
  | publish (subject : String) (set : Proposal.Set)
  /-- `Store.Finish`. -/
  | finish (runID : String) (err : Option String)

/-- The interface of the engine. -/
def iface : Iface where
  Call := Call
  Answer
    | .now => Time
    | .opened _ _ => Except String (List Proposal.Set)
    | .topology _ => Except String TopologySnapshot
    | .changes _ => Except String ChangeSnapshot
    | .complete _ _ => Except String Completion
    | .checkpoint _ => Except String Unit
    | .runTool _ _ => Except String EvidenceRef
    | .score _ _ _ => List CausalScore
    | .alignment _ => Rat × Bool
    | .record _ => Except String Unit
    | .journal _ => Except String Unit
    | .publish _ _ => Except String Unit
    | .finish _ _ => Except String Unit

/-- `Engine`: the authored parts, the limits, which optional parts are wired, and the
decoders of the two terminal tools. -/
structure Engine where
  tools : List (String × ToolSpec) := []
  catalog : StaticCatalog := {}
  failureClasses : List FailureClassDefinition := []
  weights : ScoringWeights := {}
  dedupeWindow : Duration := 0
  maxSteps : Int := 0
  prior : Bool := false
  journal : Bool := false
  pub : Bool := false
  proposeSchema : String := ""
  insufficientSchema : String := ""
  decodePropose : String → Except String ProposeInput
  decodeInsufficient : String → Except String InsufficientInput

/-! ## Intake -/

def topologyFromSignal (t : Signal.TopologyContext) : TopologySnapshot where
  upstream := t.upstream.map fun n => { name := n.name, state := n.state }
  downstream := t.downstream.map fun n => { name := n.name, state := n.state }

/-- `Intake.Assemble`. -/
def assemble (sig : Signal.Detection) : Prog iface String SAO := do
  let topo ← Prog.orFail (fun e => "intake: topology source: " ++ e)
    (← @Prog.ask iface String (.topology sig))
  let topo :=
    if topo.upstream = [] ∧ topo.downstream = [] then topologyFromSignal sig.topology else topo
  let change ← Prog.orFail (fun e => "intake: change source: " ++ e)
    (← @Prog.ask iface String (.changes sig))
  let assembledAt ← @Prog.ask iface String .now
  return {
    version := 1
    assembledAt := assembledAt
    signal :=
      { confidence := sig.divergence.confidence
        metric := sig.divergence.metric
        severity := sig.impact.severity
        blastRadius := sig.impact.blastRadius
        originService := sig.originService }
    topology := topo
    change := change }

/-! ## The prompt -/

def actionLine (c : ActionContract) : String :=
  let classNames := String.intercalate ", " (c.applicableFailureClasses.map FailureClass.text)
  if c.action.description ≠ "" then
    "- " ++ c.name ++ " — " ++ c.action.description ++ " (applies to: " ++ classNames ++ ")\n"
  else "- " ++ c.name ++ " (applies to: " ++ classNames ++ ")\n"

/-- The first line of the prompt. -/
def signalLine (sig : Signal.Detection) (sao : SAO) : String :=
  let subject := if sig.originService = "" then sig.name else sig.originService
  let confidence := Fmt.fixed 2 sao.signal.confidence
  let severity := Fmt.fixed 0 (sao.signal.severity.degradationPct * 100)
  let blast := Fmt.fixed 0 (sao.signal.blastRadius.affectedPct * 100)
  let task := "investigate with the read-only tools, then call propose with your hypotheses and a candidate action -- or insufficient if the evidence supports no action.\n"
  if sao.signal.metric ≠ "" then
    "signal on " ++ subject ++ " [" ++ sao.signal.metric ++ "] (confidence: " ++ confidence
      ++ ", severity: " ++ severity ++ "%, blast: " ++ blast ++ "%); " ++ task
  else
    "signal on " ++ subject ++ " (confidence " ++ confidence ++ ", severity " ++ severity
      ++ "%, blast " ++ blast ++ "%); " ++ task

def evidenceRules : String :=
  "evidence & confidence rules:\n"
    ++ "- to propose an action, cite at least one LIVE telemetry result about the affected service, or a node in its declared topology.\n"
    ++ "- a citation is the exact key shown as [cite: <key>] in a tool result, repeated verbatim — never a description of the value.\n"
    ++ "- grounding counts DISTINCT tools, not citations: one live backend cited twice grounds no better than once. Corroborate across a second tool before proposing — a metric plus logs, or a metric plus cluster state.\n"
    ++ "- state a confidence on every candidate. Confidence is two-sided: over-confidence risks an unsafe action, but under-confidence below the governance floor escalates to a human operator. The emitted number is computed from your citations' grounding; yours acts as a ceiling.\n"

def seedPrompt (sig : Signal.Detection) (sao : SAO) (classes : List FailureClassDefinition)
    (actions : List ActionContract) : String :=
  signalLine sig sao
    ++ (if sao.change.events = [] then ""
        else "recent change events:\n" ++ String.join (sao.change.events.map fun e =>
          "- " ++ e.type ++ " change on " ++ e.target ++ " (age "
            ++ Fmt.seconds (Fmt.roundSeconds e.age) ++ " seconds)\n"))
    ++ (if sao.topology.upstream = [] ∧ sao.topology.downstream = [] then ""
        else "observed topology:\n"
          ++ String.join (sao.topology.upstream.map fun n =>
            "- upstream " ++ n.name ++ ": " ++ n.state ++ "\n")
          ++ String.join (sao.topology.downstream.map fun n =>
            "- downstream " ++ n.name ++ ": " ++ n.state ++ "\n"))
    ++ evidenceRules
    ++ (if classes.isEmpty then ""
        else "failure classes — pick the one the EVIDENCE supports, not the one that has a matching action:\n"
          ++ String.join (classes.map fun d => "- " ++ d.cls.text ++ ": " ++ d.description ++ "\n"))
    ++ (if actions.isEmpty then
          "no catalogued action applies to this signal; if the evidence supports acting you must still call insufficient."
        else "you may ONLY propose an action from this catalog — use the exact contractRef:\n"
          ++ String.join (actions.map actionLine)
          ++ "if no catalogued action lists your diagnosed failure class, call insufficient and name the class — never reach for the nearest action.")

/-! ## The loop -/

/-- What the loop has come to.  `failureClass`, `hypotheses`, `proposals` and `reason` are
the fields of the set that it writes. -/
structure Loop where
  msgs : List Message := []
  evidence : List EvidenceRef := []
  failureClass : FailureClass := .other ""
  hypotheses : List Hypothesis := []
  proposals : List Candidate := []
  reason : String := ""
  proposed : Bool := false
  declined : Bool := false

/-- The loop before its first turn, with the prompt. -/
def Loop.start (prompt : String) : Loop := { msgs := [{ role := "user", content := prompt }] }

/-- The loop with the model's message in the conversation. -/
def Loop.heard (l : Loop) (message : Message) (calls : List ToolCall) : Loop :=
  { l with msgs := l.msgs ++ [{ message with toolCalls := calls }] }

/-- The loop with the tool results of a turn in the conversation, in one message. -/
def Loop.answered (l : Loop) (results : List ToolResult) : Loop :=
  { l with msgs :=
      if results = [] then l.msgs else l.msgs ++ [{ role := "tool", toolResults := results }] }

def evidenceKey (tool : String) (n : Nat) : String := tool ++ "-" ++ toString n

/-- The evidence with its key, which the engine assigns where the tool did not. -/
def keyed (tool : String) (n : Nat) (ref : EvidenceRef) : EvidenceRef :=
  if ref.key = "" then { ref with key := evidenceKey tool n } else ref

/-- The digest that the model is shown of a piece of evidence. -/
def digest (ref : EvidenceRef) : String :=
  if ref.key ≠ "" then ref.summary ++ " [cite: " ++ ref.key ++ "]" else ref.summary

/-- Calls without an ID get one, numbered from `i`. -/
def withCallIDsFrom (step : Nat) : Nat → List ToolCall → List ToolCall
  | _, [] => []
  | i, call :: calls =>
    (if call.id = "" then { call with id := "call_" ++ toString step ++ "_" ++ toString i }
    else call) :: withCallIDsFrom step (i + 1) calls

def withCallIDs (calls : List ToolCall) (step : Nat) : List ToolCall :=
  withCallIDsFrom step 0 calls

namespace Engine

/-- `Engine.toolSpecs`, in the order of their names. -/
def toolSpecs (e : Engine) : List ToolSpec :=
  let terminal : List ToolSpec :=
    [{ name := "propose"
       description := "Emit your final answer: the leading failure class, the competing hypotheses, and the candidate actions, each drawn from the action catalog."
       inputSchema := e.proposeSchema },
     { name := "insufficient"
       description := "Declare that no catalogued action can be proposed, and say why — name the missing evidence, or the diagnosed failure class no catalogued action applies to."
       inputSchema := e.insufficientSchema }]
  (e.tools.map Prod.snd ++ terminal).insertionSort fun a b => a.name ≤ b.name

/-- The tool calls of one turn, up to the first terminal one.  The result is the loop, the
tool results and whether a terminal tool ended the run. -/
def dispatch (e : Engine) :
    List ToolCall → Loop → List ToolResult → Prog iface String (Loop × List ToolResult × Bool)
  | [], l, results => return (l, results, false)
  | call :: calls, l, results =>
    if call.name = "propose" then do
      let p ← Prog.orFail (fun err => "decode propose: " ++ err) (e.decodePropose call.args)
      return ({ l with failureClass := p.failureClass, hypotheses := p.hypotheses,
                       proposals := p.candidates, proposed := true }, results, true)
    else if call.name = "insufficient" then do
      let i ← Prog.orFail (fun err => "decode insufficient: " ++ err)
        (e.decodeInsufficient call.args)
      return ({ l with reason := i.reason, failureClass := i.failureClass, declined := true },
        results, true)
    else match e.tools.lookup call.name with
      | none =>
        e.dispatch calls l (results ++
          [{ callID := call.id, name := call.name
             digest := "unknown tool " ++ Fmt.quote call.name, isError := true }])
      | some _ => do
        let ref ← Prog.orFail (fun err => "tool " ++ Fmt.quote call.name ++ ": " ++ err)
          (← @Prog.ask iface String (.runTool call.name call.args))
        let ref := keyed call.name l.evidence.length ref
        e.dispatch calls { l with evidence := l.evidence ++ [ref] } (results ++
          [{ callID := call.id, name := call.name, digest := digest ref }])

/-- The loop: at most `n` more turns, the next of them `step`. -/
def turns (e : Engine) (runID : String) : Nat → Nat → Loop → Prog iface String Loop
  | 0, _, l => return l
  | n + 1, step, l => do
    let comp ← Prog.orFail (fun err => "model complete (step " ++ toString step ++ "): " ++ err)
      (← @Prog.ask iface String (.complete l.msgs e.toolSpecs))
    let calls := withCallIDs comp.toolCalls step
    let l := l.heard comp.message calls
    Prog.orFail (fun err => "checkpoint (step " ++ toString step ++ "): " ++ err)
      (← @Prog.ask iface String (.checkpoint { runID := runID, step := step, msgs := l.msgs }))
    if calls = [] then
      return { l with reason := "model ended turn without a tool call", declined := true }
    else do
      let (l, results, done) ← e.dispatch calls l []
      if done then return l.answered results
      else e.turns runID n (step + 1) (l.answered results)

/-! ## The two enforcement passes -/

/-- `Engine.enforceCatalog`: the text of the refusal, if there is one. -/
def enforceCatalog (e : Engine) (set : Proposal.Set) (sao : SAO) : Option String :=
  let allowed := (e.catalog.applicable set.failureClass set.serviceTier sao).map ActionContract.name
  (set.proposals.find? fun cand => !allowed.contains cand.contractRef).map fun cand =>
    if (e.catalog.byName cand.contractRef).isSome then
      "candidate not applicable to declared failure class: " ++ Fmt.quote cand.contractRef
        ++ " does not apply to declared class " ++ Fmt.quote set.failureClass.text
    else "contract: proposed contract not in catalog: " ++ Fmt.quote cand.contractRef

def citationFault (gathered : List String) (cand : Candidate) : Option String :=
  if cand.citations = [] then
    some ("candidate " ++ Fmt.quote cand.id ++ " carries no citations")
  else (cand.citations.find? fun cite => !gathered.contains cite).map Fmt.quote

/-- `Engine.enforceCitations`: the text of the refusal, if there is one. -/
def enforceCitations (set : Proposal.Set) : Option String :=
  let gathered := (set.evidence.map EvidenceRef.key).filter (· ≠ "")
  (set.proposals.findSome? (citationFault gathered)).map fun fault =>
    "candidate cites evidence the run did not gather: " ++ fault

/-- No step of the reversal asks for a human. -/
def automaticReversal (steps : List Step) : Bool :=
  steps.all fun s => s.verb != "maintenanceRelease"

/-- What the catalog says of a candidate, stamped on it. -/
def stamp (c : ActionContract) (cand : Candidate) : Candidate :=
  { cand with
    blastTier := c.blastTier
    predictedImpact :=
      if c.successCriteria.severityReductionPct ≠ 0 then
        some { cand.predictedImpact.getD {} with
          severityReductionPct := c.successCriteria.severityReductionPct }
      else cand.predictedImpact
    reversalPath :=
      if c.reversal.method ≠ "" then
        some { method := c.reversal.method
               watching := c.successCriteria.metric
               trigger := c.successCriteria.target
               automatic := automaticReversal c.execution.reverse }
      else cand.reversalPath
    governanceLevel :=
      some { band :=
        if c.reversal.method ≠ "" then Decision.Band.text .actReversible
        else Decision.Band.text .actDisruptive } }

def enrich (cat : StaticCatalog) (cand : Candidate) : Candidate :=
  match cat.byName cand.contractRef with
  | none => cand
  | some c => stamp c cand

def enrichFromCatalog (cat : StaticCatalog) (cands : List Candidate) : List Candidate :=
  cands.map (enrich cat)

/-! ## After the loop -/

/-- The set of a loop, before it is judged. -/
def formed (sig : Signal.Detection) (runID : String) (sao : SAO) (l : Loop) : Proposal.Set where
  name := sig.name
  runID := runID
  signalRef := sig.fingerprint
  sloRef := sig.sloRef
  saoSnapshot := some sao
  serviceTier := sig.serviceTier
  failureClass := l.failureClass
  hypotheses := l.hypotheses
  proposals := l.proposals
  evidence := l.evidence
  status := some { reason := l.reason }

def recordAndJournal (e : Engine) (set : Proposal.Set) : Prog iface String Unit := do
  Prog.orFail (fun err => "record: " ++ err) (← @Prog.ask iface String (.record set))
  if e.journal then
    Prog.orFail (fun err => "journal: " ++ err) (← @Prog.ask iface String (.journal set))

/-- A run that proposes nothing ends with its set recorded. -/
def decline (e : Engine) (set : Proposal.Set) (phase : Phase) (reason : String) :
    Prog iface String Proposal.Set := do
  let set := { set with status := some { phase := phase, reason := reason } }
  e.recordAndJournal set
  return set

def scored (e : Engine) (sig : Signal.Detection) (sao : SAO) (scores : List CausalScore)
    (alignment : Rat × Bool) (set : Proposal.Set) : Proposal.Set :=
  let graded := scoreConfidences (enrichFromCatalog e.catalog set.proposals) set.evidence sao
    scores alignment e.weights
  let (ranked, why) := Ranker.rank graded sig.impact.blastRadius.velocity
  { set with
    causalScores := scores
    proposals := ranked
    rankingRationale := some why
    recommended := match ranked with
      | [] => set.recommended
      | c :: _ => c.id }

def gated (gate : GateResult) (reason : String) (set : Proposal.Set) : Proposal.Set :=
  { set with
    gate := some gate
    status := some
      (if gate.passed then { phase := .proposed, reason := reason }
      else { phase := .noAction, reason := gate.reason }) }

/-- The prior's reading for the fingerprint, where a prior is wired. -/
def alignment (e : Engine) (sig : Signal.Detection) : Prog iface String (Rat × Bool) :=
  if e.prior then @Prog.ask iface String (.alignment sig.fingerprint) else return (0, false)

/-- The set is recorded, and published if its gate passed. -/
def recordAndPublish (e : Engine) (set : Proposal.Set) : Prog iface String Proposal.Set := do
  e.recordAndJournal set
  if set.gatePassed && e.pub then do
    Prog.orFail (fun err => "publish: " ++ err)
      (← @Prog.ask iface String (.publish "thump.proposals" set))
    return set
  else return set

/-- Ask for open duplicates once more, and gate the scored set. -/
def gateAndPublish (e : Engine) (sig : Signal.Detection) (reason : String)
    (set : Proposal.Set) : Prog iface String Proposal.Set := do
  let gatedAt : Time ← @Prog.ask iface String .now
  let openDupes ← Prog.orFail (fun err => "open dupes: " ++ err)
    (← @Prog.ask iface String (.opened sig.fingerprint (gatedAt - e.dedupeWindow)))
  e.recordAndPublish (gated (ReadinessGate.evaluate set openDupes) reason set)

/-- A run that proposed and was not refused: score, rank, gate, record, journal, publish. -/
def emit (e : Engine) (sig : Signal.Detection) (sao : SAO) (reason : String)
    (set : Proposal.Set) : Prog iface String Proposal.Set := do
  let scores ← @Prog.ask iface String (.score set.signalRef sao.change sao.topology)
  let alignment ← e.alignment sig
  e.gateAndPublish sig reason (e.scored sig sao scores alignment set)

/-- What the loop came to is declined or emitted. -/
def settle (e : Engine) (sig : Signal.Detection) (runID : String) (sao : SAO) (l : Loop) :
    Prog iface String Proposal.Set :=
  let set := formed sig runID sao l
  if !l.proposed && !l.declined then
    e.decline { set with gate := some { budgetOK := false, reason := "budget" } }
      .budgetExhausted l.reason
  else if !l.proposed then e.decline set .noAction l.reason
  else match e.enforceCatalog set sao with
    | some refusal => e.decline set .noAction refusal
    | none => match enforceCitations set with
      | some refusal => e.decline set .noAction refusal
      | none => e.emit sig sao l.reason set

/-! ## Propose -/

/-- A run past the precheck. -/
def run (e : Engine) (sig : Signal.Detection) (runID : String) :
    Prog iface String Proposal.Set := do
  let sao ← assemble sig
  let actions := e.catalog.applicableToTier sig.serviceTier sao
  let prompt := seedPrompt sig sao e.failureClasses actions
  let l ← e.turns runID e.maxSteps.toNat 0 (Loop.start prompt)
  e.settle sig runID sao l

/-- `Engine.Propose`.  A detection that an open set answers gives the zero set. -/
def propose (e : Engine) (sig : Signal.Detection) : Prog iface String Proposal.Set := do
  let startedAt : Time ← @Prog.ask iface String .now
  let opened ← Prog.orFail (fun err => "open dupes: " ++ err)
    (← @Prog.ask iface String (.opened sig.fingerprint (startedAt - e.dedupeWindow)))
  if opened ≠ [] then return {}
  let mintedAt : Time ← @Prog.ask iface String .now
  let runID := sig.fingerprint ++ "/" ++ toString mintedAt.unixNano
  let out ← (e.run sig runID).attempt
  let _ ← @Prog.ask iface String (.finish runID (match out with
    | .ok _ => none
    | .error err => some err))
  Prog.ofExcept out

end Engine

end Beats.Clank
