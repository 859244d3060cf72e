import Beats.Clank.CaseBase
import Beats.Clank.Engine

/-!
# Replaying a recorded run

`internal/replay`: a recorded run goes through a real engine once more.  The model's side is
read off the transcript (`completionsFrom`), and the evidence off the set that the run left.
It is grouped by the tool that it names, and a call of a tool gets the next piece of its
group (`Player`).  The detection is rebuilt from the set (`detectionFrom`).

The replayed engine has the catalog, the failure classes, the weights and the decoders of the
engine it replays.  It has an empty ledger and an empty case base of its own, so the causal
scorer is a function of what it is asked.
-/

namespace Beats.Replay

open Proposal Clank Lib

/-! ## The transcript -/

/-- `Transcript`: the model's turns and the set of a run. -/
structure Transcript where
  runID : String := ""
  completions : List Completion := []
  set : Proposal.Set := {}

/-- The completion that a message was. -/
def completionOf (m : Message) : Completion := { message := m, toolCalls := m.toolCalls }

def completionsFrom (msgs : List Message) : List Completion :=
  (msgs.filter fun m => m.role == "assistant").map completionOf

/-- The lines that a run leaves in its transcript: the turns it checkpointed, and its
terminal record, which reads as a turn without a run. -/
def transcriptLines (t : List (Answered iface)) : List Turn :=
  t.filterMap fun
    | ⟨.checkpoint turn, .ok ()⟩ => some turn
    | ⟨.finish _ _, .ok ()⟩ => some {}
    | _ => none

/-- `LoadTranscript`.  The turns are cumulative, so the last one has all messages. -/
def loadTranscript (path : String) (lines : List Turn) (set : Option Proposal.Set) :
    Except String Transcript :=
  match (lines.filter fun turn => turn.runID != "").getLast? with
  | none => .error (path ++ " holds no checkpointed turn")
  | some last =>
    .ok { runID := last.runID, completions := completionsFrom last.msgs, set := set.getD {} }

/-! ## The detection and the tools -/

/-- The detection that a set came from, as far as it is kept. -/
def detectionFrom (set : Proposal.Set) : Signal.Detection :=
  let d : Signal.Detection :=
    { fingerprint := set.signalRef, serviceTier := set.serviceTier, sloRef := set.sloRef }
  match set.saoSnapshot with
  | none => d
  | some sao =>
    { d with originService := sao.signal.originService
             divergence := { confidence := sao.signal.confidence } }

/-- `BuildTools`: the tools of a recorded run, by name. -/
def buildTools (set : Proposal.Set) : List (String × ToolSpec) :=
  (set.evidence.map EvidenceRef.tool).dedup.map fun name =>
    (name, { name := name, description := "replayed evidence from a recorded run" })

/-- The evidence that a recorded run had of a tool, in order. -/
def evidenceOf (name : String) (evidence : List EvidenceRef) : List EvidenceRef :=
  evidence.filter fun ref => ref.tool == name

/-! ## The player -/

/-- What the replayed engine runs against: the recorded turns and evidence that are left, the
set they are from, a ledger, and a clock with the number of its readings. -/
structure Player where
  set : Proposal.Set
  completions : List Completion
  refs : String → List EvidenceRef
  ledger : MemProposalLog := {}
  clock : Nat → Time
  readings : Nat := 0

def errTranscriptExhausted : String :=
  "replay: the loop asked for a turn this transcript does not hold"

/-- `Model.Complete` of the replay. -/
def Player.complete (p : Player) : Except String Completion × Player :=
  match p.completions with
  | [] => (.error errTranscriptExhausted, p)
  | comp :: comps => (.ok comp, { p with completions := comps })

/-- `recordedTool.Run`. -/
def Player.runTool (p : Player) (name : String) : Except String EvidenceRef × Player :=
  match p.refs name with
  | [] => (.error (errTranscriptExhausted ++ ": tool " ++ Fmt.quote name), p)
  | ref :: refs =>
    (.ok ref, { p with refs := fun n => if n = name then refs else p.refs n })

/-- The causal scorer over an empty case base, at the weights of the engine. -/
abbrev Scorer := String → ChangeSnapshot → TopologySnapshot → List CausalScore

/-- How the player answers the engine. -/
def Player.answer (scorer : Scorer) (p : Player) : (c : iface.Call) → iface.Answer c × Player
  | .now => (p.clock p.readings, { p with readings := p.readings + 1 })
  | .opened fingerprint since =>
    ((.ok ((p.ledger.open? fingerprint since).getD []) : Except String (List Proposal.Set)), p)
  | .topology _ =>
    ((.ok ((p.set.saoSnapshot.map SAO.topology).getD {}) : Except String TopologySnapshot), p)
  | .changes _ =>
    ((.ok ((p.set.saoSnapshot.map SAO.change).getD {}) : Except String ChangeSnapshot), p)
  | .complete _ _ => p.complete
  | .checkpoint _ => ((.ok () : Except String Unit), p)
  | .runTool name _ => p.runTool name
  | .score fingerprint change topo => (scorer fingerprint change topo, p)
  | .alignment fingerprint => (CaseBase.alignment {} fingerprint, p)
  | .record set =>
    ((.ok () : Except String Unit),
      { p with ledger := p.ledger.record (p.clock p.readings) set
               readings := p.readings + 1 })
  | .journal _ => ((.ok () : Except String Unit), p)
  | .publish _ _ => ((.ok () : Except String Unit), p)
  | .finish _ _ => ((.ok () : Except String Unit), p)

/-- The player of a transcript, before its first call. -/
def player (clock : Nat → Time) (tr : Transcript) : Player where
  set := tr.set
  completions := tr.completions
  refs name := evidenceOf name tr.set.evidence
  clock := clock

/-- `DefaultLimits().MaxSteps`. -/
def maxSteps : Int := 8

/-- The replayed engine: the authored parts of `e` over recorded tools, with a prior and
without journal and publisher. -/
def engine (e : Engine) (set : Proposal.Set) : Engine :=
  { e with
    tools := buildTools set
    dedupeWindow := 3600000000000
    maxSteps := maxSteps
    prior := true
    journal := false
    pub := false }

/-- `Propose` of the replay. -/
def propose (e : Engine) (scorer : Scorer) (clock : Nat → Time) (tr : Transcript) :
    Except String Proposal.Set :=
  (Prog.runIn (Player.answer scorer) (player clock tr)
    ((engine e tr.set).propose (detectionFrom tr.set))).1

end Beats.Replay
