import Beats.Clank.Grounding
import Beats.Clank.Ledger

/-!
# The conduct of a run

What a run of `Engine.Propose` may do at each point, whatever the model and the tools answer.
`RunLog` is the record of a run, read off its answered calls, and `conduct` the monitor that says
which call is in order in which record.  What is proved about runs elsewhere, and about many runs
that share a ledger, is drawn from one walk through the program (`conduct_propose`).

The walk follows the parts of the program.  Up to the end of the loop the record is `Reasoning`, and
`Looped` is what the loop has come to when it ends, in one of three ways.
-/

namespace Beats.Clank

open Proposal Contract Lib Monitor Engine

/-! ## The record of a run -/

/-- What a run has done so far. -/
structure RunLog where
  /-- The last reading of the clock. -/
  clock : Time := Time.zero
  /-- The dedupe queries, each with the reading it was made at and its answer. -/
  opens : List (Time × Except String (List Proposal.Set)) := []
  /-- How often the model was called. -/
  modelCalls : Nat := 0
  /-- What the model answered. -/
  completions : List Completion := []
  /-- The turn of the last model call was checkpointed. -/
  checkpointed : Bool := false
  /-- The evidence gathered, with its keys. -/
  evidence : List EvidenceRef := []
  /-- The ledger was asked to record a set. -/
  tried : Bool := false
  /-- The sets the ledger recorded. -/
  recorded : List Proposal.Set := []
  /-- The sets the journal took. -/
  journaled : List Proposal.Set := []
  /-- The sets that were published. -/
  published : List Proposal.Set := []
  /-- The journal or the publisher failed. -/
  failed : Bool := false

def RunLog.next (log : RunLog) : (c : Call) → iface.Answer c → RunLog
  | .now, t => { log with clock := t }
  | .opened _ _, r =>
    { log with
      opens := log.opens ++ [((log.clock, r) : Time × Except String (List Proposal.Set))] }
  | .complete _ _, .ok comp =>
    { log with modelCalls := log.modelCalls + 1, checkpointed := false
               completions := log.completions ++ [comp] }
  | .complete _ _, .error _ =>
    { log with modelCalls := log.modelCalls + 1, checkpointed := false }
  | .checkpoint _, .ok () => { log with checkpointed := true }
  | .runTool name _, .ok ref =>
    { log with evidence := log.evidence ++ [keyed name log.evidence.length ref] }
  | .record set, .ok () => { log with tried := true, recorded := log.recorded ++ [set] }
  | .record _, .error _ => { log with tried := true }
  | .journal set, .ok () => { log with journaled := log.journaled ++ [set] }
  | .journal _, .error _ => { log with failed := true }
  | .publish _ set, .ok () => { log with published := log.published ++ [set] }
  | .publish _ _, .error _ => { log with failed := true }
  | _, _ => log

/-- The record after the model answered `comp` and the turn was checkpointed. -/
def RunLog.turn (log : RunLog) (comp : Completion) : RunLog :=
  { log with modelCalls := log.modelCalls + 1, checkpointed := true
             completions := log.completions ++ [comp] }

/-- The record after the gate's dedupe query was answered. -/
def RunLog.asked (log : RunLog) (gatedAt : Time) (dupes : List Proposal.Set) : RunLog :=
  { log with clock := gatedAt, opens := log.opens ++ [(gatedAt, .ok dupes)] }

/-- The record of a run, from its answered calls. -/
def runLog : List (Answered iface) → RunLog := List.foldl (fun log a => log.next a.1 a.2) {}

/-! ## Completions -/

/-- The first terminal tool call of a turn: its name and its arguments. -/
def terminal? (calls : List ToolCall) : Option (String × String) :=
  (calls.find? fun call => call.name == "propose" || call.name == "insufficient").map
    fun call => (call.name, call.args)

/-- The turn called tools, and none of them a terminal one. -/
def Completion.Idle (comp : Completion) : Prop :=
  comp.toolCalls ≠ [] ∧ terminal? comp.toolCalls = none

/-- The run ended with a call of `propose` that decodes to `p`. -/
def Proposed (e : Engine) (completions : List Completion) (p : ProposeInput) : Prop :=
  ∃ comp args, completions.getLast? = some comp ∧
    terminal? comp.toolCalls = some ("propose", args) ∧ e.decodePropose args = .ok p

/-! ## Conduct -/

/-- The candidates are grounded in the catalog and the evidence. -/
def Grounded (cat : StaticCatalog) (log : RunLog) (set : Proposal.Set) : Prop :=
  ∃ sao, set.saoSnapshot = some sao ∧ ∀ c ∈ set.proposals,
    GroundedCandidate cat set.failureClass set.serviceTier sao log.evidence c

/-- The set has the evidence of the run, and its candidates cite nothing else. -/
def Cites (ev : List EvidenceRef) (set : Proposal.Set) : Prop :=
  set.evidence = ev ∧ ∀ c ∈ set.proposals, ∀ cite ∈ c.citations, ∃ ref ∈ ev, ref.key = cite

structure MayRecord (sig : Signal.Detection) (log : RunLog) (set : Proposal.Set) : Prop where
  signalRef : set.signalRef = sig.fingerprint
  fresh : log.tried = false
  prechecked : ∃ s, log.opens.head? = some (s, .ok [])
  passed : set.gatePassed = true →
    set.phase? = some .proposed ∧ ∃ s g, log.opens = [(s, .ok []), (g, .ok [])]
  notPassed : set.gatePassed = false → ∃ ph, set.phase? = some ph ∧ isOpen ph = false

structure MayPublish (e : Engine) (log : RunLog) (set : Proposal.Set) : Prop where
  recorded : log.recorded = [set]
  journaled : e.journal = true → log.journaled = [set]
  fresh : log.published = []
  passed : set.gatePassed = true
  grounded : e.catalog.DistinctNames → Grounded e.catalog log set
  cites : Cites log.evidence set
  derived : ∀ c ∈ set.proposals, ∃ ct, e.catalog.byName c.contractRef = some ct ∧ Derived ct c
  proposed : ∃ p, Proposed e log.completions p ∧
    (set.proposals.map Candidate.id).Perm (p.proposals.map ProposeCandidate.id)
  recommended : set.recommended = (set.proposals.head?.map Candidate.id).getD ""

/-- What every run of the engine keeps to. -/
def conduct (e : Engine) (sig : Signal.Detection) : Monitor iface RunLog where
  permits log
    | .opened fingerprint since =>
      fingerprint = sig.fingerprint ∧ since = log.clock - e.dedupeWindow ∧
        (log.opens = [] ∨ ∃ s, log.opens = [(s, .ok [])]) ∧ log.tried = false
    | .complete _ _ => log.modelCalls < e.maxSteps.toNat
    | .runTool _ _ => log.checkpointed = true
    | .record set => MayRecord sig log set
    | .journal set => log.recorded = [set] ∧ log.journaled = []
    | .publish subject set => subject = "thump.proposals" ∧ MayPublish e log set
    | _ => True
  next log c r := log.next c r

theorem conduct_after (e : Engine) (sig : Signal.Detection) :
    ∀ (t : List (Answered iface)) (log : RunLog),
      (conduct e sig).after log t = t.foldl (fun log a => log.next a.1 a.2) log
  | [], _ => rfl
  | ⟨c, r⟩ :: t, log => conduct_after e sig t (log.next c r)

/-! ## Up to the end of the loop -/

/-- The precheck passed and nothing is recorded yet. -/
structure Reasoning (e : Engine) (log : RunLog) : Prop where
  prechecked : ∃ s, log.opens = [(s, .ok [])]
  tried : log.tried = false
  recorded : log.recorded = []
  journaled : log.journaled = []
  published : log.published = []
  failed : log.failed = false
  bounded : log.modelCalls ≤ e.maxSteps.toNat

/-- What the loop has come to: it ran out of turns, it declined, or it proposed. -/
inductive Looped (e : Engine) (log : RunLog) (l : Loop) : Prop where
  | exhausted (proposed : l.proposed = false) (declined : l.declined = false)
      (idle : ∀ comp ∈ log.completions, comp.Idle)
      (spent : log.completions.length = e.maxSteps.toNat)
  | declined (proposed : l.proposed = false) (declined : l.declined = true)
      (busy : ∃ comp ∈ log.completions, ¬ comp.Idle)
  | proposed (proposed : l.proposed = true) (declined : l.declined = false)
      (busy : ∃ comp ∈ log.completions, ¬ comp.Idle) (p : ProposeInput)
      (input : Proposed e log.completions p) (proposals : l.proposals = p.candidates)

/-- The loop is still going, with `n` turns left. -/
structure Looping (e : Engine) (log : RunLog) (l : Loop) (n : Nat) : Prop where
  reasoning : Reasoning e log
  evidence : l.evidence = log.evidence
  proposed : l.proposed = false
  declined : l.declined = false
  idle : ∀ comp ∈ log.completions, comp.Idle
  counted : log.completions.length = log.modelCalls
  left : log.modelCalls + n = e.maxSteps.toNat

/-- What the tool calls of a turn have come to. -/
inductive Dispatched (e : Engine) (calls : List ToolCall) (l : Loop) : Bool → Prop where
  | idle (proposed : l.proposed = false) (declined : l.declined = false)
      (none : terminal? calls = none) : Dispatched e calls l false
  | declined (proposed : l.proposed = false) (declined : l.declined = true)
      (some : terminal? calls ≠ none) : Dispatched e calls l true
  | proposed (proposed : l.proposed = true) (declined : l.declined = false) (args : String)
      (p : ProposeInput) (some : terminal? calls = some ("propose", args))
      (input : e.decodePropose args = .ok p) (proposals : l.proposals = p.candidates) :
      Dispatched e calls l true

variable {reason : String} {phase : Phase} {gate : GateResult}

section

variable {e : Engine} {sig : Signal.Detection} {log : RunLog}

variable {l : Loop} {runID : String} {calls : List ToolCall} {sao : SAO} {set : Set}
  {call : ToolCall} {done : Bool} {p : ProposeInput}

theorem conduct_assemble :
    (conduct e sig).Allows (fun log' _ => ∃ t, log' = { log with clock := t })
      (assemble sig) log := by
  refine allows_ask_bind trivial (either (fun _ => ⟨log.clock, rfl⟩) fun _ => ?_)
  exact allows_ask_bind trivial
    (either (fun _ => ⟨log.clock, rfl⟩) fun _ => allows_ask_bind trivial fun t => ⟨t, rfl⟩)

theorem terminal?_cons_of_name (h : call.name = "propose" ∨ call.name = "insufficient") :
    terminal? (call :: calls) = some (call.name, call.args) := by
  rcases h with h | h <;> simp [terminal?, h]

theorem terminal?_cons_of_ne (hp : call.name ≠ "propose") (hi : call.name ≠ "insufficient") :
    terminal? (call :: calls) = terminal? calls := by
  simp [terminal?, hp, hi]

theorem Dispatched.cons (hp : call.name ≠ "propose") (hi : call.name ≠ "insufficient")
    (h : Dispatched e calls l done) : Dispatched e (call :: calls) l done := by
  have ht : terminal? (call :: calls) = terminal? calls := terminal?_cons_of_ne hp hi
  cases h with
  | idle h₁ h₂ h₃ => exact .idle h₁ h₂ (ht.trans h₃)
  | declined h₁ h₂ h₃ => exact .declined h₁ h₂ (ht ▸ h₃)
  | proposed h₁ h₂ args p h₃ h₄ h₅ => exact .proposed h₁ h₂ args p (ht.trans h₃) h₄ h₅

theorem Dispatched.answered {results : List ToolResult} (h : Dispatched e calls l done) :
    Dispatched e calls (l.answered results) done := by
  cases h with
  | idle h₁ h₂ h₃ => exact .idle h₁ h₂ h₃
  | declined h₁ h₂ h₃ => exact .declined h₁ h₂ h₃
  | proposed h₁ h₂ args p h₃ h₄ h₅ => exact .proposed h₁ h₂ args p h₃ h₄ h₅

theorem terminal?_withCallIDsFrom (step : Nat) : ∀ (i : Nat) (calls : List ToolCall),
      terminal? (withCallIDsFrom step i calls) = terminal? calls
  | _, [] => rfl
  | i, call :: calls => by
    unfold withCallIDsFrom
    generalize hc : (if call.id = "" then
      { call with id := "call_" ++ toString step ++ "_" ++ toString i } else call) = call'
    have hname : call'.name = call.name := by rw [← hc]; split <;> rfl
    have hargs : call'.args = call.args := by rw [← hc]; split <;> rfl
    by_cases hp : call.name = "propose"
    · rw [terminal?_cons_of_name (.inl (hname.trans hp)), terminal?_cons_of_name (.inl hp),
        hname, hargs]
    · by_cases hi : call.name = "insufficient"
      · rw [terminal?_cons_of_name (.inr (hname.trans hi)), terminal?_cons_of_name (.inr hi),
          hname, hargs]
      · rw [terminal?_cons_of_ne (hname ▸ hp) (hname ▸ hi), terminal?_cons_of_ne hp hi,
          terminal?_withCallIDsFrom step (i + 1) calls]

variable {step : Nat} {scores : List CausalScore} {alignment : Rat × Bool}

theorem withCallIDs_eq_nil : withCallIDs calls step = [] ↔ calls = [] := by
  cases calls <;> simp [withCallIDs, withCallIDsFrom]

theorem conduct_dispatch : ∀ (calls : List ToolCall) (l : Loop) (log : RunLog)
    (results : List ToolResult), log.checkpointed = true → l.evidence = log.evidence →
    l.proposed = false → l.declined = false →
    (conduct e sig).Allows
      (fun log' out => ∃ ev, log' = { log with evidence := ev } ∧
        ∀ l' rs done, out = .ok (l', rs, done) → l'.evidence = ev ∧ Dispatched e calls l' done)
      (e.dispatch calls l results) log
  | [], l, log, results, _, hev, hp, hd => by
    refine ⟨log.evidence, rfl, fun l' rs done hout => ?_⟩
    cases hout
    exact ⟨hev, .idle hp hd rfl⟩
  | call :: calls, l, log, results, hck, hev, hp, hd => by
    unfold dispatch
    by_cases hprop : call.name = "propose"
    · rw [if_pos hprop]
      cases hdec : e.decodePropose call.args with
      | error err => exact ⟨log.evidence, rfl, fun l' rs done hout => by cases hout⟩
      | ok p =>
        refine ⟨log.evidence, rfl, fun l' rs done hout => ?_⟩
        cases hout
        refine ⟨hev, .proposed rfl hd call.args p ?_ hdec rfl⟩
        rw [terminal?_cons_of_name (.inl hprop), hprop]
    · rw [if_neg hprop]
      by_cases hins : call.name = "insufficient"
      · rw [if_pos hins]
        cases hdec : e.decodeInsufficient call.args with
        | error err => exact ⟨log.evidence, rfl, fun l' rs done hout => by cases hout⟩
        | ok i =>
          refine ⟨log.evidence, rfl, fun l' rs done hout => ?_⟩
          cases hout
          refine ⟨hev, .declined hp rfl ?_⟩
          rw [terminal?_cons_of_name (.inr hins)]
          exact Option.some_ne_none _
      · rw [if_neg hins]
        cases e.tools.lookup call.name with
        | none =>
          refine (conduct_dispatch calls l log _ hck hev hp hd).mono fun log' out h => ?_
          obtain ⟨ev, hlog, hout⟩ := h
          exact ⟨ev, hlog, fun l' rs done ho =>
            ⟨(hout l' rs done ho).1, (hout l' rs done ho).2.cons hprop hins⟩⟩
        | some spec =>
          refine allows_ask_bind hck
            (either (fun _ => ⟨log.evidence, rfl, fun l' rs done hout => by cases hout⟩)
              fun ref => ?_)
          have hev' : l.evidence ++ [keyed call.name l.evidence.length ref] =
              log.evidence ++ [keyed call.name log.evidence.length ref] := by rw [hev]
          refine (conduct_dispatch calls
            { l with evidence := l.evidence ++ [keyed call.name l.evidence.length ref] }
            (log.next (.runTool call.name call.args) (.ok ref)) _
            hck hev' hp hd).mono fun log' out h => ?_
          obtain ⟨ev, hlog, hout⟩ := h
          exact ⟨ev, hlog, fun l' rs done ho =>
            ⟨(hout l' rs done ho).1, (hout l' rs done ho).2.cons hprop hins⟩⟩

/-- The turn of a completion ends the loop, or leaves it one turn shorter. -/
theorem Dispatched.looped {comp : Completion} {n : Nat} (log : RunLog) (hr : Reasoning e log)
    (hev : l.evidence = log.evidence) (hlast : log.completions.getLast? = some comp)
    (hidle : ∀ c ∈ log.completions.dropLast, c.Idle)
    (hcount : log.completions.length = log.modelCalls)
    (hleft : log.modelCalls + n = e.maxSteps.toNat) (hne : comp.toolCalls ≠ [])
    (h : Dispatched e (withCallIDs comp.toolCalls step) l done) :
    (done = true → Looped e log l) ∧ (done = false → Looping e log l n) := by
  have ht : terminal? (withCallIDs comp.toolCalls step) = terminal? comp.toolCalls :=
    terminal?_withCallIDsFrom step 0 comp.toolCalls
  have hmem : comp ∈ log.completions := List.mem_of_getLast? hlast
  cases h with
  | idle hp hd hn =>
    refine ⟨fun h => (Bool.false_ne_true h).elim, fun _ => ⟨hr, hev, hp, hd, ?_, hcount, hleft⟩⟩
    intro c hc
    rw [← List.dropLast_append_getLast? comp hlast] at hc
    rcases List.mem_append.mp hc with hc | hc
    · exact hidle c hc
    · rw [List.mem_singleton.mp hc]
      exact ⟨hne, ht ▸ hn⟩
  | declined hp hd hn =>
    exact ⟨fun _ => .declined hp hd ⟨comp, hmem, fun hi => hn (ht.trans hi.2)⟩,
      fun h => (Bool.false_ne_true h.symm).elim⟩
  | proposed hp hd args p hs hin hps =>
    have hs' := ht.symm.trans hs
    refine ⟨fun _ =>
        .proposed hp hd ⟨comp, hmem, fun hi => ?_⟩ p ⟨comp, args, hlast, hs', hin⟩ hps,
      fun h => (Bool.false_ne_true h.symm).elim⟩
    rw [hi.2] at hs'
    cases hs'

/-- The loop ends in one of its three ways, within its turns. -/
theorem conduct_turns : ∀ (n step : Nat) {l : Loop} {log : RunLog}, Looping e log l n →
    (conduct e sig).Allows
      (fun log' out => Reasoning e log' ∧
        ∀ l', out = .ok l' → l'.evidence = log'.evidence ∧ Looped e log' l')
      (e.turns runID n step l) log
  | 0, step, l, log, h => by
    refine ⟨h.reasoning, fun l' hl => ?_⟩
    cases hl
    exact ⟨h.evidence, .exhausted h.proposed h.declined h.idle (h.counted.trans h.left)⟩
  | n + 1, step, l, log, h => by
    have hlt : log.modelCalls < e.maxSteps.toNat := by have := h.left; omega
    refine allows_ask_bind hlt
      (either (fun _ => ⟨{ h.reasoning with bounded := hlt }, fun l' hl => by cases hl⟩)
        fun comp => ?_)
    refine allows_ask_bind trivial
      (either (fun _ => ⟨{ h.reasoning with bounded := hlt }, fun l' hl => by cases hl⟩)
        fun _ => ?_)
    have hleft : (log.turn comp).modelCalls + n = e.maxSteps.toNat := by
      have := h.left
      simp only [RunLog.turn]
      omega
    have hck : (log.turn comp).checkpointed = true := rfl
    show (conduct e sig).Allows _
      (if withCallIDs comp.toolCalls step = [] then _ else _) (log.turn comp)
    by_cases hnil : withCallIDs comp.toolCalls step = []
    · rw [if_pos hnil]
      refine ⟨{ h.reasoning with bounded := hlt }, fun l' hl => ?_⟩
      cases hl
      have hmem : comp ∈ (log.turn comp).completions := by simp [RunLog.turn]
      exact ⟨h.evidence, .declined h.proposed rfl
        ⟨comp, hmem, fun hi => hi.1 (withCallIDs_eq_nil.mp hnil)⟩⟩
    · rw [if_neg hnil]
      refine (conduct_dispatch _ (l.heard comp.message (withCallIDs comp.toolCalls step))
        (log.turn comp) [] hck h.evidence h.proposed h.declined).bind ?_ ?_
      · rintro log' ⟨l', results, done⟩ ⟨ev, rfl, hout⟩
        obtain ⟨hev, hd⟩ := hout l' results done rfl
        have hev' : (l'.answered results).evidence = ev := hev
        obtain ⟨hdone, hmore⟩ := hd.answered.looped { log.turn comp with evidence := ev }
          { h.reasoning with bounded := hlt } hev' (by simp [RunLog.turn])
          (by simpa [RunLog.turn] using h.idle) (by simp [RunLog.turn, h.counted])
          hleft (mt withCallIDs_eq_nil.mpr hnil)
        cases done with
        | true =>
          refine ⟨{ h.reasoning with bounded := hlt }, fun l'' hl => ?_⟩
          cases hl
          exact ⟨hev, hdone rfl⟩
        | false => exact conduct_turns n (step + 1) (hmore rfl)
      · rintro log' err ⟨ev, rfl, -⟩
        exact ⟨{ h.reasoning with bounded := hlt }, fun l' hl => by cases hl⟩

/-! ## After the loop -/

/-- A run past the precheck came to the set. -/
structure Ended (e : Engine) (log : RunLog) (set : Proposal.Set) : Prop where
  recorded : log.recorded = [set]
  journaled : e.journal = true → log.journaled = [set]
  published : log.published = if set.gatePassed && e.pub then [set] else []
  phase : set.gatePassed = true → set.phase? = some .proposed
  budget : set.phase? = some .budgetExhausted ↔
    log.completions.length = e.maxSteps.toNat ∧ ∀ comp ∈ log.completions, comp.Idle

/-- What a run has come to when it ends.  A run that recorded an emitted set and failed had
its journal or its publisher fail. -/
structure Final (e : Engine) (log : RunLog) (out : Except String Proposal.Set) : Prop where
  bounded : log.modelCalls ≤ e.maxSteps.toNat
  ended : ∀ set, out = .ok set → (∃ s, log.opens.head? = some (s, .ok [])) → Ended e log set
  failed : ∀ err, out = .error err → (∃ set ∈ log.recorded, set.gatePassed = true) →
    log.failed = true

theorem Final.of_error (hb : log.modelCalls ≤ e.maxSteps.toNat)
    (h : log.recorded = [] ∨ log.failed = true) (err : String) : Final e log (.error err) := by
  refine ⟨hb, fun set hs => (by cases hs), fun _ _ ⟨set, hmem, _⟩ => ?_⟩
  rcases h with h | h
  · rw [h] at hmem
    cases hmem
  · exact h

theorem conduct_recordAndJournal (hm : MayRecord sig log set)
    (hr : log.recorded = []) (hj : log.journaled = []) :
    (conduct e sig).Allows
      (fun log' out =>
        (out = .ok () → log' = { log with
          tried := true, recorded := [set], journaled := if e.journal then [set] else [] }) ∧
        (∀ err, out = .error err → log'.modelCalls = log.modelCalls ∧
          (log'.recorded = [] ∨ log'.failed = true)))
      (e.recordAndJournal set) log := by
  refine allows_ask_bind hm
    (either (fun _ => ⟨fun h => (by cases h), fun _ _ => ⟨rfl, .inl hr⟩⟩) fun _ => ?_)
  show (conduct e sig).Allows _ (if e.journal = true then _ else _)
    { log with tried := true, recorded := log.recorded ++ [set] }
  rw [hr, List.nil_append]
  cases hjr : e.journal with
  | false =>
    exact ⟨fun _ => by simp [hj], fun _ h => by cases h⟩
  | true =>
    rw [if_pos rfl]
    refine allows_ask_bind ⟨rfl, hj⟩
      (either (fun _ => ⟨fun h => (by cases h), fun _ _ => ⟨rfl, .inr rfl⟩⟩) fun _ => ?_)
    refine ⟨fun _ => ?_, fun _ h => by cases h⟩
    show { log with
      tried := true, recorded := [set], journaled := log.journaled ++ [set] } = _
    rw [hj, List.nil_append]

theorem conduct_decline (hl : Reasoning e log) (hsig : set.signalRef = sig.fingerprint)
    (hg : set.gatePassed = false) (hphase : isOpen phase = false)
    (hbudget : phase = .budgetExhausted ↔
      log.completions.length = e.maxSteps.toNat ∧ ∀ comp ∈ log.completions, comp.Idle) :
    (conduct e sig).Allows (Final e) (e.decline set phase reason) log := by
  have hm : MayRecord sig log { set with status := some { phase := phase, reason := reason } } := by
    obtain ⟨s, hs⟩ := hl.prechecked
    refine ⟨hsig, hl.tried, ⟨s, by rw [hs]; rfl⟩, fun h => ?_, fun _ => ⟨phase, rfl, hphase⟩⟩
    exact absurd (h.symm.trans hg) (by decide)
  refine (conduct_recordAndJournal hm hl.recorded hl.journaled).bind ?_ ?_
  · rintro log' _ ⟨hok, -⟩
    rw [hok rfl]
    refine ⟨hl.bounded, fun set' hs _ => ?_, fun _ h => by cases h⟩
    cases hs
    refine ⟨rfl, fun hj => if_pos hj, ?_, fun h => absurd (h.symm.trans hg) (by decide), ?_⟩
    · show log.published = if set.gatePassed && e.pub then _ else _
      rw [hl.published, hg]
      rfl
    · show some phase = some Phase.budgetExhausted ↔ _
      rw [Option.some.injEq]
      exact hbudget
  · rintro log' err ⟨-, herr⟩
    obtain ⟨hmc, hfail⟩ := herr err rfl
    exact Final.of_error (hmc ▸ hl.bounded) hfail err

theorem gatePassed_gated (gate : GateResult) (reason : String) (set : Set) :
    (gated gate reason set).gatePassed = gate.passed := rfl

theorem phase?_gated (gate : GateResult) (reason : String) (set : Set) :
    (gated gate reason set).phase? =
      some (if gate.passed then .proposed else .noAction) := by
  cases h : gate.passed <;> simp [gated, Set.phase?, h]

theorem recommended_scored (h : set.recommended = "") :
    (e.scored sig sao scores alignment set).recommended =
      ((e.scored sig sao scores alignment set).proposals.head?.map Candidate.id).getD "" := by
  simp only [scored]
  split
  · rename_i hr
    rw [hr, h]
    rfl
  · rename_i c cs hr
    rw [hr]
    rfl

theorem conduct_recordAndPublish (hb : log.modelCalls ≤ e.maxSteps.toNat)
    (hm : MayRecord sig log set) (hr : log.recorded = []) (hj : log.journaled = [])
    (hpub : log.published = []) (hbudget : set.phase? ≠ some .budgetExhausted)
    (hbusy : ∃ comp ∈ log.completions, ¬ comp.Idle)
    (hmay : set.gatePassed = true → MayPublish e
      { log with tried := true, recorded := [set], journaled := if e.journal then [set] else [] }
      set) :
    (conduct e sig).Allows (Final e) (e.recordAndPublish set) log := by
  have hiff : set.phase? = some .budgetExhausted ↔
      log.completions.length = e.maxSteps.toNat ∧ ∀ comp ∈ log.completions, comp.Idle := by
    obtain ⟨comp, hc, hi⟩ := hbusy
    exact iff_of_false hbudget fun h => hi (h.2 comp hc)
  refine (conduct_recordAndJournal hm hr hj).bind ?_ ?_
  · rintro log' _ ⟨hok, -⟩
    rw [hok rfl]
    by_cases hp : (set.gatePassed && e.pub) = true
    · rw [if_pos hp]
      refine allows_ask_bind ⟨rfl, hmay ((Bool.and_eq_true _ _ ▸ hp).1)⟩ fun r => ?_
      cases r with
      | error err =>
        show Final e _ (.error _)
        refine Final.of_error ?_ ?_ _
        · exact hb
        · exact .inr rfl
      | ok _ =>
        refine ⟨hb, fun set' hs _ => ?_, fun _ h => by cases h⟩
        cases hs
        refine ⟨rfl, fun h => if_pos h, ?_, fun h => (hm.passed h).1, hiff⟩
        show log.published ++ [set] = _
        rw [hpub, if_pos hp, List.nil_append]
    · rw [if_neg hp]
      refine ⟨hb, fun set' hs _ => ?_, fun _ h => by cases h⟩
      cases hs
      refine ⟨rfl, fun h => if_pos h, ?_, fun h => (hm.passed h).1, hiff⟩
      show log.published = _
      rw [hpub, if_neg hp]
  · rintro log' err ⟨-, herr⟩
    obtain ⟨hmc, hfail⟩ := herr err rfl
    exact Final.of_error (hmc ▸ hb) hfail err

theorem formed_unstamped (hps : l.proposals = p.candidates) :
    ∀ c ∈ (formed sig runID sao l).proposals, Unstamped c := by
  intro c hc
  have hc' : c ∈ l.proposals := hc
  rw [hps] at hc'
  exact ProposeInput.unstamped hc'

/-- A scored set is grounded, as `MayPublish` asks for it. -/
theorem grounded_scored {log' : RunLog} (hps : l.proposals = p.candidates)
    (hcat : e.enforceCatalog (formed sig runID sao l) sao = none)
    (hcite : enforceCitations (formed sig runID sao l) = none)
    (hev : l.evidence = log'.evidence) (hd : e.catalog.DistinctNames) :
    Grounded e.catalog log' (gated gate l.reason
      (e.scored sig sao scores alignment (formed sig runID sao l))) := by
  refine ⟨sao, rfl, fun c hc => ?_⟩
  rw [← hev]
  exact scored_grounded hd (formed_unstamped hps) hcat hcite hc

theorem cites_scored (h : enforceCitations (formed sig runID sao l) = none) :
    Cites l.evidence (gated gate reason
      (e.scored sig sao scores alignment (formed sig runID sao l))) := by
  refine ⟨rfl, fun c hc cite hcite => ?_⟩
  obtain ⟨c₀, hc₀, hsame⟩ := mem_scored hc
  rw [hsame.citations, enrich_citations] at hcite
  exact (enforceCitations_none h hc₀).2 cite hcite

/-- A run that proposed and was not refused records its set, and publishes it if its gate
passed. -/
theorem conduct_emit (hl : Reasoning e log)
    (hev : l.evidence = log.evidence) (hbusy : ∃ comp ∈ log.completions, ¬ comp.Idle)
    (hin : Proposed e log.completions p) (hps : l.proposals = p.candidates)
    (hcat : e.enforceCatalog (formed sig runID sao l) sao = none)
    (hcite : enforceCitations (formed sig runID sao l) = none) :
    (conduct e sig).Allows (Final e)
      (e.emit sig sao l.reason (formed sig runID sao l)) log := by
  obtain ⟨s, hs⟩ := hl.prechecked
  refine allows_ask_bind trivial fun scores => ?_
  have hrest (alignment : Rat × Bool) : (conduct e sig).Allows (Final e)
      (e.gateAndPublish sig l.reason
        (e.scored sig sao scores alignment (formed sig runID sao l))) log := by
    refine allows_ask_bind trivial fun gatedAt => ?_
    refine allows_ask_bind ⟨rfl, rfl, .inr ⟨s, hs⟩, hl.tried⟩ fun dupes => ?_
    cases dupes with
    | error err =>
      show Final e _ (.error _)
      refine Final.of_error ?_ ?_ _
      · exact hl.bounded
      · exact .inl hl.recorded
    | ok dupes =>
      show (conduct e sig).Allows (Final e) _ (log.asked gatedAt dupes)
      have hopens : (log.asked gatedAt dupes).opens = [(s, .ok []), (gatedAt, .ok dupes)] := by
        simp [RunLog.asked, hs]
      refine conduct_recordAndPublish hl.bounded ?_ hl.recorded hl.journaled hl.published ?_
        hbusy fun hpass => ?_
      · refine ⟨rfl, hl.tried, ⟨s, by rw [hopens]; rfl⟩, fun hpass => ⟨?_, s, gatedAt, ?_⟩,
          fun hn => ⟨.noAction, ?_, rfl⟩⟩
        · rw [gatePassed_gated] at hpass
          rw [phase?_gated, if_pos hpass]
        · rw [hopens, ReadinessGate.dedupe_of_passed hpass]
        · rw [gatePassed_gated] at hn
          rw [phase?_gated, hn, if_neg Bool.false_ne_true]
      · rw [phase?_gated]
        split <;> simp
      · refine ⟨rfl, fun hj => if_pos hj, hl.published, hpass,
          grounded_scored hps hcat hcite hev, hev ▸ cites_scored hcite,
          fun c hc => scored_derived (formed_unstamped hps) hcat hc, ⟨p, hin, ?_⟩,
          recommended_scored rfl⟩
        refine scored_ids.trans (List.Perm.of_eq ?_)
        show l.proposals.map Candidate.id = _
        rw [hps, ProposeInput.candidates, List.map_map]
        rfl
  unfold alignment
  cases hp : e.prior with
  | false => exact hrest (0, false)
  | true => exact allows_ask_bind trivial fun alignment => hrest alignment

theorem conduct_settle (hl : Reasoning e log)
    (hev : l.evidence = log.evidence) (h : Looped e log l) :
    (conduct e sig).Allows (Final e) (e.settle sig runID sao l) log := by
  have hno (hbusy : ∃ comp ∈ log.completions, ¬ comp.Idle) : Phase.noAction = .budgetExhausted ↔
        log.completions.length = e.maxSteps.toNat ∧ ∀ comp ∈ log.completions, comp.Idle := by
    obtain ⟨comp, hc, hi⟩ := hbusy
    exact iff_of_false (by decide) fun h => hi (h.2 comp hc)
  unfold settle
  cases h with
  | exhausted hp hd hidle hspent =>
    rw [hp, hd]
    exact conduct_decline hl rfl rfl rfl (iff_of_true rfl ⟨hspent, hidle⟩)
  | declined hp hd hbusy =>
    rw [hp, hd]
    exact conduct_decline hl rfl rfl rfl (hno hbusy)
  | proposed hp hd hbusy p hin hps =>
    rw [hp, hd]
    simp only [Bool.not_true, Bool.false_and, Bool.false_eq_true, if_false]
    cases hcat : e.enforceCatalog (formed sig runID sao l) sao with
    | some refusal => exact conduct_decline hl rfl rfl rfl (hno hbusy)
    | none =>
      cases hcite : enforceCitations (formed sig runID sao l) with
      | some refusal => exact conduct_decline hl rfl rfl rfl (hno hbusy)
      | none => exact conduct_emit hl hev hbusy hin hps hcat hcite

theorem conduct_run (hl : Reasoning e log) (hcalls : log.modelCalls = 0)
    (hcomps : log.completions = []) (hev : log.evidence = []) :
    (conduct e sig).Allows (Final e) (e.run sig runID) log := by
  have hmoved (t : Time) : Reasoning e { log with clock := t } :=
    { hl with }
  refine conduct_assemble.bind ?_ ?_
  · rintro _ sao ⟨t, rfl⟩
    have hloop (prompt : String) :
        Looping e { log with clock := t } (Loop.start prompt) e.maxSteps.toNat :=
      ⟨hmoved t, hev.symm, rfl, rfl, fun comp hc => by simp [hcomps] at hc,
        by simp [hcomps, hcalls], by simp [hcalls]⟩
    refine (conduct_turns e.maxSteps.toNat 0 (hloop _)).bind ?_ ?_
    · rintro log' l ⟨hr, hout⟩
      obtain ⟨hev', hlooped⟩ := hout l rfl
      exact conduct_settle hr hev' hlooped
    · rintro log' err ⟨hr, -⟩
      exact Final.of_error hr.bounded (.inl hr.recorded) err
  · rintro _ err ⟨t, rfl⟩
    exact Final.of_error (hmoved t).bounded (.inl hl.recorded) err

end

/-- Every run of the engine keeps to its conduct, and ends as `Final` says. -/
theorem conduct_propose (e : Engine) (sig : Signal.Detection) (clock : Time) :
    (conduct e sig).Allows (Final e) (e.propose sig) { clock := clock } := by
  refine allows_ask_bind trivial fun (startedAt : Time) => ?_
  refine allows_ask_bind ⟨rfl, rfl, .inl rfl, rfl⟩ fun opened => ?_
  cases opened with
  | error err =>
    show Final e _ (.error _)
    refine Final.of_error ?_ ?_ _
    · exact Nat.zero_le _
    · exact .inl rfl
  | ok opened =>
    by_cases hnil : opened ≠ []
    · show (conduct e sig).Allows (Final e) (if opened ≠ [] then _ else _) _
      rw [if_pos hnil]
      refine ⟨Nat.zero_le _, fun set _ ⟨s, hs⟩ => ?_, fun _ h => by cases h⟩
      have hs' : some (startedAt, Except.ok opened) = some (s, .ok []) := hs
      rw [Option.some.injEq, Prod.mk.injEq, Except.ok.injEq] at hs'
      exact absurd hs'.2 hnil
    · rw [not_not] at hnil
      subst hnil
      refine allows_ask_bind trivial fun mintedAt => ?_
      have hl : Reasoning e { clock := mintedAt, opens := [(startedAt, .ok [])] } :=
        ⟨⟨startedAt, rfl⟩, rfl, rfl, rfl, rfl, rfl, Nat.zero_le _⟩
      refine allows_bind.mpr (allows_attempt ?_)
      refine (conduct_run hl rfl rfl rfl).mono fun log out hout => ?_
      refine allows_ask_bind trivial fun _ => ?_
      cases out <;> exact hout

/-! ## The calls of the parts -/

/-- The set as the engine publishes it: proposed, and nothing observed of it yet. -/
def AsPublished (set : Proposal.Set) : Prop :=
  ∃ reason, set.status = some { phase := .proposed, reason := reason }

def DispatchCall : iface.Call → Prop
  | .runTool _ _ => True
  | _ => False

def TurnCall (runID : String) : iface.Call → Prop
  | .checkpoint t => t.runID = runID
  | .complete _ _ => True
  | .runTool _ _ => True
  | _ => False

def SettleCall : iface.Call → Prop
  | .now => True
  | .opened _ _ => True
  | .score _ _ _ => True
  | .alignment _ => True
  | .record _ => True
  | .journal _ => True
  | .publish _ set => AsPublished set
  | _ => False

/-- What is journaled or published is as `S` says. -/
def Stores (S : Proposal.Set → Prop) : iface.Call → Prop
  | .journal set => S set
  | .publish _ set => S set
  | _ => True

/-- The calls that assemble the snapshot. -/
def IntakeCall : iface.Call → Prop
  | .topology _ => True
  | .changes _ => True
  | .now => True
  | _ => False

def RunCall (runID : String) (S : Proposal.Set → Prop) (c : iface.Call) : Prop :=
  IntakeCall c ∨ TurnCall runID c ∨ (SettleCall c ∧ Stores S c) ∨ ∃ err, c = .finish runID err

section

variable (e : Engine) (sig : Signal.Detection)

theorem intakeCall_assemble : MakesOnly IntakeCall (assemble sig) := by
  refine allows_ask_bind trivial (either (fun _ => trivial) fun _ => ?_)
  exact allows_ask_bind trivial
    (either (fun _ => trivial) fun _ => allows_ask_bind trivial fun _ => trivial)

theorem dispatchCall_dispatch : ∀ (calls : List ToolCall) (l : Loop) (results : List ToolResult),
    MakesOnly DispatchCall (e.dispatch calls l results)
  | [], _, _ => trivial
  | call :: calls, l, results => by
    unfold dispatch
    by_cases hp : call.name = "propose"
    · rw [if_pos hp]
      cases e.decodePropose call.args <;> trivial
    · rw [if_neg hp]
      by_cases hi : call.name = "insufficient"
      · rw [if_pos hi]
        cases e.decodeInsufficient call.args <;> trivial
      · rw [if_neg hi]
        cases e.tools.lookup call.name with
        | none => exact dispatchCall_dispatch calls l _
        | some spec =>
          exact allows_ask_bind trivial
            (either (fun _ => trivial) fun _ => dispatchCall_dispatch calls _ _)

theorem turnCall_turns (runID : String) : ∀ (n step : Nat) (l : Loop),
    MakesOnly (TurnCall runID) (e.turns runID n step l)
  | 0, _, _ => trivial
  | n + 1, step, l => by
    refine allows_ask_bind trivial (either (fun _ => trivial) fun _ => ?_)
    refine allows_ask_bind rfl (either (fun _ => trivial) fun _ => ?_)
    split
    · trivial
    · have hdispatch : ∀ c, DispatchCall c → TurnCall runID c := fun c h => by
        cases c <;> trivial
      refine ((dispatchCall_dispatch e _ _ _).widen hdispatch).bind (fun _ out _ => ?_)
        fun _ _ h => h
      obtain ⟨l', results, done⟩ := out
      cases done with
      | true => trivial
      | false => exact turnCall_turns runID n (step + 1) _

variable {set : Set}

theorem asPublished_gated (h : (gated gate reason set).gatePassed = true) :
    AsPublished (gated gate reason set) := by
  have hpassed : gate.passed = true := h
  exact ⟨reason, by simp [gated, hpassed]⟩

variable {sig} {runID : String} {S : Set → Prop}

theorem storing_recordAndJournal (hset : S set) :
    MakesOnly (fun c => SettleCall c ∧ Stores S c) (e.recordAndJournal set) := by
  refine allows_ask_bind ⟨trivial, trivial⟩ (either (fun _ => trivial) fun _ => ?_)
  cases e.journal with
  | false => trivial
  | true =>
    refine allows_ask_bind ⟨trivial, hset⟩ fun r => ?_
    cases r <;> trivial

theorem storing_decline
    (hset : S { set with status := some { phase := phase, reason := reason } }) :
    MakesOnly (fun c => SettleCall c ∧ Stores S c) (e.decline set phase reason) :=
  (storing_recordAndJournal e hset).bind (fun _ _ _ => trivial) fun _ _ h => h

theorem storing_recordAndPublish (hset : S set) (hpub : set.gatePassed = true → AsPublished set) :
    MakesOnly (fun c => SettleCall c ∧ Stores S c) (e.recordAndPublish set) := by
  refine (storing_recordAndJournal e hset).bind (fun _ _ _ => ?_) fun _ _ h => h
  cases hp : set.gatePassed && e.pub with
  | false => trivial
  | true =>
    have hcall := hpub (Bool.and_eq_true_iff.mp hp).1
    refine allows_ask_bind ⟨hcall, hset⟩ fun r => ?_
    cases r <;> trivial

theorem storing_emit {sao : SAO}
    (hset : ∀ gate scores al, S (gated gate reason (e.scored sig sao scores al set))) :
    MakesOnly (fun c => SettleCall c ∧ Stores S c) (e.emit sig sao reason set) := by
  refine allows_ask_bind ⟨trivial, trivial⟩ fun scores => ?_
  have halign : MakesOnly (fun c => SettleCall c ∧ Stores S c) (e.alignment sig) := by
    unfold alignment
    cases e.prior with
    | false => trivial
    | true => exact ⟨⟨trivial, trivial⟩, fun _ => trivial⟩
  refine halign.bind (fun _ al _ => ?_) fun _ _ h => h
  refine allows_ask_bind ⟨trivial, trivial⟩ fun now => ?_
  exact allows_ask_bind ⟨trivial, trivial⟩
    (either (fun _ => trivial) fun _ => storing_recordAndPublish e (hset _ _ _) asPublished_gated)

theorem storing_settle (hS : ∀ set : Set, set.signalRef = sig.fingerprint →
      set.runID = runID → set.phase? ≠ some .declined → S set) (sao : SAO) (l : Loop) :
    MakesOnly (fun c => SettleCall c ∧ Stores S c) (e.settle sig runID sao l) := by
  unfold settle
  dsimp only
  split
  · exact storing_decline e (hS _ rfl rfl nofun)
  · split
    · exact storing_decline e (hS _ rfl rfl nofun)
    · split
      · exact storing_decline e (hS _ rfl rfl nofun)
      · split
        · exact storing_decline e (hS _ rfl rfl nofun)
        · refine storing_emit e fun gate scores al => hS _ rfl rfl ?_
          cases hp : gate.passed <;> simp [gated, Set.phase?, hp]

theorem settleCall_settle (sig : Signal.Detection) (runID : String) (sao : SAO) (l : Loop) :
    MakesOnly SettleCall (e.settle sig runID sao l) :=
  (storing_settle e (fun _ _ _ _ => trivial) sao l).widen fun _ h => h.1

def mintedID (fingerprint : String) (at' : Time) : String :=
  fingerprint ++ "/" ++ toString at'.unixNano

theorem runCall_propose {S : String → Set → Prop}
    (hS : ∀ (runID : String) (set : Set), set.signalRef = sig.fingerprint →
      set.runID = runID → set.phase? ≠ some .declined → S runID set) :
    MakesOnly (fun c => ∃ at', RunCall (mintedID sig.fingerprint at')
      (S (mintedID sig.fingerprint at')) c) (e.propose sig) := by
  refine allows_ask_bind ⟨0, .inl trivial⟩ fun startedAt => ?_
  refine allows_ask_bind ⟨0, .inr (.inr (.inl ⟨trivial, trivial⟩))⟩
    (either (fun _ => trivial) fun _ => ?_)
  change Allows _ _ (if _ then _ else _) ()
  split
  · trivial
  · refine allows_ask_bind ⟨0, .inl trivial⟩ fun mintedAt => ?_
    refine Allows.attempt_bind (Q := fun _ _ => True) ?_ fun _ out _ => ?_
    · refine ((intakeCall_assemble sig).widen fun c h => ⟨mintedAt, .inl h⟩).bind
        (fun _ sao _ => ?_) fun _ _ h => h
      refine ((turnCall_turns e _ _ _ _).widen fun c h => ⟨mintedAt, .inr (.inl h)⟩).bind
        (fun _ l _ => ?_) fun _ _ h => h
      exact (storing_settle e (hS _) sao l).widen fun c h => ⟨mintedAt, .inr (.inr (.inl h))⟩
    · refine allows_ask_bind ⟨mintedAt, .inr (.inr (.inr ⟨_, rfl⟩))⟩ fun _ => ?_
      cases out <;> trivial

end

end Beats.Clank
