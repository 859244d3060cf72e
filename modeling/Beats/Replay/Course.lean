import Beats.Replay.Transcript

/-!
# The course of a reason loop

What a loop of the engine came to, without the program that got it there.  `Dispatches` is one
turn's tool calls and `Reasons` the turns, with the completions that the transcript has of them.  A
run of the loop has such a course (`reasons_of_exits`), and a loop with a course can be replayed: a
player that holds the completions and the evidence of the course comes to the same loop, but for the
conversation, whose prompt is another (`Reasons.replay`).
-/

namespace Beats.Replay

open Proposal Clank Lib List

/-! ## Courses -/

/-- What a tool that is not there is answered with. -/
def unknownResult (call : ToolCall) : ToolResult :=
  { callID := call.id, name := call.name, digest := "unknown tool " ++ Fmt.quote call.name
    isError := true }

/-- What the model gets to see of some evidence. -/
def toolResult (call : ToolCall) (ref : EvidenceRef) : ToolResult :=
  { callID := call.id, name := call.name, digest := digest ref }

/-- The loop after the model proposed. -/
def proposing (l : Loop) (p : ProposeInput) : Loop :=
  { l with failureClass := p.failureClass, hypotheses := p.hypotheses
           proposals := p.candidates, proposed := true }

/-- The loop after the model declared the evidence insufficient. -/
def declining (l : Loop) (i : InsufficientInput) : Loop :=
  { l with reason := i.reason, failureClass := i.failureClass, declined := true }

/-- The loop with one more piece of evidence. -/
def gathering (l : Loop) (ref : EvidenceRef) : Loop :=
  { l with evidence := l.evidence ++ [ref] }

/-- The tool calls of a turn: from the loop and the results before them to the loop, the
results and whether a terminal tool was called. -/
inductive Dispatches (e : Engine) : List ToolCall → Loop → List ToolResult →
    Loop → List ToolResult → Bool → Prop where
  | nil {l : Loop} {results : List ToolResult} : Dispatches e [] l results l results false
  | propose {call : ToolCall} {calls : List ToolCall} {l : Loop} {results : List ToolResult}
      {p : ProposeInput} (name : call.name = "propose")
      (input : e.decodePropose call.args = .ok p) :
      Dispatches e (call :: calls) l results (proposing l p) results true
  | insufficient {call : ToolCall} {calls : List ToolCall} {l : Loop} {results : List ToolResult}
      {i : InsufficientInput} (name : call.name = "insufficient")
      (input : e.decodeInsufficient call.args = .ok i) :
      Dispatches e (call :: calls) l results (declining l i) results true
  | unknown {call : ToolCall} {calls : List ToolCall} {l l' : Loop}
      {results results' : List ToolResult} {done : Bool} (notPropose : call.name ≠ "propose")
      (notInsufficient : call.name ≠ "insufficient") (absent : e.tools.lookup call.name = none)
      (rest : Dispatches e calls l (results ++ [unknownResult call]) l' results' done) :
      Dispatches e (call :: calls) l results l' results' done
  | ran {call : ToolCall} {calls : List ToolCall} {l l' : Loop}
      {results results' : List ToolResult} {done : Bool} {ref : EvidenceRef}
      (notPropose : call.name ≠ "propose") (notInsufficient : call.name ≠ "insufficient")
      (present : (e.tools.lookup call.name).isSome = true) (tool : ref.tool = call.name)
      (key : ref.key ≠ "")
      (rest : Dispatches e calls (gathering l ref) (results ++ [toolResult call ref])
        l' results' done) :
      Dispatches e (call :: calls) l results l' results' done

/-- The turns of a loop, at most `n` of them and the next one `step`, with the completions
that the transcript has of them. -/
inductive Reasons (e : Engine) : Nat → Nat → Loop → List Completion → Loop → Prop where
  | spent {step : Nat} {l : Loop} : Reasons e 0 step l [] l
  | ended {n step : Nat} {l : Loop} {message : Message} (role : message.role = "assistant") :
      Reasons e (n + 1) step l [completionOf { message with toolCalls := [] }]
        { l.heard message [] with
          reason := "model ended turn without a tool call", declined := true }
  | done {n step : Nat} {l l' : Loop} {message : Message} {calls : List ToolCall}
      {results : List ToolResult} (role : message.role = "assistant") (some : calls ≠ [])
      (ids : withCallIDs calls step = calls)
      (turn : Dispatches e calls (l.heard message calls) [] l' results true) :
      Reasons e (n + 1) step l [completionOf { message with toolCalls := calls }]
        (l'.answered results)
  | next {n step : Nat} {l l' l'' : Loop} {message : Message} {calls : List ToolCall}
      {results : List ToolResult} {comps : List Completion} (role : message.role = "assistant")
      (some : calls ≠ []) (ids : withCallIDs calls step = calls)
      (turn : Dispatches e calls (l.heard message calls) [] l' results false)
      (rest : Reasons e n (step + 1) (l'.answered results) comps l'') :
      Reasons e (n + 1) step l (completionOf { message with toolCalls := calls } :: comps) l''

/-! ## What a course keeps -/

variable {t u : List (Answered iface)} {message : Message} {name : String}

section

variable {e : Engine} {calls : List ToolCall} {l l' : Loop} {results results' : List ToolResult}
  {done : Bool} {n step : Nat} {comps : List Completion}

theorem Dispatches.msgs (h : Dispatches e calls l results l' results' done) : l'.msgs = l.msgs := by
  induction h with
  | nil => rfl
  | propose => rfl
  | insufficient => rfl
  | unknown _ _ _ _ ih => exact ih
  | ran _ _ _ _ _ _ ih => exact ih

/-- The evidence of a turn comes after the evidence before it, and is of tools that the
engine has. -/
theorem Dispatches.evidence (h : Dispatches e calls l results l' results' done) :
    ∃ new, l'.evidence = l.evidence ++ new ∧
      ∀ ref ∈ new, (e.tools.lookup ref.tool).isSome = true := by
  induction h with
  | nil => exact ⟨[], by simp, by simp⟩
  | propose => exact ⟨[], by simp [proposing], by simp⟩
  | insufficient => exact ⟨[], by simp [declining], by simp⟩
  | unknown _ _ _ _ ih => exact ih
  | @ran call _ _ _ _ _ _ ref _ _ present tool _ _ ih =>
    obtain ⟨new, hnew, hall⟩ := ih
    refine ⟨ref :: new, by simp [hnew, gathering], forall_mem_cons.mpr ⟨?_, hall⟩⟩
    rw [tool]
    exact present

/-- No candidate of the loop forecasts anything yet. -/
def Unforecast (l : Loop) : Prop := ∀ c ∈ l.proposals, c.predictedImpact = none

theorem unforecast_proposing (l : Loop) (p : ProposeInput) : Unforecast (proposing l p) := by
  intro c hc
  obtain ⟨pc, -, rfl⟩ := mem_map.mp hc
  rfl

theorem Dispatches.unforecast (h : Dispatches e calls l results l' results' done)
    (hl : Unforecast l) : Unforecast l' := by
  induction h with
  | nil => exact hl
  | propose => exact unforecast_proposing _ _
  | insufficient => exact hl
  | unknown _ _ _ _ ih => exact ih hl
  | ran _ _ _ _ _ _ ih => exact ih hl

theorem Reasons.unforecast (h : Reasons e n step l comps l') (hl : Unforecast l) :
    Unforecast l' := by
  induction h with
  | spent => exact hl
  | ended => exact hl
  | done _ _ _ turn => exact turn.unforecast hl
  | next _ _ _ turn _ ih => exact ih (turn.unforecast hl)

theorem Reasons.evidence (h : Reasons e n step l comps l') :
    ∃ new, l'.evidence = l.evidence ++ new ∧
      ∀ ref ∈ new, (e.tools.lookup ref.tool).isSome = true := by
  induction h with
  | spent => exact ⟨[], by simp, by simp⟩
  | ended => exact ⟨[], by simp [Loop.heard], by simp⟩
  | done _ _ _ turn => exact turn.evidence
  | next _ _ _ turn _ ih =>
    obtain ⟨new, hnew, hall⟩ := turn.evidence
    obtain ⟨new', hnew', hall'⟩ := ih
    refine ⟨new ++ new', ?_, forall_mem_append.mpr ⟨hall, hall'⟩⟩
    rw [hnew', ← append_assoc]
    exact congrArg (· ++ new') hnew

theorem completionsFrom_heard (l : Loop) (role : message.role = "assistant")
    (calls : List ToolCall) : completionsFrom (l.heard message calls).msgs =
      completionsFrom l.msgs ++ [completionOf { message with toolCalls := calls }] := by
  simp [Loop.heard, completionsFrom, role]

theorem completionsFrom_answered (l : Loop) (results : List ToolResult) :
    completionsFrom (l.answered results).msgs = completionsFrom l.msgs := by
  unfold Loop.answered
  by_cases h : results = []
  · simp [h]
  · simp [h, completionsFrom]

theorem Reasons.completions (h : Reasons e n step l comps l') :
    completionsFrom l'.msgs = completionsFrom l.msgs ++ comps := by
  induction h with
  | spent => simp
  | ended role => exact completionsFrom_heard _ role []
  | done role _ _ turn =>
    rw [completionsFrom_answered, turn.msgs, completionsFrom_heard _ role]
  | next role _ _ turn _ ih =>
    rw [ih, completionsFrom_answered, turn.msgs, completionsFrom_heard _ role,
      append_assoc, singleton_append]

end

/-! ## The course of a run -/

/-- Every tool names itself in the evidence that it gives. -/
def Stamped (t : List (Answered iface)) : Prop :=
  ∀ name args ref,
    ⟨.runTool name args, (Except.ok ref : Except String EvidenceRef)⟩ ∈ t →
      ref.tool = name

/-- The model answers as the assistant. -/
def Assistant (t : List (Answered iface)) : Prop :=
  ∀ msgs specs comp,
    ⟨.complete msgs specs, (Except.ok comp : Except String Completion)⟩ ∈ t →
      comp.message.role = "assistant"

theorem Stamped.of_subset (h : Stamped t) (hu : u ⊆ t) : Stamped u :=
  fun name args ref hm => h name args ref (hu hm)

theorem Assistant.of_subset (h : Assistant t) (hu : u ⊆ t) :
    Assistant u :=
  fun msgs specs comp hm => h msgs specs comp (hu hm)

theorem keyed_tool (tool : String) (n : Nat) (ref : EvidenceRef) :
    (keyed tool n ref).tool = ref.tool := by
  unfold keyed
  split <;> rfl

theorem evidenceKey_ne (tool : String) (n : Nat) : evidenceKey tool n ≠ "" := by
  intro h
  have hlen := congrArg String.length h
  simp only [evidenceKey, String.length_append] at hlen
  have : "-".length = 1 := rfl
  simp only [this, String.length_empty] at hlen
  omega

theorem keyed_key_ne (tool : String) (n : Nat) (ref : EvidenceRef) :
    (keyed tool n ref).key ≠ "" := by
  unfold keyed
  split
  · exact evidenceKey_ne tool n
  · assumption

section

variable {e : Engine} {runID : String}

theorem dispatches_of_exits : ∀ {calls : List ToolCall} {l l' : Loop}
    {results results' : List ToolResult} {done : Bool} {t : List (Answered iface)},
    (e.dispatch calls l results).Exits t (.ok (l', results', done)) → Stamped t →
      Dispatches e calls l results l' results' done ∧ transcriptLines t = []
  | [], l, l', results, results', done, t, h, _ => by
    cases h
    exact ⟨.nil, rfl⟩
  | call :: calls, l, l', results, results', done, t, h, hs => by
    unfold Engine.dispatch at h
    by_cases hp : call.name = "propose"
    · rw [if_pos hp] at h
      obtain ⟨p, hd, h⟩ := Prog.exits_orFail_ok h
      cases h
      exact ⟨.propose hp hd, rfl⟩
    rw [if_neg hp] at h
    by_cases hi : call.name = "insufficient"
    · rw [if_pos hi] at h
      obtain ⟨i, hd, h⟩ := Prog.exits_orFail_ok h
      cases h
      exact ⟨.insufficient hi hd, rfl⟩
    rw [if_neg hi] at h
    cases hl : e.tools.lookup call.name with
    | none =>
      simp only [hl] at h
      obtain ⟨hrest, hlines⟩ := dispatches_of_exits h hs
      exact ⟨.unknown hp hi hl hrest, hlines⟩
    | some spec =>
      simp only [hl] at h
      obtain ⟨r, u, rfl, hk⟩ := Prog.exits_ask_bind.mp h
      obtain ⟨ref, rfl, hk⟩ := Prog.exits_orFail_ok hk
      obtain ⟨hrest, hlines⟩ := dispatches_of_exits hk (hs.of_subset (subset_cons_self _ _))
      have htool := hs call.name call.args ref mem_cons_self
      exact ⟨.ran hp hi (by rw [hl]; rfl) ((keyed_tool _ _ _).trans htool)
        (keyed_key_ne call.name l.evidence.length ref) hrest, hlines⟩

theorem transcriptLines_append (t u : List (Answered iface)) :
    transcriptLines (t ++ u) = transcriptLines t ++ transcriptLines u :=
  filterMap_append

theorem withCallIDsFrom_idem (step : Nat) : ∀ (i : Nat) (calls : List ToolCall),
    withCallIDsFrom step i (withCallIDsFrom step i calls) = withCallIDsFrom step i calls
  | _, [] => rfl
  | i, call :: calls => by
    simp only [withCallIDsFrom, withCallIDsFrom_idem step (i + 1) calls]
    congr 1
    by_cases hid : call.id = ""
    · have hne : "call_" ++ toString step ++ "_" ++ toString i ≠ "" := by
        intro h
        have hlen := congrArg String.length h
        have h₁ : "call_".length = 5 := rfl
        simp only [String.length_append, h₁, String.length_empty] at hlen
        omega
      rw [if_pos hid, if_neg hne]
    · simp [hid]

theorem withCallIDs_idem (calls : List ToolCall) (step : Nat) :
    withCallIDs (withCallIDs calls step) step = withCallIDs calls step :=
  withCallIDsFrom_idem step 0 calls

/-- The transcript ends with the completions of the loop. -/
structure LastTurn (runID : String) (l : Loop) (t : List (Answered iface)) : Prop where
  ofRun : ∀ turn ∈ transcriptLines t, turn.runID = runID
  last : ∃ turn, (transcriptLines t).getLast? = some turn ∧
    completionsFrom turn.msgs = completionsFrom l.msgs

theorem LastTurn.append {l : Loop} {v : List (Answered iface)}
    (hu : ∀ turn ∈ transcriptLines u, turn.runID = runID) (hv : LastTurn runID l v) :
    LastTurn runID l (u ++ v) := by
  obtain ⟨turn, hturn, hcomps⟩ := hv.last
  refine ⟨?_, turn, ?_, hcomps⟩
  · rw [transcriptLines_append]
    exact forall_mem_append.mpr ⟨hu, hv.ofRun⟩
  · rw [transcriptLines_append, getLast?_append, hturn]
    rfl

/-- The first two calls of a turn. -/
def opening (e : Engine) (l : Loop) (comp : Completion) (turn : Turn) : List (Answered iface) :=
  [⟨.complete l.msgs e.toolSpecs, .ok comp⟩, ⟨.checkpoint turn, .ok ()⟩]

theorem transcriptLines_opening (l : Loop) (comp : Completion) (turn : Turn)
    (t : List (Answered iface)) :
    transcriptLines (opening e l comp turn ++ t) = turn :: transcriptLines t := rfl

theorem lastTurn_opening {l l' : Loop} {comp : Completion} {turn : Turn}
    (hid : turn.runID = runID) (ht : transcriptLines t = [])
    (hcomps : completionsFrom l'.msgs = completionsFrom turn.msgs) :
    LastTurn runID l' (opening e l comp turn ++ t) := by
  have hlines : transcriptLines (opening e l comp turn ++ t) = [turn] := by
    rw [transcriptLines_opening, ht]
  exact ⟨by simp [hlines, hid], turn, by simp [hlines], hcomps.symm⟩

/-- A turn of a loop that returns.  The model is heard and the turn is checkpointed.  If the
model called no tool the loop ends, and otherwise the calls are dispatched and it ends or goes
on. -/
theorem turns_cases {n step : Nat} {l l' : Loop}
    (h : (e.turns runID (n + 1) step l).Exits t (.ok l')) :
    ∃ comp calls turn v, withCallIDs calls step = calls ∧
      turn = { runID, step, msgs := (l.heard comp.message calls).msgs } ∧
      t = opening e l comp turn ++ v ∧
      (calls = [] ∧ v = [] ∧ l' = { l.heard comp.message calls with
          reason := "model ended turn without a tool call", declined := true } ∨
        calls ≠ [] ∧ ∃ l₁ results done w x, v = w ++ x ∧
          (e.dispatch calls (l.heard comp.message calls) []).Exits w (.ok (l₁, results, done)) ∧
          (done = true ∧ x = [] ∧ l' = l₁.answered results ∨ done = false ∧
              (e.turns runID n (step + 1) (l₁.answered results)).Exits x (.ok l'))) := by
  obtain ⟨r, u, rfl, hk⟩ := Prog.exits_ask_bind.mp h
  obtain ⟨comp, rfl, hk⟩ := Prog.exits_orFail_ok hk
  obtain ⟨r, v, rfl, hc⟩ := Prog.exits_ask_bind.mp hk
  obtain ⟨_, rfl, hc⟩ := Prog.exits_orFail_ok hc
  refine ⟨comp, withCallIDs comp.toolCalls step, _, v, withCallIDs_idem _ _, rfl, rfl, ?_⟩
  generalize withCallIDs comp.toolCalls step = calls at hc ⊢
  change (if calls = [] then _ else _ : Prog iface String Loop).Exits v (.ok l') at hc
  by_cases hne : calls = []
  · rw [if_pos hne] at hc
    obtain ⟨rfl, hl'⟩ := Prog.exits_ret.mp hc
    exact .inl ⟨hne, rfl, Except.ok.inj hl'⟩
  · rw [if_neg hne] at hc
    obtain ⟨⟨l₁, results, done⟩, w, x, rfl, hd, hx⟩ := Prog.exits_bind_ok hc
    refine .inr ⟨hne, l₁, results, done, w, x, rfl, hd, ?_⟩
    cases done with
    | true =>
      obtain ⟨rfl, hl'⟩ := Prog.exits_ret.mp hx
      exact .inl ⟨rfl, rfl, Except.ok.inj hl'⟩
    | false => exact .inr ⟨rfl, hx⟩

/-- A loop that returns has a course, and where it took a turn the transcript ends with its
completions. -/
theorem reasons_of_exits : ∀ {n step : Nat} {l l' : Loop} {t : List (Answered iface)},
    (e.turns runID n step l).Exits t (.ok l') → Stamped t → Assistant t →
      ∃ comps, Reasons e n step l comps l' ∧
        ((n = 0 ∧ l' = l ∧ transcriptLines t = []) ∨ LastTurn runID l' t)
  | 0, step, l, l', t, h, _, _ => by
    cases h
    exact ⟨[], .spent, .inl ⟨rfl, rfl, rfl⟩⟩
  | n + 1, step, l, l', t, h, hs, ha => by
    obtain ⟨comp, calls, turn, v, hids, hturn, rfl, hcase⟩ := turns_cases h
    have hrole := ha _ _ comp (.head _)
    have hid : turn.runID = runID := by rw [hturn]
    rcases hcase with ⟨rfl, rfl, rfl⟩ | ⟨hne, l₁, results, done, w, x, rfl, hd, hcase⟩
    · exact ⟨_, .ended hrole, .inr (lastTurn_opening hid rfl (by rw [hturn]))⟩
    · obtain ⟨hdisp, hlines⟩ := dispatches_of_exits hd (hs.of_subset (by simp))
      have hcomps : completionsFrom (l₁.answered results).msgs = completionsFrom turn.msgs := by
        rw [completionsFrom_answered, hdisp.msgs, hturn]
      rcases hcase with ⟨rfl, rfl, rfl⟩ | ⟨rfl, hx⟩
      · rw [append_nil]
        exact ⟨_, .done hrole hne hids hdisp, .inr (lastTurn_opening hid hlines hcomps)⟩
      · obtain ⟨comps, hrest, ⟨rfl, rfl, hnil⟩ | hlast⟩ :=
          reasons_of_exits hx (hs.of_subset (by simp)) (ha.of_subset (by simp))
        · have hquiet : transcriptLines (w ++ x) = [] := by
            rw [transcriptLines_append, hlines, hnil, append_nil]
          exact ⟨_, .next hrole hne hids hdisp hrest, .inr (lastTurn_opening hid hquiet hcomps)⟩
        · rw [← append_assoc]
          refine ⟨_, .next hrole hne hids hdisp hrest, .inr (LastTurn.append ?_ hlast)⟩
          rw [transcriptLines_opening, hlines]
          simpa using hid

end

/-! ## Replaying a course -/

/-- The player with the completions and the evidence that it still has to give out. -/
def Player.holding (p : Player) (comps : List Completion) (evidence : List EvidenceRef) : Player :=
  { p with completions := comps, refs := fun name => evidenceOf name evidence }

theorem evidenceOf_cons_self (ref : EvidenceRef) (evidence : List EvidenceRef) :
    evidenceOf ref.tool (ref :: evidence) = ref :: evidenceOf ref.tool evidence := by
  simp [evidenceOf]

theorem evidenceOf_cons_of_ne {ref : EvidenceRef} (h : name ≠ ref.tool)
    (evidence : List EvidenceRef) :
    evidenceOf name (ref :: evidence) = evidenceOf name evidence := by
  simp [evidenceOf, Ne.symm h]

/-- A call of the tool that the next piece of evidence names gets that piece. -/
theorem Player.runTool_holding (p : Player) (comps : List Completion) (ref : EvidenceRef)
    (evidence : List EvidenceRef) :
    (p.holding comps (ref :: evidence)).runTool ref.tool = (.ok ref, p.holding comps evidence) := by
  simp only [Player.runTool, Player.holding, evidenceOf_cons_self]
  congr
  funext name
  by_cases h : name = ref.tool
  · simp [h]
  · rw [if_neg h, evidenceOf_cons_of_ne h]

theorem lookup_buildTools (set : Set) (name : String) :
    ((buildTools set).lookup name).isSome = true ↔ ∃ ref ∈ set.evidence, ref.tool = name := by
  rw [lookup_isSome_iff]
  simp only [buildTools, mem_map, mem_dedup, beq_iff_eq]
  constructor
  · rintro ⟨-, ⟨-, ⟨ref, href, rfl⟩, rfl⟩, rfl⟩
    exact ⟨ref, href, rfl⟩
  · rintro ⟨ref, href, rfl⟩
    exact ⟨_, ⟨_, ⟨ref, href, rfl⟩, rfl⟩, rfl⟩

/-- The loop with another conversation. -/
def saying (l : Loop) (msgs : List Message) : Loop := { l with msgs := msgs }

def OfTools (e : Engine) (set : Proposal.Set) : Prop :=
  ∀ ref ∈ set.evidence, (e.tools.lookup ref.tool).isSome = true

theorem lookup_buildTools_of_absent {e : Engine} {set : Set} (hset : OfTools e set)
    (h : e.tools.lookup name = none) : (buildTools set).lookup name = none := by
  cases hb : (buildTools set).lookup name with
  | none => rfl
  | some spec =>
    obtain ⟨ref, href, hname⟩ := (lookup_buildTools set name).mp (by rw [hb]; rfl)
    have := hset ref href
    rw [hname, h] at this
    cases this

section

variable {e : Engine} {scorer : Scorer} {set : Set} {calls : List ToolCall}
  {l l' : Loop} {results results' : List ToolResult} {done : Bool}

theorem Dispatches.replay (scorer : Scorer) (hset : OfTools e set)
    (h : Dispatches e calls l results l' results' done) {new : List EvidenceRef}
    (rest : List EvidenceRef) (p : Player) (comps : List Completion) (msgs : List Message)
    (hnew : l'.evidence = l.evidence ++ new) (hsub : ∀ ref ∈ new, ref ∈ set.evidence) :
    Prog.runIn (Player.answer scorer) (p.holding comps (new ++ rest))
        ((engine e set).dispatch calls (saying l msgs) results) =
      (.ok (saying l' msgs, results', done), p.holding comps rest) := by
  induction h generalizing new with
  | nil =>
    have hnil : new = [] := by simpa using hnew
    subst hnil
    rfl
  | @propose call calls l results pi name input =>
    have hnil : new = [] := by simpa [proposing] using hnew
    subst hnil
    have hdec : (engine e set).decodePropose call.args = .ok pi := input
    unfold Engine.dispatch
    rw [if_pos name, hdec]
    rfl
  | @insufficient call calls l results i name input =>
    have hnil : new = [] := by simpa [declining] using hnew
    subst hnil
    have hdec : (engine e set).decodeInsufficient call.args = .ok i := input
    have hne : call.name ≠ "propose" := by
      rw [name]
      decide
    unfold Engine.dispatch
    rw [if_neg hne, if_pos name, hdec]
    rfl
  | @unknown call calls l l' results results' done hp hi absent _ ih =>
    have hnone : (engine e set).tools.lookup call.name = none :=
      lookup_buildTools_of_absent hset absent
    unfold Engine.dispatch
    rw [if_neg hp, if_neg hi, hnone]
    exact ih hnew hsub
  | @ran call calls l l' results results' done ref hp hi present tool key hrest ih =>
    obtain ⟨new', hnew', -⟩ := hrest.evidence
    have hcons : new = ref :: new' := by
      rw [hnew', gathering, append_assoc] at hnew
      exact (append_cancel_left hnew).symm
    subst hcons
    have hsome := (lookup_buildTools set call.name).mpr ⟨ref, hsub ref mem_cons_self, tool⟩
    obtain ⟨spec, hspec⟩ := Option.isSome_iff_exists.mp hsome
    have hlook : (engine e set).tools.lookup call.name = some spec := hspec
    unfold Engine.dispatch
    rw [if_neg hp, if_neg hi, hlook]
    have hrun : Player.answer scorer (p.holding comps (ref :: (new' ++ rest)))
        (.runTool call.name call.args) = (.ok ref, p.holding comps (new' ++ rest)) := by
      rw [← tool]
      exact p.runTool_holding comps ref (new' ++ rest)
    have hkeyed : ∀ n, keyed call.name n ref = ref := fun n => if_neg key
    refine (Prog.runIn_ask hrun).trans ?_
    simp only [Prog.orFail, Prog.ret_bind, hkeyed]
    exact ih hnew' fun r hr => hsub r (mem_cons_of_mem _ hr)

/-- The first calls of a replayed turn: the model gives the next completion, whose calls have
their IDs, and the checkpoint succeeds. -/
theorem runIn_turn {runID : String} {n step : Nat} {calls : List ToolCall}
    (ids : withCallIDs calls step = calls) (p : Player) (comps : List Completion)
    (evidence : List EvidenceRef) (l : Loop) :
    Prog.runIn (Player.answer scorer)
        (p.holding (completionOf { message with toolCalls := calls } :: comps) evidence)
        ((engine e set).turns runID (n + 1) step l) =
      Prog.runIn (Player.answer scorer) (p.holding comps evidence) (if calls = [] then
          return { l.heard message calls with
            reason := "model ended turn without a tool call", declined := true }
        else do
          let (l, results, done) ← (engine e set).dispatch calls (l.heard message calls) []
          if done then return l.answered results
          else (engine e set).turns runID n (step + 1) (l.answered results)) := by
  have hids : withCallIDs (completionOf { message with toolCalls := calls }).toolCalls step =
      calls := ids
  have hcomp : Player.answer scorer
      (p.holding (completionOf { message with toolCalls := calls } :: comps) evidence)
      (.complete l.msgs (engine e set).toolSpecs) =
      (.ok (completionOf { message with toolCalls := calls }), p.holding comps evidence) := rfl
  refine (Prog.runIn_ask hcomp).trans ?_
  simp only [Prog.orFail, Prog.ret_bind, hids]
  have hcheck : Player.answer scorer (p.holding comps evidence)
      (.checkpoint { runID := runID, step := step, msgs := (l.heard message calls).msgs }) =
      (.ok (), p.holding comps evidence) := rfl
  exact (Prog.runIn_ask hcheck).trans rfl

/-- A loop is replayed: from the completions and the evidence of its course, the same loop but
for its conversation. -/
theorem Reasons.replay (scorer : Scorer) (runID : String) {n step : Nat}
    {comps : List Completion} (hset : OfTools e set) (h : Reasons e n step l comps l')
    {new : List EvidenceRef} (p : Player) (msgs : List Message)
    (hnew : l'.evidence = l.evidence ++ new) (hsub : ∀ ref ∈ new, ref ∈ set.evidence) :
    ∃ msgs', Prog.runIn (Player.answer scorer) (p.holding comps new)
        ((engine e set).turns runID n step (saying l msgs)) =
      (.ok (saying l' msgs'), p.holding [] []) := by
  induction h generalizing new msgs with
  | spent =>
    have hnil : new = [] := by simpa using hnew
    subst hnil
    exact ⟨msgs, rfl⟩
  | @ended n step l message role =>
    have hnil : new = [] := by simpa [Loop.heard] using hnew
    subst hnil
    exact ⟨_, runIn_turn rfl p [] [] (saying l msgs)⟩
  | @done n step l l' message calls results role some ids turn =>
    have hturn := turn.replay scorer hset [] p [] ((saying l msgs).heard message calls).msgs
      hnew hsub
    rw [append_nil] at hturn
    refine ⟨((saying l' ((saying l msgs).heard message calls).msgs).answered results).msgs,
      (runIn_turn ids p [] new (saying l msgs)).trans ?_⟩
    rw [if_neg some]
    exact Prog.runIn_bind hturn
  | @next n step l l' l'' message calls results comps role some ids turn rest ih =>
    obtain ⟨new₁, hnew₁, -⟩ := turn.evidence
    obtain ⟨new₂, hnew₂, -⟩ := rest.evidence
    have hsplit : new = new₁ ++ new₂ := by
      have hev : l''.evidence = (l.evidence ++ new₁) ++ new₂ := by
        rw [hnew₂]
        exact congrArg (· ++ new₂) hnew₁
      rw [hev, append_assoc] at hnew
      exact (append_cancel_left hnew).symm
    subst hsplit
    have hturn := turn.replay scorer hset new₂ p comps ((saying l msgs).heard message calls).msgs
      hnew₁ fun ref href => hsub ref (mem_append_left _ href)
    obtain ⟨msgs', hrest⟩ := ih
      ((saying l' ((saying l msgs).heard message calls).msgs).answered results).msgs hnew₂
      fun ref href => hsub ref (mem_append_right _ href)
    refine ⟨msgs', (runIn_turn ids p comps (new₁ ++ new₂) (saying l msgs)).trans ?_⟩
    rw [if_neg some]
    exact (Prog.runIn_bind hturn).trans hrest

end

end Beats.Replay
