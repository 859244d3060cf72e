import Mathlib.Data.List.Induction
import Beats.Clank.Propose
import Beats.Evidence.Metrics
import Beats.Evidence.Traces
import Beats.Lib.Digits

/-!
# What a citation names

A candidate cites evidence by its key, and the gate looks the key up among the evidence of the run.
A tool that can name its evidence sets the key itself, which the metrics tool does with the name
that the model asked for.  Where a tool leaves the key empty the engine assigns one, from the name
of the tool and the position of the evidence.

Keys of the engine differ from each other (`evidenceKey_injective`).  A name can be asked for twice,
and it can read like a key of the engine.  A run in which neither happens has one piece of evidence
for each key (`propose_oneEach`), and in another a candidate is grounded by evidence that it did not
cite (`askedForKey_collides`).
-/

namespace Beats.Clank

open Proposal Contract Lib Evidence Monitor Digits EvidenceRef
open List hiding set

/-! ## The keys of the engine -/

/-- The position of the evidence is the number behind the last dash. -/
theorem evidenceKey_injective {tool tool' : String} {n n' : Nat}
    (h : evidenceKey tool n = evidenceKey tool' n') : n = n' := by
  have hchars := congrArg String.toList h
  simp only [evidenceKey, String.toList_append, toList_toString_nat, append_assoc] at hchars
  have hdash (k : Nat) : '-' ∉ digits k := fun hm =>
    absurd (isDigit_of_mem_digits hm) (by decide)
  have hdigits := (eq_of_append_cons (hdash n) (hdash n') hchars).2
  have hparse := congrArg parseNat hdigits
  rwa [parseNat_digits, parseNat_digits, Option.some.injEq] at hparse

/-! ## What the tools return -/

/-- The tools of a deployment, with the decoders of their arguments. -/
structure Toolbox where
  metrics : MetricsTool := {}
  decodeMetrics : String → Except String String
  loki : LokiTool := {}
  lokiText : LokiText
  traces : TracesTool := {}
  tracesText : TracesText
  kube : KubeTool := {}
  decodeKube : String → Except String KubeInput

/-- The names that `buildTools` gives the tools. -/
def toolNames : List String := ["metrics", "loki", "traces", "kube"]

/-- The tool of that name can return the evidence for the arguments, whatever its backend does. -/
inductive Toolbox.Returns (b : Toolbox) : String → String → EvidenceRef → Prop where
  | metrics {args : String} {ref : EvidenceRef} (prom : Prometheus)
      (decode : prom.decodeArgs = b.decodeMetrics) (run : b.metrics.run prom args = .ok ref) :
      Returns b "metrics" args ref
  | loki {args : String} {ref : EvidenceRef} (t : List (Answered Loki.iface))
      (run : (b.loki.run b.lokiText args).Exits t (.ok ref)) : Returns b "loki" args ref
  | traces {args : String} {ref : EvidenceRef} (t : List (Answered Traces.iface))
      (run : (b.traces.run b.tracesText args).Exits t (.ok ref)) : Returns b "traces" args ref
  | kube {args : String} {ref : EvidenceRef} (t : List (Answered Kube.iface))
      (run : (b.kube.run b.decodeKube args).Exits t (.ok ref)) : Returns b "kube" args ref

/-- Evidence that leaves its key to the engine. -/
def Unkeyed (out : Except String EvidenceRef) : Prop := ∀ ref, out = .ok ref → ref.key = ""

theorem unkeyed_error (err : String) : Unkeyed (.error err) := fun _ h => by cases h

theorem unkeyed_ok {ref : EvidenceRef} (h : ref.key = "") : Unkeyed (.ok ref) := fun _ h' => by
  cases h'
  exact h

section

variable {I : Iface} {p : Prog I String EvidenceRef}

/-- The evidence of the program is left without a key. -/
def LeavesKey (p : Prog I String EvidenceRef) : Prop :=
  (only fun _ => True).Allows (fun _ out => Unkeyed out) p ()

theorem LeavesKey.key {t : List (Answered I)} {ref : EvidenceRef} (h : LeavesKey p)
    (ht : p.Exits t (.ok ref)) : ref.key = "" :=
  h.exits ht ref rfl

theorem leavesKey_ofExcept {out : Except String EvidenceRef} (h : Unkeyed out) :
    LeavesKey (Prog.ofExcept out : Prog I String EvidenceRef) := by
  cases out <;> exact h

end

theorem kube_leavesKey (k : KubeTool) (decode : String → Except String KubeInput)
    (args : String) : LeavesKey (k.run decode args) := by
  unfold KubeTool.run
  cases decode args with
  | error err => exact unkeyed_error _
  | ok input =>
    change LeavesKey (if input.resource = "pods" then _ else _)
    split
    · refine allows_ask_bind trivial fun list => unkeyed_ok ?_
      rcases list with err | _ | ⟨pod, pods⟩ <;> rfl
    · exact unkeyed_ok rfl

theorem loki_leavesKey (l : LokiTool) (text : LokiText) (args : String) :
    LeavesKey (l.run text args) := by
  unfold LokiTool.run
  cases text.decodeArgs args with
  | error err => exact unkeyed_error _
  | ok input =>
    rw [Prog.orFail, Prog.ret_bind]
    split
    · exact unkeyed_ok rfl
    · refine allows_ask_bind trivial fun now => ?_
      refine allows_ask_bind trivial fun answer => leavesKey_ofExcept ?_
      rcases answer with (err | err | err | err | err) | streams
      · exact unkeyed_error _
      · exact unkeyed_error _
      · exact unkeyed_ok rfl
      · exact unkeyed_ok rfl
      · exact unkeyed_ok rfl
      · change Unkeyed (if (streams.flatten.map Prod.snd).isEmpty = true then _ else _)
        split
        · exact unkeyed_ok rfl
        · exact unkeyed_ok rfl

theorem traces_leavesKey (t : TracesTool) (text : TracesText) (args : String) :
    LeavesKey (t.run text args) := by
  unfold TracesTool.run
  cases text.decodeArgs args with
  | error err => exact unkeyed_error _
  | ok input =>
    refine allows_ask_bind trivial fun keys => ?_
    unfold TracesTool.checkKeys
    split
    · exact unkeyed_ok rfl
    · unfold TracesTool.searchTempo
      split
      · exact unkeyed_ok rfl
      · refine allows_ask_bind trivial fun now => ?_
        refine allows_ask_bind trivial fun answer => leavesKey_ofExcept ?_
        rcases answer with (err | err | err | err | err) | traces
        · exact unkeyed_error _
        · exact unkeyed_error _
        · exact unkeyed_ok rfl
        · exact unkeyed_ok rfl
        · exact unkeyed_ok rfl
        · unfold TracesInput.answered
          dsimp only
          split
          · exact unkeyed_ok rfl
          · exact unkeyed_ok rfl

theorem Toolbox.Returns.key {b : Toolbox} {name args : String} {ref : EvidenceRef}
    (h : b.Returns name args ref) :
    name ∈ toolNames ∧ (ref.key = "" ∨ name = "metrics" ∧ b.decodeMetrics args = .ok ref.key) := by
  cases h with
  | metrics prom decode run =>
    refine ⟨by decide, ?_⟩
    rcases MetricsTool.run_cases run with ⟨-, hkey⟩ | ⟨rfl, -⟩
    · exact .inr ⟨rfl, decode ▸ hkey⟩
    · exact .inl rfl
  | loki t run => exact ⟨by decide, .inl ((loki_leavesKey _ _ _).key run)⟩
  | traces t run => exact ⟨by decide, .inl ((traces_leavesKey _ _ _).key run)⟩
  | kube t run => exact ⟨by decide, .inl ((kube_leavesKey _ _ _).key run)⟩

/-- The tools of the run answer as the toolbox does. -/
def Toolbox.Answers (b : Toolbox) (t : List (Answered iface)) : Prop :=
  ∀ name args ref, ⟨.runTool name args, .ok ref⟩ ∈ t → b.Returns name args ref

/-! ## What the model asks for -/

def Toolbox.askedBy (b : Toolbox) : Answered iface → Option String
  | ⟨.runTool name args, _⟩ =>
    if name = "metrics" then
      match b.decodeMetrics args with
      | .ok q => if q = "" then none else some q
      | .error _ => none
    else none
  | _ => none

/-- The names that a run asks the metrics tool for. -/
def Toolbox.asked (b : Toolbox) (t : List (Answered iface)) : List String :=
  t.filterMap b.askedBy

/-- The name reads like a key of the engine: a tool, a dash and a number. -/
def ReadsAssigned (q : String) : Prop :=
  ∃ tool ∈ toolNames, ∃ n : Nat, q = tool ++ "-" ++ toString n

/-- The run asks for no name twice, and for none that reads like a key of the engine. -/
structure Toolbox.AsksApart (b : Toolbox) (t : List (Answered iface)) : Prop where
  once : (b.asked t).Nodup
  foreign : ∀ q ∈ b.asked t, ¬ ReadsAssigned q

/-! ## The keys of a run -/

/-- A call of a tool that succeeds adds a piece of evidence, and nothing else does. -/
theorem evidence_snoc (t : List (Answered iface)) (a : Answered iface) :
    (runLog (t ++ [a])).evidence = (runLog t).evidence ∨
      ∃ name args ref, a = ⟨.runTool name args, .ok ref⟩ ∧ (runLog (t ++ [a])).evidence =
        (runLog t).evidence ++ [keyed name (runLog t).evidence.length ref] := by
  have hnext : (runLog (t ++ [a])).evidence = ((runLog t).next a.1 a.2).evidence :=
    congrArg RunLog.evidence (foldl_append ..)
  rw [hnext]
  obtain ⟨c, r⟩ := a
  cases c with
  | runTool name args =>
    cases r with
    | error err => exact .inl rfl
    | ok ref => exact .inr ⟨name, args, ref, rfl, rfl⟩
  | complete _ _ | checkpoint _ | record _ | journal _ | publish _ _ =>
    cases r <;> exact .inl rfl
  | _ => exact .inl rfl

/-- Each key is the engine's for the position, or a name that was asked for, and no two are the
same. -/
structure KeyedApart (b : Toolbox) (t : List (Answered iface)) (ev : List EvidenceRef) : Prop where
  origin : ∀ i ref, ev[i]? = some ref →
    (∃ tool ∈ toolNames, ref.key = evidenceKey tool i) ∨ ref.key ∈ b.asked t
  distinct : (ev.map key).Nodup

section

variable {b : Toolbox} {t : List (Answered iface)} {ev : List EvidenceRef}

theorem KeyedApart.append (h : KeyedApart b t ev) {t' : List (Answered iface)}
    {ref : EvidenceRef} (ht : b.asked t ⊆ b.asked t')
    (horigin : (∃ tool ∈ toolNames, ref.key = evidenceKey tool ev.length) ∨ ref.key ∈ b.asked t')
    (hfresh : ref.key ∉ ev.map key) : KeyedApart b t' (ev ++ [ref]) := by
  constructor
  · intro i ref' hi
    rcases Nat.lt_or_ge i ev.length with hlt | hge
    · rw [getElem?_append_left hlt] at hi
      exact (h.origin i ref' hi).imp_right fun hm => ht hm
    · rw [getElem?_append_right hge, getElem?_singleton] at hi
      split at hi
      · cases hi
        obtain rfl : i = ev.length := by omega
        exact horigin
      · cases hi
  · rw [map_append, map_singleton, nodup_append]
    refine ⟨h.distinct, nodup_singleton _, fun k hk k' hk' he => ?_⟩
    rw [mem_singleton.mp hk'] at he
    exact hfresh (he ▸ hk)

theorem KeyedApart.assigned_notMem (h : KeyedApart b t ev) (ha : b.AsksApart t) {tool : String}
    (htool : tool ∈ toolNames) : evidenceKey tool ev.length ∉ ev.map key := by
  intro hm
  obtain ⟨ref, href, hkey⟩ := mem_map.mp hm
  obtain ⟨i, hi⟩ := mem_iff_getElem?.mp href
  rcases h.origin i ref hi with ⟨tool', -, hassigned⟩ | hasked
  · have hlt : i < ev.length := (List.getElem?_eq_some_iff.mp hi).1
    have := evidenceKey_injective (hassigned.symm.trans hkey)
    omega
  · exact ha.foreign _ hasked ⟨tool, htool, ev.length, hkey⟩

theorem KeyedApart.asked_notMem (h : KeyedApart b t ev) {q : String} (hq : q ∉ b.asked t)
    (hforeign : ¬ ReadsAssigned q) : q ∉ ev.map key := by
  intro hm
  obtain ⟨ref, href, rfl⟩ := mem_map.mp hm
  obtain ⟨i, hi⟩ := mem_iff_getElem?.mp href
  rcases h.origin i ref hi with ⟨tool, htool, hassigned⟩ | hasked
  · exact hforeign ⟨tool, htool, i, hassigned⟩
  · exact hq hasked

theorem Toolbox.Answers.of_append {u : List (Answered iface)} (h : b.Answers (t ++ u)) :
    b.Answers t :=
  fun name args ref hm => h name args ref (mem_append_left _ hm)

theorem Toolbox.AsksApart.of_append {u : List (Answered iface)} (h : b.AsksApart (t ++ u)) :
    b.AsksApart t := by
  have hsub : (b.asked t).Sublist (b.asked (t ++ u)) := (sublist_append_left t u).filterMap _
  exact ⟨h.once.sublist hsub, fun q hq => h.foreign q (hsub.subset hq)⟩

theorem KeyedApart.tool {name args : String} {ref : EvidenceRef} (h : KeyedApart b t ev)
    (hret : b.Returns name args ref)
    (ha : b.AsksApart (t ++ [⟨.runTool name args, .ok ref⟩])) :
    KeyedApart b (t ++ [⟨.runTool name args, .ok ref⟩]) (ev ++ [keyed name ev.length ref]) := by
  have hsub : b.asked t ⊆ b.asked (t ++ [⟨.runTool name args, .ok ref⟩]) :=
    ((sublist_append_left _ _).filterMap _).subset
  obtain ⟨hname, hkey⟩ := hret.key
  by_cases hempty : ref.key = ""
  · have hassigned : (keyed name ev.length ref).key = evidenceKey name ev.length := by
      rw [keyed, if_pos hempty]
    exact h.append hsub (.inl ⟨name, hname, hassigned⟩)
      (hassigned ▸ h.assigned_notMem ha.of_append hname)
  · rw [keyed, if_neg hempty]
    obtain ⟨rfl, hdecode⟩ := hkey.resolve_left hempty
    have hasked : b.asked (t ++ [⟨.runTool "metrics" args, .ok ref⟩]) = b.asked t ++ [ref.key] := by
      simp [Toolbox.asked, Toolbox.askedBy, hdecode, hempty]
    have hmem : ref.key ∈ b.asked (t ++ [⟨.runTool "metrics" args, .ok ref⟩]) := by simp [hasked]
    have hnew : ref.key ∉ b.asked t := by
      have honce := ha.once
      rw [hasked, nodup_append] at honce
      exact fun hm => honce.2.2 _ hm _ (mem_singleton_self _) rfl
    exact h.append hsub (.inr hmem) (h.asked_notMem hnew (ha.foreign _ hmem))

theorem keyedApart_of_answers (hb : b.Answers t) (ha : b.AsksApart t) :
    KeyedApart b t (runLog t).evidence := by
  induction t using reverseRecOn with
  | nil => exact ⟨fun i ref hi => by simp [runLog] at hi, nodup_nil⟩
  | append_singleton t a ih =>
    have hbefore := ih hb.of_append ha.of_append
    rcases evidence_snoc t a with hsame | ⟨name, args, ref, rfl, hmore⟩
    · rw [hsame]
      refine ⟨fun i ref hi => (hbefore.origin i ref hi).imp_right fun hm => ?_, hbefore.distinct⟩
      exact ((sublist_append_left _ _).filterMap _).subset hm
    · rw [hmore]
      exact hbefore.tool (hb name args ref (by simp)) ha

end

/-! ## One piece of evidence for each citation -/

/-- A citation names one piece of evidence, in a run so far. -/
structure OneEach (t : List (Answered iface)) : Prop where
  distinct : ((runLog t).evidence.map key).Nodup
  resolves : ∀ t₁ subject set r t₂, t = t₁ ++ (⟨.publish subject set, r⟩ : Answered iface) :: t₂ →
    ∀ c ∈ set.proposals, ∀ cite ∈ c.citations,
      ∃ ref, set.evidence.filter (fun ref => ref.key = cite) = [ref]
  live : ∀ ref ∈ (runLog t).evidence, ∀ ref' ∈ (runLog t).evidence,
    ref.live = false → ref'.live = true → ref'.key ≠ ref.key

theorem filter_key_of_nodup {ev : List EvidenceRef} (h : (ev.map key).Nodup)
    {ref : EvidenceRef} (href : ref ∈ ev) : ev.filter (fun ref' => ref'.key = ref.key) = [ref] := by
  induction ev with
  | nil => cases href
  | cons ref₀ ev ih =>
    obtain ⟨hnot, hrest⟩ := nodup_cons.mp h
    rcases mem_cons.mp href with rfl | hm
    · have hnone : ev.filter (fun ref' => ref'.key = ref.key) = [] :=
        filter_eq_nil_iff.mpr fun ref' hm' hk =>
          hnot (mem_map.mpr ⟨ref', hm', by simpa using hk⟩)
      simp [hnone]
    · have hne : ref₀.key ≠ ref.key := fun he => hnot (mem_map.mpr ⟨ref, hm, he.symm⟩)
      rw [filter_cons_of_neg (by simpa using hne)]
      exact ih hrest hm

/-- In every run of the engine over the tools that asks for no name twice, and for none that reads
like a key of the engine, a citation names one piece of evidence. -/
theorem propose_oneEach {e : Engine} {sig : Signal.Detection} {b : Toolbox}
    {t : List (Answered iface)} {q : Prog iface String Proposal.Set}
    (h : (e.propose sig).Steps t q) (hb : b.Answers t) (ha : b.AsksApart t) : OneEach t := by
  have hdistinct := (keyedApart_of_answers hb ha).distinct
  refine ⟨hdistinct, fun t₁ subject set r t₂ ht c hc cite hcite => ?_,
    fun ref href ref' href' hdead hlive hkey => ?_⟩
  · have hmay : _ ∧ MayPublish e (runLog t₁) set := permitted_of_steps h ht
    have hcites := hmay.2.cites
    obtain ⟨ref, href, rfl⟩ := hcites.2 c hc cite hcite
    -- The keys were distinct when the set was published.
    have hbefore : ((runLog t₁).evidence.map key).Nodup := by
      subst ht
      exact (keyedApart_of_answers hb.of_append ha.of_append).distinct
    rw [hcites.1]
    exact ⟨ref, filter_key_of_nodup hbefore href⟩
  · have hsame : ref' = ref := inj_on_of_nodup_map hdistinct href' href hkey
    rw [hsame, hdead] at hlive
    cases hlive

/-- The tools of a shop: a metrics tool without a query, and a kube tool that knows the pods of
`checkout`. -/
def shopTools : Toolbox where
  decodeMetrics := .ok
  lokiText := ⟨fun _ => .error "no loki", fun _ => .error "no loki", fun _ => true⟩
  tracesText := ⟨fun _ => .error "no tempo", fun _ => .error "no tempo", fun _ => true⟩
  kube := { subjects := [{ «namespace» := "shop", subject := "checkout" }] }
  decodeKube := fun _ => .ok { resource := "pods", «namespace» := "shop", selector := .empty }

/-- An answer of the metrics tool to a name that it does not know. -/
def unknownQuery (q : String) : EvidenceRef :=
  { tool := "metrics", query := q, key := q, summary := "no such evidence query: " ++ q }

/-- An answer of the kube tool. -/
def checkoutPods (args : String) : EvidenceRef :=
  KubeInput.listed { resource := "pods", «namespace» := "shop", selector := .empty } args "checkout"
    (.ok [{ name := "checkout-0", phase := "Running" }])

def askingScript (q : String) : (c : Call) → iface.Answer c
  | .complete _ _ =>
    (.ok { toolCalls :=
      [{ name := "metrics", args := q }, { name := "kube" }, { name := "propose" }] } :
      Except String Completion)
  | .runTool name args =>
    (if name = "metrics" then .ok (unknownQuery args)
    else if name = "kube" then .ok (checkoutPods args)
    else .error "no such tool" : Except String EvidenceRef)
  | c => fairScript c

/-- An engine with the two tools, whose model cites `kube-1`. -/
def shopEngine : Engine :=
  { throttleEngine [{ throttleCandidate with citations := ["kube-1"] }] with
    tools := [("metrics", { name := "metrics" }), ("kube", { name := "kube" })] }

def askingRun (q : String) : Except String Proposal.Set × List (Answered iface) :=
  Prog.play (fun _ c => (askingScript q c, ())) () (shopEngine.propose checkoutDetection)

theorem shopTools_answers (q : String) : shopTools.Answers (askingRun q).2 := by
  intro name args ref hm
  have hanswer : (.ok ref : Except String EvidenceRef) =
      if name = "metrics" then .ok (unknownQuery args)
      else if name = "kube" then .ok (checkoutPods args) else .error "no such tool" :=
    Prog.eq_of_mem_play hm
  split at hanswer
  · rename_i hname
    cases hanswer
    subst hname
    exact .metrics ⟨.ok, fun _ => .ok [], .ok⟩ rfl rfl
  · split at hanswer
    · rename_i hname
      cases hanswer
      subst hname
      exact .kube [⟨.list "shop" "", .ok [{ name := "checkout-0", phase := "Running" }]⟩]
        (.call .refl)
    · cases hanswer

theorem askingRun_oneEach : OneEach (askingRun "up").2 := by
  have hasked : shopTools.asked (askingRun "up").2 = ["up"] := rfl
  refine propose_oneEach (Prog.exits_play _ _ _) (shopTools_answers "up") ⟨?_, ?_⟩
  · exact nodup_singleton _
  · rw [hasked]
    rintro q hq ⟨tool, -, n, hn⟩
    rw [mem_singleton.mp hq] at hn
    have hdash : '-' ∈ "up".toList := by rw [hn]; simp
    exact absurd hdash (by decide)

/-- The metrics tool is asked for `kube-1`, and has no such query.  The candidate that cites the
answer is published, grounded by the evidence of the kube tool. -/
theorem askedForKey_collides :
    (shopEngine.propose checkoutDetection).Exits (askingRun "kube-1").2 (askingRun "kube-1").1 ∧
      shopTools.Answers (askingRun "kube-1").2 ∧
      (∃ t₁ set r t₂, (askingRun "kube-1").2 =
          t₁ ++ (⟨.publish "thump.proposals" set, r⟩ : Answered iface) :: t₂ ∧
        set.evidence.map (fun ref => (ref.key, ref.live)) = [("kube-1", false), ("kube-1", true)] ∧
        set.proposals.map Candidate.citations = [["kube-1"]]) ∧
      ¬ OneEach (askingRun "kube-1").2 := by
  refine ⟨Prog.exits_play _ _ _, shopTools_answers "kube-1",
    ⟨(askingRun "kube-1").2.take 15, _, _, (askingRun "kube-1").2.drop 16, rfl, rfl, rfl⟩,
    fun h => ?_⟩
  have hdistinct := h.distinct
  have hkeys : (runLog (askingRun "kube-1").2).evidence.map key =
      ["kube-1", "kube-1"] := rfl
  rw [hkeys] at hdistinct
  exact absurd hdistinct (by decide)

end Beats.Clank
