import Beats.Clank.Conduct

/-!
# What a run of the engine does

Two results about every run of `Engine.Propose`, read off its conduct.  A set that a run
hands to the publisher is grounded (`published_grounded`), at whatever point the run is cut
short.  A run that passes the precheck and returns has accounted for its set
(`propose_accounting`): one row in the ledger, one entry in the journal, and a publication
exactly if the gate passed.
-/

namespace Beats.Clank

open Proposal Contract Lib

variable {e : Engine} {sig : Signal.Detection} {t : List (Answered iface)}

/-! ## Along a run -/

theorem runLog_eq_after (e : Engine) (sig : Signal.Detection) (t : List (Answered iface)) :
    runLog t = (conduct e sig).after {} t :=
  (conduct_after e sig t {}).symm

theorem permitted_of_steps {q : Prog iface String Set} (h : (e.propose sig).Steps t q)
    {t₁ t₂ : List (Answered iface)} {c : Call} {r : iface.Answer c}
    (ht : t = t₁ ++ ⟨c, r⟩ :: t₂) : (conduct e sig).permits (runLog t₁) c := by
  rw [runLog_eq_after e sig]
  exact ((conduct_propose e sig Time.zero).steps h).2 t₁ c r t₂ ht

theorem final_of_exits {out : Except String Set} (h : (e.propose sig).Exits t out) :
    Final e (runLog t) out := by
  rw [runLog_eq_after e sig]
  exact (conduct_propose e sig Time.zero).exits h

/-! ## Grounding -/

/-- Every candidate of a set that a run hands to the publisher names a contract that the
catalog admits for the set, carries what that contract says, and cites evidence that the
run had gathered. -/
theorem published_grounded (hd : e.catalog.DistinctNames) {q : Prog iface String Proposal.Set}
    (h : (e.propose sig).Steps t q) {t₁ t₂ : List (Answered iface)} {subject : String}
    {set : Proposal.Set} {r : iface.Answer (.publish subject set)}
    (ht : t = t₁ ++ ⟨.publish subject set, r⟩ :: t₂) :
    ∃ sao, set.saoSnapshot = some sao ∧ ∀ c ∈ set.proposals,
      (∃ ct ∈ e.catalog.applicable set.failureClass set.serviceTier sao,
        ct.name = c.contractRef ∧ Derived ct c) ∧
      c.citations ≠ [] ∧
      ∀ cite ∈ c.citations, ∃ ref ∈ (runLog t₁).evidence, ref.key = cite := by
  have hpub : subject = "thump.proposals" ∧ MayPublish e (runLog t₁) set :=
    permitted_of_steps h ht
  obtain ⟨sao, hsao, hall⟩ := hpub.2.grounded hd
  exact ⟨sao, hsao, fun c hc => ⟨(hall c hc).contract, (hall c hc).cites, (hall c hc).citations⟩⟩

/-- An engine with one tool and one action, whose model proposes that action. -/
def throttleEngine (candidates : List ProposeCandidate) : Engine where
  tools := [("promql", { name := "promql" })]
  catalog :=
    { contracts :=
        [{ name := "throttle", applicableFailureClasses := [.dependencySaturation]
           applicableTiers := ["tier1"], reversal := { method := "unthrottle" } }] }
  dedupeWindow := 600000000000
  maxSteps := 4
  journal := true
  pub := true
  decodePropose := fun _ =>
    .ok { failureClass := .dependencySaturation, proposals := candidates }
  decodeInsufficient := fun _ => .ok {}

def checkoutDetection : Signal.Detection where
  name := "ps:checkout"
  fingerprint := "checkout"
  originService := "checkout"
  serviceTier := "tier1"

/-- The model asks the tool and then proposes, and nothing fails. -/
def fairScript : (c : Call) → iface.Answer c
  | .now => (0 : Int)
  | .opened _ _ => (.ok [] : Except String (List Proposal.Set))
  | .topology _ => (.ok {} : Except String TopologySnapshot)
  | .changes _ => (.ok {} : Except String ChangeSnapshot)
  | .complete _ _ => (.ok { toolCalls := [{ name := "promql" }, { name := "propose" }] } :
      Except String Completion)
  | .checkpoint _ => (.ok () : Except String Unit)
  | .runTool _ _ => (.ok { tool := "promql", key := "up", live := true, subject := "checkout" } :
      Except String EvidenceRef)
  | .score _ _ _ => ([] : List CausalScore)
  | .alignment _ => ((0, false) : Rat × Bool)
  | .record _ => (.ok () : Except String Unit)
  | .journal _ => (.ok () : Except String Unit)
  | .publish _ _ => (.ok () : Except String Unit)
  | .finish _ _ => (.ok () : Except String Unit)

def throttleRun (candidates : List ProposeCandidate) :
    Except String Proposal.Set × List (Answered iface) :=
  Prog.play (fun _ c => (fairScript c, ())) ()
    ((throttleEngine candidates).propose checkoutDetection)

def throttleCandidate : ProposeCandidate :=
  { id := "c1", contractRef := "throttle", citations := ["up"] }

theorem throttleRun_publishes : ∃ t₁ set r t₂, (throttleRun [throttleCandidate]).2 =
    t₁ ++ (⟨.publish "thump.proposals" set, r⟩ : Answered iface) :: t₂ :=
  ⟨(throttleRun [throttleCandidate]).2.take 14, _, _, (throttleRun [throttleCandidate]).2.drop 15,
    rfl⟩

theorem throttleRun_grounded : ∃ t₁ set r t₂, (throttleRun [throttleCandidate]).2 =
      t₁ ++ (⟨.publish "thump.proposals" set, r⟩ : Answered iface) :: t₂ ∧
    ∃ sao, set.saoSnapshot = some sao ∧ ∀ c ∈ set.proposals,
      (∃ ct ∈ (throttleEngine [throttleCandidate]).catalog.applicable set.failureClass
        set.serviceTier sao, ct.name = c.contractRef ∧ Derived ct c) ∧
      c.citations ≠ [] ∧
      ∀ cite ∈ c.citations, ∃ ref ∈ (runLog t₁).evidence, ref.key = cite := by
  obtain ⟨t₁, set, r, t₂, ht⟩ := throttleRun_publishes
  have hd : (throttleEngine [throttleCandidate]).catalog.DistinctNames := by
    unfold StaticCatalog.DistinctNames
    decide
  exact ⟨t₁, set, r, t₂, ht, published_grounded hd (Prog.exits_play _ _ _) ht⟩

/-! ## Accounting -/

/-- A run that passes the precheck and returns a set calls the model at most `maxSteps`
times, runs a tool only in a checkpointed turn, records the set, which adds one row to any
ledger, and journals it once.  It exhausts its budget exactly if every one of `maxSteps`
turns called tools but no terminal one.  It publishes the set exactly if its gate passed,
and then the set is proposed. -/
theorem propose_accounting (hj : e.journal = true) (hp : e.pub = true) {set : Proposal.Set}
    (h : (e.propose sig).Exits t (.ok set))
    (hpre : ∃ s, (runLog t).opens.head? = some (s, .ok [])) :
    (runLog t).modelCalls ≤ e.maxSteps.toNat ∧
    (∀ t₁ name args r t₂, t = t₁ ++ (⟨.runTool name args, r⟩ : Answered iface) :: t₂ →
      (runLog t₁).checkpointed = true) ∧
    ((runLog t).recorded = [set] ∧ ∀ (l : MemProposalLog) (now : Time),
      ((runLog t).recorded.foldl (fun l s => l.record now s) l).sets =
        l.kept now ++ [{ set := set, recordedAt := now }]) ∧
    (runLog t).journaled = [set] ∧
    (set.phase? = some .budgetExhausted ↔
      (runLog t).completions.length = e.maxSteps.toNat ∧
        ∀ comp ∈ (runLog t).completions, comp.toolCalls ≠ [] ∧ terminal? comp.toolCalls = none) ∧
    ((runLog t).published = if set.gatePassed then [set] else []) ∧
    (set.gatePassed = true → set.phase? = some .proposed) := by
  have hfinal := final_of_exits h
  have hended := hfinal.ended set rfl hpre
  refine ⟨hfinal.bounded, fun t₁ name args r t₂ ht => ?_, ⟨hended.recorded, fun l now => ?_⟩,
    hended.journaled hj, hended.budget, ?_, hended.phase⟩
  · exact permitted_of_steps h ht
  · rw [hended.recorded]
    rfl
  · rw [hended.published, hp, Bool.and_true]

theorem throttleRun_accounting :
    ∃ set, (throttleRun [throttleCandidate]).1 = .ok set ∧
      (runLog (throttleRun [throttleCandidate]).2).recorded = [set] ∧
      (runLog (throttleRun [throttleCandidate]).2).published =
        if set.gatePassed then [set] else [] := by
  have hrun := Prog.exits_play (fun _ c => (fairScript c, ()))
    ((throttleEngine [throttleCandidate]).propose checkoutDetection) ()
  obtain ⟨set, hset⟩ : ∃ set, (throttleRun [throttleCandidate]).1 = .ok set := ⟨_, rfl⟩
  have hacc := propose_accounting rfl rfl
    (hset ▸ hrun) ⟨0, rfl⟩
  exact ⟨set, hset, hacc.2.2.1.1, hacc.2.2.2.2.2.1⟩

end Beats.Clank
