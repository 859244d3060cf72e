import Beats.Clank.CaseBase
import Beats.Identifiers
import Beats.Thump.Reports

/-!
# Born auditable

An outcome has to pass `Outcome.Auditable` to be absorbed, and a decision has to pass
`Decision.Auditable` to be rendered.  The first asks for a reference to the decision, and the
second does not ask for an ID that could be referred to.

Everything else that the audit asks for is there, whatever the executor and however the windows of
the order end.  So an outcome is auditable exactly if its decision has an ID
(`born_auditable_iff`).
-/

namespace Beats.Thump

open Lib Transport Identifiers

/-! ## Executors -/

/-- The runner reported an action it takes, or an error with a text. -/
def Sound : Executed → Prop
  | .rendered => True
  | .blocked => True
  | .ran (.ok res) => res = .applied ∨ res = .proposed
  | .ran (.error err) => err ≠ ""

theorem result_mem (op : Actuate.Operation) :
    Actuate.resultOf op = .applied ∨ Actuate.resultOf op = .proposed := by
  have mechanism : ∀ m : Actuate.Mechanism, m.result = .applied ∨ m.result = .proposed := by
    intro m
    cases m <;> simp [Actuate.Mechanism.result]
  cases op with
  | one m => exact mechanism m
  | seq ms =>
    rw [Actuate.resultOf]
    cases ms.getLast? with
    | none => exact .inl rfl
    | some m => exact mechanism m

variable {o : Order} {now at' executedAt : Time}

theorem sound_of_live {r : Actuate.Runner} {u : List (Answered Actuate.iface)} {oc : Outcome}
    (h : (Live.execute r o now).Exits u (.ok oc)) :
    ∃ x, Sound x ∧ oc = x.outcome o now := by
  obtain ⟨res, hrun, rfl⟩ := exits_execute h
  refine ⟨.ran res, ?_, rfl⟩
  cases hb : r.bindings.lookup o.contractRef with
  | none =>
    rw [Actuate.Runner.run, hb] at hrun
    obtain ⟨-, rfl⟩ := Prog.exits_fail.mp hrun
    simp [Sound]
  | some b =>
    rcases Actuate.exits_run hb hrun with ⟨-, rfl⟩ | ⟨err, -, rfl⟩
    · exact result_mem _
    · simp [Sound]

theorem sound_of_gated {t : List (Answered KillSwitch.iface)} {oc : Outcome}
    (h : (KillSwitch.GatedExecutor.execute o now).Exits t (.ok oc))
    (hinner : ∀ oc', (⟨.inner o now, oc'⟩ : Answered KillSwitch.iface) ∈ t →
      ∃ x, Sound x ∧ oc' = x.outcome o now) :
    ∃ x, Sound x ∧ oc = x.outcome o now := by
  rcases gated_cases h with rfl | hm
  · exact ⟨.blocked, trivial, rfl⟩
  · exact hinner oc hm

/-! ## Outcomes -/

/-- The clock is set, and the executor reports what it can. -/
def Assumed : Answered iface → Prop
  | ⟨.now, (time : Time)⟩ => time.isZero = false
  | ⟨.execute o at', (oc : Outcome)⟩ => ∃ x, Sound x ∧ oc = x.outcome o at'
  | _ => True

theorem Assumed.honest {a : Answered iface} (h : Assumed a) : Honest a := by
  obtain ⟨c, r⟩ := a
  cases c with
  | execute o at' =>
    obtain ⟨x, -, hr⟩ := h
    rw [hr]
    rcases x with _ | _ | _ | _ <;> exact ⟨rfl, rfl⟩
  | _ => trivial

/-- What the audit asks for, but for the reference. -/
structure Complete (oc : Outcome) : Prop where
  executedAt : oc.executedAt.isZero = false
  mode : oc.mode ≠ .other ""
  result : oc.result ≠ .other ""
  error : oc.result = .failure ∨ oc.result = .partialNonConverging → oc.error ≠ ""

theorem Complete.auditable_iff {oc : Outcome} (h : Complete oc) :
    oc.auditable = .ok () ↔ oc.decisionRef ≠ "" := by
  have herr : ¬ ((oc.result = .failure ∨ oc.result = .partialNonConverging) ∧ oc.error = "") :=
    fun he => h.error he.1 he.2
  by_cases hd : oc.decisionRef = ""
  · simp [Outcome.auditable, hd]
  · simp [Outcome.auditable, hd, h.executedAt, h.mode, h.result, herr]

theorem complete_executed {x : Executed} (h : Sound x) (o : Order) (ht : at'.isZero = false) :
    Complete (x.outcome o at') := by
  rcases x with _ | _ | err | res
  · exact ⟨ht, nofun, nofun, nofun⟩
  · exact ⟨ht, nofun, nofun, nofun⟩
  · exact ⟨ht, nofun, nofun, fun _ => h⟩
  · rcases h with rfl | rfl
    · exact ⟨ht, nofun, nofun, nofun⟩
    · exact ⟨ht, nofun, nofun, nofun⟩

theorem complete_convergence (o : Order) (st : Settlement) (idAt : Time)
    (ht : executedAt.isZero = false) : Complete (convergenceOf o st idAt executedAt) where
  executedAt := ht
  mode := nofun
  result := by
    unfold convergenceOf settleResult
    split <;> exact nofun
  error := by
    unfold convergenceOf settleResult
    cases st.converged with
    | true => exact nofun
    | false => exact fun _ => settleError_ne_empty _ _ _

theorem complete_acceptance {result : Outcome.Result} {errText : String}
    (hr : Refusal o result errText) (idAt : Time) (ht : executedAt.isZero = false) :
    Complete (acceptanceOf o result errText idAt executedAt) := by
  cases hr with
  | unread e => exact ⟨ht, nofun, nofun, fun _ => by simp [acceptanceOf]⟩
  | unmerged =>
    refine ⟨ht, nofun, nofun, fun _ => ?_⟩
    unfold acceptanceOf acceptanceError
    split <;> simp

/-! ## What is published -/

/-- A call, or a goroutine that it started, publishes the outcome. -/
inductive Publishes (tr : Transport) (g : Decision.Governed) (oc : Outcome) : Prop where
  | call {t : List (Answered iface)} {q : Prog iface HandleError Unit} {r : Except String Unit}
      (steps : (tr.handle g).Steps t q) (assumed : ∀ a ∈ t, Assumed a)
      (published : (⟨.publish (.outcome oc), r⟩ : Answered iface) ∈ t)
  | goroutine {t t' : List (Answered iface)} {q : Prog iface HandleError Unit}
      {q' : Prog iface Empty Unit} {w : Watch} {u : Unit} {r : Except String Unit}
      (steps : (tr.handle g).Steps t q) (started : (⟨.go w, u⟩ : Answered iface) ∈ t)
      (steps' : (background w).Steps t' q') (assumed : ∀ a ∈ t', Assumed a)
      (published : (⟨.publish (.outcome oc), r⟩ : Answered iface) ∈ t')

section

variable {tr : Transport} {g : Decision.Governed} {oc : Outcome}

theorem Publishes.names (h : Publishes tr g oc) : oc.decisionRef = g.decision.id := by
  cases h with
  | call steps assumed published =>
    exact (Reports.call steps (fun a ha => (assumed a ha).honest) published).names.1
  | goroutine steps started steps' assumed published =>
    exact (Reports.goroutine steps started steps' (fun a ha => (assumed a ha).honest)
      published).names.1

/-- What an executor reported at a time that the clock showed is complete. -/
theorem complete_report {t : List (Answered iface)} (h : ∀ a ∈ t, Assumed a)
    (hx : (⟨.execute o at', oc⟩ : Answered iface) ∈ t) (ht : (⟨.now, at'⟩ : Answered iface) ∈ t) :
    Complete oc := by
  obtain ⟨x, hsound, rfl⟩ := h _ hx
  exact complete_executed hsound o (h _ ht)

theorem Publishes.complete (h : Publishes tr g oc) : Complete oc := by
  cases h with
  | call steps assumed published =>
    obtain ⟨t₁, ht₁, -, o, at', hx⟩ := (enacts_handle tr g).of_mem steps published
    obtain ⟨t₂, ht₂, -, hnow⟩ := (enacts_handle tr g).of_mem steps (ht₁ hx)
    exact complete_report assumed (ht₁ hx) (ht₂ hnow)
  | @goroutine _ t' _ _ w _ _ _ _ steps' assumed published =>
    obtain ⟨t₁, ht₁, -, hemission⟩ := (tends_background w).of_mem steps' published
    have read {t₀ : List (Answered iface)} {idAt executedAt : Time}
        (ht : t₁ = t₀ ++ [⟨.now, idAt⟩, ⟨.now, executedAt⟩]) : executedAt.isZero = false := by
      have hmem : ⟨.now, executedAt⟩ ∈ t' := ht₁ (by simp [ht])
      exact assumed _ hmem
    cases hemission with
    | report now at' hx =>
      obtain ⟨t₂, ht₂, -, -, hnow⟩ := (tends_background w).of_mem steps' (ht₁ hx)
      exact complete_report assumed (ht₁ hx) (ht₂ hnow)
    | convergence ht => exact complete_convergence _ _ _ (read ht)
    | acceptance hr ht => exact complete_acceptance hr _ (read ht)

/-- `Click.Absorb` rejects as unauditable what is not auditable, and nothing else. -/
theorem absorb_unauditable_iff (oc : Outcome) :
    (∀ (c : Clank.Click) why, (c.absorb oc).2 ≠ .error (.unauditable why)) ↔
      oc.auditable = .ok () := by
  cases haudit : oc.auditable with
  | error why =>
    refine iff_of_false (fun h => h {} why ?_) nofun
    rw [Clank.Click.absorb, haudit]
  | ok _ =>
    refine iff_of_true (fun c why => ?_) rfl
    unfold Clank.Click.absorb
    rw [haudit]
    dsimp only
    split
    · split
      · exact nofun
      · split <;> exact nofun
    · exact nofun

end

/-- Every outcome that is published for an envelope, by the call or by a goroutine it started, is
auditable exactly if the decision has an ID, and is not rejected as unauditable exactly then. -/
theorem born_auditable_iff {tr : Transport} {g : Decision.Governed} {oc : Outcome}
    (h : Publishes tr g oc) :
    (oc.auditable = .ok () ↔ g.decision.id ≠ "") ∧
    ((∀ (c : Clank.Click) why, (c.absorb oc).2 ≠ .error (.unauditable why)) ↔
      g.decision.id ≠ "") := by
  have haudit := h.complete.auditable_iff
  rw [h.names] at haudit
  exact ⟨haudit, (absorb_unauditable_iff oc).trans haudit⟩

/-- The environment in which everything succeeds and orders are rendered only. -/
def rehearsal : (c : Call) → iface.Answer c
  | .execute o at' => DryRun.execute o at'
  | c => fairWeather c

theorem assumed_rehearsal (c : Call) : Assumed ⟨c, rehearsal c⟩ := by
  cases c with
  | now => rfl
  | execute o at' => exact ⟨.rendered, trivial, rfl⟩
  | _ => trivial

theorem publishes_rehearsal {g : Decision.Governed} {oc : Outcome} {r : Except String Unit}
    (h : (⟨.publish (.outcome oc), r⟩ : Answered iface) ∈ (Prog.play
      (fun _ c => (rehearsal c, ())) () (handle { catalog := throttleCatalog } g)).2) :
    Publishes { catalog := throttleCatalog } g oc := by
  refine .call (Prog.exits_play _ _ ()) (fun ⟨c, r⟩ ha => ?_) h
  rw [Prog.eq_of_mem_play ha]
  exact assumed_rehearsal c

theorem throttleApproval_auditable : ∃ oc,
    Publishes { catalog := throttleCatalog } throttleApproval oc ∧ oc.auditable = .ok () := by
  have hpub : Publishes { catalog := throttleCatalog } throttleApproval _ :=
    publishes_rehearsal (List.mem_of_getElem? (i := 4) rfl)
  exact ⟨_, hpub, (born_auditable_iff hpub).1.mpr (by decide)⟩

/-- The approval without its ID.  Nothing that renders it looks at the ID. -/
def anonymousApproval : Decision.Governed :=
  { throttleApproval with decision := { throttleApproval.decision with id := "" } }

theorem anonymousApproval_unauditable : anonymousApproval.decision.auditable = .ok () ∧ ∃ oc,
    Publishes { catalog := throttleCatalog } anonymousApproval oc ∧
    (({} : Clank.Click).absorb oc).2 = .error
      (.unauditable "outcome missing decision ref - an act answers to a grant") := by
  refine ⟨by decide, _, publishes_rehearsal (List.mem_of_getElem? (i := 4) rfl), rfl⟩

end Beats.Thump
