import Beats.Thump.Governance

/-!
# Every outcome names its decision

What a call of `Transport.handle`, and the goroutines it starts, publish on
`thump.outcomes`.  Some outcomes are made here and some are the executor's.  If the executor
reports on the order it was given, every one of them carries the ID and the fingerprint of
the decision that was handled (`Reports.names`).

The references go from the decision to the order, which `duty` says is the granted one, and
from the order to its outcomes and its undo, which `tending` says.
-/

namespace Beats.Thump

open Lib Transport

/-- The references are those of the decision. -/
def Names (d : Decision) (decisionRef signalRef : String) : Prop :=
  decisionRef = d.id ∧ signalRef = d.signalRef

/-- The executor reports on the order it was given. -/
def Honest : Answered iface → Prop
  | ⟨.execute o _, (oc : Outcome)⟩ => oc.decisionRef = o.decisionRef ∧ oc.signalRef = o.signalRef
  | _ => True

variable {oc : Outcome}

section

variable {tr : Transport} {g : Decision.Governed} {t : List (Answered iface)}
  {q : Prog iface HandleError Unit}

variable {o : Order} {r : Except String Unit} {w : Watch}

theorem GrantedOrder.names {cat : Contract.StaticCatalog} (h : GrantedOrder cat g o) :
    Names g.decision o.decisionRef o.signalRef := by
  obtain ⟨c, ct, at', -, rfl⟩ := h
  exact ⟨rfl, rfl⟩

theorem names_of_execute (ht : (tr.handle g).Steps t q) {at' : Time}
    (hm : ⟨.execute o at', oc⟩ ∈ t) :
    Names g.decision o.decisionRef o.signalRef := by
  obtain ⟨t₁, -, hex⟩ := (duty_handle tr g).permits_of_mem ht hm
  exact hex.2.names

theorem names_of_publish (ht : (tr.handle g).Steps t q) (hh : ∀ a ∈ t, Honest a)
    (hm : ⟨.publish (.outcome oc), r⟩ ∈ t) :
    Names g.decision oc.decisionRef oc.signalRef := by
  obtain ⟨t₁, ht₁, hrep⟩ := (duty_handle tr g).permits_of_mem ht hm
  rw [duty_after] at hrep
  obtain ⟨o, at', ho⟩ := mem_reports hrep
  obtain ⟨hd, hs⟩ := names_of_execute ht (ht₁ ho)
  obtain ⟨hd', hs'⟩ := hh _ (ht₁ ho)
  exact ⟨hd'.trans hd, hs'.trans hs⟩

theorem names_of_go (ht : (tr.handle g).Steps t q) {u : Unit}
    (hm : ⟨.go w, u⟩ ∈ t) :
    Names g.decision w.order.decisionRef w.order.signalRef := by
  obtain ⟨t₁, ht₁, hex⟩ := (duty_handle tr g).permits_of_mem ht hm
  rw [duty_after] at hex
  obtain ⟨⟨c, oc⟩, hc, hf⟩ := List.mem_flatMap.mp hex
  cases c with
  | execute o at' =>
    have ho : w.order = o := by
      simp only [forward?] at hf
      split at hf
      · exact List.mem_singleton.mp hf
      · cases hf
    rw [ho]
    exact names_of_execute ht (ht₁ hc)
  | _ => cases hf

theorem refs_of_background {t : List (Answered iface)} {q : Prog iface Empty Unit}
    (ht : (background w).Steps t q) (hh : ∀ a ∈ t, Honest a)
    (hm : ⟨.publish (.outcome oc), r⟩ ∈ t) :
    oc.decisionRef = w.order.decisionRef ∧ oc.signalRef = w.order.signalRef := by
  obtain ⟨t₁, ht₁, hpub⟩ := (tending_background w).permits_of_mem ht hm
  rw [tending_after] at hpub
  rcases hpub with hrep | hrefs
  · obtain ⟨o, at', ho⟩ := mem_reports hrep
    obtain ⟨-, -, -, hd, hs⟩ := (tending_background w).permits_of_mem ht (ht₁ ho)
    obtain ⟨hd', hs'⟩ := hh _ (ht₁ ho)
    exact ⟨hd'.trans hd, hs'.trans hs⟩
  · exact hrefs

end

/-- The outcome is published by a call on the envelope or by a goroutine that a call started,
under an honest executor. -/
inductive Reports (tr : Transport) (g : Decision.Governed) (oc : Outcome) : Prop where
  | call {t : List (Answered iface)} {q : Prog iface HandleError Unit} {r : Except String Unit}
      (steps : (tr.handle g).Steps t q) (honest : ∀ a ∈ t, Honest a)
      (published : ⟨.publish (.outcome oc), r⟩ ∈ t)
  | goroutine {t t' : List (Answered iface)} {q : Prog iface HandleError Unit}
      {q' : Prog iface Empty Unit} {w : Watch} {u : Unit} {r : Except String Unit}
      (steps : (tr.handle g).Steps t q) (started : ⟨.go w, u⟩ ∈ t)
      (steps' : (background w).Steps t' q') (honest : ∀ a ∈ t', Honest a)
      (published : ⟨.publish (.outcome oc), r⟩ ∈ t')

theorem Reports.names {tr : Transport} {g : Decision.Governed} (h : Reports tr g oc) :
    Names g.decision oc.decisionRef oc.signalRef := by
  cases h with
  | call steps honest published => exact names_of_publish steps honest published
  | goroutine steps started steps' honest published =>
    obtain ⟨hd, hs⟩ := names_of_go steps started
    obtain ⟨hd', hs'⟩ := refs_of_background steps' honest published
    exact ⟨hd'.trans hd, hs'.trans hs⟩

end Beats.Thump
