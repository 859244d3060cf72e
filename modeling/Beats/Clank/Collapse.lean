import Mathlib.Data.Int.SuccPred
import Mathlib.Data.Int.ConditionallyCompleteOrder
import Mathlib.Data.List.MinMax
import Beats.Clank.Corpus
import Beats.Lib.FirstOf

/-!
# Collapsing an incident

`CollapseCases` of `internal/clank` keeps one case of each incident.  It leaves out what was only
applied, and of the rest it takes the first of those that were observed last (`mem_collapseCases`).
Collapsing once more changes nothing (`collapseCases_eq_self`).

What is left once the applied ones are out is called settled, but not all of it has settled
anything.  An undo that is left as a release comes after the convergence result of its incident, and
takes its place as the proposal it is (`proposedUndo_survives`, `collapses_iff`).
-/

namespace Beats.Clank

open Outcome Lib List Case

/-- The settled cases of an incident. -/
def records (cases : List Case) (incident : String × String) : List Case :=
  cases.filter fun c => c.incident = incident ∧ c.result ≠ .applied

section

variable {cases : List Case} {incident : String × String} {c : Case}

theorem mem_records :
    c ∈ records cases incident ↔ c ∈ cases ∧ c.incident = incident ∧ c.result ≠ .applied := by
  simp [records, mem_filter]

/-- The loop over the cases keeps the first of the records that were observed last. -/
theorem foldl_settledCase (cases : List Case) (incident : String × String) :
    cases.foldl (settledCase incident) none = (records cases incident).argmax observedAt := by
  rw [argmax, records, foldl_filter]
  congr 1
  funext best c
  by_cases hc : c.incident = incident ∧ c.result ≠ .applied
  · have hskip : ¬ (c.incident ≠ incident ∨ c.result = .applied) := by tauto
    unfold settledCase
    rw [if_neg hskip, if_pos (decide_eq_true hc)]
    cases best <;> rfl
  · have hskip : c.incident ≠ incident ∨ c.result = .applied := by tauto
    unfold settledCase
    rw [if_pos hskip, if_neg (by simpa using hc)]

/-! ## What is kept -/

theorem mem_collapseCases :
    c ∈ collapseCases cases ↔ c ∈ (records cases c.incident).argmax observedAt := by
  rw [collapseCases, mem_filterMap]
  constructor
  · rintro ⟨incident, -, hc⟩
    rw [foldl_settledCase] at hc
    obtain ⟨-, rfl, -⟩ := mem_records.mp (argmax_mem hc)
    exact hc
  · intro hc
    have hmem := (mem_records.mp (argmax_mem hc)).1
    refine ⟨c.incident, mem_eraseDups.mpr (mem_map_of_mem hmem), ?_⟩
    rw [foldl_settledCase]
    exact hc

theorem mem_of_mem_collapseCases (h : c ∈ collapseCases cases) :
    c ∈ cases ∧ c.result ≠ .applied := by
  obtain ⟨hmem, -, hres⟩ := mem_records.mp (argmax_mem (mem_collapseCases.mp h))
  exact ⟨hmem, hres⟩

/-- The incidents are kept in the order they were first seen in, but for those that were only
applied. -/
theorem map_incident_collapseCases (cases : List Case) : (collapseCases cases).map Case.incident =
      (cases.map Case.incident).eraseDups.filter fun k => (records cases k).argmax
        observedAt |>.isSome := by
  rw [collapseCases, map_filterMap]
  induction (cases.map incident).eraseDups with
  | nil => rfl
  | cons k ks ih =>
    rw [filterMap_cons, foldl_settledCase]
    cases hk : (records cases k).argmax observedAt with
    | none => simp [hk, ih]
    | some c =>
      have hc : c.incident = k := (mem_records.mp (argmax_mem hk)).2.1
      simp [hk, ih, hc]

theorem nodup_incident_collapseCases (cases : List Case) :
    ((collapseCases cases).map Case.incident).Nodup := by
  rw [map_incident_collapseCases]
  exact (nodup_eraseDups _).filter _

theorem nodup_collapseCases (cases : List Case) : (collapseCases cases).Nodup :=
  (nodup_incident_collapseCases cases).of_map _

theorem mem_incident_collapseCases : incident ∈ (collapseCases cases).map Case.incident ↔
      ∃ c ∈ cases, c.incident = incident ∧ c.result ≠ .applied := by
  rw [map_incident_collapseCases, mem_filter, mem_eraseDups, Option.isSome_iff_ne_none,
    ne_eq, argmax_eq_none, eq_nil_iff_forall_not_mem]
  simp only [mem_records, not_forall, not_not, mem_map]
  constructor
  · rintro ⟨-, c, hc⟩
    exact ⟨c, hc⟩
  · rintro ⟨c, hc, hk, hres⟩
    exact ⟨⟨c, hc, hk⟩, c, hc, hk, hres⟩

theorem collapseCases_eq_self (hids : (cases.map Case.incident).Nodup)
    (hres : ∀ c ∈ cases, c.result ≠ .applied) : collapseCases cases = cases := by
  have hself : ∀ c ∈ cases, (records cases c.incident).argmax observedAt = some c := by
    intro c hc
    have hc' : c ∈ records cases c.incident := mem_records.mpr ⟨hc, rfl, hres c hc⟩
    cases hm : (records cases c.incident).argmax observedAt with
    | none => exact absurd (argmax_eq_none.mp hm) (ne_nil_of_mem hc')
    | some d =>
      obtain ⟨hd, hinc, -⟩ := mem_records.mp (argmax_mem hm)
      rw [inj_on_of_nodup_map hids hd hc hinc]
  rw [collapseCases, eraseDups_eq_firstOf, firstOf_eq_self (by rwa [map_id]), filterMap_map]
  refine (filterMap_congr fun c hc => ?_).trans filterMap_some
  rw [Function.comp_apply, foldl_settledCase]
  exact hself c hc

theorem collapseCases_idem (cases : List Case) :
    collapseCases (collapseCases cases) = collapseCases cases :=
  collapseCases_eq_self (nodup_incident_collapseCases cases) fun _ hc =>
    (mem_of_mem_collapseCases hc).2

end

/-! ## The record that settled an incident -/

/-- `out` has of each incident of the cases the record that settled it. -/
structure Collapses (cases out : List Case) : Prop where
  once : (out.map incident).Nodup
  firstSeen : (out.map incident).Sublist (cases.map incident).eraseDups
  dropped : ∀ c ∈ cases, c.incident ∉ out.map incident ↔
    ∀ c' ∈ cases, c'.incident = c.incident → c'.result = .applied
  idempotent : collapseCases out = out
  /-- Where there is a convergence result, the latest of them is kept. -/
  settled : ∀ s ∈ cases, settled s.result = true →
    ∃ c ∈ out, c ∈ cases ∧ c.incident = s.incident ∧ settled c.result = true ∧
      ∀ s' ∈ cases, s'.incident = s.incident → settled s'.result = true →
        s'.observedAt ≤ c.observedAt

/-- Every record that is no convergence result is earlier than a convergence result of its
incident, if that has one, or of the same time and listed behind it. -/
def Superseded (cases : List Case) : Prop :=
  ∀ n ∈ cases, n.result ≠ .applied → settled n.result = false →
    (∃ s ∈ cases, s.incident = n.incident ∧ settled s.result = true) →
    ∃ s ∈ records cases n.incident, settled s.result = true ∧
      (n.observedAt < s.observedAt ∨ n.observedAt = s.observedAt ∧
        (records cases n.incident).idxOf s < (records cases n.incident).idxOf n)

section

variable {cases : List Case} {c n s : Case}

theorem mem_records_of_settled (hs : s ∈ cases) (hset : settled s.result = true) :
    s ∈ records cases s.incident := by
  refine mem_records.mpr ⟨hs, rfl, fun happ => ?_⟩
  rw [happ] at hset
  cases hset

theorem exists_mem_collapseCases (hs : s ∈ cases) (hset : Case.settled s.result = true) :
    ∃ c ∈ collapseCases cases, c.incident = s.incident := by
  obtain ⟨-, -, hres⟩ := mem_records.mp (mem_records_of_settled hs hset)
  exact mem_map.mp (mem_incident_collapseCases.mpr ⟨s, hs, rfl, hres⟩)

theorem Superseded.settled_of_mem (h : Superseded cases) (hc : c ∈ collapseCases cases)
    (hs : s ∈ cases) (hinc : c.incident = s.incident) (hset : settled s.result = true) :
    settled c.result = true := by
  by_contra hunsettled
  obtain ⟨hmem, hres⟩ := mem_of_mem_collapseCases hc
  obtain ⟨-, hmax, hfirst⟩ := mem_argmax_iff.mp (mem_collapseCases.mp hc)
  obtain ⟨s', hs', -, hlater⟩ :=
    h c hmem hres (Bool.eq_false_iff.mpr hunsettled) ⟨s, hs, hinc.symm, hset⟩
  rcases hlater with hlt | ⟨heq, hidx⟩
  · exact absurd (hmax s' hs') (not_le.mpr hlt)
  · exact absurd (hfirst s' hs' heq.le) (not_le.mpr hidx)

theorem superseded_of_settled (hc : c ∈ collapseCases cases) (hset : settled c.result = true)
    (hn : n ∈ records cases c.incident) (hunsettled : settled n.result = false) :
    n.observedAt < c.observedAt ∨ n.observedAt = c.observedAt ∧
      (records cases c.incident).idxOf c < (records cases c.incident).idxOf n := by
  obtain ⟨hmem, hmax, hfirst⟩ := mem_argmax_iff.mp (mem_collapseCases.mp hc)
  rcases (hmax n hn).lt_or_eq with hlt | heq
  · exact .inl hlt
  · refine .inr ⟨heq, lt_of_le_of_ne (hfirst n hn heq.ge) fun hidx => ?_⟩
    obtain rfl := (idxOf_inj hmem).mp hidx
    rw [hset] at hunsettled
    cases hunsettled

end

/-- The record that settled an incident is the one that is kept exactly where every other record
of the incident is superseded. -/
theorem collapses_iff (cases : List Case) :
    Collapses cases (collapseCases cases) ↔ Superseded cases := by
  constructor
  · intro h n hn hres hunsettled hconv
    obtain ⟨s, hs, hinc, hset⟩ := hconv
    obtain ⟨c, hc, -, hcinc, hcset, -⟩ := h.settled s hs hset
    have hcn : c.incident = n.incident := hcinc.trans hinc
    have hcrec : c ∈ records cases c.incident := argmax_mem (mem_collapseCases.mp hc)
    have hnrec : n ∈ records cases c.incident := mem_records.mpr ⟨hn, hcn.symm, hres⟩
    rw [← hcn]
    exact ⟨c, hcrec, hcset, superseded_of_settled hc hcset hnrec hunsettled⟩
  · intro h
    exact
      { once := nodup_incident_collapseCases cases
        firstSeen := by
          rw [map_incident_collapseCases]
          exact filter_sublist
        dropped := fun c hc => by
          rw [mem_incident_collapseCases]
          simp only [not_exists, not_and, not_not]
        idempotent := collapseCases_idem cases
        settled := fun s hs hset => by
          obtain ⟨c, hc, hinc⟩ := exists_mem_collapseCases hs hset
          refine ⟨c, hc, (mem_of_mem_collapseCases hc).1, hinc,
            h.settled_of_mem hc hs hinc hset, fun s' hs' hinc' hset' => ?_⟩
          have hs'rec := mem_records_of_settled hs' hset'
          rw [hinc', ← hinc] at hs'rec
          exact le_of_mem_argmax hs'rec (mem_collapseCases.mp hc) }

/-- The cases of a release that was proposed and did not converge, and whose undo is a release of
its own. -/
def proposedUndo : List Case :=
  [{ signalRef := "checkout", decisionRef := "dec:checkout:1", outcomeRef := "out:checkout:10",
      mode := .live, result := .proposed, observedAt := 10 },
    { signalRef := "checkout", decisionRef := "dec:checkout:1",
      outcomeRef := "out:checkout:conv:70", mode := .live, result := .partialNonConverging,
      observedAt := 70 },
    { signalRef := "checkout", decisionRef := "dec:checkout:1", outcomeRef := "out:checkout:71",
      mode := .live, result := .proposed, observedAt := 71 }]

/-- The proposed undo is what is kept, and that the action did not converge is lost. -/
theorem proposedUndo_survives :
    (collapseCases proposedUndo).map Case.result = [.proposed] ∧
      ¬ Collapses proposedUndo (collapseCases proposedUndo) := by
  have hkept : (collapseCases proposedUndo).map Case.result = [.proposed] := by decide
  refine ⟨hkept, fun h => ?_⟩
  obtain ⟨c, hc, -, -, hset, -⟩ := h.settled
    { signalRef := "checkout", decisionRef := "dec:checkout:1",
      outcomeRef := "out:checkout:conv:70", mode := .live, result := .partialNonConverging,
      observedAt := 70 } (by decide) rfl
  have hmem : c.result ∈ (collapseCases proposedUndo).map Case.result := mem_map_of_mem hc
  rw [mem_singleton.mp hmem] at hset
  cases hset

end Beats.Clank
