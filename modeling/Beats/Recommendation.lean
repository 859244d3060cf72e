import Beats.Clank.CaseBase
import Beats.Clank.Propose
import Beats.Hiss.Authority
import Beats.Thump.Actuator

/-!
# What a published set recommends

A set names its recommended candidate by ID, and three readers resolve the ID on their own: the
governor and the actuator take the first candidate with that ID, the case base takes the last.  The
IDs are the model's, and nothing between the decoding of the `propose` call and the publisher looks
at them (`published_resolvable_iff`).  So an empty one passes the gate on the evidence of the run,
and of two candidates with one ID the governor reads one and the case base the other
(`unnamed_published`).
-/

namespace Beats

open Proposal Clank Lib List

/-- The candidates have distinct IDs and none is missing, there is one, and all readers read
the same candidate for the recommendation, which no other has. -/
structure Resolvable (set : Proposal.Set) : Prop where
  nonempty : set.proposals ≠ []
  distinct : (set.proposals.map Candidate.id).Nodup
  named : "" ∉ set.proposals.map Candidate.id
  resolved : ∃ c ∈ set.proposals,
    (∀ c' ∈ set.proposals, c'.id = set.recommended → c' = c) ∧
    Hiss.recommended set = some c ∧
    (∀ pol now, Thump.candidate set (Hiss.Authority.evaluate set pol now).candidateRef = some c) ∧
    recommendedCase set = some c

/-- The candidates of the call have distinct IDs and none is missing, and there is one. -/
structure WellNamed (p : ProposeInput) : Prop where
  nonempty : p.proposals ≠ []
  distinct : (p.proposals.map ProposeCandidate.id).Nodup
  named : "" ∉ p.proposals.map ProposeCandidate.id

/-- The search of the case base keeps what it has found where nothing else matches. -/
theorem foldl_last_of_not_mem {id : String} {cs : List Candidate}
    (h : id ∉ cs.map Candidate.id) (found : Option Candidate) :
    cs.foldl (fun found c => if c.id = id then some c else found) found = found := by
  induction cs generalizing found with
  | nil => rfl
  | cons c cs ih =>
    simp only [map_cons, mem_cons, not_or] at h
    rw [foldl_cons, if_neg (Ne.symm h.1)]
    exact ih h.2 found

/-- With distinct IDs a recommendation of the first candidate is read alike by all. -/
theorem resolvable_of_distinct {set : Set} (hne : set.proposals ≠ [])
    (hd : (set.proposals.map Candidate.id).Nodup) (hn : "" ∉ set.proposals.map Candidate.id)
    (hrec : set.recommended = (set.proposals.head?.map Candidate.id).getD "") : Resolvable set := by
  refine ⟨hne, hd, hn, ?_⟩
  obtain ⟨c, cs, hps⟩ := exists_cons_of_ne_nil hne
  have hid : set.recommended = c.id := by simpa [hps] using hrec
  have hrest : c.id ∉ cs.map Candidate.id := by
    rw [hps, map_cons, nodup_cons] at hd
    exact hd.1
  refine ⟨c, by simp [hps], ?_, by simp [Hiss.recommended, hps, hid], ?_, ?_⟩
  · intro c' hc' hid'
    rw [hps, mem_cons] at hc'
    rcases hc' with rfl | hc'
    · rfl
    · have hmem : c'.id ∈ cs.map Candidate.id := mem_map_of_mem hc'
      rw [hid', hid] at hmem
      exact absurd hmem hrest
  · intro pol now
    obtain ⟨-, -, -, href, -⟩ := Hiss.Authority.evaluate_stamped set pol now
    simp [Thump.candidate, hps, href, hid]
  · rw [recommendedCase, hps, hid, foldl_cons, if_pos rfl]
    exact foldl_last_of_not_mem hrest (some c)

/-- A set that a run hands to the publisher is resolvable exactly if the `propose` call that
ended the run was well named. -/
theorem published_resolvable_iff {e : Engine} {sig : Signal.Detection} {t : List (Answered iface)}
    {q : Prog iface String Proposal.Set} (h : (e.propose sig).Steps t q)
    {t₁ t₂ : List (Answered iface)} {subject : String} {set : Proposal.Set}
    {r : iface.Answer (.publish subject set)}
    (ht : t = t₁ ++ ⟨.publish subject set, r⟩ :: t₂) :
    ∃ p, Proposed e (runLog t₁).completions p ∧ (Resolvable set ↔ WellNamed p) := by
  have hpub : subject = "thump.proposals" ∧ MayPublish e (runLog t₁) set :=
    permitted_of_steps h ht
  obtain ⟨p, hp, hperm⟩ := hpub.2.proposed
  have hnil : set.proposals = [] ↔ p.proposals = [] := by
    have := hperm.length_eq
    simp only [length_map] at this
    rw [← length_eq_zero_iff, ← length_eq_zero_iff, this]
  refine ⟨p, hp, ?_⟩
  constructor
  · intro hset
    exact ⟨mt hnil.mpr hset.nonempty, hperm.nodup_iff.mp hset.distinct,
      mt hperm.mem_iff.mpr hset.named⟩
  · intro hin
    exact resolvable_of_distinct (mt hnil.mp hin.nonempty) (hperm.nodup_iff.mpr hin.distinct)
      (mt hperm.mem_iff.mp hin.named) hpub.2.recommended

theorem throttleRun_resolvable : ∃ t₁ set r t₂, (throttleRun [throttleCandidate]).2 =
      t₁ ++ (⟨.publish "thump.proposals" set, r⟩ : Answered iface) :: t₂ ∧ Resolvable set := by
  obtain ⟨t₁, set, r, t₂, ht⟩ := throttleRun_publishes
  obtain ⟨p, ⟨comp, args, hlast, hterm, hdec⟩, hiff⟩ := published_resolvable_iff
    (Prog.exits_play _ _ _) ht
  cases hdec
  exact ⟨t₁, set, r, t₂, ht, hiff.mpr ⟨by decide, by decide, by decide⟩⟩

/-- Two candidates with one ID and different confidences. -/
def twinCandidates : List ProposeCandidate :=
  [{ throttleCandidate with confidence := some (1 / 2) }, throttleCandidate]

/-- The engine publishes an empty set, and one whose recommendation the governor and the
case base read differently. -/
theorem unnamed_published :
    (∃ t₁ set r t₂, (throttleRun []).2 =
      t₁ ++ (⟨.publish "thump.proposals" set, r⟩ : Answered iface) :: t₂ ∧ ¬ Resolvable set) ∧
    ∃ t₁ set r t₂, (throttleRun twinCandidates).2 =
      t₁ ++ (⟨.publish "thump.proposals" set, r⟩ : Answered iface) :: t₂ ∧ ¬ Resolvable set := by
  constructor
  · refine ⟨(throttleRun []).2.take 14, _, _, (throttleRun []).2.drop 15, rfl, ?_⟩
    intro hset
    exact hset.nonempty rfl
  · refine ⟨(throttleRun twinCandidates).2.take 14, _, _,
      (throttleRun twinCandidates).2.drop 15, rfl, ?_⟩
    intro hset
    obtain ⟨c, -, -, hgovernor, -, hcase⟩ := hset.resolved
    exact absurd (hgovernor.trans hcase.symm) (by decide +kernel)

end Beats
