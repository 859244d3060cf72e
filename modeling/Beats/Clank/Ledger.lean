import Beats.Api.Decision

/-!
# The ledger

`MemProposalLog` of `internal/clank`: the sets the engine has formed, each with the time it
was recorded at, oldest first.  The engine asks it for the open sets of a fingerprint
(`open?`) before it reasons and once more before it emits, and the return edges move the
newest open set of a fingerprint (`observe`, `decline`).

A row without a status is no row of the engine, but a replayed one can be.  The dedupe
query dereferences the status of every row it matches, and such a row stops it: `open?` is
`none` there.
-/

namespace Beats.Clank

open Proposal List

/-! ## Phases -/

/-- `isOpen`: the set is in flight. -/
def isOpen : Phase → Bool
  | .proposed => true
  | .acknowledge => true
  | .acted => true
  | _ => false

/-- `transition`: the status after an outcome. -/
def transition (st : Status) (o : Outcome) : Status :=
  let st := { st with observedAt := o.executedAt }
  match o.result with
  | .rendered => { st with phase := .acknowledge }
  | .applied => { st with phase := .acted, outcome := o.result.text }
  | .success => { st with phase := .closed, outcome := o.result.text }
  | .failure => { st with phase := .closed, outcome := o.result.text }
  | .partialNonConverging => { st with phase := .closed, outcome := o.result.text }
  | _ => { st with phase := .acted, outcome := o.result.text }

theorem phase_transition (st st' : Status) (o : Outcome) :
    (transition st o).phase = (transition st' o).phase := by
  unfold transition
  cases o.result <;> rfl

/-! ## Rows -/

/-- A row: the set, and when it was recorded. -/
structure Recorded where
  set : Proposal.Set
  recordedAt : Time

def Recorded.open (r : Recorded) : Bool :=
  match r.set.status with
  | some st => isOpen st.phase
  | none => false

/-- The row is closed.  A row without a status is neither open nor closed. -/
def Recorded.closed (r : Recorded) : Bool :=
  match r.set.status with
  | some st => !isOpen st.phase
  | none => false

theorem Recorded.closed_of_open {r : Recorded} (h : r.open = true) : r.closed = false := by
  unfold Recorded.open at h
  unfold Recorded.closed
  cases hs : r.set.status with
  | none => rfl
  | some st =>
    rw [hs] at h
    simp [h]

def Recorded.answers (fingerprint : String) (r : Recorded) : Bool :=
  r.set.signalRef == fingerprint && r.open

/-- The row with its status changed. -/
def Recorded.update (f : Status → Status) (r : Recorded) : Recorded :=
  { r with set := { r.set with status := r.set.status.map f } }

/-- `MemProposalLog`.  A retention of zero or less stands for the default. -/
structure MemProposalLog where
  ledgerRetention : Duration := 0
  sets : List Recorded := []

namespace MemProposalLog

def defaultRetention : Duration := 86400000000000

/-- How long a closed set stays. -/
def retention (l : MemProposalLog) : Duration :=
  if l.ledgerRetention ≤ 0 then defaultRetention else l.ledgerRetention

/-- The rows that `Record` keeps: the young ones, and all that are not closed. -/
def kept (l : MemProposalLog) (now : Time) : List Recorded :=
  l.sets.filter fun r => decide (now - l.retention < r.recordedAt) || !r.closed

/-- `MemProposalLog.Record`, with the two times it reads off the clock: the one it prunes by
and the one it stamps the row with. -/
def recordAt (l : MemProposalLog) (prunedAt stampedAt : Time) (ps : Proposal.Set) :
    MemProposalLog :=
  { l with sets := l.kept prunedAt ++ [{ set := ps, recordedAt := stampedAt }] }

/-- `MemProposalLog.Record` at the time `now`. -/
def record (l : MemProposalLog) (now : Time) : Proposal.Set → MemProposalLog := l.recordAt now now

/-- The rows of the dedupe query, where no matched row lacks a status. -/
def openRows (fingerprint : String) (since : Time) : List Recorded → Option (List Proposal.Set)
  | [] => some []
  | r :: rs =>
    if r.set.signalRef = fingerprint ∧ since < r.recordedAt then
      match r.set.status with
      | none => none
      | some st =>
        (openRows fingerprint since rs).map fun sets =>
          if isOpen st.phase then r.set :: sets else sets
    else openRows fingerprint since rs

/-- The open sets of a signal since then. -/
def open? (l : MemProposalLog) (fingerprint : String) (since : Time) :
    Option (List Proposal.Set) :=
  openRows fingerprint since l.sets

/-- The newest open row of a signal changes its status. -/
def updateNewest (fingerprint : String) (f : Status → Status) :
    List Recorded → Option (Proposal.Set × List Recorded)
  | [] => none
  | r :: rs =>
    match updateNewest fingerprint f rs with
    | some (s, rs') => some (s, r :: rs')
    | none =>
      if r.answers fingerprint then some ((r.update f).set, r.update f :: rs) else none

def move (l : MemProposalLog) (fingerprint : String) (f : Status → Status) :
    Option (Proposal.Set × MemProposalLog) :=
  (updateNewest fingerprint f l.sets).map fun p => (p.1, { l with sets := p.2 })

/-- `MemProposalLog.Observe`.  It is `none` where no open set answers. -/
def observe (l : MemProposalLog) (o : Outcome) : Option (Proposal.Set × MemProposalLog) :=
  l.move o.signalRef fun st => transition st o

/-- `MemProposalLog.Decline`.  It is `none` where no open set answers. -/
def decline (l : MemProposalLog) (fingerprint : String) (declinedAt : Time) :
    Option (Proposal.Set × MemProposalLog) :=
  l.move fingerprint fun st => { st with phase := .declined, observedAt := declinedAt }

/-! ## The dedupe query -/

theorem openRows_nil {fingerprint : String} {since : Time} :
    ∀ {rs : List Recorded}, openRows fingerprint since rs = some [] →
      ∀ r ∈ rs, r.answers fingerprint = true → r.recordedAt ≤ since
  | [], _, r, hr, _ => by cases hr
  | r₀ :: rs, h, r, hr, ha => by
    simp only [openRows] at h
    by_cases hm : r₀.set.signalRef = fingerprint ∧ since < r₀.recordedAt
    · rw [if_pos hm] at h
      cases hs : r₀.set.status with
      | none => rw [hs] at h; cases h
      | some st =>
        rw [hs] at h
        obtain ⟨sets, hsets, he⟩ := Option.map_eq_some_iff.mp h
        cases ho : isOpen st.phase with
        | true => rw [ho] at he; cases he
        | false =>
          rw [ho] at he
          have hnil : sets = [] := he
          subst hnil
          rcases mem_cons.mp hr with rfl | hr
          · rw [Recorded.answers, Recorded.open, hs, Bool.and_eq_true] at ha
            exact absurd ha.2 (by simp [ho])
          · exact openRows_nil hsets r hr ha
    · rw [if_neg hm] at h
      rcases mem_cons.mp hr with rfl | hr
      · rw [Recorded.answers, Bool.and_eq_true] at ha
        have hsig : r.set.signalRef = fingerprint := by simpa using ha.1
        exact Int.not_lt.mp fun hlt => hm ⟨hsig, hlt⟩
      · exact openRows_nil h r hr ha

/-! ## The rows that answer -/

/-- The rows that answer for the fingerprint, oldest first. -/
def answering (l : MemProposalLog) (fingerprint : String) : List Recorded :=
  l.sets.filter (Recorded.answers fingerprint)

section

variable {l l' : MemProposalLog} {fingerprint : String}

variable {g : Status → Status} {r : Recorded} {f : String} {s : Set}

theorem open_of_answers (h : r.answers fingerprint = true) : r.open = true := by
  simp only [Recorded.answers, Bool.and_eq_true] at h
  exact h.2

theorem answers_of_ne (hne : f ≠ fingerprint)
    (h : r.answers f = true) : r.answers fingerprint = false := by
  simp only [Recorded.answers, Bool.and_eq_true, beq_iff_eq] at h
  simp [Recorded.answers, h.1, hne]

theorem answers_update_of_ne (hne : f ≠ fingerprint) (h : r.answers f = true) :
    (r.update g).answers fingerprint = false := by
  simp only [Recorded.answers, Bool.and_eq_true, beq_iff_eq] at h
  simp [Recorded.answers, Recorded.update, h.1, hne]

theorem answers_update {b : Bool}
    (hg : ∀ st, isOpen (g st).phase = b) (h : r.answers fingerprint = true) :
    (r.update g).answers fingerprint = b := by
  cases hs : r.set.status with
  | none => simp [Recorded.answers, Recorded.open, hs] at h
  | some st =>
    simp only [Recorded.answers, Bool.and_eq_true] at h
    simp [Recorded.answers, Recorded.open, Recorded.update, hs, hg, h.1]

theorem answering_record (now : Time) (ps : Set) :
    (l.record now ps).answering fingerprint = l.answering fingerprint ++
      [{ set := ps, recordedAt := now }].filter (Recorded.answers fingerprint) := by
  rw [answering, record, recordAt, filter_append, kept, filter_filter]
  congr 1
  refine filter_congr fun r hr => ?_
  cases ha : r.answers fingerprint with
  | false => simp
  | true =>
    have ho := open_of_answers ha
    simp [Recorded.closed_of_open ho]

theorem updateNewest_eq_none : ∀ {rs : List Recorded}, updateNewest fingerprint g rs = none →
      rs.filter (Recorded.answers fingerprint) = []
  | [], _ => rfl
  | r₀ :: rs, h => by
    simp only [updateNewest] at h
    cases hu : updateNewest fingerprint g rs with
    | some p => rw [hu] at h; cases h
    | none =>
      rw [hu] at h
      cases ha : r₀.answers fingerprint with
      | true => simp [ha] at h
      | false => simp [ha, updateNewest_eq_none hu]

theorem updateNewest_split : ∀ {rs rs' : List Recorded} {s : Set},
      updateNewest fingerprint g rs = some (s, rs') →
      ∃ before r after, rs = before ++ r :: after ∧ rs' = before ++ r.update g :: after ∧
        s = (r.update g).set ∧ r.answers fingerprint = true ∧
        ∀ r' ∈ after, r'.answers fingerprint = false
  | [], _, _, h => by cases h
  | r₀ :: rs, rs', s, h => by
    simp only [updateNewest] at h
    cases hu : updateNewest fingerprint g rs with
    | some p =>
      rw [hu] at h
      cases h
      obtain ⟨before, r, after, rfl, hrs', hs, ha, hafter⟩ := updateNewest_split hu
      exact ⟨r₀ :: before, r, after, rfl, by rw [hrs']; rfl, hs, ha, hafter⟩
    | none =>
      rw [hu] at h
      cases ha : r₀.answers fingerprint with
      | false => simp [ha] at h
      | true =>
        simp only [ha, if_true, Option.some.injEq, Prod.mk.injEq] at h
        obtain ⟨rfl, rfl⟩ := h
        have hnone := filter_eq_nil_iff.mp (updateNewest_eq_none hu)
        exact ⟨[], r₀, rs, rfl, rfl, rfl, ha, fun r' hr' => Bool.eq_false_iff.mpr (hnone r' hr')⟩

/-- So of the rows that answer the newest changes, and none that answers to another fingerprint. -/
theorem updateNewest_eq_some {rs rs' : List Recorded}
    (h : updateNewest fingerprint g rs = some (s, rs')) :
    (∃ older r, rs.filter (Recorded.answers fingerprint) = older ++ [r] ∧ s = (r.update g).set ∧
      rs'.filter (Recorded.answers fingerprint) =
        older ++ [r.update g].filter (Recorded.answers fingerprint)) ∧
    ∀ f ≠ fingerprint, rs'.filter (Recorded.answers f) = rs.filter (Recorded.answers f) := by
  obtain ⟨before, r, after, rfl, rfl, hs, ha, hafter⟩ := updateNewest_split h
  have hnone : after.filter (Recorded.answers fingerprint) = [] :=
    filter_eq_nil_iff.mpr fun r' hr' => Bool.eq_false_iff.mp (hafter r' hr')
  refine ⟨⟨before.filter (Recorded.answers fingerprint), r, by simp [ha, hnone], hs, ?_⟩,
    fun f hf => ?_⟩
  · rw [filter_append, filter_cons, hnone, filter_cons, filter_nil]
  · simp [answers_of_ne (Ne.symm hf) ha, answers_update_of_ne (Ne.symm hf) ha]

theorem move_split (h : l.move f g = some (s, l')) :
    ∃ before r after, l.sets = before ++ r :: after ∧
      l' = { l with sets := before ++ r.update g :: after } ∧ s = (r.update g).set ∧
      r.answers f = true ∧ ∀ r' ∈ after, r'.answers f = false := by
  obtain ⟨⟨s', rs'⟩, hu, he⟩ := Option.map_eq_some_iff.mp h
  cases he
  obtain ⟨before, r, after, hrs, hrs', hs, ha, hafter⟩ := updateNewest_split hu
  exact ⟨before, r, after, hrs, by rw [hrs'], hs, ha, hafter⟩

theorem answering_move (h : l.move f g = some (s, l')) :
    (∃ older r, l.answering f = older ++ [r] ∧ s = (r.update g).set ∧
      l'.answering f = older ++ [r.update g].filter (Recorded.answers f)) ∧
    ∀ f' ≠ f, l'.answering f' = l.answering f' := by
  obtain ⟨⟨s', rs'⟩, hu, he⟩ := Option.map_eq_some_iff.mp h
  cases he
  exact updateNewest_eq_some hu

/-! ## Rows that stay open -/

/-- An open row of the signal was recorded at that time. -/
def Holds (l : MemProposalLog) (fingerprint : String) (recordedAt : Time) : Prop :=
  ∃ r ∈ l.answering fingerprint, r.recordedAt = recordedAt

variable {t : Time}

/-- What moves a set and leaves it open, or moves one of another fingerprint, leaves the
open rows of the fingerprint in the ledger. -/
theorem Holds.move {f : String} {g : Status → Status} {s : Set}
    (h : l.Holds fingerprint t) (hm : l.move f g = some (s, l'))
    (hkeep : f ≠ fingerprint ∨ ∀ st, isOpen (g st).phase = true) : l'.Holds fingerprint t := by
  obtain ⟨r, hr, ht⟩ := h
  obtain ⟨⟨older, r₀, hl, -, hl'⟩, hother⟩ := answering_move hm
  by_cases hf : fingerprint = f
  · subst hf
    have hopen : ∀ st, isOpen (g st).phase = true := hkeep.resolve_left (fun hne => hne rfl)
    have hr₀ : r₀ ∈ l.answering fingerprint := by simp [hl]
    have hans := answers_update hopen (mem_filter.mp hr₀).2
    rw [hl] at hr
    rw [filter_cons, hans, if_pos rfl, filter_nil] at hl'
    rcases mem_append.mp hr with hr | hr
    · exact ⟨r, by simp [hl', hr], ht⟩
    · rw [mem_singleton.mp hr] at ht
      exact ⟨r₀.update g, by simp [hl'], ht⟩
  · exact ⟨r, hother fingerprint hf ▸ hr, ht⟩

theorem Holds.record (h : l.Holds fingerprint t) (now : Time) (set : Set) :
    (l.record now set).Holds fingerprint t := by
  obtain ⟨r, hr, ht⟩ := h
  refine ⟨r, ?_, ht⟩
  rw [answering_record]
  exact mem_append_left _ hr

theorem holds_record (l : MemProposalLog) (now : Time) {set : Set}
    (hsig : set.signalRef = fingerprint) (hph : set.phase? = some .proposed) :
    (l.record now set).Holds fingerprint now := by
  obtain ⟨st, hst, hphase⟩ := Option.map_eq_some_iff.mp hph
  refine ⟨{ set := set, recordedAt := now }, ?_, rfl⟩
  simp [answering_record, Recorded.answers, Recorded.open, hsig, hst, hphase, isOpen]

/-- An empty answer of the dedupe query: every open row is older. -/
theorem Holds.le_of_open? {since : Time} (h : l.Holds fingerprint t)
    (ho : l.open? fingerprint since = some []) : t ≤ since := by
  obtain ⟨r, hr, rfl⟩ := h
  obtain ⟨hmem, hans⟩ := mem_filter.mp hr
  exact openRows_nil ho r hmem hans

end

end MemProposalLog

end Beats.Clank
