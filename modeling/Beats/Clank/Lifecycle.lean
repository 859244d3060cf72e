import Beats.Clank.Rebuild

/-!
# The life of a set in the ledger

Runs of the calls on `MemProposalLog`, in any order and at any readings of the clock.  A set is
recorded or seeded, moves while it is open, and is pruned by `Record` once it is closed and old
(`ledger_lifecycle`).

To say that a row does not change along a run one has to know it again.  `Numbered` is the ledger
with a number on every row, given in the order of recording (`Numbered.ledger_step`).

A row that lacks a status is the exception.  No call on the ledger adds one but a seed, none changes
it, none prunes it, and the dedupe query does not survive it (`rebuilt_open_iff`).
-/

namespace Beats.Clank

open Proposal Outcome Lib Machine
open List hiding set

/-! ## Rows with and without a status -/

variable {r : Recorded} {calls : List LedgerCall} {f : String} {g : Status → Status} {m : Stored}

namespace MemProposalLog

variable {l l' : MemProposalLog} {fingerprint : String} {since : Time}

def bareRow (r : Recorded) : Bool := r.set.status.isNone

/-- The rows that lack a status, oldest first. -/
def bare (l : MemProposalLog) : List Recorded := l.sets.filter bareRow

theorem bareRow_of_open (h : r.open = true) : bareRow r = false := by
  cases hs : r.set.status with
  | none => simp [Recorded.open, hs] at h
  | some st => simp [bareRow, hs]

theorem bareRow_of_closed (h : r.closed = true) : bareRow r = false := by
  cases hs : r.set.status with
  | none => simp [Recorded.closed, hs] at h
  | some st => simp [bareRow, hs]

@[simp] theorem bareRow_update (g : Status → Status) (r : Recorded) :
    bareRow (r.update g) = bareRow r := by
  simp [bareRow, Recorded.update]

/-- The query stops at a row that it matches and that lacks a status, and nowhere else. -/
theorem isSome_openRows : ∀ {rs : List Recorded}, (openRows fingerprint since rs).isSome = true ↔
      ∀ r ∈ rs, r.set.signalRef = fingerprint → since < r.recordedAt → bareRow r = false
  | [] => by simp [openRows]
  | r :: rs => by
    rw [forall_mem_cons, ← isSome_openRows, openRows]
    by_cases hm : r.set.signalRef = fingerprint ∧ since < r.recordedAt
    · cases hs : r.set.status <;> simp [hm, bareRow, hs]
    · rw [if_neg hm]
      refine (and_iff_right fun hsig hlt => ?_).symm
      exact absurd ⟨hsig, hlt⟩ hm

theorem isSome_open?_iff : (∀ f since, (l.open? f since).isSome = true) ↔ l.bare = [] := by
  rw [bare, filter_eq_nil_iff]
  constructor
  · intro h r hr hb
    -- the query for this very row
    have hlt : r.recordedAt - 1 < r.recordedAt := Int.sub_lt_self _ (by decide)
    have hrow := isSome_openRows.mp (h r.set.signalRef _) r hr rfl hlt
    rw [hb] at hrow
    cases hrow
  · intro h f since
    exact isSome_openRows.mpr fun r hr _ _ => Bool.eq_false_iff.mpr (h r hr)

/-- Where no row lacks a status, the query gives the open rows of the fingerprint that are
younger. -/
theorem openRows_eq : ∀ {rs : List Recorded}, (∀ r ∈ rs, bareRow r = false) →
    openRows fingerprint since rs =
      some ((rs.filter fun r => r.answers fingerprint && decide (since < r.recordedAt)).map
        Recorded.set)
  | [], _ => rfl
  | r :: rs, h => by
    obtain ⟨hr, hrs⟩ := forall_mem_cons.mp h
    rw [openRows, openRows_eq hrs]
    cases hs : r.set.status with
    | none => simp [bareRow, hs] at hr
    | some st =>
      by_cases hsig : r.set.signalRef = fingerprint <;>
        by_cases hlt : since < r.recordedAt <;> cases ho : isOpen st.phase <;>
        simp [Recorded.answers, Recorded.open, hs, hsig, hlt, ho]

theorem bare_move {s : Set} (h : l.move f g = some (s, l')) : l'.bare = l.bare := by
  obtain ⟨before, r, after, hl, rfl, -, ha, -⟩ := move_split h
  have hb := bareRow_of_open (open_of_answers ha)
  simp [bare, hl, hb]

theorem bare_recordAt (prunedAt stampedAt : Time) {ps : Set}
    (h : ps.status.isSome = true) : (l.recordAt prunedAt stampedAt ps).bare = l.bare := by
  have hnew : bareRow ⟨ps, stampedAt⟩ = false := by simpa [bareRow] using h
  rw [bare, recordAt, filter_append, kept, filter_filter]
  simp only [filter_cons, hnew, filter_nil, Bool.false_eq_true, if_false, append_nil]
  refine filter_congr fun r _ => ?_
  cases hb : bareRow r with
  | false => rfl
  | true =>
    have hc : r.closed = false := Bool.eq_false_iff.mpr fun hc => by
      rw [bareRow_of_closed hc] at hb
      cases hb
    simp [hc]

theorem bare_seedAt (ps : Set) (storedAt : Time) :
    (l.seedAt ps storedAt).bare = l.bare ++ [⟨ps, storedAt⟩].filter bareRow :=
  filter_append ..

theorem mem_recordAt_of_open (hr : r ∈ l.sets) (ho : r.open = true) (prunedAt stampedAt : Time)
    (ps : Set) :
    r ∈ (l.recordAt prunedAt stampedAt ps).sets := by
  refine mem_append_left _ (mem_filter.mpr ⟨hr, ?_⟩)
  simp [Recorded.closed_of_open ho]

/-- A recording shows in a query as the set just recorded, and in no other way. -/
theorem open?_recordAt (h : l.bare = []) (prunedAt stampedAt : Time) {ps : Set}
    (hps : ps.status.isSome = true) :
    ∃ sets, l.open? fingerprint since = some sets ∧
      (l.recordAt prunedAt stampedAt ps).open? fingerprint since =
        some (sets ++ ([⟨ps, stampedAt⟩].filter fun r : Recorded =>
          r.answers fingerprint && decide (since < r.recordedAt)).map Recorded.set) := by
  have hbare : ∀ {l : MemProposalLog}, l.bare = [] → ∀ r ∈ l.sets, bareRow r = false :=
    fun h r hr => Bool.eq_false_iff.mpr (filter_eq_nil_iff.mp h r hr)
  refine ⟨_, openRows_eq (hbare h), ?_⟩
  rw [open?, openRows_eq (hbare ((bare_recordAt prunedAt stampedAt hps).trans h)), recordAt,
    filter_append, map_append, kept, filter_filter]
  congr 3
  refine filter_congr fun r _ => ?_
  cases ha : r.answers fingerprint with
  | false => simp
  | true => simp [Recorded.closed_of_open (open_of_answers ha)]

end MemProposalLog

/-! ## Calls -/

/-- A call on the ledger, with the times it reads off the clock. -/
inductive LedgerCall where
  | record (ps : Proposal.Set) (prunedAt stampedAt : Time)
  | «open» (fingerprint : String) (since : Time)
  | observe (o : Outcome)
  | decline (fingerprint : String) (declinedAt : Time)
  | seedAt (ps : Proposal.Set) (storedAt : Time)
  /-- Any of the calls but a seed, under a context that is done. -/
  | cancelled

/-- The set that the call adds, if it adds one, has a status. -/
def LedgerCall.statused : LedgerCall → Bool
  | .record ps _ _ => ps.status.isSome
  | .seedAt ps _ => ps.status.isSome
  | _ => true

namespace MemProposalLog

/-- The ledger after a move, or as it was where nothing moved. -/
def afterMove (l : MemProposalLog) (moved : Option (Proposal.Set × MemProposalLog)) :
    MemProposalLog :=
  (moved.map Prod.snd).getD l

def after (l : MemProposalLog) : LedgerCall → MemProposalLog
  | .record ps prunedAt stampedAt => l.recordAt prunedAt stampedAt ps
  | .open _ _ => l
  | .observe o => l.afterMove (l.observe o)
  | .decline fingerprint declinedAt => l.afterMove (l.decline fingerprint declinedAt)
  | .seedAt ps storedAt => l.seedAt ps storedAt
  | .cancelled => l

/-- The ledger under calls that add sets with a status. -/
def machine : Machine MemProposalLog LedgerCall where
  step l c := if c.statused then some (l.after c) else none

/-- What a move came to.  Without a row that answers nothing changes; with one, the newest of
them changes its status and every other row stays. -/
def MovesNewest (l : MemProposalLog) (f : String) (g : Status → Status) :
    Option (Proposal.Set × MemProposalLog) → Prop
  | none => (∀ r ∈ l.sets, r.answers f = false) ∧ l.afterMove none = l
  | some (set, l') =>
    ∃ before r after, l.sets = before ++ r :: after ∧ r.answers f = true ∧
      (∀ r' ∈ after, r'.answers f = false) ∧
      l' = { l with sets := before ++ r.update g :: after } ∧ set = (r.update g).set

theorem movesNewest (l : MemProposalLog) (f : String) (g : Status → Status) :
    l.MovesNewest f g (l.move f g) := by
  cases hm : l.move f g with
  | none =>
    refine ⟨fun r hr => Bool.eq_false_iff.mpr ?_, rfl⟩
    exact filter_eq_nil_iff.mp (answering_eq_nil_of_move hm) r hr
  | some p =>
    obtain ⟨before, r, after, hl, hp, hs, ha, hafter⟩ := move_split hm
    exact ⟨before, r, after, hl, ha, hafter, hp, hs⟩

theorem bare_afterMove (l : MemProposalLog) (f : String) (g : Status → Status) :
    (l.afterMove (l.move f g)).bare = l.bare := by
  cases hm : l.move f g with
  | none => rfl
  | some p => exact bare_move hm

theorem bare_step {l l' : MemProposalLog} {c : LedgerCall} (h : machine.step l c = some l') :
    l'.bare = l.bare := by
  obtain ⟨hc, he⟩ := Option.ite_none_right_eq_some.mp h
  cases he
  cases c with
  | record ps prunedAt stampedAt => exact bare_recordAt prunedAt stampedAt hc
  | «open» f since => rfl
  | observe _ | decline _ _ => exact bare_afterMove l _ _
  | seedAt ps storedAt =>
    have hps : ps.status.isSome = true := hc
    have hnew : bareRow ⟨ps, storedAt⟩ = false := by simpa [bareRow] using hps
    rw [after, bare_seedAt, filter_cons, hnew]
    simp
  | cancelled => rfl

/-- Calls that add sets with a status leave the rows without one as they are. -/
theorem bare_run {l l' : MemProposalLog} (h : machine.run l calls = some l') :
    l'.bare = l.bare := by
  refine run_rel (R := fun l l' => l'.bare = l.bare) (fun _ => rfl) ?_ (fun _ _ _ => bare_step) h
  intro l₁ l₂ l₃ h₁ h₂
  exact h₂.trans h₁

end MemProposalLog

/-! ## Numbered rows -/

/-- The ledger with a number on every row, given in the order of recording. -/
structure Numbered where
  ledgerRetention : Duration := 0
  rows : List (Nat × Recorded) := []
  /-- The number of the next row. -/
  next : Nat := 0

namespace Numbered

def ledger (s : Numbered) : MemProposalLog where
  ledgerRetention := s.ledgerRetention
  sets := s.rows.map Prod.snd

def add (s : Numbered) (r : Recorded) : Numbered :=
  { s with rows := s.rows ++ [(s.next, r)], next := s.next + 1 }

/-- Closed rows past their retention go. -/
def prune (s : Numbered) (now : Time) : Numbered :=
  { s with rows := s.rows.filter fun p =>
      decide (now - s.ledger.retention < p.2.recordedAt) || !p.2.closed }

/-- A move keeps every row in its place, so the numbers stay where they are. -/
def afterMove (s : Numbered) (moved : Option (Proposal.Set × MemProposalLog)) : Numbered :=
  { s with rows := (s.rows.map Prod.fst).zip (s.ledger.afterMove moved).sets }

def after (s : Numbered) : LedgerCall → Numbered
  | .record ps prunedAt stampedAt => (s.prune prunedAt).add ⟨ps, stampedAt⟩
  | .open _ _ => s
  | .observe o => s.afterMove (s.ledger.observe o)
  | .decline fingerprint declinedAt => s.afterMove (s.ledger.decline fingerprint declinedAt)
  | .seedAt ps storedAt => s.add ⟨ps, storedAt⟩
  | .cancelled => s

/-- The numbered ledger under calls that add sets with a status. -/
def machine : Machine Numbered LedgerCall where
  step s c := if c.statused then some (s.after c) else none

variable {s s' : Numbered} {c : LedgerCall}

theorem afterMove_split {set : Set} {l' : MemProposalLog}
    (h : s.ledger.move f g = some (set, l')) :
    ∃ before n r after, s.rows = before ++ (n, r) :: after ∧ r.answers f = true ∧
      (s.afterMove (s.ledger.move f g)).rows = before ++ (n, r.update g) :: after := by
  obtain ⟨before, r, after, hl, rfl, -, ha, -⟩ := MemProposalLog.move_split h
  obtain ⟨rows₁, rows₂, hrows, rfl, hrest⟩ := map_eq_append_iff.mp hl
  obtain ⟨⟨n, r'⟩, rows₃, rfl, rfl, rfl⟩ := map_eq_cons_iff.mp hrest
  refine ⟨rows₁, n, r', rows₃, hrows, ha, ?_⟩
  have hzip : ∀ rows : List (Nat × Recorded), (rows.map Prod.fst).zip (rows.map Prod.snd) = rows :=
    fun rows => (zip_of_prod rfl rfl).symm
  simp only [afterMove, MemProposalLog.afterMove, h, Option.map_some, Option.getD_some, hrows,
    map_append, map_cons]
  rw [zip_append (by simp), zip_cons_cons, hzip, hzip]

theorem afterMove_none : s.afterMove none = s := by
  have hzip : (s.rows.map Prod.fst).zip (s.rows.map Prod.snd) = s.rows := (zip_of_prod rfl rfl).symm
  simp [afterMove, MemProposalLog.afterMove, ledger, hzip]

theorem ledger_afterMove (s : Numbered) (f : String) (g : Status → Status) :
    (s.afterMove (s.ledger.move f g)).ledger = s.ledger.afterMove (s.ledger.move f g) := by
  obtain ⟨hret, hlen⟩ :
      (s.ledger.afterMove (s.ledger.move f g)).ledgerRetention = s.ledgerRetention ∧
        (s.ledger.afterMove (s.ledger.move f g)).sets.length = s.rows.length := by
    cases hm : s.ledger.move f g with
    | none => simp [MemProposalLog.afterMove, ledger]
    | some p =>
      obtain ⟨before, r, after, hl, hp, -⟩ := MemProposalLog.move_split hm
      have hlen := congrArg length hl
      simp only [MemProposalLog.afterMove, Option.map_some, Option.getD_some, hp]
      exact ⟨rfl, by simpa [ledger] using hlen.symm⟩
  have hsets : (s.afterMove (s.ledger.move f g)).rows.map Prod.snd =
      (s.ledger.afterMove (s.ledger.move f g)).sets :=
    map_snd_zip (by simp [hlen])
  rw [ledger, hsets]
  change MemProposalLog.mk s.ledgerRetention _ = _
  rw [← hret]

theorem ledger_step (h : machine.step s c = some s') :
    MemProposalLog.machine.step s.ledger c = some s'.ledger := by
  obtain ⟨hc, he⟩ := Option.ite_none_right_eq_some.mp h
  cases he
  have hafter : (s.after c).ledger = s.ledger.after c := by
    cases c with
    | record ps prunedAt stampedAt =>
      simp [after, MemProposalLog.after, add, prune, ledger, MemProposalLog.recordAt,
        MemProposalLog.kept, filter_map, Function.comp_def]
    | «open» f since => rfl
    | observe _ | decline _ _ => exact s.ledger_afterMove _ _
    | seedAt ps storedAt => simp [after, MemProposalLog.after, add, ledger, MemProposalLog.seedAt]
    | cancelled => rfl
  rw [hafter]
  exact if_pos hc

/-! ## What a run does to a row -/

/-- The numbers tell the rows apart, and the next one is new. -/
structure Distinct (s : Numbered) : Prop where
  nodup : (s.rows.map Prod.fst).Nodup
  below : ∀ p ∈ s.rows, p.1 < s.next

theorem Distinct.add (h : s.Distinct) (r : Recorded) : (s.add r).Distinct where
  nodup := by
    simp only [Numbered.add, map_append, map_cons, map_nil]
    refine nodup_append.mpr ⟨h.nodup, by simp, fun n hn m hm => ?_⟩
    obtain ⟨p, hp, rfl⟩ := mem_map.mp hn
    rw [mem_singleton.mp hm]
    exact Nat.ne_of_lt (h.below p hp)
  below p hp := by
    rcases mem_append.mp hp with hp | hp
    · exact Nat.lt_succ_of_lt (h.below p hp)
    · rw [mem_singleton.mp hp]
      exact Nat.lt_succ_self _

theorem Distinct.prune (h : s.Distinct) (now : Time) : (s.prune now).Distinct where
  nodup := h.nodup.sublist (filter_sublist.map _)
  below p hp := h.below p (mem_of_mem_filter hp)

theorem Distinct.afterMove (h : s.Distinct) (f : String) (g : Status → Status) :
    (s.afterMove (s.ledger.move f g)).Distinct := by
  cases hm : s.ledger.move f g with
  | none => rwa [afterMove_none]
  | some p =>
    rw [← hm]
    obtain ⟨before, n, r, after, hrows, -, hrows'⟩ := afterMove_split hm
    have hfst : (s.afterMove (s.ledger.move f g)).rows.map Prod.fst = s.rows.map Prod.fst := by
      simp [hrows, hrows']
    refine ⟨hfst ▸ h.nodup, fun p hp => ?_⟩
    have hmem := mem_map_of_mem (f := Prod.fst) hp
    rw [hfst] at hmem
    obtain ⟨q, hq, he⟩ := mem_map.mp hmem
    exact he ▸ h.below q hq

theorem Distinct.step (h : s.Distinct) (hs : machine.step s c = some s') : s'.Distinct := by
  obtain ⟨-, he⟩ := Option.ite_none_right_eq_some.mp hs
  cases he
  cases c with
  | record ps prunedAt stampedAt => exact (h.prune prunedAt).add _
  | «open» f since => exact h
  | observe _ | decline _ _ => exact h.afterMove _ _
  | seedAt ps storedAt => exact h.add _
  | cancelled => exact h

/-- The rows that an earlier ledger has numbered and a later one still has: each was there,
and those that were closed are as they were. -/
structure Ages (s s' : Numbered) : Prop where
  next : s.next ≤ s'.next
  row : ∀ n r', (n, r') ∈ s'.rows → n < s.next →
    ∃ r, (n, r) ∈ s.rows ∧ (r.closed = true → r' = r)

theorem Ages.refl (s : Numbered) : s.Ages s :=
  ⟨Nat.le_refl _, fun _ r hr _ => ⟨r, hr, fun _ => rfl⟩⟩

theorem Ages.trans {s₁ s₂ s₃ : Numbered} (h₁ : s₁.Ages s₂) (h₂ : s₂.Ages s₃) : s₁.Ages s₃ where
  next := Nat.le_trans h₁.next h₂.next
  row n r'' hr'' hn := by
    obtain ⟨r', hr', heq'⟩ := h₂.row n r'' hr'' (Nat.lt_of_lt_of_le hn h₁.next)
    obtain ⟨r, hr, heq⟩ := h₁.row n r' hr' hn
    refine ⟨r, hr, fun hc => ?_⟩
    have he : r' = r := heq hc
    exact (heq' (he ▸ hc)).trans he

theorem ages_add (s : Numbered) (r : Recorded) : s.Ages (s.add r) where
  next := Nat.le_succ _
  row n r' hr' hn := by
    rcases mem_append.mp hr' with hr' | hr'
    · exact ⟨r', hr', fun _ => rfl⟩
    · cases mem_singleton.mp hr'
      exact absurd hn (Nat.lt_irrefl _)

theorem ages_prune (s : Numbered) (now : Time) : s.Ages (s.prune now) where
  next := Nat.le_refl _
  row _ r' hr' _ := ⟨r', mem_of_mem_filter hr', fun _ => rfl⟩

theorem ages_afterMove (s : Numbered) (f : String) (g : Status → Status) :
    s.Ages (s.afterMove (s.ledger.move f g)) := by
  cases hm : s.ledger.move f g with
  | none =>
    rw [afterMove_none]
    exact Ages.refl s
  | some p =>
    rw [← hm]
    obtain ⟨before, n, r, after, hrows, ha, hrows'⟩ := afterMove_split hm
    refine ⟨Nat.le_refl _, fun n' r' hr' _ => ?_⟩
    rw [hrows'] at hr'
    rw [hrows]
    rcases mem_append.mp hr' with hr' | hr'
    · exact ⟨r', mem_append_left _ hr', fun _ => rfl⟩
    rcases mem_cons.mp hr' with hr' | hr'
    · cases hr'
      refine ⟨r, mem_append_right _ mem_cons_self, fun hc => ?_⟩
      rw [Recorded.closed_of_open (MemProposalLog.open_of_answers ha)] at hc
      cases hc
    · exact ⟨r', mem_append_right _ (mem_cons_of_mem _ hr'), fun _ => rfl⟩

theorem ages_step (h : machine.step s c = some s') : s.Ages s' := by
  obtain ⟨-, he⟩ := Option.ite_none_right_eq_some.mp h
  cases he
  cases c with
  | record ps prunedAt stampedAt => exact (s.ages_prune prunedAt).trans (ages_add _ _)
  | «open» f since => exact Ages.refl s
  | observe _ | decline _ _ => exact s.ages_afterMove _ _
  | seedAt ps storedAt => exact s.ages_add _
  | cancelled => exact Ages.refl s

theorem ages_run (h : machine.run s calls = some s') : s.Ages s' :=
  run_rel Ages.refl Ages.trans (fun _ _ _ => ages_step) h

theorem distinct_run (h : machine.run s calls = some s') (hs : s.Distinct) : s'.Distinct :=
  run_invariant (fun _ _ _ h _ hstep => h.step hstep) hs (along_trivial _ _ _) h

theorem ledger_run : ∀ {s s' : Numbered},
    machine.run s calls = some s' → MemProposalLog.machine.run s.ledger calls = some s'.ledger := by
  induction calls with
  | nil =>
    intro s s' h
    cases h
    rfl
  | cons c calls ih =>
    intro s s' h
    obtain ⟨s₁, h₁, h₂⟩ := run_cons_eq_some.mp h
    exact run_cons_eq_some.mpr ⟨_, ledger_step h₁, ih h₂⟩

theorem Distinct.closed_stays (hd : s.Distinct) {later : List LedgerCall}
    (h : machine.run s later = some s') {n : Nat} {r' : Recorded} (hr : (n, r) ∈ s.rows)
    (hc : r.closed = true) (hr' : (n, r') ∈ s'.rows) : r' = r := by
  obtain ⟨r₀, hr₀, heq⟩ := (ages_run h).row n r' hr' (hd.below _ hr)
  -- the number is that of one row only
  cases inj_on_of_nodup_map hd.nodup hr₀ hr rfl
  exact heq hc

end Numbered

/-- In every state of a run from an empty ledger, on sets that have a status: a closed row
stays as it is; an outcome or a decline moves the newest open row of its fingerprint, or
nothing; and a recording prunes no open row and shows in a query as its own set only. -/
theorem ledger_lifecycle {retention : Duration} {calls : List LedgerCall} {s : Numbered}
    (hrun : Numbered.machine.run { ledgerRetention := retention } calls = some s) :
    MemProposalLog.machine.run { ledgerRetention := retention } calls = some s.ledger ∧
    (∀ later s', Numbered.machine.run s later = some s' → ∀ n r r', (n, r) ∈ s.rows →
      r.closed = true → (n, r') ∈ s'.rows → r' = r) ∧
    (∀ o, s.ledger.MovesNewest o.signalRef (fun st => transition st o) (s.ledger.observe o)) ∧
    (∀ f declinedAt, s.ledger.MovesNewest f
      (fun st => { st with phase := .declined, observedAt := declinedAt })
      (s.ledger.decline f declinedAt)) ∧
    ∀ ps prunedAt stampedAt, ps.status.isSome = true →
      (∀ r ∈ s.ledger.sets, r.open = true → r ∈ (s.ledger.recordAt prunedAt stampedAt ps).sets) ∧
      ∀ f since, ∃ sets, s.ledger.open? f since = some sets ∧
        (s.ledger.recordAt prunedAt stampedAt ps).open? f since =
          some (sets ++ ([⟨ps, stampedAt⟩].filter fun r : Recorded =>
            r.answers f && decide (since < r.recordedAt)).map Recorded.set) := by
  have hledger := Numbered.ledger_run hrun
  have hdistinct : s.Distinct :=
    Numbered.distinct_run hrun ⟨nodup_nil, fun p hp => by cases hp⟩
  have hbare : s.ledger.bare = [] := MemProposalLog.bare_run hledger
  refine ⟨hledger, fun later s' hlater n r r' hr hc hr' => ?_, fun o => ?_, fun f declinedAt => ?_,
    fun ps prunedAt stampedAt hps => ⟨fun r hr ho => ?_, fun f since => ?_⟩⟩
  · exact hdistinct.closed_stays hlater hr hc hr'
  · exact s.ledger.movesNewest _ _
  · exact s.ledger.movesNewest _ _
  · exact MemProposalLog.mem_recordAt_of_open hr ho prunedAt stampedAt ps
  · exact MemProposalLog.open?_recordAt hbare prunedAt stampedAt hps

/-- A set is recorded, declined and recorded anew. -/
def declinedCalls : List LedgerCall :=
  [.record checkoutProposal 1 1, .decline "checkout" 2, .record checkoutProposal 3 3]

theorem declinedCalls_lifecycle : ∃ s, Numbered.machine.run {} declinedCalls = some s ∧
    s.rows.map (fun p => (p.1, p.2.closed)) = [(0, true), (1, false)] ∧
    ∀ later s', Numbered.machine.run s later = some s' → ∀ n r r', (n, r) ∈ s.rows →
      r.closed = true → (n, r') ∈ s'.rows → r' = r := by
  exact exists_run_of (by decide +kernel) fun s hrun hrows =>
    ⟨hrows, (ledger_lifecycle hrun).2.1⟩

/-! ## The queries of a rebuilt ledger -/

/-- The row that a message seeds, if its set lacks a status. -/
def Stored.bare (m : Stored) : List Recorded :=
  match m.msg with
  | .proposal ps => [⟨ps, m.storedAt⟩].filter MemProposalLog.bareRow
  | _ => []

theorem Stored.bare_eq_nil :
    m.bare = [] ↔ ∀ ps, m.msg = .proposal ps → ps.status.isSome = true := by
  unfold Stored.bare
  cases m.msg with
  | proposal ps => simp [MemProposalLog.bareRow, Option.isSome_iff_ne_none]
  | outcome o => simp
  | decline dec => simp

/-- A replayed message adds its own row without a status, and changes none. -/
theorem bare_replayInto {c c' : Click} (h : c.replayInto m = .ok c') :
    c'.ledger.bare = c.ledger.bare ++ m.bare := by
  obtain ⟨storedAt, handledAt, msg⟩ := m
  cases msg with
  | proposal ps =>
    cases h
    exact MemProposalLog.bare_seedAt ps storedAt
  | outcome o =>
    rw [Stored.bare, append_nil]
    simp only [Click.replayInto] at h
    cases ho : c.ledger.observe o with
    | none => rw [ho] at h; cases h; rfl
    | some p =>
      rw [ho] at h
      simp only at h
      cases ha : c.cases.append (newCase p.1 o) with
      | none => rw [ha] at h; cases h
      | some cases =>
        rw [ha] at h
        cases h
        exact MemProposalLog.bare_move ho
  | decline dec =>
    rw [Stored.bare, append_nil]
    simp only [Click.replayInto] at h
    cases hd : c.ledger.decline dec.signalRef dec.evaluatedAt with
    | none => rw [hd] at h; cases h; rfl
    | some p =>
      rw [hd] at h
      cases h
      exact MemProposalLog.bare_move hd

theorem bare_foldlM_replayInto : ∀ {history : List Stored} {c c' : Click},
    history.foldlM Click.replayInto c = .ok c' →
      c'.ledger.bare = c.ledger.bare ++ history.flatMap Stored.bare
  | [], c, c', h => by
    cases h
    simp
  | m :: ms, c, c', h => by
    rw [foldlM_cons] at h
    cases hm : c.replayInto m with
    | error err => rw [hm] at h; cases h
    | ok c₁ =>
      rw [hm] at h
      rw [bare_foldlM_replayInto h, bare_replayInto hm, flatMap_cons, append_assoc]

/-- A rebuilt ledger is free of rows without a status exactly if its history was. -/
theorem bare_rebuildLedger {slice : SortSlice} {retention : Duration} {maxCases : Int}
    {history : List Stored} {c : Click}
    (h : rebuildLedger slice retention maxCases history = .ok c) :
    c.ledger.bare = [] ↔ ∀ m ∈ history, ∀ ps, m.msg = .proposal ps → ps.status.isSome = true := by
  unfold rebuildLedger at h
  split at h
  · cases h
  · next c' hfold =>
      cases h
      have hperm := (slice.perm (drained history)).trans (drained_perm history)
      have hbare : c.ledger.bare = (slice.sort (drained history)).flatMap Stored.bare :=
        bare_foldlM_replayInto hfold
      rw [hbare, flatMap_eq_nil_iff]
      simp only [Stored.bare_eq_nil, hperm.mem_iff]

/-- After a rebuild, and after whatever calls follow, every query of the ledger is answered
exactly if every proposal of the history had a status. -/
theorem rebuilt_open_iff {slice : SortSlice} {retention : Duration} {maxCases : Int}
    {history : List Stored} {c : Click}
    (h : rebuildLedger slice retention maxCases history = .ok c) {later : List LedgerCall}
    {l : MemProposalLog} (hrun : MemProposalLog.machine.run c.ledger later = some l) :
    (∀ f since, (l.open? f since).isSome = true) ↔
      ∀ m ∈ history, ∀ ps, m.msg = .proposal ps → ps.status.isSome = true := by
  rw [MemProposalLog.isSome_open?_iff, MemProposalLog.bare_run hrun]
  exact bare_rebuildLedger h

theorem settledHistory_open : ∃ c l, rebuildLedger insertionSlice 0 0 settledHistory = .ok c ∧
    MemProposalLog.machine.run c.ledger declinedCalls = some l ∧
    ∀ f since, (l.open? f since).isSome = true := by
  obtain ⟨c, hc⟩ : ∃ c, rebuildLedger insertionSlice 0 0 settledHistory = .ok c := ⟨_, rfl⟩
  obtain ⟨l, hl⟩ : ∃ l, MemProposalLog.machine.run c.ledger declinedCalls = some l := ⟨_, rfl⟩
  refine ⟨c, l, hc, hl, (rebuilt_open_iff hc hl).mpr fun m hm ps hps => ?_⟩
  simp only [settledHistory, mem_cons, not_mem_nil, or_false] at hm
  rcases hm with rfl | rfl | rfl <;> cases hps
  rfl

/-- One set, as another publisher may have stored it: without a status. -/
def bareHistory : List Stored :=
  [{ storedAt := 1, msg := .proposal { name := "ps:checkout", signalRef := "checkout" } }]

/-- The rebuild accepts the set, and the next precheck for `checkout` dereferences nil. -/
theorem bareHistory_panics : ∃ c, rebuildLedger insertionSlice 0 0 bareHistory = .ok c ∧
    c.ledger.open? "checkout" 0 = none :=
  ⟨_, rfl, by decide +kernel⟩

end Beats.Clank
