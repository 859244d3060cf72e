import Beats.Publish.Conservation

/-!
# Lines of their own

A write that fails may have left a part of its line.  The part stays in the active segment, and the
next line is written behind it, so the two are read back as one line (`joined_line`).  Along every
run in which a failing write leaves the file where a line ends, and in which no two segments get one
name, what was written successfully begins where a line begins, and it is kept as it is
(`appended_isolated`).

The invariant is `Tidy`: the file that is written next stops where a line ends.  Every move leaves
what the files have and adds to it at most (`extends_of_moves`).
-/

namespace Beats.Publish

open Lib Disk List Machine

/-! ## The condition and the property -/

def Call.symbols : Call → Option (List Char)
  | .write _ bs => some bs
  | _ => none

/-- A write that fails stops where a line ends, and no segment gets the name of one that is
there. -/
def Unbroken (w : World) : Event → Prop
  | .act i luck =>
    ∀ c ∈ nextCall w i,
      (luck.err = none ∨ ∀ bs ∈ c.symbols, Ended '\n' (bs.take luck.kept)) ∧
        ∀ n ∈ c.target, isSealed n = true → w.shared.disk.file n = none
  | _ => True

instance (w : World) : (e : Event) → Decidable (Unbroken w e)
  | .spawn _ | .act _ _ | .crash _ | .reopen _ => by
    dsimp only [Unbroken]
    infer_instance

/-- The operation `i` has written the symbols to the file `h`. -/
def Stored (w : World) (i h : Nat) (bs : List Char) : Prop :=
  ∃ n, (i, (⟨.write h bs, (.ok n : Except FsError Nat)⟩ : Answered iface)) ∈ w.log

/-- The part begins where a line begins. -/
def Own (bs part : List Char) : Prop :=
  ∃ before after, bs = before ++ part ++ after ∧ Ended '\n' before

/-- The line of every append that returned was written, and all that was written has lines of its
own in the file it was written to, and in what a recovery makes of that file. -/
structure Isolated (w : World) : Prop where
  stored : ∀ {i wal line}, w.tasks[i]? = some ((wal, .append (.ok line)), .ret ()) →
    ∃ h, Stored w i h line.encode
  apart : ∀ {i h bs}, Stored w i h bs →
    Own (w.shared.disk.bytes h) bs ∧ Own (complete '\n' (w.shared.disk.bytes h)) bs

variable {bs part : List Char} {h : Nat} {φ : Phase}

theorem Own.of_prefix {bs' : List Char} (h : Own bs part) (hp : bs <+: bs') :
    Own bs' part := by
  obtain ⟨before, after, rfl, he⟩ := h
  obtain ⟨rest, rfl⟩ := hp
  exact ⟨before, after ++ rest, by simp only [append_assoc], he⟩

theorem Own.complete (h : Own bs part) (hp : Ended '\n' part) : Own (complete '\n' bs) part := by
  obtain ⟨before, after, rfl, he⟩ := h
  exact ⟨before, _, (he.append hp).complete_append after, he⟩

/-! ## The invariant -/

/-- The file that is written next stops where a line ends, and the name of the active segment is
free where a new one is opened. -/
structure Tidy (v : View) : Prop where
  cleared : ∀ {b}, v.seat = .cleared b → v.disk.file activeSegmentName = none
  opened : ∀ {h}, v.seat.active = some h → h < v.disk.next ∧ Ended '\n' (v.disk.bytes h)
  created : ∀ {b h content}, v.seat = .created b h content →
    h < v.disk.next ∧ Ended '\n' (v.disk.bytes h)
  content : ∀ {b h content}, v.seat = .created b h content → Ended '\n' content

/-- The files have what they had, and more at most. -/
def Extends (d d' : Disk Name Char) : Prop :=
  d.next ≤ d'.next ∧ ∀ k < d.next, d.bytes k <+: d'.bytes k

theorem Extends.refl (d : Disk Name Char) : Extends d d := ⟨Nat.le_refl _, fun _ _ => prefix_refl _⟩

theorem extends_write (d : Disk Name Char) (h : Nat) (bs : List Char) :
    Extends d (d.write h bs) := by
  refine ⟨Nat.le_refl _, fun k _ => ?_⟩
  by_cases hk : k = h
  · subst hk
    rw [bytes_write_self]
    exact prefix_append _ _
  · have hsame : (d.write h bs).bytes k = d.bytes k := bytes_write_of_ne hk
    exact hsame ▸ prefix_refl _

theorem extends_create {d : Disk Name Char} {n : Name} (h : d.file n = none) :
    Extends d (d.create n).2 := by
  refine ⟨next_le_create, fun k hk => ?_⟩
  have hne : k ≠ (d.create n).1 := by
    rw [create_of_none h]
    exact Nat.ne_of_lt hk
  have hsame : (d.create n).2.bytes k = d.bytes k := bytes_create_of_ne hne
  exact hsame ▸ prefix_refl _

section

variable {v v' : View} {t : Seat} {i : Nat} {j : Job} {luck : Luck} {c : Call}
  {wrote wrote' failed : Bool} {holder : Option Nat}

theorem tidy_of_free {b : Nat} (hseat : v.seat = .held none b) : Tidy v where
  cleared h := by cases hseat.symm.trans h
  opened h := by
    rw [hseat] at h
    cases h
  created h := by cases hseat.symm.trans h
  content h := by cases hseat.symm.trans h

theorem Tidy.sit (ht : Tidy v) (hc : ∀ b, t ≠ .cleared b)
    (ha : ∀ f, t.active = some f → v.seat.active = some f) (hn : ∀ b f bs, t ≠ .created b f bs) :
    Tidy { v with seat := t } where
  cleared h := absurd h (hc _)
  opened h := ht.opened (ha _ h)
  created h := absurd h (hn _ _ _)
  content h := absurd h (hn _ _ _)

theorem Tidy.write (ht : Tidy v) (h : Nat) (hb : Ended '\n' bs) :
    Tidy { v with disk := v.disk.write h bs } := by
  have hended {k : Nat} (hk : Ended '\n' (v.disk.bytes k)) :
      Ended '\n' ((v.disk.write h bs).bytes k) := by
    by_cases hkh : k = h
    · subst hkh
      rw [bytes_write_self]
      exact hk.append hb
    · rwa [bytes_write_of_ne hkh]
  exact ⟨ht.cleared, fun hk => ⟨(ht.opened hk).1, hended (ht.opened hk).2⟩,
    fun hk => ⟨(ht.created hk).1, hended (ht.created hk).2⟩, ht.content⟩

theorem ended_created (d : Disk Name Char) (n : Name) :
    Ended '\n' ((d.create n).2.bytes (d.create n).1) := by
  rw [bytes_create_self]
  exact ended_nil _

theorem Tidy.moves (ht : Tidy v) (hw : v.disk.Wf)
    (hm : Moves j luck i holder failed v c wrote wrote' v')
    (hkept : luck.err = none ∨ ∀ bs ∈ c.symbols, Ended '\n' (bs.take luck.kept)) : Tidy v' := by
  cases hm with
  | idle => exact ht
  | leave rests _ => exact ht.sit nofun (fun f hf => rests.1.symm.trans hf) nofun
  | shut _ closed => exact ht.sit nofun (fun f hf => absurd (closed.symm.trans hf) nofun) nofun
  | count _ _ | found _ _ | readOrphan _ _ => exact ht.sit nofun nofun nofun
  | absent _ file => exact ⟨fun _ => file, nofun, nofun, nofun⟩
  | @createSegment _ _ raw _ _ _ =>
    refine ⟨nofun, nofun, ?_, ?_⟩
    · rintro _ _ _ ⟨⟩
      exact ⟨hw.create_lt, ended_created _ _⟩
    · rintro _ _ _ ⟨⟩
      exact rdropWhile_idempotent _ raw
  | openActive _ =>
    refine ⟨nofun, ?_, nofun, nofun⟩
    rintro _ ⟨⟩
    exact ⟨hw.create_lt, ended_created _ _⟩
  | fill seat _ => exact ⟨nofun, nofun, nofun, nofun⟩
  | writeLine _ _ => exact ht.write _ (Line.ended_encode _)
  | short err => exact ht.write _ (hkept.resolve_left err _ rfl)
  | @syncActive _ b h seat =>
    refine ⟨nofun, ?_, nofun, nofun⟩
    rintro _ ⟨⟩
    exact ht.opened (by rw [seat]; rfl)
  | syncSegment _ => exact ⟨nofun, nofun, nofun, nofun⟩
  | syncClosed => exact { ht with }
  | sealActive _ _ _ =>
    exact ⟨fun _ => file_rename_src (segmentName_ne_active _ _).symm,
      nofun, nofun, nofun⟩
  | clear _ => exact ⟨fun _ => file_remove_self, nofun, nofun, nofun⟩
  | removeSealed _ named =>
    refine { ht with cleared := fun hb => ?_ }
    exact (file_remove_of_ne (ne_active_of_sealed named).symm).trans (ht.cleared hb)
  | openSealed _ _ _ | put _ _ | keepSealed _ _ | undock _ =>
    exact { ht with }

theorem extends_of_moves (ht : Tidy v) (hm : Moves j luck i holder failed v c wrote wrote' v')
    (hfree : ∀ n ∈ c.target, isSealed n = true → v.disk.file n = none) :
    Extends v.disk v'.disk := by
  cases hm with
  | createSegment _ named => exact extends_create (hfree _ rfl named)
  | openActive seat => exact extends_create (ht.cleared seat)
  | fill _ _ | writeLine _ _ | short _ => exact extends_write _ _ _
  | _ => exact .refl _

/-- An operation writes to a file that stops where a line ends, and what it writes stops so too. -/
theorem Tidy.permits (ht : Tidy v) (hseat : ∀ t, φ.point = .inside t → v.seat = t)
    (hc : φ.Permits j (.write h bs)) :
    h < v.disk.next ∧ Ended '\n' (v.disk.bytes h) ∧ Ended '\n' bs := by
  obtain ⟨b, line, hp, -, -, rfl⟩ | ⟨b, hp⟩ := hc
  · obtain ⟨hlt, hend⟩ := ht.opened (by rw [hseat _ hp]; rfl)
    exact ⟨hlt, hend, line.ended_encode⟩
  · obtain ⟨hlt, hend⟩ := ht.created (hseat _ hp)
    exact ⟨hlt, hend, ht.content (hseat _ hp)⟩

end

/-! ## Runs -/

/-- What an unbroken run keeps. -/
structure Apart (w : World) : Prop where
  base : Base w
  tidy : Tidy (view w)
  landed : ∀ {i h bs}, Stored w i h bs →
    h < w.shared.disk.next ∧ Own (w.shared.disk.bytes h) bs ∧ Ended '\n' bs
  noted : ∀ {i j q line}, w.tasks[i]? = some (j, q) → j.2.line = some line →
    (phase w i).wrote = true → ∃ h, Stored w i h line.encode

section

variable {w w' : World} {e : Event} {i : Nat} {luck : Luck}

/-- A line is written by a call that succeeds while the active segment is held. -/
theorem wroteAfter_cases {c : Call} {r : iface.Answer c} (h : φ.wroteAfter c r = true)
    (hw : φ.wrote = false) :
    ∃ (f : Nat) (bs : List Char) (n : Nat) (a : Option Nat) (b : Nat),
      (⟨c, r⟩ : Answered iface) = ⟨.write f bs, (.ok n : Except FsError Nat)⟩ ∧
        φ.point = .inside (.held a b) := by
  unfold Phase.wroteAfter at h
  split at h
  next f bs n =>
    split at h
    next a b hp => exact ⟨f, bs, n, a, b, rfl, hp⟩
    next => exact absurd (hw.symm.trans h) nofun
  next => exact absurd (hw.symm.trans h) nofun

theorem serve_write {s s' : Store} {n : Nat}
    (hs : serve i luck s (.write h bs) = some ((.ok n : Except FsError Nat), s')) :
    s'.disk = s.disk.write h bs := by
  rcases answer_cases hs with ⟨-, e, he, -⟩ | ⟨-, a, ha, -⟩ | ⟨-, hn, -⟩
  · cases he
  · cases ha
    rfl
  · cases hn

theorem Apart.act (ha : Apart w) (hc : Unbroken w (.act i luck))
    (hs : w.act (serve i luck) i = some w') : Apart w' := by
  obtain ⟨hb', -⟩ := turn_of_act ha.base hs
  obtain ⟨j, c, rest, r, hi, hpermits, hserve, htasks, hlog, hphase, hmoves, -⟩ :=
    moves_of_act ha.base hs
  obtain ⟨hkept, hfree⟩ := hc c (nextCall_eq hi)
  obtain ⟨hnext, hbytes⟩ : Extends w.shared.disk w'.shared.disk :=
    extends_of_moves ha.tidy hmoves hfree
  have hgrow {i' h : Nat} {bs : List Char} (hst : Stored w i' h bs) : Stored w' i' h bs := by
    obtain ⟨n, hn⟩ := hst
    exact ⟨n, hlog ▸ mem_cons_of_mem _ hn⟩
  refine ⟨hb', ha.tidy.moves ha.base.wf hmoves hkept, ?_, ?_⟩
  · rintro i' h bs ⟨n, hn⟩
    rw [hlog] at hn
    rcases mem_cons.mp hn with he | hn
    · cases he
      obtain ⟨hlt, hend, hbs⟩ :=
        ha.tidy.permits (fun t ht => seatOf_inside ha.base.exclusive ht) hpermits
      refine ⟨Nat.lt_of_lt_of_le hlt hnext, ⟨w.shared.disk.bytes h, [], ?_, hend⟩, hbs⟩
      rw [serve_write hserve, bytes_write_self, append_nil]
    · obtain ⟨hlt, hown, hbs⟩ := ha.landed ⟨n, hn⟩
      exact ⟨Nat.lt_of_lt_of_le hlt hnext, hown.of_prefix (hbytes h hlt), hbs⟩
  · intro i' j' q line hi' hline hw
    rw [htasks] at hi'
    rcases (Pool.getElem?_set hi).mp hi' with ⟨rfl, ht⟩ | ⟨hne, hi'⟩
    · cases ht
      cases hbefore : (phase w i').wrote with
      | true =>
        obtain ⟨h, hst⟩ := ha.noted hi hline hbefore
        exact ⟨h, hgrow hst⟩
      | false =>
        -- the line was written by this very call
        rw [hphase, Function.update_self] at hw
        obtain ⟨h, bs, n, a, b, hcall, hp⟩ := wroteAfter_cases hw hbefore
        cases hcall
        obtain ⟨b', line', -, -, hline', rfl⟩ | ⟨b', hp'⟩ := hpermits
        · cases hline.symm.trans hline'
          exact ⟨h, n, hlog ▸ mem_cons_self⟩
        · cases hp.symm.trans hp'
    · rw [hphase, Function.update_of_ne hne] at hw
      obtain ⟨h, hst⟩ := ha.noted hi' hline hw
      exact ⟨h, hgrow hst⟩

theorem Apart.spawn (ha : Apart w) (k : Job)
    (hs : machine.step w (.spawn k) = some w') : Apart w' := by
  obtain ⟨hb', ht⟩ := turn_of_step ha.base hs
  cases hs
  refine ⟨hb', ?_, fun hst => ha.landed hst, ?_⟩
  · exact ⟨ha.tidy.cleared, ha.tidy.opened, ha.tidy.created, ha.tidy.content⟩
  · intro i j q line hi hline hw
    rcases Pool.getElem?_spawn.mp hi with hi | ⟨rfl, -⟩
    · exact ha.noted hi hline hw
    · have hnew : (phase w w.tasks.length).wrote = true := hw
      rw [phase_of_length_le ha.base (Nat.le_refl _)] at hnew
      cases hnew

theorem apart_of_step (ha : Apart w) (hc : Unbroken w e) (hs : machine.step w e = some w') :
    Apart w' := by
  obtain ⟨hb', ht⟩ := turn_of_step ha.base hs
  cases ht with
  | spawn _ _ _ => exact ha.spawn _ hs
  | act _ _ _ _ _ => exact ha.act hc hs
  | crash tasks seen =>
    cases hs
    refine ⟨hb', ?_, ?_, ?_⟩
    · exact tidy_of_free rfl
    · rintro i h bs ⟨n, hn⟩
      cases hn
    · intro i j q line hi
      cases hi
  | reopen quiet tasks phases seen =>
    simp only [machine, quiet, if_true, Option.some.injEq] at hs
    subst hs
    refine ⟨hb', ?_, fun hst => ha.landed hst, fun hi => ha.noted hi⟩
    rw [seen]
    exact tidy_of_free rfl

theorem apart_start (wal : Wal) : Apart (start wal) where
  base := base_start wal
  tidy := tidy_of_free rfl
  landed := by
    rintro i h bs ⟨n, hn⟩
    cases hn
  noted := by
    intro i j q line hi
    cases hi

/-- Along every unbroken run the line of an append that returned is in the segment it was written
to, as a line of its own, and what a recovery makes of the segment keeps it so. -/
theorem appended_isolated (wal : Wal) (es : List Event) (w : World)
    (hc : machine.Along Unbroken (start wal) es) (hr : machine.run (start wal) es = some w) :
    Isolated w := by
  have ha : Apart w :=
    run_invariant (fun _ _ _ ha hc hs => apart_of_step ha hc hs) (apart_start wal) hc hr
  constructor
  · intro i wal' line hi
    obtain ⟨out, hout, hends⟩ := ha.base.ends hi rfl
    cases out with
    | error e => cases hout
    | ok a =>
      have hwrote : (phase w i).wrote = true := hends.1
      exact ha.noted hi rfl hwrote
  · intro i h bs hst
    obtain ⟨-, hown, hbs⟩ := ha.landed hst
    exact ⟨hown, hown.complete hbs⟩

/-! ## A short write -/

/-- An append whose write fails after `kept` symbols, and another append. -/
def shortWrite (kept : Nat) : List Event :=
  Event.spawn (.append (.ok lineA)) :: List.replicate 8 (.act 0 {}) ++
  [.act 0 { err := some "no space left on device", kept }, .act 0 {}] ++
  Event.spawn (.append (.ok lineB)) :: List.replicate 5 (.act 1 {})

/-- The entry of the log is a write of the symbols to the file that succeeded. -/
def stores (i h : Nat) (bs : List Char) : Nat × Answered iface → Bool
  | (i', ⟨.write h' bs', .ok _⟩) => i' == i && h' == h && bs' == bs
  | _ => false

theorem stored_of_any (hl : w.log.any (stores i h bs) = true) :
    Stored w i h bs := by
  obtain ⟨a, ha, hs⟩ := any_eq_true.mp hl
  unfold stores at hs
  split at hs
  next i' h' bs' n =>
    simp only [Bool.and_eq_true, beq_iff_eq] at hs
    obtain ⟨⟨rfl, rfl⟩, rfl⟩ := hs
    exact ⟨n, ha⟩
  next => cases hs

/-- Where the write that failed has left nothing, the next line is a line of its own. -/
theorem emptyWrite_isolated :
    ∃ w, machine.run (start {}) (shortWrite 0) = some w ∧
      (appended w).map Line.text = [['b']] ∧
      textsIn w.shared.disk activeSegmentName = [['b']] ∧ Isolated w := by
  exact exists_run_of (P := fun w => (appended w).map Line.text = [['b']] ∧
      textsIn w.shared.disk activeSegmentName = [['b']])
    (by decide +kernel) fun w hr ⟨happended, htexts⟩ =>
      ⟨happended, htexts, appended_isolated {} _ w (by decide +kernel) hr⟩

/-- Where it has left a part, the next append returns and its line is joined to the part. -/
theorem joined_line :
    ∃ w, machine.run (start {}) (shortWrite 1) = some w ∧
      (appended w).map Line.text = [['b']] ∧
      textsIn w.shared.disk activeSegmentName = [['a', 'b']] ∧ ¬ Isolated w := by
  refine exists_run_of (P := fun w => (appended w).map Line.text = [['b']] ∧
      textsIn w.shared.disk activeSegmentName = [['a', 'b']] ∧
      w.log.any (stores 1 0 ['b', '\n']) = true ∧ w.shared.disk.bytes 0 = ['a', 'b', '\n'])
    (by decide +kernel) fun w _ ⟨happended, htexts, hlog, hbytes⟩ =>
      ⟨happended, htexts, fun hi => ?_⟩
  obtain ⟨before, after, hsplit, hend⟩ := (hi.apart (stored_of_any hlog)).1
  rw [hbytes] at hsplit
  match before, hsplit, hend with
  | [], hsplit, _ => cases hsplit
  | [x], hsplit, hend =>
    cases hsplit
    exact absurd hend (by decide)
  | x :: y :: rest, hsplit, _ =>
    have hlen := congrArg List.length hsplit
    simp at hlen
    omega

end

end Beats.Publish
