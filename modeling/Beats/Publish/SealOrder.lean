import Mathlib.Algebra.Group.Int.Defs
import Beats.Publish.World

/-!
# The order of the sealed segments

The sealed segments are listed in the order of their names, which is to be the order they were
sealed in, and a segment is to have a larger offset than those that are still in the directory.

The offset of a new log is the number of segments in the directory.  After some of them were shipped
that is not more than every offset there, and the next segment repeats one (`repeated_offset`).
Where the count is more whenever it is taken, the listing is in order (`sealedSegments_rising`).
The invariant is `Rising`.
-/

namespace Beats.Publish

open Lib List Digits Disk Machine

/-! ## Offsets -/

/-- The offset of a sealed segment. -/
def baseOf (n : Name) : Int :=
  match parseSegmentName n with
  | some p => p.1
  | none => 0

theorem baseOf_segmentName {b : Nat} (hb : b < 2 ^ 63) (t : Time) :
    baseOf (segmentName b t) = b := by
  rw [baseOf, parseSegmentName_segmentName, if_pos hb]

theorem segmentName_lt {b b' : Nat} (h : b < b') (hb' : b' < 2 ^ 63) (t t' : Time) :
    segmentName b t < segmentName b' t' :=
  Digits.padded_lt (by decide) h (Nat.lt_trans hb' (by decide)) _ _

/-- The name of a segment is accepted with its offset and time, and the name of the active segment
is not.  The names of segments of different offsets are in the order of the offsets. -/
theorem segmentNames_sorted :
    (∀ (b : Nat) (t : Time), InInt64 b → InInt64 t.unixNano →
      parseSegmentName (segmentName b t) = some ((b : Int), t)) ∧
    parseSegmentName activeSegmentName = none ∧
    ∀ (b b' : Nat) (t t' : Time), InInt64 b → InInt64 b' → b ≠ b' →
      (segmentName b t < segmentName b' t' ↔ b < b') := by
  have hlt {a : Nat} (ha : InInt64 a) : a < 2 ^ 63 := Int.ofNat_lt.mp ha.2
  refine ⟨fun b t hb ht => ?_, by decide, fun b b' t t' hb hb' hne => ?_⟩
  · rw [parseSegmentName_segmentName, if_pos (hlt hb), bmod_of_inInt64 ht]
    rfl
  · rcases Nat.lt_or_gt_of_ne hne with h | h
    · exact iff_of_true (segmentName_lt h (hlt hb') t t') h
    · exact iff_of_false (lt_asymm (segmentName_lt h (hlt hb) t' t)) (Nat.lt_asymm h)

/-! ## The condition and the property -/

/-- The segment of a record is in the directory. -/
def onDisk (d : Disk Name Char) (p : Name × Nat) : Bool := d.file p.1 == some p.2

/-- The sealed segments that are in the directory, in the order they were sealed. -/
def remaining (w : World) : List Name :=
  (w.shared.sealed.reverse.filter (onDisk w.shared.disk)).map Prod.fst

/-- The sealed segments are listed in the order of their sealing. -/
structure Ordered (w : World) : Prop where
  listed : sealedOf w.shared.disk.names = remaining w
  growing : (remaining w).Pairwise fun n n' => baseOf n < baseOf n'

/-- Whenever the holder of the mutex counts the sealed segments, there are more than the largest
offset. -/
def Counts (w : World) : Event → Prop
  | .act i _ =>
    w.shared.holder = some i → ∀ c ∈ nextCall w i, c = .readDir →
      ∀ n ∈ w.shared.disk.names, isSealed n = true →
        baseOf n < nextBaseOffset w.shared.disk.names
  | _ => True

instance (w : World) : (e : Event) → Decidable (Counts w e)
  | .spawn _ | .act _ _ | .crash _ | .reopen _ => by
    dsimp only [Counts]
    infer_instance

/-! ## The invariant -/

/-- How the offset of a segment in the directory compares to the one at hand. -/
def Seat.Under : Seat → Int → Prop
  | .held none _, _ => True
  | .created b _ _, x => x ≤ b
  | .written b _, x => x ≤ b
  | .durable b, x => x ≤ b
  | s, x => x < s.base

/-- Where a segment is open, the offset at hand is larger. -/
theorem Seat.Under.lt_base {s : Seat} {x : Int} {h : Nat} (hu : s.Under x)
    (ha : s.active = some h) : x < s.base := by
  cases s with
  | held a b =>
    cases ha
    exact hu
  | synced f b => exact hu
  | _ => cases ha

/-- What a run keeps in which the counts are as they should be. -/
structure Rising (d : Disk Name Char) (sealed : List (Name × Nat)) (seat : Seat) : Prop where
  named : ∀ p ∈ sealed, ∃ (b : Nat) (t : Time), p.1 = segmentName b t ∧ b < 2 ^ 63
  known : ∀ {n k}, isSealed n = true → d.file n = some k → (n, k) ∈ sealed
  numbered : ∀ p ∈ sealed, p.2 < d.next ∧ d.file activeSegmentName ≠ some p.2
  growing : sealed.Pairwise fun p q =>
    onDisk d p = true → onDisk d q = true → baseOf q.1 < baseOf p.1
  under : ∀ {n k}, isSealed n = true → d.file n = some k → seat.Under (baseOf n)

section

variable {d d' : Disk Name Char} {sealed : List (Name × Nat)} {seat seat' : Seat} {n : Name}
  {k b : Nat} {t : Time}

theorem onDisk_iff {p : Name × Nat} : onDisk d p = true ↔ d.file p.1 = some p.2 := by
  rw [onDisk, beq_iff_eq]

theorem Rising.isSealed (h : Rising d sealed seat) {p : Name × Nat} (hp : p ∈ sealed) :
    isSealed p.1 = true := by
  obtain ⟨b, t, hn, hb⟩ := h.named p hp
  rw [hn]
  exact isSealed_segmentName.mpr hb

theorem Rising.shrink (h : Rising d sealed seat)
    (hfile : ∀ {n k}, Publish.isSealed n = true → d'.file n = some k → d.file n = some k)
    (hnext : d.next ≤ d'.next)
    (hactive : ∀ p ∈ sealed, d'.file activeSegmentName ≠ some p.2)
    (hunder : ∀ {n k}, Publish.isSealed n = true → d.file n = some k → seat'.Under (baseOf n)) :
    Rising d' sealed seat' where
  named := h.named
  known hn hk := h.known hn (hfile hn hk)
  numbered p hp := ⟨Nat.lt_of_lt_of_le (h.numbered p hp).1 hnext, hactive p hp⟩
  growing := by
    refine h.growing.imp_of_mem ?_
    intro p q hp hq hpq hp' hq'
    rw [onDisk_iff] at hp' hq'
    exact hpq (onDisk_iff.mpr (hfile (h.isSealed hp) hp'))
      (onDisk_iff.mpr (hfile (h.isSealed hq) hq'))
  under hn hk := hunder hn (hfile hn hk)

theorem Rising.sit (h : Rising d sealed seat)
    (hunder : ∀ {n k}, Publish.isSealed n = true → d.file n = some k → seat'.Under (baseOf n)) :
    Rising d sealed seat' :=
  h.shrink (fun _ hk => hk) (Nat.le_refl _) (fun p hp => (h.numbered p hp).2) hunder

/-- The file `k` is sealed with the offset `b`, which is more than those that are there. -/
theorem Rising.grow (h : Rising d sealed seat) (hb : b < 2 ^ 63)
    (hfile : ∀ {n' k'}, Publish.isSealed n' = true → d'.file n' = some k' →
      n' = segmentName b t ∧ k' = k ∨ d.file n' = some k')
    (hnext : d.next ≤ d'.next) (hk : k < d'.next)
    (hactive : ∀ k', d'.file activeSegmentName = some k' →
      d.file activeSegmentName = some k' ∧ k' ≠ k)
    (hfresh : ∀ p ∈ sealed, p.2 ≠ k)
    (hbelow : ∀ {n' k'}, Publish.isSealed n' = true → d.file n' = some k' → baseOf n' < b)
    (hunder : ∀ x : Int, x ≤ b → seat'.Under x) :
    Rising d' ((segmentName b t, k) :: sealed) seat' where
  named := by
    rintro p (_ | ⟨_, hp⟩)
    · exact ⟨b, t, rfl, hb⟩
    · exact h.named p hp
  known hn hk' := by
    rcases hfile hn hk' with ⟨rfl, rfl⟩ | hk'
    · exact mem_cons_self
    · exact mem_cons_of_mem _ (h.known hn hk')
  numbered := by
    rintro p (_ | ⟨_, hp⟩)
    · exact ⟨hk, fun hf => (hactive _ hf).2 rfl⟩
    · obtain ⟨hlt, ha⟩ := h.numbered p hp
      exact ⟨Nat.lt_of_lt_of_le hlt hnext, fun hf => ha (hactive _ hf).1⟩
  growing := by
    have hold {p : Name × Nat} (hp : p ∈ sealed) (hd : onDisk d' p = true) :
        d.file p.1 = some p.2 :=
      (hfile (h.isSealed hp) (onDisk_iff.mp hd)).resolve_left fun he => hfresh p hp he.2
    refine pairwise_cons.mpr ⟨?_, h.growing.imp_of_mem ?_⟩
    · intro q hq _ hq'
      rw [baseOf_segmentName hb]
      exact hbelow (h.isSealed hq) (hold hq hq')
    · intro p q hp hq hpq hp' hq'
      exact hpq (onDisk_iff.mpr (hold hp hp')) (onDisk_iff.mpr (hold hq hq'))
  under hn hk' := by
    rcases hfile hn hk' with ⟨rfl, rfl⟩ | hk'
    · rw [baseOf_segmentName hb]
      exact hunder _ (Int.le_refl _)
    · exact hunder _ (Int.le_of_lt (hbelow hn hk'))

/-- The name of a segment with an offset beyond those in the directory is free. -/
theorem file_eq_none (hb : b < 2 ^ 63)
    (hbelow : ∀ {n' k'}, isSealed n' = true → d.file n' = some k' → baseOf n' < b) :
    d.file (segmentName b t) = none := by
  cases hf : d.file (segmentName b t) with
  | none => rfl
  | some k =>
    have hlt := hbelow (isSealed_segmentName.mpr hb) hf
    rw [baseOf_segmentName hb] at hlt
    exact absurd hlt (Int.lt_irrefl _)

theorem Rising.createSegment (h : Rising d sealed seat) (hw : d.Wf) (hb : b < 2 ^ 63)
    (hbelow : ∀ {n' k'}, Publish.isSealed n' = true → d.file n' = some k' → baseOf n' < b)
    (hunder : ∀ x : Int, x ≤ b → seat'.Under x) :
    Rising (d.create (segmentName b t)).2
      ((segmentName b t, (d.create (segmentName b t)).1) :: sealed) seat' := by
  have hfree : d.file (segmentName b t) = none := file_eq_none hb hbelow
  have hk : (d.create (segmentName b t)).1 = d.next := by rw [create_of_none hfree]
  refine h.grow hb ?_ next_le_create hw.create_lt ?_ ?_ hbelow hunder
  · intro n' k' _ hk'
    by_cases hne : n' = segmentName b t
    · subst hne
      exact .inl ⟨rfl, (Option.some.inj (file_create_self.symm.trans hk')).symm⟩
    · exact .inr ((file_create_of_ne hne).symm.trans hk')
  · intro k' hk'
    have hold : d.file activeSegmentName = some k' :=
      (file_create_of_ne (segmentName_ne_active b t).symm).symm.trans hk'
    exact ⟨hold, by rw [hk]; exact Nat.ne_of_lt (hw.below hold)⟩
  · intro p hp
    rw [hk]
    exact Nat.ne_of_lt (h.numbered p hp).1

theorem Rising.sealActive (h : Rising d sealed seat) (hw : d.Wf) (hb : b < 2 ^ 63)
    (hfile : d.file activeSegmentName = some k)
    (hbelow : ∀ {n' k'}, Publish.isSealed n' = true → d.file n' = some k' → baseOf n' < b)
    (hunder : ∀ x : Int, x ≤ b → seat'.Under x) :
    Rising (d.rename k activeSegmentName (segmentName b t)) ((segmentName b t, k) :: sealed)
      seat' := by
  refine h.grow hb ?_ (Nat.le_refl _) (hw.below hfile) ?_ ?_ hbelow hunder
  · intro n' k' _ hk'
    rcases file_of_rename hk' with hnew | ⟨-, -, hold⟩
    · exact .inl hnew
    · exact .inr hold
  · intro k' hk'
    rw [file_rename_src (segmentName_ne_active b t).symm] at hk'
    cases hk'
  · intro p hp hpk
    exact (h.numbered p hp).2 (by rw [hpk]; exact hfile)

theorem Rising.openActive (h : Rising d sealed seat)
    (hunder : ∀ {n k}, Publish.isSealed n = true → d.file n = some k → seat'.Under (baseOf n)) :
    Rising (d.create activeSegmentName).2 sealed seat' := by
  refine h.shrink ?_ next_le_create ?_ hunder
  · intro n k hn hk
    exact (file_create_of_ne (ne_active_of_sealed hn)).symm.trans hk
  · intro p hp hf
    obtain ⟨hlt, ha⟩ := h.numbered p hp
    rw [file_create_self, Option.some.injEq] at hf
    exact ne_create ha hlt hf.symm

theorem Rising.remove (h : Rising d sealed seat)
    (hunder : ∀ {n k}, Publish.isSealed n = true → d.file n = some k → seat'.Under (baseOf n)) :
    Rising (d.remove n) sealed seat' :=
  h.shrink (fun _ => file_of_remove) (Nat.le_refl _)
    (fun p hp hf => (h.numbered p hp).2 (file_of_remove hf)) hunder

end

/-! ## Steps -/

section

variable {v v' : View} {i : Nat} {j : Job} {luck : Luck} {c : Call} {wrote wrote' : Bool}
  {holder : Option Nat} {failed : Bool}

theorem Rising.bytes {d d' : Disk Name Char} {sealed : List (Name × Nat)} {seat : Seat}
    (h : Rising d sealed seat) (hdir : d'.dir = d.dir) (hnext : d'.next = d.next) :
    Rising d' sealed seat := by
  have hfile (n : Name) : d'.file n = d.file n := by rw [file, file, hdir]
  refine h.shrink ?_ (Nat.le_of_eq hnext.symm) ?_ h.under
  · intro n k _ hk
    rwa [hfile] at hk
  · intro p hp
    rw [hfile]
    exact (h.numbered p hp).2

theorem rising_of_moves (hs : Rising v.disk v.sealed v.seat) (hw : v.disk.Wf)
    (hm : Moves j luck i holder failed v c wrote wrote' v')
    (hcount : holder = some i → c = .readDir → ∀ n ∈ v.disk.names, isSealed n = true →
      baseOf n < nextBaseOffset v.disk.names) :
    Rising v'.disk v'.sealed v'.seat := by
  -- What is known of the directory at a seat.
  have hunder {t : Seat} (hseat : v.seat = t) :
      ∀ {n k}, isSealed n = true → v.disk.file n = some k → t.Under (baseOf n) := by
    intro n k hn hk
    rw [← hseat]
    exact hs.under hn hk
  cases hm with
  | idle => exact hs
  | @leave m _ rests _ =>
    refine hs.sit fun {n k} hn hk => ?_
    cases hm : m.active with
    | none => trivial
    | some h =>
      have hlt := (hs.under hn hk).lt_base (rests.1.symm.trans hm)
      rwa [← rests.2 (by rw [hm]; nofun)] at hlt
  | shut _ closed => exact hs.sit fun _ _ => by rw [closed]; trivial
  | count holds seat =>
    exact hs.sit fun hn hk => hcount holds rfl _ (mem_names.mpr ⟨_, hk⟩) hn
  | absent seat _ => exact hs.sit (hunder seat)
  | found seat _ => exact hs.sit (hunder seat)
  | readOrphan seat _ => exact hs.sit (hunder seat)
  | createSegment seat named =>
    exact hs.createSegment hw (isSealed_segmentName.mp named) (hunder seat) fun _ hx => hx
  | openActive seat => exact hs.openActive (hunder seat)
  | fill seat _ => exact Rising.sit (hs.bytes rfl rfl) (hunder seat)
  | writeLine _ _ | short _ | syncClosed => exact hs.bytes rfl rfl
  | syncActive seat => exact Rising.sit (hs.bytes rfl rfl) (hunder seat)
  | syncSegment seat => exact Rising.sit (hs.bytes rfl rfl) (hunder seat)
  | sealActive seat file named =>
    exact hs.sealActive hw (isSealed_segmentName.mp named) file (hunder seat) fun _ hx =>
      Int.lt_add_one_of_le hx
  | clear seat =>
    exact hs.remove fun hn hk => Int.lt_add_one_of_le (hunder seat hn hk)
  | openSealed _ _ _ | put _ _ | keepSealed _ _ | undock _ => exact hs
  | removeSealed _ _ => exact hs.remove hs.under

end

section

variable {w w' : World} {e : Event}

theorem rising_of_turn (hb : Base w)
    (hs : Rising (view w).disk (view w).sealed (view w).seat) (hc : Counts w e)
    (ht : Turn w e w') : Rising (view w').disk (view w').sealed (view w').seat := by
  cases ht with
  | spawn _ _ seen =>
    rw [seen]
    exact hs
  | act task _ _ _ moves =>
    have hcall := nextCall_eq task
    exact rising_of_moves hs hb.wf moves fun hh => hc hh _ hcall
  | crash _ seen =>
    rw [seen]
    exact Rising.bytes (hs.sit fun _ _ => trivial) rfl rfl
  | reopen _ _ _ seen =>
    rw [seen]
    exact hs.sit fun _ _ => trivial

theorem rising_start (wal : Wal) :
    Rising (view (start wal)).disk (view (start wal)).sealed (view (start wal)).seat where
  named p hp := by cases hp
  known _ hk := by cases hk
  numbered p hp := by cases hp
  growing := Pairwise.nil
  under _ hk := by cases hk

/-- The directory lists the segments of the record that are in it, in the order of the record. -/
theorem ordered_of_rising (hs : Rising (view w).disk (view w).sealed (view w).seat) :
    Ordered w := by
  have hgrow : (remaining w).Pairwise fun n n' => baseOf n < baseOf n' := by
    rw [remaining, pairwise_map, pairwise_filter, pairwise_reverse]
    exact hs.growing.imp fun h hq hp => h hp hq
  have hmem {n : Name} : n ∈ remaining w ↔ n ∈ w.shared.disk.names ∧ isSealed n = true := by
    rw [remaining, mem_map]
    constructor
    · rintro ⟨p, hp, rfl⟩
      obtain ⟨hp, hd⟩ := mem_filter.mp hp
      have hp := mem_reverse.mp hp
      exact ⟨mem_names.mpr ⟨_, onDisk_iff.mp hd⟩, hs.isSealed hp⟩
    · rintro ⟨hn, hsealed⟩
      obtain ⟨k, hk⟩ := mem_names.mp hn
      exact ⟨(n, k), mem_filter.mpr ⟨mem_reverse.mpr (hs.known hsealed hk), onDisk_iff.mpr hk⟩, rfl⟩
  -- In the order of the record the names grow as the offsets do.
  have hsorted : (remaining w).Pairwise (· ≤ ·) := by
    refine hgrow.imp_of_mem ?_
    intro n n' hn hn' hlt
    have hname {n : Name} (hn : n ∈ remaining w) :
        ∃ (b : Nat) (t : Time), n = segmentName b t ∧ b < 2 ^ 63 := by
      obtain ⟨hd, hsealed⟩ := hmem.mp hn
      obtain ⟨k, hk⟩ := mem_names.mp hd
      exact hs.named _ (hs.known hsealed hk)
    obtain ⟨b, t, rfl, hb⟩ := hname hn
    obtain ⟨b', t', rfl, hb'⟩ := hname hn'
    rw [baseOf_segmentName hb, baseOf_segmentName hb'] at hlt
    exact le_of_lt (segmentName_lt (Int.ofNat_lt.mp hlt) hb' t t')
  have hperm : (sealedOf w.shared.disk.names).Perm (remaining w) := by
    refine (perm_insertionSort _ _).trans ?_
    refine (perm_ext_iff_of_nodup ?_ ?_).mpr fun n => by rw [mem_filter, hmem]
    · exact w.shared.disk.names_nodup.filter _
    · exact hgrow.imp fun h he => absurd (he ▸ h) (Int.lt_irrefl _)
  refine ⟨hperm.eq_of_pairwise ?_ (pairwise_insertionSort _ _) hsorted, hgrow⟩
  intro n n' _ _ h h'
  exact le_antisymm h h'

/-- In every run in which the counts are more than the offsets that are there, the sealed segments
are listed in the order they were sealed in, and their offsets grow. -/
theorem sealedSegments_rising (wal : Wal) (es : List Event) (w : World)
    (hc : machine.Along Counts (start wal) es) (hr : machine.run (start wal) es = some w) :
    Ordered w := by
  refine ordered_of_rising (run_invariant
    (P := fun w => Base w ∧ Rising (view w).disk (view w).sealed (view w).seat) ?_
    ⟨base_start wal, rising_start wal⟩ hc hr).2
  rintro w e w' ⟨hb, hs⟩ hc hstep
  obtain ⟨hb', ht⟩ := turn_of_step hb hstep
  exact ⟨hb', rising_of_turn hb hs hc ht⟩

end

/-! ## Restarts -/

/-- A log that seals after every line. -/
def eager : Wal := { maxBytes := 1 }

def twoLine : Text := ⟨['2'], by decide⟩

def twoSegments : List Event :=
  Event.spawn (.append (.ok twoLine)) :: List.replicate 16 (.act 0 {}) ++
    Event.spawn (.append (.ok twoLine)) :: List.replicate 11 (.act 1 {})

def restart (i : Nat) : List Event :=
  .reopen eager :: .spawn (.append (.ok twoLine)) :: List.replicate 23 (.act i { now := 5 })

/-- A restart with all segments in the directory goes on after them. -/
theorem restarted_rising :
    ∃ w, machine.run (start eager) (twoSegments ++ restart 2) = some w ∧
      remaining w = [segmentName 0 0, segmentName 1 0, segmentName 2 5, segmentName 3 5] ∧
      Ordered w := by
  exact exists_run_of
    (by decide +kernel) fun w hr hl => ⟨hl, sealedSegments_rising eager _ w (by decide +kernel) hr⟩

/-- A restart after the first of two segments was shipped gives the offset of the second one
again. -/
theorem repeated_offset :
    ∃ w, machine.run (start eager)
        (twoSegments ++ .spawn .ship :: List.replicate 6 (.act 2 {}) ++
          [.act 2 { err := some "unavailable" }, .act 2 {}] ++ restart 3) = some w ∧
      ¬ Ordered w := by
  refine exists_run_of (P := fun w =>
      remaining w = [segmentName 1 0, segmentName 1 5, segmentName 2 5])
    (by decide +kernel) fun w _ hl h => ?_
  have hgrow := h.growing
  rw [hl] at hgrow
  have hlt := rel_of_pairwise_cons hgrow mem_cons_self
  exact absurd hlt (Int.lt_irrefl _)

end Beats.Publish
