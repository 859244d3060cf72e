import Mathlib.Data.List.Flatten
import Mathlib.Data.List.Perm.Subperm
import Beats.Publish.Filled
import Beats.Publish.Isolation

/-!
# No line is lost

Operations may run at one time, file operations may fail at any point, and the process may stop.
What an append of the process has written is then in the sink, in a sealed segment or in the active
segment, perhaps more than once (`lines_retained`).

`Filed` says what the directory has to do with the record of its segments.  `Tally` counts every
line that was written in one place: an object of the sink, a sealed segment, or the active segment.
A recovery moves what it has copied from the active segment to the new one, and a shipment moves a
segment to the sink, before the copy is removed.
-/

namespace Beats.Publish

open Lib List Disk Function

/-! ## The condition and the property -/

/-- The file that a call hands to the sink. -/
def Call.uploads : Call → Option Nat
  | .put _ h => some h
  | _ => none

/-- A write that fails stops where a line ends, a segment gets a name that none has had, and what is
shipped is not being recovered. -/
def Keeping (w : World) : Event → Prop
  | .act i luck =>
    ∀ c ∈ nextCall w i,
      (luck.err = none ∨ ∀ bs ∈ c.symbols, Ended '\n' (bs.take luck.kept)) ∧
        (∀ n ∈ c.target, isSealed n = true → n ∉ w.shared.sealed.map Prod.fst) ∧
        ∀ h ∈ c.uploads, (view w).seat.filling ≠ some h
  | _ => True

instance (w : World) : (e : Event) → Decidable (Keeping w e)
  | .spawn _ | .act _ _ | .crash _ | .reopen _ => by
    dsimp only [Keeping]
    infer_instance

/-- The lines of the appends that returned are in the sink, in the sealed segments and in the active
segment, each at least as often as it was appended. -/
def Retained (w : World) : Prop :=
  ((appended w).map Line.text).Subperm
    (sinkTexts w.shared.sink ++ (sealedNames w.shared.disk).flatMap (textsIn w.shared.disk) ++
      textsIn w.shared.disk activeSegmentName)

/-! ## The directory and its record -/

/-- The record of the sealed segments has those of the directory and those at the docks, under names
of their own.  Where a recovery is under way, the active segment has what it has read. -/
structure Filed (v : View) : Prop where
  recorded : ∀ {n k}, isSealed n = true → v.disk.file n = some k → (n, k) ∈ v.sealed
  named : (v.sealed.map Prod.fst).Nodup
  below : ∀ {n k}, (n, k) ∈ v.sealed → k < v.disk.next
  opened : ∀ {i n h}, v.docks i = .opened n h → (n, h) ∈ v.sealed
  sent : ∀ {i n h}, v.docks i = .sent n h → (n, h) ∈ v.sealed ∧ v.seat.filling ≠ some h
  orphan : ∀ {b raw}, v.seat = .orphan b raw → raw = v.disk.content activeSegmentName
  created : ∀ {b h content}, v.seat = .created b h content →
    content = complete '\n' (v.disk.content activeSegmentName) ∧
      ∃ n, isSealed n = true ∧ v.disk.file n = some h
  active : ∀ {h}, v.seat.active = some h → v.disk.file activeSegmentName = some h

variable {j : Job} {c : Call} {p : Dock} {raw : List Char} {wrote wrote' failed : Bool}
  {holder : Option Nat} {js : List Job} {φ : Nat → Phase} {ψ : Phase}

section

variable {v v' : View} {t : Seat} {n : Name} {i h b k : Nat} {bs : List Char}
  {d : Disk Name Char}

/-- A name has one segment on record. -/
theorem Filed.unique (hf : Filed v) (hh : (n, h) ∈ v.sealed) (hk : (n, k) ∈ v.sealed) : h = k := by
  have hp := inj_on_of_nodup_map hf.named hh hk rfl
  exact (Prod.mk.inj hp).2

theorem Filed.ne_of_sent (hf : Filed v) (hd : v.docks i = .sent n h) {n' : Name}
    (hn' : isSealed n' = true) (hk : v.disk.file n' = some k) (hfill : v.seat.filling = some k) :
    n' ≠ n := by
  rintro rfl
  obtain ⟨hmem, hne⟩ := hf.sent hd
  exact hne (hf.unique hmem (hf.recorded hn' hk) ▸ hfill)

/-- The seat changes and the directory does not. -/
theorem Filed.sit (hf : Filed v) (ht : t.filling = none)
    (ho : ∀ b raw, t = .orphan b raw → raw = v.disk.content activeSegmentName)
    (ha : ∀ f, t.active = some f → v.disk.file activeSegmentName = some f) :
    Filed { v with seat := t } :=
  { hf with
    sent hd := ⟨(hf.sent hd).1, by rw [ht]; nofun⟩
    orphan hr := ho _ _ hr
    created hc := by
      have hc' : t = .created _ _ _ := hc
      rw [hc'] at ht
      cases ht
    active hk := ha _ hk }

/-- The content changes and the names do not. -/
theorem Filed.refit (hf : Filed v) (hnext : v.disk.next ≤ d.next)
    (hfile : ∀ n, d.file n = v.disk.file n)
    (hactive : v.seat.active = none →
      d.content activeSegmentName = v.disk.content activeSegmentName) :
    Filed { v with disk := d } :=
  { hf with
    recorded hn hk := hf.recorded hn ((hfile _).symm.trans hk)
    below hm := Nat.lt_of_lt_of_le (hf.below hm) hnext
    orphan hr := (hf.orphan hr).trans (hactive (by rw [hr]; rfl)).symm
    created hc := by
      obtain ⟨hcontent, n, hn, hk⟩ := hf.created hc
      rw [hactive (by rw [hc]; rfl)]
      exact ⟨hcontent, n, hn, (hfile n).trans hk⟩
    active hk := (hfile _).trans (hf.active hk) }

theorem Filed.sync (hf : Filed v) (h : Nat) : Filed { v with disk := v.disk.sync h } :=
  hf.refit (Nat.le_refl _) (fun _ => rfl) fun _ => rfl

theorem Filed.dock (hf : Filed v) (ho : ∀ n k, p = .opened n k → (n, k) ∈ v.sealed)
    (hs : ∀ n k, p = .sent n k → (n, k) ∈ v.sealed ∧ v.seat.filling ≠ some k) :
    Filed { v with docks := update v.docks i p } :=
  { hf with
    opened := by
      intro i' n h hd
      by_cases hi : i' = i
      · subst hi
        exact ho n h ((update_self ..).symm.trans hd)
      · exact hf.opened ((update_of_ne hi ..).symm.trans hd)
    sent := by
      intro i' n h hd
      by_cases hi : i' = i
      · subst hi
        exact hs n h ((update_self ..).symm.trans hd)
      · exact hf.sent ((update_of_ne hi ..).symm.trans hd) }

/-- A name that was never sealed is free. -/
theorem Filed.free (hf : Filed v) (hn : isSealed n = true) (hnew : n ∉ v.sealed.map Prod.fst) :
    v.disk.file n = none := by
  cases hk : v.disk.file n with
  | none => rfl
  | some k => exact absurd (mem_map.mpr ⟨(n, k), hf.recorded hn hk, rfl⟩) hnew

/-- A recovery creates its segment. -/
theorem Filed.createSegment (hf : Filed v) (hw : v.disk.Wf) (hseat : v.seat = .orphan b raw)
    (hn : isSealed n = true) (hnew : n ∉ v.sealed.map Prod.fst) :
    Filed { v with
      disk := (v.disk.create n).2
      sealed := (n, (v.disk.create n).1) :: v.sealed
      seat := .created b (v.disk.create n).1 (complete '\n' raw) } := by
  have hfree := hf.free hn hnew
  have hk : (v.disk.create n).1 = v.disk.next := by rw [create_of_none hfree]
  constructor
  · intro n' k' hn' hk'
    by_cases hne : n' = n
    · subst hne
      cases file_create_self.symm.trans hk'
      exact mem_cons_self
    · exact mem_cons_of_mem _ (hf.recorded hn' ((file_create_of_ne hne).symm.trans hk'))
  · exact nodup_cons.mpr ⟨hnew, hf.named⟩
  · intro n' k' hm
    rcases mem_cons.mp hm with he | hm
    · cases he
      exact hw.create_lt
    · exact Nat.lt_of_lt_of_le (hf.below hm) next_le_create
  · intro i n' h' hd
    exact mem_cons_of_mem _ (hf.opened hd)
  · intro i n' h' hd
    obtain ⟨hm, -⟩ := hf.sent hd
    refine ⟨mem_cons_of_mem _ hm, ?_⟩
    have hlt := hf.below hm
    rw [Seat.filling, hk, Ne, Option.some.injEq]
    omega
  · nofun
  · rintro _ _ _ ⟨⟩
    refine ⟨?_, n, hn, file_create_self⟩
    have hcontent : (v.disk.create n).2.content activeSegmentName =
        v.disk.content activeSegmentName :=
      content_create_of_ne hw (ne_active_of_sealed hn).symm
    rw [hf.orphan hseat]
    exact congrArg _ hcontent.symm
  · nofun

/-- An active segment is opened. -/
theorem Filed.openActive (hf : Filed v) :
    Filed { v with
      disk := (v.disk.create activeSegmentName).2
      seat := .held (some (v.disk.create activeSegmentName).1) b } :=
  { hf with
    recorded hn hk := hf.recorded hn ((file_create_of_ne (ne_active_of_sealed hn)).symm.trans hk)
    below hm := Nat.lt_of_lt_of_le (hf.below hm) next_le_create
    sent hd := ⟨(hf.sent hd).1, nofun⟩
    orphan := nofun
    created := nofun
    active := by
      rintro _ ⟨⟩
      exact file_create_self }

/-- The active segment is renamed. -/
theorem Filed.sealActive (hf : Filed v) (hw : v.disk.Wf)
    (hfile : v.disk.file activeSegmentName = some k) (hnew : n ∉ v.sealed.map Prod.fst) :
    Filed { v with
      disk := v.disk.rename k activeSegmentName n
      sealed := (n, k) :: v.sealed
      seat := .cleared b } where
  recorded := by
    intro n' k' hn' hk'
    rcases file_of_rename hk' with ⟨rfl, rfl⟩ | ⟨-, -, hk'⟩
    · exact mem_cons_self
    · exact mem_cons_of_mem _ (hf.recorded hn' hk')
  named := nodup_cons.mpr ⟨hnew, hf.named⟩
  below := by
    intro n' k' hm
    rcases mem_cons.mp hm with he | hm
    · cases he
      exact hw.below hfile
    · exact hf.below hm
  opened hd := mem_cons_of_mem _ (hf.opened hd)
  sent hd := ⟨mem_cons_of_mem _ (hf.sent hd).1, nofun⟩
  orphan := nofun
  created := nofun
  active := nofun

theorem Filed.clear (hf : Filed v) :
    Filed { v with disk := v.disk.remove activeSegmentName, seat := .cleared b } :=
  { hf with
    recorded hn hk := hf.recorded hn (file_of_remove hk)
    sent hd := ⟨(hf.sent hd).1, nofun⟩
    orphan := nofun
    created := nofun
    active := nofun }

/-- A segment that was sent is removed. -/
theorem Filed.removeSealed (hf : Filed v) (hd : v.docks i = .sent n h) (hn : isSealed n = true) :
    Filed { v with disk := v.disk.remove n, docks := update v.docks i .idle } := by
  have hne := (ne_active_of_sealed hn).symm
  have hcontent := content_remove_of_ne (d := v.disk) hne
  have hdocked := hf.dock (i := i) (p := .idle) nofun nofun
  refine ⟨fun hn' hk' => hf.recorded hn' (file_of_remove hk'), hf.named, hf.below,
    hdocked.opened, hdocked.sent, ?_, ?_, ?_⟩
  · intro b raw hr
    exact (hf.orphan hr).trans hcontent.symm
  · intro b h' content hc
    obtain ⟨hsame, n', hn', hk'⟩ := hf.created hc
    have hfill : v.seat.filling = some h' := by
      rw [hc]
      rfl
    have hne' := hf.ne_of_sent hd hn' hk' hfill
    exact ⟨hsame.trans (congrArg _ hcontent.symm), n', hn', (file_remove_of_ne hne').trans hk'⟩
  · intro f ha
    exact (file_remove_of_ne hne).trans (hf.active ha)

/-- An operation writes to the active segment or to the one it recovers. -/
def Writes (t : Seat) : Call → Prop
  | .write h bs => (∃ b, t = .held (some h) b) ∨ ∃ b, t = .created b h bs
  | _ => True

theorem Filed.write (hf : Filed v) (hw : v.disk.Wf)
    (hseat : (∃ b, v.seat = .held (some h) b) ∨ ∃ b, v.seat = .created b h bs) (x : List Char) :
    Filed { v with disk := v.disk.write h x } := by
  refine hf.refit (Nat.le_refl _) (fun _ => rfl) fun hnone => ?_
  rcases hseat with ⟨b, hseat⟩ | ⟨b, hseat⟩
  · rw [hseat] at hnone
    cases hnone
  · obtain ⟨-, n, hn, hk⟩ := hf.created hseat
    exact content_write_of_ne hw hk (ne_active_of_sealed hn).symm

/-- Every call keeps the directory filed, if no name is used twice. -/
theorem Filed.moves {luck : Luck} (hf : Filed v) (hw : v.disk.Wf)
    (hm : Moves j luck i holder failed v c wrote wrote' v')
    (hnew : ∀ n ∈ c.target, isSealed n = true → n ∉ v.sealed.map Prod.fst)
    (hup : ∀ h ∈ c.uploads, v.seat.filling ≠ some h) (hwrites : Writes v.seat c) : Filed v' := by
  cases hm with
  | idle => exact hf
  | leave rests _ => exact hf.sit rfl nofun fun f ha => hf.active (rests.1.symm.trans ha)
  | shut _ closed => exact hf.sit rfl nofun fun f ha => absurd (closed.symm.trans ha) nofun
  | count _ _ | absent _ _ | found _ _ => exact hf.sit rfl nofun nofun
  | readOrphan _ file =>
    refine hf.sit rfl ?_ nofun
    rintro b raw ⟨⟩
    exact (content_of_some file).symm
  | createSegment seat named => exact hf.createSegment hw seat named (hnew _ rfl named)
  | openActive _ => exact hf.openActive
  | fill seat _ => exact (hf.write hw hwrites _).sit rfl nofun nofun
  | writeLine _ _ | short _ => exact hf.write hw hwrites _
  | syncActive seat =>
    exact (hf.sync _).sit rfl nofun fun f ha => hf.active (by rw [seat]; exact ha)
  | syncSegment _ => exact (hf.sync _).sit rfl nofun nofun
  | syncClosed => exact hf.sync _
  | sealActive _ file named => exact hf.sealActive hw file (hnew _ rfl named)
  | clear _ => exact hf.clear
  | openSealed _ named file =>
    refine hf.dock ?_ nofun
    rintro _ _ ⟨⟩
    exact hf.recorded named file
  | put dock _ =>
    have hsent := hf.dock (i := i) (p := .sent _ _) nofun (by
      rintro _ _ ⟨⟩
      exact ⟨hf.opened dock, hup _ rfl⟩)
    exact { hsent with }
  | removeSealed dock named => exact hf.removeSealed dock named
  | keepSealed _ _ | undock _ => exact hf.dock nofun nofun

end

/-! ## The tally -/

/-- The lines that are counted: those of the objects, of the segments `rest`, and of the active
segment if it counts. -/
def tallied (d : Disk Name Char) (objs : List (List Char)) (rest : List Name) (counts : Bool) :
    List (List Char) :=
  objs.flatMap (texts '\n') ++ rest.flatMap (textsIn d) ++
    if counts then textsIn d activeSegmentName else []

/-- The lines `W` that were written are among those that are counted.  An open segment counts, and
one that a recovery has copied does not.  A segment that was sent does not count, nor one that is
being filled. -/
structure Tally (v : View) (W : List Text) (objs : List (List Char)) (rest : List Name)
    (counts : Bool) : Prop where
  taken : objs.Sublist (v.sink.map Prod.snd)
  nodup : rest.Nodup
  listed : ∀ {n}, n ∈ rest → isSealed n = true ∧
    ∃ k, v.disk.file n = some k ∧ v.seat.filling ≠ some k
  unsent : ∀ {n i h}, n ∈ rest → v.docks i ≠ .sent n h
  held : v.seat.active ≠ none → counts = true
  copied : v.seat.copied = true → counts = false
  sum : (W.map Line.text).Subperm (tallied v.disk objs rest counts)

/-- Every line that was written is counted somewhere. -/
def Stocked (v : View) (W : List Text) : Prop :=
  ∃ objs rest counts, Tally v W objs rest counts

section

variable {v v' : View} {W : List Text} {objs : List (List Char)} {rest : List Name} {counts : Bool}
  {t : Seat} {n : Name} {i h b k : Nat} {bs : List Char} {d d' : Disk Name Char}

/-- Where the files grow, so does what is counted. -/
theorem tallied_sublist (hrest : ∀ n ∈ rest, (textsIn d n).Sublist (textsIn d' n))
    (hactive : counts = true →
      (textsIn d activeSegmentName).Sublist (textsIn d' activeSegmentName)) :
    (tallied d objs rest counts).Sublist (tallied d' objs rest counts) := by
  refine ((Sublist.refl _).append (Sublist.flatMap_right rest hrest)).append ?_
  cases counts with
  | true => exact hactive rfl
  | false => exact .refl _

/-- The active segment is counted under another name. -/
theorem tallied_move (hrest : ∀ n' ∈ rest, (textsIn d n').Sublist (textsIn d' n'))
    (hactive : (textsIn d activeSegmentName).Sublist (textsIn d' n)) :
    (tallied d objs rest true).Subperm (tallied d' objs (n :: rest) false) := by
  have hswap : (tallied d objs rest true).Perm
      (objs.flatMap (texts '\n') ++ (textsIn d activeSegmentName ++ rest.flatMap (textsIn d))) := by
    change (_ ++ _ ++ textsIn d activeSegmentName).Perm _
    rw [append_assoc]
    exact perm_append_comm.append_left _
  refine hswap.subperm.trans (Sublist.subperm ?_)
  refine Sublist.trans ?_ (sublist_append_left _ _)
  exact (Sublist.refl _).append (hactive.append (Sublist.flatMap_right rest hrest))

/-- A write takes no line away. -/
theorem texts_write (d : Disk Name Char) (h : Nat) (bs : List Char) (n : Name) :
    (textsIn d n).Sublist (textsIn (d.write h bs) n) := by
  cases hfile : d.file n with
  | none =>
    rw [textsIn, content_of_none hfile]
    exact nil_sublist _
  | some k =>
    have hfile' : (d.write h bs).file n = some k := hfile
    rw [textsIn, textsIn, content_of_some hfile, content_of_some hfile']
    by_cases hk : k = h
    · subst hk
      rw [bytes_write_self]
      exact (texts_le_append _ _ _).sublist
    · rw [bytes_write_of_ne hk]

/-- The seat changes and the tally does not. -/
theorem Tally.sit (ht : Tally v W objs rest counts) (hfill : t.filling = none)
    (ha : t.active ≠ none → v.seat.active ≠ none)
    (hcopied : t.copied = true → v.seat.copied = true) :
    Tally { v with seat := t } W objs rest counts :=
  { ht with
    listed hn := by
      obtain ⟨hsealed, k, hk, -⟩ := ht.listed hn
      exact ⟨hsealed, k, hk, by rw [hfill]; nofun⟩
    held h := ht.held (ha h)
    copied h := ht.copied (hcopied h) }

/-- The files grow and the tally stays. -/
theorem Tally.refit (ht : Tally v W objs rest counts) (hfile : ∀ n ∈ rest, d.file n = v.disk.file n)
    (hrest : ∀ n ∈ rest, (textsIn v.disk n).Sublist (textsIn d n))
    (hactive : counts = true →
      (textsIn v.disk activeSegmentName).Sublist (textsIn d activeSegmentName)) :
    Tally { v with disk := d } W objs rest counts :=
  { ht with
    listed hn := by
      obtain ⟨hsealed, k, hk, hfill⟩ := ht.listed hn
      exact ⟨hsealed, k, (hfile _ hn).trans hk, hfill⟩
    sum := ht.sum.trans (tallied_sublist hrest hactive).subperm }

theorem Tally.write (ht : Tally v W objs rest counts) (h : Nat) (bs : List Char) :
    Tally { v with disk := v.disk.write h bs } W objs rest counts :=
  ht.refit (fun _ _ => rfl) (fun _ _ => texts_write _ _ _ _) fun _ => texts_write _ _ _ _

theorem Tally.sync (ht : Tally v W objs rest counts) (h : Nat) :
    Tally { v with disk := v.disk.sync h } W objs rest counts :=
  ht.refit (fun _ _ => rfl) (fun _ _ => .refl _) fun _ => .refl _

theorem Tally.dock (ht : Tally v W objs rest counts) (hp : ∀ n k, p = .sent n k → n ∉ rest) :
    Tally { v with docks := update v.docks i p } W objs rest counts :=
  { ht with
    unsent := by
      intro n i' h hn hd
      by_cases hi : i' = i
      · subst hi
        exact hp n h ((update_self ..).symm.trans hd) hn
      · exact ht.unsent hn ((update_of_ne hi ..).symm.trans hd) }

/-- A segment that is new to the record is not counted yet, and no operation has sent it. -/
theorem Tally.fresh (ht : Tally v W objs rest counts) (hf : Filed v)
    (hnew : n ∉ v.sealed.map Prod.fst) : n ∉ rest ∧ ∀ i h, v.docks i ≠ .sent n h := by
  constructor
  · intro hn
    obtain ⟨hsealed, k, hk, -⟩ := ht.listed hn
    exact hnew (mem_map.mpr ⟨(n, k), hf.recorded hsealed hk, rfl⟩)
  · intro i h hd
    exact hnew (mem_map.mpr ⟨(n, h), (hf.sent hd).1, rfl⟩)

theorem Tally.createSegment (ht : Tally v W objs rest counts) (hf : Filed v) (hw : v.disk.Wf)
    (hn : isSealed n = true) (hnew : n ∉ v.sealed.map Prod.fst) :
    Tally { v with
      disk := (v.disk.create n).2
      sealed := (n, (v.disk.create n).1) :: v.sealed
      seat := .created b (v.disk.create n).1 raw } W objs rest counts := by
  have hne : ∀ n' ∈ rest, n' ≠ n := fun n' hn' he => (ht.fresh hf hnew).1 (he ▸ hn')
  have hk : (v.disk.create n).1 = v.disk.next := by rw [create_of_none (hf.free hn hnew)]
  have hcontent {n' : Name} (hne : n' ≠ n) :
      (textsIn v.disk n').Sublist (textsIn (v.disk.create n).2 n') := by
    rw [textsIn, textsIn, content_create_of_ne hw hne]
  refine ⟨ht.taken, ht.nodup, ?_, ht.unsent, fun h => absurd rfl h,
    fun hc => absurd hc Bool.false_ne_true, ?_⟩
  · intro n' hn'
    obtain ⟨hsealed, k, hfile, -⟩ := ht.listed hn'
    refine ⟨hsealed, k, (file_create_of_ne (hne n' hn')).trans hfile, ?_⟩
    have hlt := hw.below hfile
    rw [Seat.filling, hk, Ne, Option.some.injEq]
    omega
  · refine ht.sum.trans (tallied_sublist ?_ ?_).subperm
    · exact fun n' hn' => hcontent (hne n' hn')
    · exact fun _ => hcontent (ne_active_of_sealed hn).symm

theorem Tally.openActive (ht : Tally v W objs rest counts) (hw : v.disk.Wf)
    (hnone : v.disk.file activeSegmentName = none) :
    Tally { v with
      disk := (v.disk.create activeSegmentName).2
      seat := .held (some (v.disk.create activeSegmentName).1) b } W objs rest true := by
  have hne {n : Name} (hn : n ∈ rest) : n ≠ activeSegmentName :=
    ne_active_of_sealed (ht.listed hn).1
  refine ⟨ht.taken, ht.nodup, ?_, ht.unsent, fun _ => rfl, nofun, ?_⟩
  · intro n hn
    obtain ⟨hsealed, k, hfile, -⟩ := ht.listed hn
    exact ⟨hsealed, k, (file_create_of_ne (hne hn)).trans hfile, nofun⟩
  · have hempty : textsIn v.disk activeSegmentName = [] := by
      rw [textsIn, content_of_none hnone]
      rfl
    have hsame : tallied v.disk objs rest counts = tallied v.disk objs rest true := by
      cases counts with
      | true => rfl
      | false =>
        rw [tallied, tallied, hempty]
        rfl
    have hsum := ht.sum
    rw [hsame] at hsum
    refine hsum.trans (tallied_sublist ?_ ?_).subperm
    · intro n hn
      rw [textsIn, textsIn, content_create_of_ne hw (hne hn)]
    · intro _
      rw [hempty]
      exact nil_sublist _

/-- A recovery has copied the active segment, and the copy counts from now on. -/
theorem Tally.fill (ht : Tally v W objs rest counts) (hf : Filed v) (hy : Tidy v)
    (hseat : v.seat = .created b h bs) :
    Stocked { v with disk := v.disk.write h bs, seat := .written b h } W := by
  have hfill : v.seat.filling = some h := by
    rw [hseat]
    rfl
  have hlisted {n : Name} (hm : n ∈ rest) : isSealed n = true ∧
      ∃ k, (v.disk.write h bs).file n = some k ∧ (Seat.written b h).filling ≠ some k := by
    obtain ⟨hsealed, k, hfile, -⟩ := ht.listed hm
    exact ⟨hsealed, k, hfile, (Option.some_ne_none k).symm⟩
  obtain ⟨hcontent, n, hn, hk⟩ := hf.created hseat
  cases counts with
  | false =>
    exact ⟨objs, rest, false, ht.taken, ht.nodup, hlisted, ht.unsent, fun ha => absurd rfl ha,
      fun _ => rfl, (ht.write h bs).sum⟩
  | true =>
    have hnot : n ∉ rest := fun hm => by
      obtain ⟨-, k, hk', hne⟩ := ht.listed hm
      cases hk.symm.trans hk'
      exact hne hfill
    have hcopy : (textsIn v.disk activeSegmentName).Sublist (textsIn (v.disk.write h bs) n) := by
      have hfile : (v.disk.write h bs).file n = some h := hk
      rw [textsIn, textsIn, content_of_some hfile, bytes_write_self,
        (hy.created hseat).2.texts_append, hcontent, texts_complete]
      exact sublist_append_right _ _
    refine ⟨objs, n :: rest, false, ht.taken, nodup_cons.mpr ⟨hnot, ht.nodup⟩, ?_, ?_,
      fun ha => absurd rfl ha, fun _ => rfl, ?_⟩
    · intro n' hm
      rcases mem_cons.mp hm with rfl | hm
      · exact ⟨hn, h, hk, (Option.some_ne_none h).symm⟩
      · exact hlisted hm
    · intro n' i h' hm hd
      rcases mem_cons.mp hm with rfl | hm
      · exact hf.ne_of_sent hd hn hk hfill rfl
      · exact ht.unsent hm hd
    · exact ht.sum.trans (tallied_move (fun _ _ => texts_write _ _ _ _) hcopy)

/-- The line of an append is counted with the active segment. -/
theorem Tally.writeLine (ht : Tally v W objs rest counts) (hf : Filed v) (hy : Tidy v)
    (hseat : v.seat = .held (some h) b) (line : Text) {W' : List Text}
    (hW : W'.Perm (W ++ [line])) :
    Tally { v with disk := v.disk.write h line.encode } W' objs rest counts := by
  have hwritten := ht.write h line.encode
  have hopen : v.seat.active = some h := by
    rw [hseat]
    rfl
  obtain rfl : counts = true := ht.held (by rw [hopen]; nofun)
  have hfile := hf.active hopen
  have hfile' : (v.disk.write h line.encode).file activeSegmentName = some h := hfile
  have htext : texts '\n' line.encode = [line.text] := by
    have h := texts_encode [line]
    rwa [encode_cons, encode_nil, append_nil] at h
  have hactive : textsIn (v.disk.write h line.encode) activeSegmentName =
      textsIn v.disk activeSegmentName ++ [line.text] := by
    rw [textsIn, textsIn, content_of_some hfile', content_of_some hfile,
      bytes_write_self, (hy.opened hopen).2.texts_append, htext]
  refine ⟨ht.taken, ht.nodup, hwritten.listed, ht.unsent, ht.held, ht.copied, ?_⟩
  have hmap := hW.map Line.text
  rw [map_append] at hmap
  refine hmap.subperm.trans ?_
  change (W.map Line.text ++ [line.text]).Subperm
    (objs.flatMap (texts '\n') ++ rest.flatMap (textsIn (v.disk.write h line.encode)) ++
      textsIn (v.disk.write h line.encode) activeSegmentName)
  rw [hactive, ← append_assoc]
  refine ((subperm_append_right _).mpr ?_)
  refine ht.sum.trans (Sublist.subperm ?_)
  refine ((Sublist.refl _).append (Sublist.flatMap_right rest ?_)).append (.refl _)
  exact fun _ _ => texts_write _ _ _ _

/-- What was active is counted as sealed. -/
theorem Tally.sealActive (ht : Tally v W objs rest counts) (hf : Filed v)
    (hseat : v.seat = .synced h b) (hfile : v.disk.file activeSegmentName = some k)
    (hn : isSealed n = true) (hnew : n ∉ v.sealed.map Prod.fst) :
    Tally { v with
      disk := v.disk.rename k activeSegmentName n
      sealed := (n, k) :: v.sealed
      seat := .cleared (b + 1) } W objs (n :: rest) false := by
  obtain ⟨hnot, hunsent⟩ := ht.fresh hf hnew
  obtain rfl : counts = true := ht.held (by rw [hseat]; nofun)
  have hne {n' : Name} (hm : n' ∈ rest) : n' ≠ n ∧ n' ≠ activeSegmentName :=
    ⟨fun he => hnot (he ▸ hm), ne_active_of_sealed (ht.listed hm).1⟩
  refine ⟨ht.taken, nodup_cons.mpr ⟨hnot, ht.nodup⟩, ?_, ?_, fun ha => absurd rfl ha, nofun,
    ht.sum.trans (tallied_move ?_ ?_)⟩
  · intro n' hm
    rcases mem_cons.mp hm with rfl | hm
    · exact ⟨hn, k, file_rename_self, nofun⟩
    · obtain ⟨hsealed, k', hk', -⟩ := ht.listed hm
      exact ⟨hsealed, k', (file_rename_of_ne (hne hm).1 (hne hm).2).trans hk', nofun⟩
  · intro n' i h' hm
    rcases mem_cons.mp hm with rfl | hm
    · exact hunsent i h'
    · exact ht.unsent hm
  · intro n' hm
    rw [textsIn, textsIn, content_rename_of_ne (hne hm).1 (hne hm).2]
  · rw [textsIn, textsIn, content_rename_self hfile]

theorem Tally.clear (ht : Tally v W objs rest counts) (hseat : v.seat = .durable b) :
    Tally { v with disk := v.disk.remove activeSegmentName, seat := .cleared (b + 1) } W objs rest
      counts := by
  obtain rfl : counts = false := ht.copied (by rw [hseat]; rfl)
  have hne {n : Name} (hn : n ∈ rest) : n ≠ activeSegmentName :=
    ne_active_of_sealed (ht.listed hn).1
  have hcontent (n : Name) (hn : n ∈ rest) :
      (textsIn v.disk n).Sublist (textsIn (v.disk.remove activeSegmentName) n) := by
    rw [textsIn, textsIn, content_remove_of_ne (hne hn)]
  have hrefit := ht.refit (fun n hn => file_remove_of_ne (hne hn)) hcontent
    fun hc => absurd hc Bool.false_ne_true
  exact hrefit.sit rfl (fun ha => absurd rfl ha) fun hc => absurd hc Bool.false_ne_true

/-- What was sealed is counted with the sink. -/
theorem Tally.put (ht : Tally v W objs rest counts) (hf : Filed v) {key : String}
    (hdock : v.docks i = .opened n h) :
    Stocked { v with
      sink := v.sink ++ [(key, v.disk.bytes h)]
      docks := update v.docks i (.sent n h) } W := by
  by_cases hn : n ∈ rest
  · obtain ⟨hsealed, k, hk, -⟩ := ht.listed hn
    obtain rfl : k = h := hf.unique (hf.recorded hsealed hk) (hf.opened hdock)
    have hmem {n' : Name} (hm : n' ∈ rest.erase n) : n' ∈ rest := mem_of_mem_erase hm
    refine ⟨objs ++ [v.disk.bytes k], rest.erase n, counts, ?_, ht.nodup.erase n, fun hm =>
      ht.listed (hmem hm), ?_, ht.held, ht.copied, ht.sum.trans (Perm.subperm ?_)⟩
    · rw [map_append]
      exact ht.taken.append (.refl _)
    · intro n' i' h' hm hd
      by_cases hi : i' = i
      · subst hi
        cases (update_self ..).symm.trans hd
        exact ht.nodup.not_mem_erase hm
      · exact ht.unsent (hmem hm) ((update_of_ne hi ..).symm.trans hd)
    · have hperm : (rest.flatMap (textsIn v.disk)).Perm
          (textsIn v.disk n ++ (rest.erase n).flatMap (textsIn v.disk)) :=
        (perm_cons_erase hn).flatMap_right _
      have htexts : textsIn v.disk n = texts '\n' (v.disk.bytes k) := by
        rw [textsIn, content_of_some hk]
      rw [htexts] at hperm
      rw [tallied, tallied, flatMap_append]
      refine Perm.append_right _ ?_
      refine (hperm.append_left _).trans ?_
      rw [flatMap_singleton, append_assoc]
  · refine ⟨objs, rest, counts, ?_⟩
    have hsent := ht.dock (i := i) (p := .sent n h) (by
      rintro _ _ ⟨⟩
      exact hn)
    refine { hsent with taken := ?_ }
    rw [map_append]
    exact ht.taken.trans (sublist_append_left _ _)

theorem Tally.removeSealed (ht : Tally v W objs rest counts) (hdock : v.docks i = .sent n h)
    (hn : isSealed n = true) :
    Tally { v with disk := v.disk.remove n, docks := update v.docks i .idle } W objs rest
      counts := by
  have hne {n' : Name} (hm : n' ∈ rest) : n' ≠ n := fun he => ht.unsent (he ▸ hm) hdock
  have hcontent {n' : Name} (hne : n' ≠ n) :
      (textsIn v.disk n').Sublist (textsIn (v.disk.remove n) n') := by
    rw [textsIn, textsIn, content_remove_of_ne hne]
  refine (ht.refit ?_ ?_ ?_).dock (by rintro n' k ⟨⟩)
  · exact fun n' hm => file_remove_of_ne (hne hm)
  · exact fun n' hm => hcontent (hne hm)
  · exact fun _ => hcontent (ne_active_of_sealed hn).symm

/-- Every call keeps what was written counted. -/
theorem Stocked.moves {luck : Luck} (hs : Stocked v W) (hf : Filed v) (hy : Tidy v)
    (hw : v.disk.Wf) (hm : Moves j luck i holder failed v c wrote wrote' v')
    (hnew : ∀ n ∈ c.target, isSealed n = true → n ∉ v.sealed.map Prod.fst) :
    (wrote' = wrote ∧ Stocked v' W) ∨ (wrote = false ∧ wrote' = true ∧ ∃ line, j.line = some line ∧
        ∀ W' : List Text, W'.Perm (W ++ [line]) → Stocked v' W') := by
  obtain ⟨objs, rest, counts, ht⟩ := hs
  cases hm with
  | idle => exact .inl ⟨rfl, _, _, _, ht⟩
  | leave rests _ =>
    refine .inl ⟨rfl, _, _, _, ht.sit rfl (fun ha => ?_) nofun⟩
    rw [← rests.1]
    exact ha
  | shut _ closed => exact .inl ⟨rfl, _, _, _, ht.sit rfl (fun ha => absurd closed ha) nofun⟩
  | count _ _ | absent _ _ | found _ _ | readOrphan _ _ =>
    exact .inl ⟨rfl, _, _, _, ht.sit rfl (fun ha => absurd rfl ha) nofun⟩
  | createSegment _ named =>
    exact .inl ⟨rfl, _, _, _, ht.createSegment hf hw named (hnew _ rfl named)⟩
  | openActive seat => exact .inl ⟨rfl, _, _, _, ht.openActive hw (hy.cleared seat)⟩
  | fill seat _ => exact .inl ⟨rfl, ht.fill hf hy seat⟩
  | writeLine seat text =>
    refine .inr ⟨rfl, rfl, _, text, fun W' hW => ⟨_, _, _, ht.writeLine hf hy seat _ hW⟩⟩
  | short _ => exact .inl ⟨rfl, _, _, _, ht.write _ _⟩
  | syncActive seat =>
    refine .inl ⟨rfl, _, _, _, (ht.sync _).sit rfl (fun _ => ?_) nofun⟩
    rw [seat]
    nofun
  | syncSegment seat =>
    refine .inl ⟨rfl, _, _, _, (ht.sync _).sit rfl (fun ha => absurd rfl ha) fun _ => ?_⟩
    rw [seat]
    rfl
  | syncClosed => exact .inl ⟨rfl, _, _, _, ht.sync _⟩
  | sealActive seat file named =>
    exact .inl ⟨rfl, _, _, _, ht.sealActive hf seat file named (hnew _ rfl named)⟩
  | clear seat => exact .inl ⟨rfl, _, _, _, ht.clear seat⟩
  | openSealed _ _ _ => exact .inl ⟨rfl, _, _, _, ht.dock nofun⟩
  | put dock _ => exact .inl ⟨rfl, ht.put hf dock⟩
  | removeSealed dock named => exact .inl ⟨rfl, _, _, _, ht.removeSealed dock named⟩
  | keepSealed _ _ | undock _ => exact .inl ⟨rfl, _, _, _, ht.dock nofun⟩

end

/-! ## Runs -/

/-- What a keeping run keeps. -/
structure Safe (w : World) : Prop where
  base : Base w
  tidy : Tidy (view w)
  filed : Filed (view w)
  stocked : Stocked (view w) (written w)

theorem writtenBy_range (js : List Job) (φ : Nat → Phase) :
    writtenBy js φ = (range js.length).flatMap fun i =>
      (if (φ i).wrote then js[i]?.bind Job.line else none).toList := by
  induction js using reverseRecOn with
  | nil => rfl
  | append_singleton js j ih =>
    rw [writtenBy_concat, ih, length_append, length_singleton, range_succ,
      flatMap_append, flatMap_singleton, getElem?_concat_length]
    refine congrArg₂ _ (flatMap_congr fun i hi => ?_) rfl
    rw [getElem?_append_left (mem_range.mp hi)]

/-- The line of an operation is written at its place among the others. -/
theorem writtenBy_perm {i : Nat} {line : Text} (hi : js[i]? = some j) (hline : j.line = some line)
    (hbefore : (φ i).wrote = false) (hafter : ψ.wrote = true) :
    (writtenBy js (update φ i ψ)).Perm (writtenBy js φ ++ [line]) := by
  rw [writtenBy_range, writtenBy_range]
  refine (flatMap_perm_of_update (i := i) ?_ ?_ nodup_range ?_).trans perm_append_comm
  · intro k hk
    rw [update_of_ne hk]
  · rw [update_self, hafter, hbefore, hi]
    simp [hline]
  · exact mem_range.mpr (List.getElem?_eq_some_iff.mp hi).1

theorem writtenBy_same {i : Nat} (hsame : ψ.wrote = (φ i).wrote) :
    writtenBy js (update φ i ψ) = writtenBy js φ := by
  rw [writtenBy_range, writtenBy_range]
  refine flatMap_congr fun k _ => ?_
  by_cases hk : k = i
  · subst hk
    rw [update_self, hsame]
  · rw [update_of_ne hk]

theorem filterMap_sublist {α β : Type} {f g : α → Option β} {l : List α}
    (h : ∀ a ∈ l, ∀ b, f a = some b → g a = some b) :
    (l.filterMap f).Sublist (l.filterMap g) := by
  induction l with
  | nil => exact .refl _
  | cons a l ih =>
    have hrest := ih fun a ha => h a (mem_cons_of_mem _ ha)
    cases hf : f a with
    | none =>
      rw [filterMap_cons_none hf]
      exact hrest.trans ((sublist_cons_self a l).filterMap g)
    | some b =>
      rw [filterMap_cons_some hf, filterMap_cons_some (h a mem_cons_self b hf)]
      exact hrest.cons_cons b

section

variable {w w' : World} {e : Event} {i : Nat} {luck : Luck}

/-- An append that returned has written its line. -/
theorem appended_sublist (hb : Base w) : (appended w).Sublist (written w) := by
  rw [appended_zipIdx, written, writtenBy, jobs, zipIdx_map, filterMap_map]
  refine filterMap_sublist ?_
  rintro ⟨⟨⟨wal, j⟩, q⟩, i⟩ hp line hline
  have hi : w.tasks[i]? = some ((wal, j), q) := mem_zipIdx_iff_getElem?.mp hp
  cases q with
  | ret a =>
    obtain ⟨out, hout, hends⟩ := hb.ends hi rfl
    cases out with
    | error e => cases hout
    | ok a =>
      have hwrote : (phase w i).wrote = j.line.isSome := hends.1
      change (if (phase w i).wrote then j.line else none) = some line
      change j.line = some line at hline
      rw [hwrote, hline]
      rfl
  | fail _ | call _ _ => cases hline

theorem Base.writes (hb : Base w) (hc : (phase w i).Permits j c) : Writes (view w).seat c := by
  cases c with
  | write h bs =>
    obtain ⟨b, line, hp, -⟩ | ⟨b, hp⟩ := hc
    · exact .inl ⟨b, seatOf_inside hb.exclusive hp⟩
    · exact .inr ⟨b, seatOf_inside hb.exclusive hp⟩
  | _ => trivial

/-- A call keeps a world safe. -/
theorem Safe.act (hs : Safe w) (hc : Keeping w (.act i luck))
    (ha : w.act (serve i luck) i = some w') : Safe w' := by
  obtain ⟨hb', -⟩ := turn_of_act hs.base ha
  obtain ⟨j, c, rest, r, hi, hpermits, -, htasks, -, hphase, hmoves, -⟩ := moves_of_act hs.base ha
  obtain ⟨hkept, hnew, hup⟩ := hc c (nextCall_eq hi)
  have hjob : (jobs w)[i]? = some j.2 := by
    rw [jobs, getElem?_map, hi]
    rfl
  have hwritten : written w' = writtenBy (jobs w) (update (phase w) i ((phase w i).next c r)) := by
    rw [written, jobs_of_set hi htasks, hphase]
  refine ⟨hb', hs.tidy.moves hs.base.wf hmoves hkept,
    hs.filed.moves hs.base.wf hmoves hnew hup (hs.base.writes hpermits), ?_⟩
  rw [hwritten]
  rcases hs.stocked.moves hs.filed hs.tidy hs.base.wf hmoves hnew with
    ⟨hsame, hstocked⟩ | ⟨hbefore, hafter, line, hline, hstocked⟩
  · rw [writtenBy_same hsame]
    exact hstocked
  · exact hstocked _ (writtenBy_perm hjob hline hbefore hafter)

theorem safe_of_step (hs : Safe w) (hc : Keeping w e) (hstep : machine.step w e = some w') :
    Safe w' := by
  obtain ⟨hb', ht⟩ := turn_of_step hs.base hstep
  have hf := hs.filed
  obtain ⟨objs, rest, counts, htally⟩ := hs.stocked
  cases ht with
  | act _ _ _ _ _ => exact hs.act hc hstep
  | spawn tasks phases seen =>
    refine ⟨hb', ?_, ?_, ?_⟩
    · rw [seen]
      exact { hs.tidy with }
    · rw [seen]
      exact { hf with }
    · rw [seen, written_spawn hs.base tasks phases]
      exact ⟨objs, rest, counts, { htally with }⟩
  | crash tasks seen =>
    have hnone : written w' = [] := by
      rw [written, jobs, tasks]
      rfl
    refine ⟨hb', ?_, ?_, ?_⟩
    · rw [seen]
      exact tidy_of_free rfl
    · rw [seen]
      refine ⟨hf.recorded, hf.named, hf.below, ?_, ?_, ?_, ?_, ?_⟩
      · rintro i n h ⟨⟩
      · rintro i n h ⟨⟩
      · rintro b raw ⟨⟩
      · rintro b h content ⟨⟩
      · rintro h ⟨⟩
    · rw [hnone]
      rw [seen]
      exact ⟨[], [], false, nil_sublist _, nodup_nil,
        fun hn => absurd hn not_mem_nil, fun hn => absurd hn not_mem_nil,
        fun ha => absurd rfl ha, fun hc => absurd hc Bool.false_ne_true, nil_subperm⟩
  | reopen quiet tasks phases seen =>
    have hwritten : written w' = written w := by rw [written, written, jobs, jobs, tasks, phases]
    refine ⟨hb', ?_, ?_, ?_⟩
    · rw [seen]
      exact tidy_of_free rfl
    · rw [seen]
      exact hf.sit rfl (by rintro b raw ⟨⟩) (by rintro f ⟨⟩)
    · rw [seen, hwritten]
      exact ⟨objs, rest, counts, htally.sit rfl (fun ha => absurd rfl ha)
        fun hc => absurd hc Bool.false_ne_true⟩

theorem safe_start (wal : Wal) : Safe (start wal) where
  base := base_start wal
  tidy := tidy_of_free rfl
  filed := by
    refine ⟨?_, nodup_nil, nofun, nofun, nofun, nofun, nofun, nofun⟩
    intro n k _ hk
    cases hk
  stocked := ⟨[], [], false, .refl _, nodup_nil, nofun, nofun, fun ha => absurd rfl ha, nofun,
    .refl _⟩

/-- A safe world has lost no line. -/
theorem Safe.retained (hs : Safe w) : Retained w := by
  obtain ⟨objs, rest, counts, ht⟩ := hs.stocked
  refine ((appended_sublist hs.base).map Line.text).subperm.trans (ht.sum.trans ?_)
  refine (Subperm.append ?_ ?_).append ?_
  · have hsink : sinkTexts w.shared.sink =
        (w.shared.sink.map Prod.snd).flatMap (texts '\n') := by
      rw [sinkTexts, flatMap_map]
    rw [hsink]
    exact (ht.taken.flatMap _).subperm
  · have hsub : rest.Subperm (sealedNames w.shared.disk) := by
      refine ht.nodup.subperm fun n hn => ?_
      obtain ⟨hsealed, k, hk, -⟩ := ht.listed hn
      exact mem_sealedNames.mpr ⟨hsealed, k, hk⟩
    obtain ⟨l, hperm, hl⟩ := hsub
    exact (hperm.symm.flatMap_right _).subperm.trans (hl.flatMap _).subperm
  · cases counts with
    | true => exact .refl _
    | false => exact nil_subperm

theorem lines_retained (wal : Wal) (es : List Event) (w : World)
    (hc : machine.Along Keeping (start wal) es) (hr : machine.run (start wal) es = some w) :
    Retained w :=
  (Machine.run_invariant (fun _ _ _ hs hc hstep => safe_of_step hs hc hstep) (safe_start wal)
    hc hr : Safe w).retained

end

end Beats.Publish
