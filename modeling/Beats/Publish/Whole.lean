import Beats.Publish.World

/-!
# Sealed segments are whole

A sealed segment is to have complete lines only, and once it has content it is not to be written
again, wherever the process stops.

Recovery writes to the name of the sealed segment before the content is durable, so a crash in
between leaves a torn segment (`torn_recovery`), and so does a write that fails halfway.  Along
every run that has neither, and in which no two segments get one name, the sealed segments are whole
(`sealedSegments_whole`).  The invariant is `Sound`.
-/

namespace Beats.Publish

open Lib List Disk Machine

/-! ## Contents -/

section

variable {O O' : List Text} {bs : List Char}

/-- Complete lines, all of which were offered. -/
def Whole (O : List Text) (bs : List Char) : Prop :=
  ∃ ls : List Text, ls ⊆ O ∧ bs = encode ls

/-- Offered lines, and a part of one more. -/
def Cut (O : List Text) (bs : List Char) : Prop :=
  ∃ ls : List Text, ls ⊆ O ∧ Torn ls bs

theorem whole_nil : Whole O [] := ⟨[], nil_subset _, rfl⟩

theorem Whole.mono (h : Whole O bs) (hO : O ⊆ O') : Whole O' bs := by
  obtain ⟨ls, hls, rfl⟩ := h
  exact ⟨ls, Subset.trans hls hO, rfl⟩

theorem Whole.append (h : Whole O bs) {line : Text} (hl : line ∈ O) :
    Whole O (bs ++ line.encode) := by
  obtain ⟨ls, hls, rfl⟩ := h
  refine ⟨ls ++ [line], append_subset.mpr ⟨hls, ?_⟩, by simp⟩
  exact cons_subset.mpr ⟨hl, nil_subset _⟩

theorem Whole.complete_eq (h : Whole O bs) : complete '\n' bs = bs := by
  obtain ⟨ls, -, rfl⟩ := h
  exact complete_encode ls

theorem Whole.cut (h : Whole O bs) : Cut O bs := by
  obtain ⟨ls, hls, rfl⟩ := h
  exact ⟨ls, hls, torn_encode ls⟩

theorem Cut.mono (h : Cut O bs) (hO : O ⊆ O') : Cut O' bs := by
  obtain ⟨ls, hls, ht⟩ := h
  exact ⟨ls, Subset.trans hls hO, ht⟩

theorem Cut.take (h : Cut O bs) (n : Nat) : Cut O (bs.take n) := by
  obtain ⟨ls, hls, ht⟩ := h
  obtain ⟨ls', hpre, ht'⟩ := ht.take n
  exact ⟨ls', fun l hl => hls (hpre.subset hl), ht'⟩

theorem Cut.complete (h : Cut O bs) : Whole O (complete '\n' bs) := by
  obtain ⟨ls, hls, ht⟩ := h
  exact ⟨ls, hls, ht.complete_eq⟩

end

/-! ## The condition and the property -/

/-- A write that fails has written nothing, no segment gets the name of one that is there, and the
process does not stop while a sealed segment is not durable. -/
def Careful (w : World) : Event → Prop
  | .act i luck =>
    (luck.err = none ∨ luck.kept = 0) ∧
      ∀ c ∈ nextCall w i, ∀ n ∈ c.target, isSealed n = true → w.shared.disk.file n = none
  | .crash _ =>
    ∀ n ∈ w.shared.disk.names, isSealed n = true → ∀ k ∈ w.shared.disk.file n,
      (w.shared.disk.bytes k).length ≤ w.shared.disk.synced k
  | _ => True

instance (w : World) : (e : Event) → Decidable (Careful w e)
  | .spawn _ | .act _ _ | .crash _ | .reopen _ => by
    dsimp only [Careful]
    infer_instance

/-- Every sealed segment in the directory, and everything the sink has taken, has complete lines
only. -/
structure Intact (w : World) : Prop where
  sealed : ∀ {n : Name} {k : Nat}, isSealed n = true → w.shared.disk.file n = some k →
    Whole w.shared.offered (w.shared.disk.bytes k)
  shipped : ∀ p ∈ w.shared.sink, Whole w.shared.offered p.2

/-- Every sealed segment is left as it is or removed, but for one that was just created by a
recovery and is empty. -/
def Kept (w w' : World) : Prop :=
  ∀ {n : Name} {k : Nat}, isSealed n = true → w.shared.disk.file n = some k →
    w'.shared.disk.file n = none ∨
      w'.shared.disk.file n = some k ∧
        (w'.shared.disk.bytes k = w.shared.disk.bytes k ∨
          w.shared.disk.bytes k = [] ∧
            ∃ i b content, (phase w i).point = .inside (.created b k content))

/-! ## The invariant -/

/-- The file is sealed, or being shipped, or being recovered. -/
def Live (v : View) (k : Nat) : Prop :=
  (∃ n, isSealed n = true ∧ v.disk.file n = some k) ∨ (∃ i n, v.docks i = .opened n k) ∨
    ∃ b content, v.seat = .created b k content

section

variable {v : View} {t : Seat} {n : Name} {l : List (Name × Nat)} {k h b i : Nat}

/-- Where no recovery creates a segment, a change of the seat brings no live file. -/
theorem Live.of_sit (hk : Live { v with seat := t } k) (ht : ∀ b f bs, t ≠ .created b f bs) :
    Live v k := by
  rcases hk with hk | hk | ⟨b, content, hk⟩
  · exact .inl hk
  · exact .inr (.inl hk)
  · exact absurd hk (ht b k content)

theorem Live.of_dock {d : Dock} (hk : Live { v with docks := Function.update v.docks i d } k)
    (hd : ∀ n k, d = .opened n k → Live v k) : Live v k := by
  rcases hk with hk | ⟨i', n, hk⟩ | hk
  · exact .inl hk
  · by_cases hi : i' = i
    · subst hi
      exact hd n k ((Function.update_self ..).symm.trans hk)
    · exact .inr (.inl ⟨i', n, (Function.update_of_ne hi ..).symm.trans hk⟩)
  · exact .inr (.inr hk)

theorem Live.of_remove (hk : Live { v with disk := v.disk.remove n } k) : Live v k := by
  rcases hk with ⟨n', hn', hk⟩ | hk | hk
  · exact .inl ⟨n', hn', file_of_remove hk⟩
  · exact .inr (.inl hk)
  · exact .inr (.inr hk)

theorem Live.of_createSegment {bs : List Char}
    (hk : Live { v with
      disk := (v.disk.create n).2, sealed := l, seat := .created b (v.disk.create n).1 bs } k) :
    k = (v.disk.create n).1 ∨ Live v k := by
  rcases hk with ⟨n', hn', hk⟩ | hk | ⟨b', content, hk⟩
  · by_cases hnn : n' = n
    · subst hnn
      exact .inl (Option.some.inj (hk.symm.trans file_create_self))
    · exact .inr (.inl ⟨n', hn', (file_create_of_ne hnn).symm.trans hk⟩)
  · exact .inr (.inr (.inl hk))
  · cases hk
    exact .inl rfl

theorem Live.of_openActive
    (hk : Live { v with disk := (v.disk.create activeSegmentName).2, seat := t } k)
    (ht : ∀ b f bs, t ≠ .created b f bs) : Live v k := by
  rcases hk with ⟨n', hn', hk⟩ | hk | ⟨b', content, hk⟩
  · exact .inl ⟨n', hn', (file_create_of_ne (ne_active_of_sealed hn')).symm.trans hk⟩
  · exact .inr (.inl hk)
  · exact absurd hk (ht b' k content)

theorem Live.of_sealActive (hk : Live { v with
      disk := v.disk.rename h activeSegmentName n, sealed := l, seat := t } k)
    (ht : ∀ b f bs, t ≠ .created b f bs) : k = h ∨ Live v k := by
  rcases hk with ⟨n', hn', hk⟩ | hk | ⟨b', content, hk⟩
  · rcases file_of_rename hk with ⟨-, rfl⟩ | ⟨-, -, hk⟩
    · exact .inl rfl
    · exact .inr (.inl ⟨n', hn', hk⟩)
  · exact .inr (.inr (.inl hk))
  · exact absurd hk (ht b' k content)

end

/-- What a careful run keeps. -/
structure Sound (v : View) : Prop where
  live : ∀ {k}, Live v k → Whole v.offered (v.disk.bytes k) ∧
    v.disk.file activeSegmentName ≠ some k ∧ k < v.disk.next
  active : ∀ {k}, v.disk.file activeSegmentName = some k → Cut v.offered (v.disk.bytes k)
  opened : ∀ {h}, v.seat.active = some h →
    v.disk.file activeSegmentName = some h ∧ Whole v.offered (v.disk.bytes h)
  orphan : ∀ {b raw}, v.seat = .orphan b raw → Cut v.offered raw
  created : ∀ {b h content}, v.seat = .created b h content →
    Whole v.offered content ∧ v.disk.bytes h = []
  sink : ∀ p ∈ v.sink, Whole v.offered p.2

section

variable {v : View} {t : Seat} {n : Name} {k h b i : Nat} {bs : List Char}

theorem Sound.sit (hs : Sound v) (ha : ∀ f, t.active = some f → v.seat.active = some f)
    (ho : ∀ b raw, t = .orphan b raw → Cut v.offered raw) (hc : ∀ b f bs, t ≠ .created b f bs) :
    Sound { v with seat := t } :=
  { hs with
    live hk := hs.live (Live.of_sit hk hc)
    opened hf := hs.opened (ha _ hf)
    orphan hr := ho _ _ hr
    created hc' := absurd hc' (hc _ _ _) }

theorem Sound.sync (hs : Sound v) (k : Nat) : Sound { v with disk := v.disk.sync k } :=
  { hs with }

/-- What is shipped changes.  A file that is opened is a sealed one. -/
theorem Sound.dock (hs : Sound v) {d : Dock} (hd : ∀ n k, d = .opened n k → Live v k) :
    Sound { v with docks := Function.update v.docks i d } :=
  { hs with
    live hk := hs.live (Live.of_dock hk hd) }

theorem Sound.remove (hs : Sound v) (hn : n ≠ activeSegmentName ∨ v.seat.active = none) :
    Sound { v with disk := v.disk.remove n } :=
  { hs with
    live hk := by
      obtain ⟨hw, ha, hlt⟩ := hs.live (Live.of_remove hk)
      exact ⟨hw, fun hf => ha (file_of_remove hf), hlt⟩
    active hk := hs.active (file_of_remove hk)
    opened := by
      intro f hf
      obtain ⟨hfile, hw⟩ := hs.opened hf
      rcases hn with hn | hn
      · exact ⟨(file_remove_of_ne (Ne.symm hn)).trans hfile, hw⟩
      · exact absurd (hn.symm.trans hf) nofun }

theorem Sound.createSegment (hs : Sound v) (hw : v.disk.Wf) {raw : List Char}
    (hseat : v.seat = .orphan b raw) (hn : isSealed n = true) (hfree : v.disk.file n = none) :
    Sound { v with
      disk := (v.disk.create n).2
      sealed := (n, (v.disk.create n).1) :: v.sealed
      seat := .created b (v.disk.create n).1 (complete '\n' raw) } := by
  have hk : (v.disk.create n).1 = v.disk.next := by rw [create_of_none hfree]
  have hbytes {k'} (hlt : k' < v.disk.next) : (v.disk.create n).2.bytes k' = v.disk.bytes k' :=
    bytes_create_of_ne (by rw [hk]; exact Nat.ne_of_lt hlt)
  have hactive : (v.disk.create n).2.file activeSegmentName = v.disk.file activeSegmentName :=
    file_create_of_ne (ne_active_of_sealed hn).symm
  -- The new file is empty, and its number is that of no other.
  have hnew : Whole v.offered ((v.disk.create n).2.bytes (v.disk.create n).1) ∧
      (v.disk.create n).2.file activeSegmentName ≠ some (v.disk.create n).1 ∧
      (v.disk.create n).1 < (v.disk.create n).2.next := by
    refine ⟨by rw [bytes_create_self]; exact whole_nil, ?_, hw.create_lt⟩
    rw [hactive, hk]
    exact fun hf => Nat.lt_irrefl _ (hw.below hf)
  have hold {k'} (hlive : Live v k') : Whole v.offered ((v.disk.create n).2.bytes k') ∧
      (v.disk.create n).2.file activeSegmentName ≠ some k' ∧
      k' < (v.disk.create n).2.next := by
    obtain ⟨hwh, ha, hlt⟩ := hs.live hlive
    exact ⟨by rwa [hbytes hlt], by rwa [hactive], by omega⟩
  constructor
  · intro k' hk'
    rcases Live.of_createSegment hk' with rfl | hlive
    · exact hnew
    · exact hold hlive
  · intro k' hk'
    have hk' := hactive.symm.trans hk'
    rw [hbytes (hw.below hk')]
    exact hs.active hk'
  · nofun
  · nofun
  · intro b' h' content hc
    cases hc
    exact ⟨(hs.orphan hseat).complete, bytes_create_self⟩
  · exact hs.sink

theorem Sound.openActive (hs : Sound v) :
    Sound { v with
      disk := (v.disk.create activeSegmentName).2
      seat := .held (some (v.disk.create activeSegmentName).1) b } := by
  constructor
  · intro k' hk'
    obtain ⟨hwh, ha, hlt⟩ := hs.live (Live.of_openActive hk' nofun)
    have hne := ne_create ha hlt
    refine ⟨?_, ?_, Nat.lt_of_lt_of_le hlt next_le_create⟩
    · rwa [bytes_create_of_ne hne]
    · rw [file_create_self, Ne, Option.some.injEq]
      exact hne.symm
  · intro k' hk'
    cases file_create_self.symm.trans hk'
    rw [bytes_create_self]
    exact whole_nil.cut
  · intro f hf
    cases hf
    refine ⟨file_create_self, ?_⟩
    rw [bytes_create_self]
    exact whole_nil
  · nofun
  · nofun
  · exact hs.sink

/-- The recovered segment is filled with what the orphan has of complete lines. -/
theorem Sound.fill (hs : Sound v) (hseat : v.seat = .created b h bs) :
    Sound { v with disk := v.disk.write h bs, seat := .written b h } := by
  obtain ⟨hbs, hempty⟩ := hs.created hseat
  obtain ⟨-, ha, -⟩ := hs.live (.inr (.inr ⟨b, bs, hseat⟩))
  have hwritten : (v.disk.write h bs).bytes h = bs := by rw [bytes_write_self, hempty, nil_append]
  constructor
  · intro k' hk'
    have hlive : Live v k' := Live.of_sit (v := { v with disk := v.disk.write h bs }) hk' nofun
    obtain ⟨hw, hrest⟩ := hs.live hlive
    refine ⟨?_, hrest⟩
    by_cases hk : k' = h
    · subst hk
      rwa [hwritten]
    · rwa [bytes_write_of_ne hk]
  · intro k' hk'
    have hk : k' ≠ h := by
      rintro rfl
      exact ha hk'
    rw [bytes_write_of_ne hk]
    exact hs.active hk'
  · nofun
  · nofun
  · nofun
  · exact hs.sink

theorem Sound.writeLine (hs : Sound v) (hseat : v.seat = .held (some h) b) {line : Text}
    (hline : line ∈ v.offered) : Sound { v with disk := v.disk.write h line.encode } := by
  obtain ⟨hfile, hw⟩ := hs.opened (by rw [hseat]; rfl)
  have hwritten : Whole v.offered ((v.disk.write h line.encode).bytes h) := by
    rw [bytes_write_self]
    exact hw.append hline
  constructor
  · intro k' hlive
    obtain ⟨hw', ha, hlt⟩ := hs.live hlive
    have hk : k' ≠ h := by
      rintro rfl
      exact ha hfile
    refine ⟨?_, ha, hlt⟩
    rwa [bytes_write_of_ne hk]
  · intro k' hk'
    cases hfile.symm.trans hk'
    exact hwritten.cut
  · intro f hf
    cases (hs.opened hf).1.symm.trans hfile
    exact ⟨hfile, hwritten⟩
  · exact hs.orphan
  · intro b' h' content hc
    cases hseat.symm.trans hc
  · exact hs.sink

theorem Sound.sealActive (hs : Sound v) (hw : v.disk.Wf) (hseat : v.seat = .synced h b)
    (hfile : v.disk.file activeSegmentName = some k) (hn : isSealed n = true) :
    Sound { v with
      disk := v.disk.rename k activeSegmentName n
      sealed := (n, k) :: v.sealed
      seat := .cleared (b + 1) } := by
  obtain ⟨hactive, hwhole⟩ := hs.opened (by rw [hseat]; rfl)
  cases hactive.symm.trans hfile
  have hgone : (v.disk.rename k activeSegmentName n).file activeSegmentName = none :=
    file_rename_src (ne_active_of_sealed hn).symm
  constructor
  · intro k' hk'
    have hnone : (v.disk.rename k activeSegmentName n).file activeSegmentName ≠ some k' := by
      rw [hgone]
      nofun
    rcases Live.of_sealActive hk' nofun with rfl | hlive
    · exact ⟨hwhole, hnone, hw.below hfile⟩
    · obtain ⟨hwh, -, hlt⟩ := hs.live hlive
      exact ⟨hwh, hnone, hlt⟩
  · intro k' hk'
    exact absurd (hgone.symm.trans hk') nofun
  · nofun
  · nofun
  · nofun
  · exact hs.sink

theorem Sound.put (hs : Sound v) {key : String} (hdock : v.docks i = .opened n h) :
    Sound { v with
      sink := v.sink ++ [(key, v.disk.bytes h)]
      docks := Function.update v.docks i (.sent n h) } := by
  have hdocked := hs.dock (i := i) (d := .sent n h) nofun
  refine { hdocked with sink := ?_ }
  intro p hp
  rcases mem_append.mp hp with hp | hp
  · exact hs.sink p hp
  · rw [mem_singleton.mp hp]
    exact (hs.live (.inr (.inl ⟨i, n, hdock⟩))).1

/-! ## Steps -/

variable {v' : View} {j : Job} {luck : Luck} {c : Call} {wrote wrote' failed : Bool}
  {holder : Option Nat}

theorem Sound.moves (hs : Sound v) (hw : v.disk.Wf)
    (hm : Moves j luck i holder failed v c wrote wrote' v')
    (hkept : luck.err = none ∨ luck.kept = 0)
    (hfree : ∀ n ∈ c.target, isSealed n = true → v.disk.file n = none)
    (hline : ∀ line, j.line = some line → line ∈ v.offered) : Sound v' := by
  cases hm with
  | idle => exact hs
  | leave rests _ => exact hs.sit (fun f hf => rests.1.symm.trans hf) nofun nofun
  | shut _ closed => exact hs.sit (fun f hf => absurd (closed.symm.trans hf) nofun) nofun nofun
  | count _ _ | absent _ _ | found _ _ => exact hs.sit nofun nofun nofun
  | readOrphan _ file =>
    refine hs.sit nofun ?_ nofun
    rintro b raw ⟨⟩
    exact hs.active file
  | createSegment seat named => exact hs.createSegment hw seat named (hfree _ rfl named)
  | openActive _ => exact hs.openActive
  | fill seat _ => exact hs.fill seat
  | writeLine seat text => exact hs.writeLine seat (hline _ text)
  | short err =>
    rw [hkept.resolve_left err, take_zero, write_nil]
    exact hs
  | syncActive seat =>
    refine (hs.sync _).sit ?_ nofun nofun
    rw [seat]
    exact fun f hf => hf
  | syncSegment _ => exact (hs.sync _).sit nofun nofun nofun
  | syncClosed => exact hs.sync _
  | sealActive seat file named =>
    exact hs.sealActive hw seat file named
  | clear seat => exact (hs.remove (.inr (by rw [seat]; rfl))).sit nofun nofun nofun
  | openSealed _ named file =>
    refine hs.dock ?_
    rintro n k ⟨⟩
    exact .inl ⟨_, named, file⟩
  | put dock _ => exact hs.put dock
  | removeSealed _ named => exact (hs.remove (.inl (ne_active_of_sealed named))).dock nofun
  | keepSealed _ _ | undock _ => exact hs.dock nofun

theorem kept_of_moves (hs : Sound v) (hw : v.disk.Wf)
    (hm : Moves j luck i holder failed v c wrote wrote' v')
    (hkept : luck.err = none ∨ luck.kept = 0)
    (hfree : ∀ n ∈ c.target, isSealed n = true → v.disk.file n = none) (hn : isSealed n = true)
    (hk : v.disk.file n = some k) :
    v'.disk.file n = none ∨ v'.disk.file n = some k ∧ (v'.disk.bytes k = v.disk.bytes k ∨
          v.disk.bytes k = [] ∧ ∃ b content, v.seat = .created b k content) := by
  have hlive := hs.live (.inl ⟨n, hn, hk⟩)
  have hother {n' : Name} (ht : n' ∈ c.target) (hn' : isSealed n' = true) : n ≠ n' := by
    rintro rfl
    exact absurd ((hfree _ ht hn').symm.trans hk) nofun
  have hsame : v.disk.file n = some k ∧ (v.disk.bytes k = v.disk.bytes k ∨
      v.disk.bytes k = [] ∧ ∃ b content, v.seat = .created b k content) := ⟨hk, .inl rfl⟩
  cases hm with
  | createSegment seat named =>
    have hne := hother rfl named
    exact .inr ⟨(file_create_of_ne hne).trans hk, .inl (bytes_create_of_ne (hw.create_ne hne hk))⟩
  | openActive _ =>
    have hne := ne_active_of_sealed hn
    exact .inr ⟨(file_create_of_ne hne).trans hk, .inl (bytes_create_of_ne (hw.create_ne hne hk))⟩
  | @fill _ b h bs seat _ =>
    refine .inr ⟨hk, ?_⟩
    by_cases hkh : k = h
    · subst hkh
      exact .inr ⟨(hs.created seat).2, b, bs, seat⟩
    · exact .inl (bytes_write_of_ne hkh)
  | writeLine seat _ =>
    refine .inr ⟨hk, .inl (bytes_write_of_ne ?_)⟩
    rintro rfl
    exact hlive.2.1 (hs.opened (by rw [seat]; rfl)).1
  | short err =>
    rw [hkept.resolve_left err, take_zero, write_nil]
    exact .inr hsame
  | sealActive _ file named =>
    have hne := hother rfl named
    exact .inr ⟨(file_rename_of_ne hne (ne_active_of_sealed hn)).trans hk, .inl rfl⟩
  | clear _ =>
    exact .inr ⟨(file_remove_of_ne (ne_active_of_sealed hn)).trans hk, .inl rfl⟩
  | @removeSealed _ n' h _ _ =>
    by_cases hnn : n = n'
    · subst hnn
      exact .inl file_remove_self
    · exact .inr ⟨(file_remove_of_ne hnn).trans hk, .inl rfl⟩
  | _ => exact .inr hsame

theorem Sound.crash (hs : Sound v) {keep : Nat → Nat}
    (hsync : ∀ n ∈ v.disk.names, isSealed n = true → ∀ k ∈ v.disk.file n,
      (v.disk.bytes k).length ≤ v.disk.synced k) :
    Sound { v with
      disk := v.disk.crash keep
      seat := .held none 0
      docks := fun _ => .idle } where
  live := by
    rintro k (⟨n, hn, hk⟩ | ⟨i, n, hk⟩ | ⟨b, content, hk⟩)
    · obtain ⟨hw, hrest⟩ := hs.live (.inl ⟨n, hn, hk⟩)
      refine ⟨?_, hrest⟩
      rwa [bytes_crash_of_synced (hsync n (mem_names.mpr ⟨k, hk⟩) hn k hk)]
    · cases hk
    · cases hk
  active hk := (hs.active hk).take _
  opened := nofun
  orphan := nofun
  created := nofun
  sink := hs.sink

theorem Sound.offer (hs : Sound v) (new : List Text) :
    Sound { v with offered := new ++ v.offered } where
  live hk := by
    obtain ⟨hw, hrest⟩ := hs.live hk
    exact ⟨hw.mono (subset_append_right _ _), hrest⟩
  active hk := (hs.active hk).mono (subset_append_right _ _)
  opened hf := ⟨(hs.opened hf).1, (hs.opened hf).2.mono (subset_append_right _ _)⟩
  orphan hr := (hs.orphan hr).mono (subset_append_right _ _)
  created hc := ⟨(hs.created hc).1.mono (subset_append_right _ _), (hs.created hc).2⟩
  sink p hp := (hs.sink p hp).mono (subset_append_right _ _)

end

section

variable {w w' : World} {e : Event}

theorem sound_of_turn (hb : Base w) (hs : Sound (view w)) (hc : Careful w e) (ht : Turn w e w') :
    Sound (view w') := by
  cases ht with
  | spawn _ _ seen =>
    rw [seen]
    exact hs.offer _
  | act task _ _ _ moves =>
    exact hs.moves hb.wf moves hc.1 (hc.2 _ (nextCall_eq task)) fun line => hb.offered task
  | crash _ seen =>
    rw [seen]
    exact hs.crash hc
  | reopen _ _ _ seen =>
    rw [seen]
    exact hs.sit nofun nofun nofun

/-- A seat that is not left to the fields is where some operation stands. -/
theorem inside_of_seat {s : Store} {φ : Nat → Phase} {b k : Nat} {content : List Char}
    (h : seatOf s φ = .created b k content) :
    ∃ i, (φ i).point = .inside (.created b k content) := by
  rw [seatOf] at h
  split at h
  · cases h
  next i _ =>
    split at h
    next t ht =>
      subst h
      exact ⟨i, ht⟩
    next => cases h

theorem kept_of_turn (hb : Base w) (hs : Sound (view w)) (hc : Careful w e) (ht : Turn w e w') :
    Kept w w' := by
  intro n k hn hk
  have hsame (hd : (view w').disk = (view w).disk) :
      w'.shared.disk.file n = some k ∧ w'.shared.disk.bytes k = w.shared.disk.bytes k := by
    change (view w').disk.file n = some k ∧ (view w').disk.bytes k = (view w).disk.bytes k
    rw [hd]
    exact ⟨hk, rfl⟩
  cases ht with
  | spawn _ _ seen => exact .inr ⟨(hsame (by rw [seen])).1, .inl (hsame (by rw [seen])).2⟩
  | act task _ _ _ moves =>
    rcases kept_of_moves hs hb.wf moves hc.1 (hc.2 _ (nextCall_eq task)) hn hk with
      hgone | ⟨hfile, hbytes | ⟨hempty, b, content, hseat⟩⟩
    · exact .inl hgone
    · exact .inr ⟨hfile, .inl hbytes⟩
    · obtain ⟨i, hi⟩ := inside_of_seat hseat
      exact .inr ⟨hfile, .inr ⟨hempty, i, b, content, hi⟩⟩
  | @crash keep _ _ seen =>
    have hd : w'.shared.disk = w.shared.disk.crash keep := congrArg View.disk seen
    rw [hd]
    exact .inr ⟨hk, .inl (bytes_crash_of_synced (hc n (mem_names.mpr ⟨k, hk⟩) hn k hk))⟩
  | reopen _ _ _ seen => exact .inr ⟨(hsame (by rw [seen])).1, .inl (hsame (by rw [seen])).2⟩

theorem sound_start (wal : Wal) : Sound (view (start wal)) where
  live := by
    rintro k (⟨n, -, hk⟩ | ⟨i, n, hk⟩ | ⟨b, content, hk⟩)
    · cases hk
    · cases hk
    · cases hk
  active hk := by cases hk
  opened hk := by cases hk
  orphan hk := by cases hk
  created hk := by cases hk
  sink p hp := by cases hp

theorem sound_of_run {wal : Wal} {es : List Event} (hc : machine.Along Careful (start wal) es)
    (hr : machine.run (start wal) es = some w) : Base w ∧ Sound (view w) := by
  refine run_invariant (P := fun w => Base w ∧ Sound (view w)) ?_
    ⟨base_start wal, sound_start wal⟩ hc hr
  rintro w e w' ⟨hb, hs⟩ hc hstep
  obtain ⟨hb', ht⟩ := turn_of_step hb hstep
  exact ⟨hb', sound_of_turn hb hs hc ht⟩

/-- Wherever a careful run stops, the sealed segments and everything that was shipped have complete
lines only, and no careful step writes to a sealed segment that has content. -/
theorem sealedSegments_whole (wal : Wal) (es : List Event) (w : World)
    (hc : machine.Along Careful (start wal) es) (hr : machine.run (start wal) es = some w) :
    Intact w ∧ ∀ e w', Careful w e → machine.step w e = some w' → Kept w w' := by
  obtain ⟨hb, hs⟩ := sound_of_run hc hr
  refine ⟨⟨fun hn hk => (hs.live (.inl ⟨_, hn, hk⟩)).1, hs.sink⟩, ?_⟩
  intro e w' hc' hstep
  exact kept_of_turn hb hs hc' (turn_of_step hb hstep).2

end

/-! ## Recovery -/

def oneLine : Text := ⟨['1'], by decide⟩

/-- An append, a crash that loses nothing, and the next append up to where the recovered segment
was written. -/
def recovery : List Event :=
  Event.spawn (.append (.ok oneLine)) :: List.replicate 10 (.act 0 {}) ++
    Event.crash (fun _ => 2) :: .spawn (.append (.ok oneLine)) :: List.replicate 9 (.act 0 {})

/-- An append that gets to its end leaves a whole segment, whatever is lost after it. -/
theorem recovered_whole :
    ∃ w, machine.run (start {})
        (recovery ++ List.replicate 8 (.act 0 {}) ++ [.crash fun _ => 0]) = some w ∧
      w.shared.disk.file (segmentName 0 0) = some 1 ∧ Intact w := by
  exact exists_run_of
    (by decide +kernel) fun w hr hf =>
      ⟨hf, (sealedSegments_whole {} _ w (by decide +kernel) hr).1⟩

/-- A crash before the recovered segment is durable leaves a torn one. -/
theorem torn_recovery :
    ∃ w, machine.run (start {}) (recovery ++ [.crash fun _ => 1]) = some w ∧ ¬ Intact w := by
  refine exists_run_of (P := fun w => w.shared.disk.file (segmentName 0 0) = some 1 ∧
      w.shared.disk.bytes 1 = ['1']) (by decide +kernel) fun w _ ⟨hf, hb⟩ h => ?_
  have hcomplete := (h.sealed (isSealed_segmentName.mpr (by decide)) hf).complete_eq
  rw [hb] at hcomplete
  exact absurd hcomplete (by decide)

end Beats.Publish
