import Beats.Publish.World

/-!
# No line is lost or doubled

While operations follow one another and the file system does what it is asked to, the lines in the
sink, in the sealed segments and in the active segment are those of the appends that returned
(`lines_conserved`).  The sink may refuse a segment at any time.

`Books` is the invariant.  A line that was written is in one place, but for two moments: a recovery
has copied the active segment and not yet removed it, and a segment was shipped and not yet removed.
The seat and the segment being shipped say which of the two copies counts.
-/

namespace Beats.Publish

open Lib List Disk Function

/-! ## The condition and the property -/

/-- The times in the names of what was sealed. -/
def stamps (w : World) : List Time :=
  w.shared.sealed.filterMap fun p => (parseSegmentName p.1).map Prod.snd

def Call.ships : Call → Bool
  | .put _ _ => true
  | _ => false

/-- An operation is started when the last one is over, file operations succeed while the sink may
fail, no two segments are sealed at one instant, and the process does not stop. -/
def Smooth (w : World) : Event → Prop
  | .spawn _ => quiet w = true
  | .act i luck =>
    (luck.err = none ∨ (nextCall w i).any Call.ships = true) ∧
      ∀ c ∈ nextCall w i, ∀ n ∈ c.target, ∀ p ∈ parseSegmentName n, p.2 ∉ stamps w
  | .crash _ => False
  | .reopen _ => True

instance (w : World) : (e : Event) → Decidable (Smooth w e)
  | .spawn _ | .act _ _ | .crash _ | .reopen _ => by
    dsimp only [Smooth]
    infer_instance

/-- The sealed segments in a directory. -/
def sealedNames (d : Disk Name Char) : List Name := d.names.filter isSealed

/-- The lines that the file of a name has. -/
def textsIn (d : Disk Name Char) (n : Name) : List (List Char) := texts '\n' (d.content n)

/-- The lines that the sink has taken. -/
def sinkTexts (sink : List (String × List Char)) : List (List Char) :=
  sink.flatMap fun p => texts '\n' p.2

/-- The lines of the appends that returned, in their order. -/
def appended (w : World) : List Text :=
  w.tasks.filterMap fun task =>
    match task with
    | ((_, j), .ret _) => j.line
    | _ => none

/-- The lines that were appended are in the sink, in the sealed segments and in the active segment,
each as often as it was appended, and every segment has a stretch of them. -/
structure Conserved (w : World) : Prop where
  total : (sinkTexts w.shared.sink ++
      (sealedNames w.shared.disk).flatMap (textsIn w.shared.disk) ++
      textsIn w.shared.disk activeSegmentName).Perm ((appended w).map Line.text)
  sealed : ∀ n ∈ sealedNames w.shared.disk,
    textsIn w.shared.disk n <:+: (appended w).map Line.text
  shipped : ∀ p ∈ w.shared.sink, texts '\n' p.2 <:+: (appended w).map Line.text
  active : textsIn w.shared.disk activeSegmentName <:+: (appended w).map Line.text

/-! ## Books -/

/-- The active segment has been copied, and the copy counts. -/
def Seat.copied : Seat → Bool
  | .written _ _ => true
  | .durable _ => true
  | _ => false

/-- What is known of the directory at a seat. -/
def Seated (d : Disk Name Char) : Seat → Prop
  | .held none _ => True
  | .held (some h) _ => d.file activeSegmentName = some h
  | .synced h _ => d.file activeSegmentName = some h
  | .counted _ => True
  | .found _ => d.file activeSegmentName ≠ none
  | .orphan _ raw => d.file activeSegmentName ≠ none ∧ raw = d.content activeSegmentName
  | .created _ h content =>
    d.file activeSegmentName ≠ none ∧ content = d.content activeSegmentName ∧
      ∃ n, isSealed n = true ∧ d.file n = some h ∧ d.content n = []
  | .written _ _ => d.file activeSegmentName ≠ none
  | .durable _ => d.file activeSegmentName ≠ none
  | .cleared _ => d.file activeSegmentName = none

/-- The segment that was shipped and not yet removed. -/
def Dock.sent? : Dock → Option Name
  | .sent n _ => some n
  | _ => none

/-- The lines `W` that were written are accounted for, where the active segment has `act` and the
segments that count are `rest`. -/
structure Balanced (v : View) (sent : Option Name) (W act : List Text) (rest : List Name) :
    Prop where
  names : (sealedNames v.disk).Perm (sent.toList ++ rest)
  active : v.disk.content activeSegmentName = encode act
  last : act <:+ W
  sum : (sinkTexts v.sink ++ rest.flatMap (textsIn v.disk) ++
    (if v.seat.copied then [] else act.map Line.text)).Perm (W.map Line.text)

/-- What a smooth run keeps of a view, with the lines `W` that were written. -/
structure Books (v : View) (sent : Option Name) (W : List Text) : Prop where
  recorded : ∀ {n k}, isSealed n = true → v.disk.file n = some k → n ∈ v.sealed.map Prod.fst
  segments : ∀ {n k}, isSealed n = true → v.disk.file n = some k →
    ∃ ls : List Text, ls <:+: W ∧ v.disk.content n = encode ls
  sunk : ∀ p ∈ v.sink, ∃ ls : List Text, ls <:+: W ∧ p.2 = encode ls
  docked : ∀ {i n h}, v.docks i = .opened n h → isSealed n = true ∧ v.disk.file n = some h
  seated : Seated v.disk v.seat
  total : ∃ act rest, Balanced v sent W act rest

section

variable {v : View} {sent : Option Name} {W act : List Text} {rest : List Name} {t : Seat}
  {n : Name} {k h b i : Nat} {d d' : Disk Name Char}

theorem mem_sealedNames : n ∈ sealedNames d ↔ isSealed n = true ∧ ∃ k, d.file n = some k := by
  rw [sealedNames, mem_filter, mem_names, and_comm]

theorem sealedNames_nodup (d : Disk Name Char) : (sealedNames d).Nodup := d.names_nodup.filter _

theorem Balanced.mem_rest (hb : Balanced v sent W act rest) (hn : n ∈ rest) :
    isSealed n = true ∧ ∃ k, v.disk.file n = some k :=
  mem_sealedNames.mp (hb.names.mem_iff.mpr (mem_append_right _ hn))

theorem Balanced.sent_mem (hb : Balanced v (some n) W act rest) :
    (∃ k, v.disk.file n = some k) ∧ n ∉ rest := by
  have hmem : n ∈ sealedNames v.disk := hb.names.mem_iff.mpr mem_cons_self
  have hnodup := hb.names.nodup_iff.mp (sealedNames_nodup _)
  exact ⟨(mem_sealedNames.mp hmem).2, (nodup_cons.mp hnodup).1⟩

theorem sealedNames_perm (hfile : ∀ {n}, isSealed n = true →
    ((∃ k, d'.file n = some k) ↔ ∃ k, d.file n = some k)) :
    (sealedNames d').Perm (sealedNames d) := by
  refine (perm_ext_iff_of_nodup (sealedNames_nodup _) (sealedNames_nodup _)).mpr ?_
  intro n
  rw [mem_sealedNames, mem_sealedNames]
  constructor
  · rintro ⟨hn, hk⟩
    exact ⟨hn, (hfile hn).mp hk⟩
  · rintro ⟨hn, hk⟩
    exact ⟨hn, (hfile hn).mpr hk⟩

theorem sealedNames_cons (hn : isSealed n = true) (hfree : d.file n = none)
    (hnew : ∃ k, d'.file n = some k)
    (hfile : ∀ {n'}, isSealed n' = true → n' ≠ n → d'.file n' = d.file n') :
    (sealedNames d').Perm (n :: sealedNames d) := by
  have hnot : n ∉ sealedNames d := by
    intro hm
    obtain ⟨k, hk⟩ := (mem_sealedNames.mp hm).2
    exact absurd (hfree.symm.trans hk) nofun
  refine (perm_ext_iff_of_nodup (sealedNames_nodup _)
    (nodup_cons.mpr ⟨hnot, sealedNames_nodup _⟩)).mpr ?_
  intro n'
  rw [mem_cons, mem_sealedNames, mem_sealedNames]
  by_cases hne : n' = n
  · subst hne
    exact iff_of_true ⟨hn, hnew⟩ (.inl rfl)
  · constructor
    · rintro ⟨hn', hk⟩
      exact .inr ⟨hn', by rwa [hfile hn' hne] at hk⟩
    · rintro (he | ⟨hn', hk⟩)
      · exact absurd he hne
      · exact ⟨hn', by rwa [hfile hn' hne]⟩

theorem flatMap_textsIn (hsame : ∀ n ∈ rest, d'.content n = d.content n) :
    rest.flatMap (textsIn d') = rest.flatMap (textsIn d) := by
  refine flatMap_congr fun n hn => ?_
  rw [textsIn, textsIn, hsame n hn]

theorem textsIn_encode {ls : List Text} (h : d.content n = encode ls) :
    textsIn d n = ls.map Line.text := by
  rw [textsIn, h, texts_encode]

theorem encode_eq_nil {ls : List Text} (h : encode ls = []) : ls = [] := by
  cases ls with
  | nil => rfl
  | cons l ls => simp [Line.encode] at h

theorem Seated.of_dir (hs : Seated d t) (hdir : d'.dir = d.dir) (hbytes : d'.bytes = d.bytes) :
    Seated d' t := by
  have hfile (n : Name) : d'.file n = d.file n := by rw [file, file, hdir]
  have hcontent (n : Name) : d'.content n = d.content n :=
    content_congr (hfile n) fun k _ => by rw [hbytes]
  cases t with
  | held a b =>
    cases a with
    | none => trivial
    | some h => exact (hfile _).trans hs
  | counted b => trivial
  | _ => simpa only [Seated, hfile, hcontent] using hs

/-- Where no recovery is under way, the active segment is all that matters. -/
theorem Seated.of_settled (hs : Seated d t) (ht : t.Settled)
    (hfile : d'.file activeSegmentName = d.file activeSegmentName) : Seated d' t := by
  cases t with
  | held a b =>
    cases a with
    | none => trivial
    | some h => exact hfile.trans hs
  | synced h b => exact hfile.trans hs
  | _ => cases ht

theorem Seated.of_rests {m : Mem} (hs : Seated d t) (ht : t.Settled) (hr : t.Rests m) :
    Seated d (.held m.active m.baseOffset) ∧ t.copied = false := by
  cases t with
  | held a b =>
    rw [hr.1]
    cases a <;> exact ⟨hs, rfl⟩
  | synced h b =>
    rw [hr.1]
    exact ⟨hs, rfl⟩
  | _ => cases ht

theorem Books.seatedAt (hb : Books v sent W) (hseat : v.seat = t) : Seated v.disk t :=
  hseat ▸ hb.seated

/-! ## Moves under the mutex -/

theorem Books.refit (hb : Books v sent W)
    (hfile : ∀ {n}, isSealed n = true → d.file n = v.disk.file n)
    (hcontent : ∀ {n}, isSealed n = true → d.content n = v.disk.content n) (hseated : Seated d t)
    (hactive : ∀ {act}, v.disk.content activeSegmentName = encode act → act <:+ W →
      ∃ act', d.content activeSegmentName = encode act' ∧ act' <:+ W ∧
        (if t.copied then [] else act'.map Line.text) =
          if v.seat.copied then [] else act.map Line.text) :
    Books { v with disk := d, seat := t } sent W := by
  obtain ⟨act, rest, htotal⟩ := hb.total
  obtain ⟨act', hact', hlast, hcounts⟩ := hactive htotal.active htotal.last
  constructor
  · intro n' k' hn' hk'
    exact hb.recorded hn' ((hfile hn').symm.trans hk')
  · intro n' k' hn' hk'
    obtain ⟨ls, hls, hc⟩ := hb.segments hn' ((hfile hn').symm.trans hk')
    exact ⟨ls, hls, (hcontent hn').trans hc⟩
  · exact hb.sunk
  · intro i n' h' hd
    obtain ⟨hn', hk'⟩ := hb.docked hd
    exact ⟨hn', (hfile hn').trans hk'⟩
  · exact hseated
  · refine ⟨act', rest, ?_, hact', hlast, ?_⟩
    · exact (sealedNames_perm fun hn => by rw [hfile hn]).trans htotal.names
    · rw [hcounts, flatMap_textsIn fun n' hn' => hcontent (htotal.mem_rest hn').1]
      exact htotal.sum

theorem Books.sit (hb : Books v sent W) (hseated : Seated v.disk t)
    (hcopied : t.copied = v.seat.copied) : Books { v with seat := t } sent W :=
  hb.refit (fun _ => rfl) (fun _ => rfl) hseated fun hact hlast =>
    ⟨_, hact, hlast, by rw [hcopied]⟩

theorem Books.sync (hb : Books v sent W) (k : Nat) :
    Books { v with disk := v.disk.sync k } sent W :=
  hb.refit (fun _ => rfl) (fun _ => rfl) (hb.seated.of_dir rfl rfl) fun hact hlast =>
    ⟨_, hact, hlast, rfl⟩

theorem Books.openActive (hb : Books v sent W) (hw : v.disk.Wf) (hseat : v.seat = .cleared b) :
    Books { v with
      disk := (v.disk.create activeSegmentName).2
      seat := .held (some (v.disk.create activeSegmentName).1) b } sent W := by
  refine hb.refit (fun hn => file_create_of_ne (ne_active_of_sealed hn))
    (fun hn => content_create_of_ne hw (ne_active_of_sealed hn)) file_create_self ?_
  intro act hact _
  -- There was no active segment, so it had no lines.
  have hnone : v.disk.file activeSegmentName = none := hb.seatedAt hseat
  obtain rfl : act = [] := encode_eq_nil (hact.symm.trans (content_of_none hnone))
  exact ⟨[], content_create_self, nil_suffix, by rw [hseat]; rfl⟩

theorem Books.clear (hb : Books v sent W) (hseat : v.seat = .durable b) :
    Books { v with disk := v.disk.remove activeSegmentName, seat := .cleared (b + 1) } sent W := by
  refine hb.refit (fun hn => file_remove_of_ne (ne_active_of_sealed hn))
    (fun hn => content_remove_of_ne (ne_active_of_sealed hn)) file_remove_self ?_
  intro act _ _
  exact ⟨[], content_of_none file_remove_self, nil_suffix, by rw [hseat]; rfl⟩

theorem Books.addSegment (hb : Books v sent W) (hn : isSealed n = true)
    (hfree : v.disk.file n = none) (hnew : d.file n = some k)
    (hfile : ∀ {n'}, isSealed n' = true → n' ≠ n → d.file n' = v.disk.file n')
    (hcontent : ∀ {n'}, isSealed n' = true → n' ≠ n → d.content n' = v.disk.content n')
    (hseated : Seated d t)
    (hactive : ∀ {act}, v.disk.content activeSegmentName = encode act → act <:+ W →
      ∃ ls act', d.content n = encode ls ∧ ls <:+: W ∧
        d.content activeSegmentName = encode act' ∧ act' <:+ W ∧
        (ls.map Line.text ++ if t.copied then [] else act'.map Line.text) =
          if v.seat.copied then [] else act.map Line.text) :
    Books { v with disk := d, sealed := (n, k) :: v.sealed, seat := t } sent W := by
  have hthere {n' k'} (hk' : v.disk.file n' = some k') : n' ≠ n := by
    rintro rfl
    exact absurd (hfree.symm.trans hk') nofun
  obtain ⟨act, rest, htotal⟩ := hb.total
  obtain ⟨ls, act', hself, hls, hact', hlast, hcounts⟩ := hactive htotal.active htotal.last
  constructor
  · intro n' k' hn' hk'
    by_cases hne : n' = n
    · exact hne ▸ mem_cons_self
    · exact mem_cons_of_mem _ (hb.recorded hn' ((hfile hn' hne).symm.trans hk'))
  · intro n' k' hn' hk'
    by_cases hne : n' = n
    · subst hne
      exact ⟨ls, hls, hself⟩
    · obtain ⟨ls', hls', hc⟩ := hb.segments hn' ((hfile hn' hne).symm.trans hk')
      exact ⟨ls', hls', (hcontent hn' hne).trans hc⟩
  · exact hb.sunk
  · intro i n' h' hd
    obtain ⟨hn', hk'⟩ := hb.docked hd
    exact ⟨hn', (hfile hn' (hthere hk')).trans hk'⟩
  · exact hseated
  · refine ⟨act', n :: rest, ?_, hact', hlast, ?_⟩
    · refine (sealedNames_cons hn hfree ⟨k, hnew⟩ hfile).trans ?_
      exact (htotal.names.cons n).trans perm_middle.symm
    · have hrest : rest.flatMap (textsIn d) = rest.flatMap (textsIn v.disk) := by
        refine flatMap_textsIn fun n' hn' => ?_
        obtain ⟨hs, k', hk'⟩ := htotal.mem_rest hn'
        exact hcontent hs (hthere hk')
      refine .trans ?_ htotal.sum
      rw [← hcounts, flatMap_cons, textsIn_encode hself, hrest]
      -- The lines of the new segment move from behind those of the others to before them.
      simp only [append_assoc]
      exact Perm.append_left _ (perm_append_comm_assoc ..)

theorem Books.createSegment (hb : Books v sent W) (hw : v.disk.Wf) {raw : List Char}
    (hseat : v.seat = .orphan b raw) (hn : isSealed n = true) (hfree : v.disk.file n = none) :
    Books { v with
      disk := (v.disk.create n).2
      sealed := (n, (v.disk.create n).1) :: v.sealed
      seat := .created b (v.disk.create n).1 (complete '\n' raw) } sent W := by
  have hactive := (ne_active_of_sealed hn).symm
  have hcontent : (v.disk.create n).2.content activeSegmentName =
      v.disk.content activeSegmentName := content_create_of_ne hw hactive
  obtain ⟨hfound, hraw⟩ : v.disk.file activeSegmentName ≠ none ∧
      raw = v.disk.content activeSegmentName := hb.seatedAt hseat
  refine hb.addSegment hn hfree file_create_self (fun _ => file_create_of_ne)
    (fun _ => content_create_of_ne hw) ?_ ?_
  · obtain ⟨act, rest, htotal⟩ := hb.total
    refine ⟨by rwa [file_create_of_ne hactive], ?_, n, hn, file_create_self, content_create_self⟩
    rw [hcontent, hraw, htotal.active, complete_encode]
  · intro act hact hlast
    exact ⟨[], act, content_create_self, nil_infix, hcontent.trans hact, hlast, by rw [hseat]; rfl⟩

theorem Books.sealActive (hb : Books v sent W) (hseat : v.seat = .synced h b)
    (hk : v.disk.file activeSegmentName = some k) (hn : isSealed n = true)
    (hfree : v.disk.file n = none) :
    Books { v with
      disk := v.disk.rename k activeSegmentName n
      sealed := (n, k) :: v.sealed
      seat := .cleared (b + 1) } sent W := by
  have hgone : (v.disk.rename k activeSegmentName n).file activeSegmentName = none :=
    file_rename_src (ne_active_of_sealed hn).symm
  refine hb.addSegment hn hfree file_rename_self
    (fun hn' hne => file_rename_of_ne hne (ne_active_of_sealed hn'))
    (fun hn' hne => content_rename_of_ne hne (ne_active_of_sealed hn')) hgone ?_
  intro act hact hlast
  refine ⟨act, [], (content_rename_self hk).trans hact, hlast.isInfix,
    content_of_none hgone, nil_suffix, ?_⟩
  rw [hseat]
  exact append_nil _

theorem Books.fill (hb : Books v none W) (hw : v.disk.Wf) {bs : List Char}
    (hseat : v.seat = .created b h bs) :
    Books { v with disk := v.disk.write h bs, seat := .written b h } none W := by
  obtain ⟨hfound, rfl, n, hn, hk, hempty⟩ : v.disk.file activeSegmentName ≠ none ∧
      bs = v.disk.content activeSegmentName ∧
      ∃ n, isSealed n = true ∧ v.disk.file n = some h ∧ v.disk.content n = [] :=
    hb.seatedAt hseat
  have hself : (v.disk.write h (v.disk.content activeSegmentName)).content n =
      v.disk.content activeSegmentName := by
    rw [content_write_self hk, hempty, nil_append]
  have hother {n'} (hne : n' ≠ n) : (v.disk.write h (v.disk.content activeSegmentName)).content n' =
      v.disk.content n' := content_write_of_ne hw hk hne
  obtain ⟨act, rest, htotal⟩ := hb.total
  constructor
  · exact hb.recorded
  · intro n' k' hn' hk'
    by_cases hne : n' = n
    · subst hne
      exact ⟨act, htotal.last.isInfix, hself.trans htotal.active⟩
    · obtain ⟨ls, hls, hc⟩ := hb.segments hn' hk'
      exact ⟨ls, hls, (hother hne).trans hc⟩
  · exact hb.sunk
  · exact hb.docked
  · exact hfound
  · refine ⟨act, rest, htotal.names, (hother (ne_active_of_sealed hn).symm).trans htotal.active,
      htotal.last, ?_⟩
    have hmem : n ∈ rest := htotal.names.mem_iff.mp (mem_sealedNames.mpr ⟨hn, h, hk⟩)
    have hnodup : rest.Nodup := htotal.names.nodup_iff.mp (sealedNames_nodup _)
    have hsplit := perm_cons_erase hmem
    -- The segment had nothing and has what the active one has.
    have hbefore : (rest.flatMap (textsIn v.disk)).Perm
        ((rest.erase n).flatMap (textsIn v.disk)) := by
      refine (hsplit.flatMap_right _).trans ?_
      have hnothing : textsIn v.disk n = [] := by rw [textsIn, hempty]; rfl
      rw [flatMap_cons, hnothing]
      exact .refl _
    have hafter : (rest.flatMap (textsIn (v.disk.write h (v.disk.content activeSegmentName)))).Perm
        (act.map Line.text ++ (rest.erase n).flatMap (textsIn v.disk)) := by
      refine (hsplit.flatMap_right _).trans ?_
      rw [flatMap_cons, textsIn_encode (hself.trans htotal.active),
        flatMap_textsIn fun n' hn' => hother (hnodup.mem_erase_iff.mp hn').1]
    have hsum := htotal.sum
    rw [hseat] at hsum
    refine .trans ?_ hsum
    simp only [Seat.copied, if_true, append_nil, Bool.false_eq_true, if_false, append_assoc]
    exact ((hafter.trans perm_append_comm).trans (hbefore.symm.append_right _)).append_left _

theorem Books.writeLine (hb : Books v sent W) (hw : v.disk.Wf)
    (hseat : v.seat = .held (some h) b) (line : Text) :
    Books { v with disk := v.disk.write h line.encode } sent (W ++ [line]) := by
  have hk : v.disk.file activeSegmentName = some h := hb.seatedAt hseat
  have hother {n'} (hn' : isSealed n' = true) :
      (v.disk.write h line.encode).content n' = v.disk.content n' :=
    content_write_of_ne hw hk (ne_active_of_sealed hn')
  have hlonger {ls : List Text} (hls : ls <:+: W) : ls <:+: W ++ [line] :=
    hls.trans (prefix_append _ _).isInfix
  obtain ⟨act, rest, htotal⟩ := hb.total
  constructor
  · exact hb.recorded
  · intro n' k' hn' hk'
    obtain ⟨ls, hls, hc⟩ := hb.segments hn' hk'
    exact ⟨ls, hlonger hls, (hother hn').trans hc⟩
  · intro p hp
    obtain ⟨ls, hls, hc⟩ := hb.sunk p hp
    exact ⟨ls, hlonger hls, hc⟩
  · exact hb.docked
  · rw [hseat]
    exact hk
  · refine ⟨act ++ [line], rest, htotal.names, ?_, ?_, ?_⟩
    · rw [content_write_self hk, htotal.active]
      simp
    · obtain ⟨before, rfl⟩ := htotal.last
      exact ⟨before, by rw [append_assoc]⟩
    · have hsum := htotal.sum
      simp only [hseat, Seat.copied, Bool.false_eq_true, if_false] at hsum ⊢
      rw [flatMap_textsIn fun n' hn' => hother (htotal.mem_rest hn').1, map_append,
        map_append, ← append_assoc]
      exact hsum.append_right _

/-! ## Moves at the docks -/

theorem Books.dock (hb : Books v sent W) {x : Dock}
    (hx : ∀ n k, x = .opened n k → isSealed n = true ∧ v.disk.file n = some k) :
    Books { v with docks := update v.docks i x } sent W :=
  { hb with
    docked := by
      intro i' n k hd
      by_cases hi : i' = i
      · subst hi
        exact hx n k ((update_self ..).symm.trans hd)
      · exact hb.docked ((update_of_ne hi ..).symm.trans hd)
    total := by
      obtain ⟨act, rest, htotal⟩ := hb.total
      exact ⟨act, rest, { htotal with }⟩ }

theorem Books.put (hb : Books v none W) {key : String} (hdock : v.docks i = .opened n h) :
    Books { v with
      sink := v.sink ++ [(key, v.disk.bytes h)]
      docks := update v.docks i (.sent n h) } (some n) W := by
  obtain ⟨hn, hk⟩ := hb.docked hdock
  have hbytes : v.disk.bytes h = v.disk.content n := (content_of_some hk).symm
  have hdocked := hb.dock (i := i) (x := .sent n h) nofun
  obtain ⟨act, rest, htotal⟩ := hb.total
  have hmem : n ∈ rest := htotal.names.mem_iff.mp (mem_sealedNames.mpr ⟨hn, h, hk⟩)
  have hsplit := perm_cons_erase hmem
  refine ⟨hb.recorded, hb.segments, ?_, hdocked.docked, hb.seated, act, rest.erase n,
    htotal.names.trans hsplit, htotal.active, htotal.last, ?_⟩
  · intro p hp
    rcases mem_append.mp hp with hp | hp
    · exact hb.sunk p hp
    · rw [mem_singleton.mp hp, hbytes]
      exact hb.segments hn hk
  · refine .trans ?_ htotal.sum
    refine Perm.append_right _ ?_
    have hsink : sinkTexts (v.sink ++ [(key, v.disk.bytes h)]) =
        sinkTexts v.sink ++ textsIn v.disk n := by
      simp [sinkTexts, textsIn, hbytes]
    rw [hsink, append_assoc]
    exact ((hsplit.flatMap_right (textsIn v.disk)).symm).append_left _

theorem Books.removeSealed (hb : Books v (some n) W) (hn : isSealed n = true)
    (hsettled : v.seat.Settled) (hothers : ∀ i', i' ≠ i → v.docks i' = .idle) :
    Books { v with disk := v.disk.remove n, docks := update v.docks i .idle } none W := by
  have hactive := (ne_active_of_sealed hn).symm
  have hfile {n'} (hne : n' ≠ n) : (v.disk.remove n).file n' = v.disk.file n' :=
    file_remove_of_ne hne
  have hcontent {n'} (hne : n' ≠ n) : (v.disk.remove n).content n' = v.disk.content n' :=
    content_remove_of_ne hne
  have hleft {n' k'} (hk' : (v.disk.remove n).file n' = some k') : n' ≠ n := by
    rintro rfl
    exact absurd (file_remove_self.symm.trans hk') nofun
  obtain ⟨act, rest, htotal⟩ := hb.total
  obtain ⟨hthere, hnot⟩ := htotal.sent_mem
  constructor
  · intro n' k' hn' hk'
    exact hb.recorded hn' (file_of_remove hk')
  · intro n' k' hn' hk'
    obtain ⟨ls, hls, hc⟩ := hb.segments hn' (file_of_remove hk')
    exact ⟨ls, hls, (hcontent (hleft hk')).trans hc⟩
  · exact hb.sunk
  · intro i' n' h' hd
    by_cases hi : i' = i
    · subst hi
      cases (update_self ..).symm.trans hd
    · cases (hothers i' hi).symm.trans ((update_of_ne hi ..).symm.trans hd)
  · exact hb.seated.of_settled hsettled (hfile hactive)
  · refine ⟨act, rest, ?_, (hcontent hactive).trans htotal.active, htotal.last, ?_⟩
    · have hcons := sealedNames_cons hn file_remove_self hthere
        fun _ hne => (hfile hne).symm
      exact (hcons.symm.trans htotal.names).cons_inv
    · rw [flatMap_textsIn fun n' hn' => hcontent fun he => hnot (he ▸ hn')]
      exact htotal.sum

/-- The books of an operation that has just come to the dock `x`. -/
theorem Books.at_dock {docks : Nat → Dock} {x : Dock} (hdocks : v.docks = update docks i x)
    (hb : Books v x.sent? W) : Books v (v.docks i).sent? W := by
  rw [hdocks, update_self]
  exact hb

/-! ## Steps -/

theorem books_of_moves {v' : View} {j : Job} {luck : Luck} {c : Call} {wrote wrote' : Bool}
    {holder : Option Nat} (hb : Books v (v.docks i).sent? W) (hw : v.disk.Wf)
    (hm : Moves j luck i holder false v c wrote wrote' v')
    (hluck : luck.err = none ∨ c.ships = true)
    (hfree : ∀ n ∈ c.target, isSealed n = true → v.disk.file n = none)
    (hothers : ∀ i', i' ≠ i → v.docks i' = .idle)
    (hsettled : v.docks i ≠ .idle → v.seat.Settled) :
    (wrote' = wrote ∧ Books v' (v'.docks i).sent? W) ∨ (wrote = false ∧ wrote' = true ∧
        ∃ line, j.line = some line ∧ Books v' (v'.docks i).sent? (W ++ [line])) := by
  cases hm with
  | idle => exact .inl ⟨rfl, hb⟩
  | @leave m _ rests settled =>
    obtain ⟨hs, hcopied⟩ := hb.seated.of_rests (settled.resolve_right nofun) rests
    exact .inl ⟨rfl, hb.sit hs hcopied.symm⟩
  | shut seat closed =>
    refine .inl ⟨rfl, hb.sit ?_ (by rw [seat]; rfl)⟩
    rw [closed]
    trivial
  | count _ seat => exact .inl ⟨rfl, hb.sit trivial (by rw [seat]; rfl)⟩
  | absent seat file => exact .inl ⟨rfl, hb.sit file (by rw [seat]; rfl)⟩
  | found seat file => exact .inl ⟨rfl, hb.sit (by rw [Seated, file]; nofun) (by rw [seat]; rfl)⟩
  | readOrphan seat file =>
    refine .inl ⟨rfl, hb.sit ⟨by rw [file]; nofun, ?_⟩ (by rw [seat]; rfl)⟩
    exact (content_of_some file).symm
  | createSegment seat named =>
    exact .inl ⟨rfl, hb.createSegment hw seat named (hfree _ rfl named)⟩
  | openActive seat => exact .inl ⟨rfl, hb.openActive hw seat⟩
  | fill seat dock =>
    rw [dock] at hb
    refine .inl ⟨rfl, ?_⟩
    rw [dock]
    exact hb.fill hw seat
  | writeLine seat text => exact .inr ⟨rfl, rfl, _, text, hb.writeLine hw seat _⟩
  | short err =>
    rcases hluck with hnone | hships
    · exact absurd hnone err
    · cases hships
  | @syncActive _ b h seat =>
    have hfile : v.disk.file activeSegmentName = some h := hb.seatedAt seat
    exact .inl ⟨rfl, (hb.sync _).sit hfile (by rw [seat]; rfl)⟩
  | syncSegment seat =>
    have hfile : v.disk.file activeSegmentName ≠ none := hb.seatedAt seat
    exact .inl ⟨rfl, (hb.sync _).sit hfile (by rw [seat]; rfl)⟩
  | syncClosed => exact .inl ⟨rfl, hb.sync _⟩
  | sealActive seat file named =>
    exact .inl ⟨rfl, hb.sealActive seat file named (hfree _ rfl named)⟩
  | clear seat => exact .inl ⟨rfl, hb.clear seat⟩
  | openSealed dock named file =>
    rw [dock] at hb
    refine .inl ⟨rfl, .at_dock rfl (hb.dock ?_)⟩
    rintro n' k' ⟨⟩
    exact ⟨named, file⟩
  | put dock _ =>
    rw [dock] at hb
    exact .inl ⟨rfl, .at_dock rfl (hb.put dock)⟩
  | removeSealed dock named =>
    have hs := hsettled (by rw [dock]; nofun)
    rw [dock] at hb
    exact .inl ⟨rfl, .at_dock rfl (hb.removeSealed named hs hothers)⟩
  | @keepSealed _ n h dock why =>
    rw [dock] at hb
    obtain ⟨act, rest, htotal⟩ := hb.total
    obtain ⟨⟨k, hk⟩, -⟩ := htotal.sent_mem
    rcases why with err | hnone
    · rcases hluck with hnone | hships
      · exact absurd hnone err
      · cases hships
    · exact absurd (hnone.symm.trans hk) nofun
  | undock dock =>
    rw [dock] at hb
    exact .inl ⟨rfl, .at_dock rfl (hb.dock nofun)⟩

end

/-! ## Runs -/

/-- The lines that operations at the phases `φ` have written, in the order of the operations. -/
def writtenBy (jobs : List Job) (φ : Nat → Phase) : List Text :=
  jobs.zipIdx.filterMap fun p => if (φ p.2).wrote then p.1.line else none

def jobs (w : World) : List Job := w.tasks.map fun t => t.1.2

def written (w : World) : List Text := writtenBy (jobs w) (phase w)

theorem writtenBy_concat (js : List Job) (j : Job) (φ : Nat → Phase) : writtenBy (js ++ [j]) φ =
      writtenBy js φ ++ (if (φ js.length).wrote then j.line else none).toList := by
  rw [writtenBy, zipIdx_append, filterMap_append]
  refine congrArg (writtenBy js φ ++ ·) ?_
  simp only [zipIdx_singleton, Nat.zero_add, filterMap_cons, filterMap_nil]
  split <;> simp_all

theorem writtenBy_update {js : List Job} {i : Nat} (hi : js.length ≤ i) (φ : Nat → Phase)
    (ψ : Phase) : writtenBy js (update φ i ψ) = writtenBy js φ := by
  refine filterMap_congr fun p hp => ?_
  have hlt : p.2 < js.length := by
    obtain ⟨hlt, -⟩ := List.getElem?_eq_some_iff.mp (mem_zipIdx_iff_getElem?.mp hp)
    exact hlt
  rw [update_of_ne (by omega)]

/-- What a smooth run keeps: only the last operation may be running, no call under the mutex has
failed, and the lines that were written are accounted for. -/
structure Steady (w : World) : Prop where
  base : Base w
  last : ∀ {i t}, w.tasks[i]? = some t → running t = true → i + 1 = w.tasks.length
  calm : ∀ i, (phase w i).failed = false
  books : Books (view w) ((view w).docks (w.tasks.length - 1)).sent? (written w)

section

variable {w w' : World} {e : Event} {i : Nat} {j : Wal × Job}

variable {luck : Luck} {s : Store} {c : Call} {q : Prog iface String Unit}

variable {r : iface.Answer c} {t : (Wal × Job) × Prog iface String Unit} {n : Name}
  {rest : Prog iface String Unit} {k : Job}

/-- The operations other than the one that is running are neither inside nor at a dock. -/
theorem Steady.others (h : Steady w) (hi : w.tasks[i]? = some t) (ht : running t = true)
    {i' : Nat} (hne : i' ≠ i) :
    (phase w i').point = .out ∨ ∃ f, (phase w i').point = .closing f := by
  refine h.base.rests fun t' hi' => ?_
  cases hr : running t' with
  | false => rfl
  | true =>
    have h₁ := h.last hi ht
    have h₂ := h.last hi' hr
    omega

theorem dock_of_rests {p : Point} (h : p = .out ∨ ∃ f, p = .closing f) : p.dock = .idle := by
  rcases h with rfl | ⟨f, rfl⟩ <;> rfl

theorem Steady.settled (h : Steady w) (hi : w.tasks[i]? = some t) (ht : running t = true)
    (hd : (view w).docks i ≠ .idle) :
    (view w).seat.Settled := by
  have hholder : w.shared.holder = none := by
    cases hh : w.shared.holder with
    | none => rfl
    | some i' =>
      obtain ⟨s, hs⟩ := (h.base.exclusive i').mpr hh
      by_cases hne : i' = i
      · subst hne
        refine absurd ?_ hd
        change (phase w i').point.dock = .idle
        rw [hs]
        rfl
      · rcases h.others hi ht hne with hp | ⟨f, hp⟩ <;> rw [hs] at hp <;> cases hp
  change (seatOf w.shared (phase w)).Settled
  simp only [seatOf, hholder]
  trivial

theorem mem_stamps {t : Time} {b : Int} (hp : parseSegmentName n = some (b, t))
    (hn : n ∈ w.shared.sealed.map Prod.fst) : t ∈ stamps w := by
  obtain ⟨p, hm, rfl⟩ := mem_map.mp hn
  exact mem_filterMap.mpr ⟨p, hm, by rw [hp]; rfl⟩

theorem Steady.free (h : Steady w) (hn : isSealed n = true)
    (hfresh : ∀ p ∈ parseSegmentName n, p.2 ∉ stamps w) : w.shared.disk.file n = none := by
  cases hf : w.shared.disk.file n with
  | none => rfl
  | some k =>
    obtain ⟨⟨b, t⟩, hp⟩ := Option.isSome_iff_exists.mp hn
    exact absurd (mem_stamps hp (h.books.recorded hn hf)) (hfresh _ hp)

theorem ok_of_answer {α : Type} {s' : Store} {x : Option (α × Store)}
    {r : Except FsError α} (h : some (luck.answer s x) = some (r, s')) (hluck : luck.err = none)
    (hx : x ≠ none) : ∃ a, r = .ok a := by
  rcases answer_cases h with ⟨he, -⟩ | ⟨-, a, -, ha⟩ | ⟨-, hn, -⟩
  · exact absurd hluck he
  · exact ⟨a, ha⟩
  · exact absurd hn hx

theorem Steady.succeeds (h : Steady w) {t : Seat} (hp : (phase w i).point = .inside t)
    (hc : (phase w i).Permits j.2 c) (hs : serve i luck w.shared c = some (r, s))
    (hluck : luck.err = none) :
    fails c r = false := by
  have hseated : Seated w.shared.disk t := h.books.seatedAt (seatOf_inside h.base.exclusive hp)
  have hfound {n : Name} {α : Type} {f : Nat → α × Store} (hn : w.shared.disk.file n ≠ none) :
      (w.shared.disk.file n).map f ≠ none := by simpa using hn
  cases c with
  | ctxErr | now | lock | unlock m => rfl
  | mkdirAll | write f bs | sync f | close f =>
    obtain ⟨a, rfl⟩ := ok_of_answer hs hluck nofun
    rfl
  | create n =>
    obtain ⟨a, rfl⟩ := ok_of_answer (serve_create hs).2 hluck nofun
    rfl
  | readDir | stat n =>
    rcases answer_cases hs with ⟨he, -⟩ | ⟨-, a, -, rfl⟩ | ⟨-, -, e, rfl, he, -⟩
    · exact absurd hluck he
    · rfl
    · simp only [fails, he, Bool.not_true]
  | readFile n =>
    obtain ⟨rfl, b, hb⟩ := hc
    cases hp.symm.trans hb
    obtain ⟨a, rfl⟩ := ok_of_answer hs hluck (hfound hseated)
    rfl
  | rename src dst =>
    obtain ⟨rfl, f, b, t', hb, -⟩ := hc
    cases hp.symm.trans hb
    have hactive : w.shared.disk.file activeSegmentName ≠ none := by
      rw [hseated]
      nofun
    obtain ⟨a, rfl⟩ := ok_of_answer (serve_rename hs).2 hluck (hfound hactive)
    rfl
  | remove n =>
    obtain ⟨rfl, b, hb⟩ | ⟨-, f, hb⟩ := hc
    · cases hp.symm.trans hb
      obtain ⟨a, rfl⟩ := ok_of_answer hs hluck (hfound hseated)
      rfl
    · cases hp.symm.trans hb
  | openFile n => cases hp.symm.trans hc.1
  | put key f =>
    obtain ⟨n, hb, -⟩ := hc
    cases hp.symm.trans hb

theorem failed_next {φ : Phase} (h : ∀ t, φ.point = .inside t → fails c r = false) :
    (φ.next c r).failed = φ.failed := by
  rw [Phase.next]
  cases hp : φ.point with
  | inside t => simp only [h t hp]
  | _ => rfl

/-! ## Steps of a run -/

theorem jobs_of_set (hi : w.tasks[i]? = some (j, q)) (ht : w'.tasks = w.tasks.set i (j, rest)) :
    jobs w' = jobs w := by
  refine ext_getElem? fun k => ?_
  rw [jobs, jobs, ht, getElem?_map, getElem?_map]
  by_cases hk : i = k
  · subst hk
    rw [List.getElem?_set_self (List.getElem?_eq_some_iff.mp hi).1, hi]
    rfl
  · rw [getElem?_set_ne hk]

theorem jobs_concat (hi : w.tasks[i]? = some (j, q))
    (hlast : i + 1 = w.tasks.length) : ∃ js, jobs w = js ++ [j.2] ∧ js.length = i := by
  have hget : (jobs w)[i]? = some j.2 := by
    rw [jobs, getElem?_map, hi]
    rfl
  have hlen : (jobs w).length = i + 1 := by rw [jobs, length_map, hlast]
  rcases eq_nil_or_concat (jobs w) with hnil | ⟨js, k, hjs⟩
  · rw [hnil] at hlen
    cases hlen
  · rw [concat_eq_append] at hjs
    rw [hjs, length_append, length_singleton] at hlen
    obtain rfl : js.length = i := by omega
    rw [hjs, getElem?_concat_length] at hget
    exact ⟨js, by rw [hjs, Option.some.inj hget], rfl⟩

theorem written_of_act {ψ : Phase} (hi : w.tasks[i]? = some (j, q))
    (hlast : i + 1 = w.tasks.length) (ht : w'.tasks = w.tasks.set i (j, rest))
    (hp : phase w' = update (phase w) i ψ) :
    (ψ.wrote = (phase w i).wrote → written w' = written w) ∧
      ((phase w i).wrote = false → ψ.wrote = true → ∀ line, j.2.line = some line →
        written w' = written w ++ [line]) := by
  obtain ⟨js, hjs, rfl⟩ := jobs_concat hi hlast
  rw [written, written, jobs_of_set hi ht, hjs, hp, writtenBy_concat, writtenBy_concat,
    writtenBy_update (Nat.le_refl _), update_self]
  constructor
  · intro hsame
    rw [hsame]
  · intro hbefore hafter line hline
    rw [hbefore, hafter, hline]
    simp

theorem Books.offer {v : View} {sent : Option Name} {W : List Text} (hb : Books v sent W)
    (O : List Text) : Books { v with offered := O } sent W :=
  { hb with
    total := by
      obtain ⟨act, rest, htotal⟩ := hb.total
      exact ⟨act, rest, { htotal with }⟩ }

theorem Base.dock_of_quiet (h : Base w) (hq : quiet w = true) (i : Nat) :
    (view w).docks i = .idle :=
  dock_of_rests (h.rests fun _ ht => quiet_iff.mp hq ht)

/-- While nothing is running, no recovery is under way. -/
theorem Base.copied_of_quiet (h : Base w) (hq : quiet w = true) : (view w).seat.copied = false := by
  change (seatOf w.shared (phase w)).copied = false
  rw [seatOf, h.holder_of_quiet hq]
  rfl

theorem written_spawn (hb : Base w)
    (ht : w'.tasks = w.tasks ++ [((w.shared.wal, k), k.prog w.shared.wal)])
    (hp : phase w' = phase w) : written w' = written w := by
  have hlen : w.tasks.length ≤ (jobs w).length := by rw [jobs, length_map]
  have hjobs : jobs w' = jobs w ++ [k] := by rw [jobs, ht, map_append]; rfl
  rw [written, hjobs, hp, writtenBy_concat, phase_of_length_le hb hlen]
  simp [written]

theorem steady_spawn (h : Steady w) (hb' : Base w') (hq : quiet w = true)
    (ht : w'.tasks = w.tasks ++ [((w.shared.wal, k), k.prog w.shared.wal)])
    (hp : phase w' = phase w)
    (hv : view w' = { view w with offered := k.line.toList ++ w.shared.offered }) : Steady w' where
  base := hb'
  last := by
    intro i t hi hr
    rw [ht, length_append, length_singleton]
    rw [ht] at hi
    rcases Nat.lt_or_ge i w.tasks.length with hlt | hge
    · rw [getElem?_append_left hlt] at hi
      rw [quiet_iff.mp hq hi] at hr
      cases hr
    · have hlen := (List.getElem?_eq_some_iff.mp hi).1
      rw [length_append, length_singleton] at hlen
      omega
  calm i := by
    rw [hp]
    exact h.calm i
  books := by
    have hwritten := written_spawn h.base ht hp
    have hdock (i : Nat) : (view w').docks i = .idle := by
      rw [hv]
      exact h.base.dock_of_quiet hq i
    have hbooks := h.books
    rw [h.base.dock_of_quiet hq] at hbooks
    rw [hdock, hwritten, hv]
    exact hbooks.offer _

theorem steady_reopen (h : Steady w) (hb' : Base w') (hq : quiet w = true)
    (ht : w'.tasks = w.tasks) (hp : phase w' = phase w)
    (hv : view w' = { view w with seat := .held none 0 }) : Steady w' where
  base := hb'
  last := by
    rw [ht]
    exact h.last
  calm i := by
    rw [hp]
    exact h.calm i
  books := by
    have hwritten : written w' = written w := by rw [written, written, jobs, jobs, ht, hp]
    rw [hwritten, hv, ht]
    exact h.books.sit trivial (h.base.copied_of_quiet hq).symm

theorem steady_act {rest : iface.Answer c → Prog iface String Unit} (h : Steady w) (hb' : Base w')
    (hc : Smooth w (.act i luck)) (hi : w.tasks[i]? = some (j, .call c rest))
    (hs : serve i luck w.shared c = some (r, s)) (ht : w'.tasks = w.tasks.set i (j, rest r))
    (hp : phase w' = update (phase w) i ((phase w i).next c r))
    (hm : Moves j.2 luck i w.shared.holder (phase w i).failed (view w) c (phase w i).wrote
      ((phase w i).next c r).wrote (view w')) : Steady w' := by
  have hcall := nextCall_eq hi
  have hlast := h.last hi rfl
  have hindex : w.tasks.length - 1 = i := by omega
  have hluck : luck.err = none ∨ c.ships = true := by
    have hships := hc.1
    rwa [hcall] at hships
  have hfree : ∀ n ∈ c.target, isSealed n = true → (view w).disk.file n = none :=
    fun n hn hsealed => h.free hsealed (hc.2 c hcall n hn)
  have hbooks := h.books
  rw [hindex] at hbooks
  rw [h.calm i] at hm
  have hmoved := books_of_moves hbooks h.base.wf hm hluck hfree
    (fun i' hne => dock_of_rests (h.others hi rfl hne)) (h.settled hi rfl)
  obtain ⟨hsame, hgrown⟩ := written_of_act hi hlast ht hp
  refine ⟨hb', ?_, ?_, ?_⟩
  · intro i' t hi' hr
    rw [ht] at hi'
    rw [ht, length_set]
    rcases (Pool.getElem?_set hi).mp hi' with ⟨rfl, -⟩ | ⟨-, hi'⟩
    · exact hlast
    · exact h.last hi' hr
  · intro i'
    rw [hp]
    by_cases hne : i' = i
    · subst hne
      rw [update_self, failed_next, h.calm i']
      intro t hpoint
      have hpermits : (phase w i').Permits j.2 c := (h.base.follows hi).1
      rcases hluck with hnone | hships
      · exact h.succeeds hpoint hpermits hs hnone
      · cases c with
        | put key f =>
          obtain ⟨n, hn, -⟩ := hpermits
          cases hpoint.symm.trans hn
        | _ => cases hships
    · rw [update_of_ne hne]
      exact h.calm i'
  · have hindex' : w'.tasks.length - 1 = i := by rw [ht, length_set, hindex]
    rw [hindex']
    rcases hmoved with ⟨hw, hbooks'⟩ | ⟨hbefore, hafter, line, hline, hbooks'⟩
    · rw [hsame hw]
      exact hbooks'
    · rw [hgrown hbefore hafter line hline]
      exact hbooks'

theorem steady_of_turn (h : Steady w) (hc : Smooth w e) (hb' : Base w') (ht : Turn w e w') :
    Steady w' := by
  cases ht with
  | spawn tasks phases seen => exact steady_spawn h hb' hc tasks phases seen
  | act task served tasks phases moves =>
    exact steady_act h hb' hc task served tasks phases moves
  | crash _ _ => exact absurd hc id
  | reopen quiet tasks phases seen => exact steady_reopen h hb' quiet tasks phases seen

theorem steady_start (wal : Wal) : Steady (start wal) where
  base := base_start wal
  last hi := by cases hi
  calm _ := rfl
  books := by
    refine ⟨?_, ?_, ?_, ?_, trivial, [], [], .refl _, rfl, nil_suffix, .refl _⟩
    · intro n k _ hk
      cases hk
    · intro n k _ hk
      cases hk
    · intro p hp
      cases hp
    · intro i n k hd
      cases hd

theorem steady_of_run {wal : Wal} {es : List Event}
    (hc : machine.Along Smooth (start wal) es) (hr : machine.run (start wal) es = some w) :
    Steady w := by
  refine Machine.run_invariant ?_ (steady_start wal) hc hr
  intro w e w' h hc hstep
  obtain ⟨hb', ht⟩ := turn_of_step h.base hstep
  exact steady_of_turn h hc hb' ht

theorem appended_zipIdx (w : World) :
    appended w = w.tasks.zipIdx.filterMap fun p =>
      match p.1 with
      | ((_, j), .ret _) => j.line
      | _ => none := by
  rw [appended]
  conv_lhs => rw [← zipIdx_map_fst 0 w.tasks]
  rw [filterMap_map]
  rfl

/-- When no operation is running, the lines that were written are those of the appends that
returned. -/
theorem Steady.written_eq (h : Steady w) (hq : quiet w = true) : written w = appended w := by
  rw [appended_zipIdx, written, writtenBy, jobs, zipIdx_map, filterMap_map]
  refine filterMap_congr ?_
  rintro ⟨⟨⟨wal, j⟩, q⟩, i⟩ hp
  have hi : w.tasks[i]? = some ((wal, j), q) := mem_zipIdx_iff_getElem?.mp hp
  obtain ⟨out, rfl, hacc, -⟩ := h.base.ends hi (quiet_iff.mp hq hi)
  have hcalm := h.calm i
  cases out with
  | ok a =>
    have hwrote : (phase w i).wrote = j.line.isSome := hacc
    change (if (phase w i).wrote then j.line else none) = j.line
    rw [hwrote]
    cases j.line <;> rfl
  | error err =>
    have hwrote : (phase w i).wrote = false := by
      cases hw : (phase w i).wrote with
      | false => rfl
      | true =>
        rw [hacc hw] at hcalm
        cases hcalm
    change (if (phase w i).wrote then j.line else none) = none
    rw [hwrote]
    rfl

theorem Steady.conserved (h : Steady w) (hq : quiet w = true) : Conserved w := by
  have hbooks := h.books
  rw [h.base.dock_of_quiet hq, h.written_eq hq] at hbooks
  obtain ⟨act, rest, htotal⟩ := hbooks.total
  have hactive : textsIn w.shared.disk activeSegmentName = act.map Line.text :=
    textsIn_encode htotal.active
  refine ⟨?_, ?_, ?_, ?_⟩
  · have hsum := htotal.sum
    rw [h.base.copied_of_quiet hq] at hsum
    rw [hactive]
    refine .trans (Perm.append_right _ ?_) hsum
    exact (htotal.names.flatMap_right (textsIn w.shared.disk)).append_left _
  · intro n hn
    obtain ⟨hsealed, k, hk⟩ := mem_sealedNames.mp hn
    obtain ⟨ls, hls, hc⟩ := hbooks.segments hsealed hk
    have htexts : textsIn w.shared.disk n = ls.map Line.text := textsIn_encode hc
    rw [htexts]
    exact hls.map _
  · intro p hp
    obtain ⟨ls, hls, hc⟩ := hbooks.sunk p hp
    rw [hc, texts_encode]
    exact hls.map _
  · rw [hactive]
    exact htotal.last.isInfix.map _

/-- After every operation of a smooth run, the lines that the sink, the sealed segments and the
active segment have are those of the appends that returned, and each segment has its lines in the
order of the appends. -/
theorem lines_conserved (wal : Wal) (es : List Event) (w : World)
    (hc : machine.Along Smooth (start wal) es) (hr : machine.run (start wal) es = some w)
    (hq : quiet w = true) : Conserved w :=
  (steady_of_run hc hr).conserved hq

end

/-! ## A run -/

def lineA : Text := ⟨['a'], by decide⟩

def lineB : Text := ⟨['b'], by decide⟩

/-- Two appends that seal, a shipment that the sink refuses, a drain, and an append of a new log. -/
def shipments : List Event :=
  Event.spawn (.append (.ok lineA)) :: List.replicate 16 (.act 0 { now := 1 }) ++
  Event.spawn (.append (.ok lineB)) :: List.replicate 11 (.act 1 { now := 2 }) ++
  Event.spawn .ship :: [.act 2 {}, .act 2 {}, .act 2 { err := some "unavailable" }, .act 2 {}] ++
  Event.spawn .drain :: List.replicate 15 (.act 3 {}) ++
  Event.reopen {} :: .spawn (.append (.ok lineA)) :: List.replicate 17 (.act 4 { now := 3 })

theorem shipments_conserved :
    ∃ w, machine.run (start { maxBytes := 1 }) shipments = some w ∧ quiet w = true ∧
      sinkTexts w.shared.sink = [['a'], ['b']] ∧
      textsIn w.shared.disk activeSegmentName = [['a']] ∧ Conserved w := by
  exact Machine.exists_run_of (P := fun w => quiet w = true ∧
      sinkTexts w.shared.sink = [['a'], ['b']] ∧
      textsIn w.shared.disk activeSegmentName = [['a']])
    (by decide +kernel) fun w hr ⟨hq, hsink, hactive⟩ =>
      ⟨hq, hsink, hactive, lines_conserved _ _ w (by decide +kernel) hr hq⟩

end Beats.Publish
