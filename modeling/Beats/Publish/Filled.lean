import Beats.Publish.Whole

/-!
# No empty segments

A segment without a line is not to be sealed, and so none is to be shipped.  `SealIfStale` and
`Drain` look at the size of the active segment before they seal it.  `Append` does not where it
seals by age, and a recovery makes a segment of whatever it finds, so an active segment that was
opened and never written is sealed and shipped (`empty_shipped`).

A `Gauge` follows the size of the active segment and its age as an operation has them.  Every
operation keeps to it (`gauged_prog`): it seals what has a size or has come of age, and gives the
mutex back with the size that it has.  From that comes `segments_filled`.
-/

namespace Beats.Publish

open Lib Monitor Disk Function List Machine Wal

/-! ## Size and age -/

/-- The active segment as an operation knows it. -/
structure Gauge where
  size : Nat := 0
  /-- The instant it was opened at, once that was read. -/
  openedAt : Option Time := none
  /-- The clock has shown that it is of age. -/
  aged : Bool := false

/-- The clock is read for the age. -/
def Gauge.read (w : Wal) (g : Gauge) (t : Time) : Gauge :=
  match g.openedAt with
  | none => { g with openedAt := some t }
  | some o => { g with aged := g.aged || decide (w.ageBound ≤ t - o) }

def Gauge.next (w : Wal) (g : Gauge) : (c : Call) → iface.Answer c → Gauge
  | .lock, m => { size := m.size, openedAt := some m.openedAt }
  | .create _, .ok _ => {}
  | .now, t => g.read w t
  | .write _ _, .ok n => { g with size := g.size + n }
  | _, _ => g

/-- The fields say what the gauge says. -/
def Fits (g : Gauge) (m : Mem) : Prop :=
  m.active ≠ none → m.size = g.size ∧ g.openedAt = some m.openedAt

/-- An operation seals what has a size or is of age, and gives back fields that fit. -/
def Gauge.Permits (g : Gauge) : Call → Prop
  | .rename _ _ => 0 < g.size ∨ g.aged = true
  | .unlock m => Fits g m
  | _ => True

/-- The monitor of an operation of the log. -/
def gauge (w : Wal) : Monitor iface Gauge where
  permits := Gauge.Permits
  next := Gauge.next w

/-! ## Programs under the mutex -/

/-- A program under the mutex comes to fields that fit. -/
def Leaves (g : Gauge) : Except Fault Mem → Prop
  | .ok m => Fits g m
  | .error f => Fits g f.mem

/-- A program under the mutex changes no field where it fails. -/
def Spares (m : Mem) (_ : Gauge) : Except Fault Unit → Prop
  | .ok _ => True
  | .error f => f.mem = m

section

variable {w : Wal} {g : Gauge} {m : Mem}

theorem read_of_opened {o : Time} (h : g.openedAt = some o) (t : Time) :
    g.read w t = { g with aged := g.aged || decide (w.ageBound ≤ t - o) } := by
  rw [Gauge.read, h]

theorem size_read (w : Wal) (g : Gauge) (t : Time) : (g.read w t).size = g.size := by
  rw [Gauge.read]
  split <;> rfl

theorem fits_of_none (h : m.active = none) : Fits g m := fun hm => absurd h hm

theorem gauged_openFreshActive (hm : m.active = none) :
    (gauge w).Allows Leaves (openFreshActive m) g := by
  exact allows_ask_bind trivial
    (either (fun _ => fits_of_none hm)
      fun _ => allows_ask_bind trivial fun t => fun _ => ⟨rfl, rfl⟩)

theorem gauged_sealActive (hf : Fits g m) (hg : 0 < g.size ∨ g.aged = true) :
    (gauge w).Allows Leaves (sealActive m) g := by
  rw [sealActive]
  cases hm : m.active with
  | none => exact hf
  | some h =>
  obtain ⟨hsize, hopened⟩ := hf (ne_of_eq_of_ne hm (Option.some_ne_none h))
  refine allows_ask_bind trivial (either (fun _ => hf) fun _ => ?_)
  refine allows_ask_bind trivial (either (fun _ => hf) fun _ => ?_)
  refine allows_ask_bind trivial fun (t : Time) => ?_
  -- the clock is read for the name, and the gauge is at least as old after it
  change Allows _ _ _ (g.read w t)
  rw [read_of_opened hopened]
  refine allows_ask_bind ?_ fun r => ?_
  · refine hg.imp id fun ha => ?_
    simp [ha]
  · cases r with
    | error e => exact fun _ => ⟨hsize, hopened⟩
    | ok _ => exact gauged_openFreshActive rfl

theorem gauged_recoverOrphan (b : Nat) : (gauge w).Allows (Spares m) (recoverOrphan m b) g := by
  refine allows_ask_bind trivial (either (fun _ => rfl) fun _ => ?_)
  refine allows_ask_bind trivial fun t => ?_
  refine allows_ask_bind trivial (either (fun _ => rfl) fun _ => ?_)
  refine allows_ask_bind trivial
    (either (fun _ => allows_ask_bind trivial fun r => rfl) fun _ => ?_)
  refine allows_ask_bind trivial
    (either (fun _ => allows_ask_bind trivial fun r => rfl) fun _ => ?_)
  refine allows_ask_bind trivial (either (fun _ => rfl) fun _ => ?_)
  exact allows_ask_bind trivial (either (fun _ => rfl) fun _ => trivial)

theorem gauged_ensureActive (hf : Fits g m) : (gauge w).Allows Leaves (w.ensureActive m) g := by
  rw [ensureActive]
  cases hm : m.active with
  | some h => exact hf
  | none =>
  refine allows_ask_bind trivial (either (fun _ => fits_of_none hm) fun _ => ?_)
  refine allows_ask_bind trivial (either (fun _ => fits_of_none hm) fun _ => ?_)
  refine allows_ask_bind trivial fun r => ?_
  cases r with
  | ok _ =>
    refine (gauged_recoverOrphan _).bind (fun g _ _ => gauged_openFreshActive rfl) ?_
    rintro g f rfl
    exact fits_of_none hm
  | error e =>
    change Allows _ _ (if _ then _ else _) _
    split
    · exact fits_of_none hm
    · exact gauged_openFreshActive rfl

theorem gauged_sealAged (hf : Fits g m) : (gauge w).Allows Leaves (w.sealAged m) g := by
  refine allows_ask_bind trivial fun (t : Time) => ?_
  have hfits : Fits (g.read w t) m := by
    intro hm
    obtain ⟨hsize, hopened⟩ := hf hm
    rw [read_of_opened hopened]
    exact ⟨hsize, hopened⟩
  change Allows _ _ _ (g.read w t)
  split
  next hage =>
    by_cases hm : m.active = none
    · rw [sealActive, hm]
      exact hfits
    · refine gauged_sealActive hfits (.inr ?_)
      rw [read_of_opened (hf hm).2]
      simp [hage]
  next => exact hfits

theorem sizeBound_pos (w : Wal) : 0 < w.sizeBound := by
  unfold sizeBound
  split
  · decide
  · omega

theorem gauged_writeLine (obj : Except String Text) (hf : Fits g m) :
    (gauge w).Allows Leaves (w.writeLine obj m) g := by
  cases obj with
  | error e => exact hf
  | ok line =>
  cases hm : m.active with
  | none =>
    simp only [writeLine, hm]
    exact hf
  | some h =>
  simp only [writeLine, hm]
  obtain ⟨hsize, hopened⟩ := hf (ne_of_eq_of_ne hm (Option.some_ne_none h))
  refine allows_ask_bind trivial (either (fun _ => hf) fun n => ?_)
  have hfits : Fits { g with size := g.size + n } { m with active := some h, size := m.size + n } :=
    fun _ => ⟨congrArg (· + n) hsize, hopened⟩
  change Allows _ _ (if _ then _ else _) { g with size := g.size + n }
  split
  next hbound =>
    refine gauged_sealActive hfits (.inl ?_)
    have hpos := sizeBound_pos w
    change 0 < g.size + n
    omega
  next => exact hfits

theorem gauged_appendLocked (obj : Except String Text) (hf : Fits g m) :
    (gauge w).Allows Leaves (w.appendLocked obj m) g := by
  refine (gauged_ensureActive hf).bind (fun g m hf => ?_) fun _ _ h => h
  refine (gauged_sealAged hf).bind (fun g m hf => ?_) fun _ _ h => h
  exact gauged_writeLine obj hf

theorem gauged_sealIfStaleLocked (hf : Fits g m) :
    (gauge w).Allows Leaves (w.sealIfStaleLocked m) g := by
  rw [sealIfStaleLocked]
  split
  next => exact hf
  next hm =>
    obtain ⟨hactive, hsize⟩ := not_or.mp hm
    obtain ⟨hfit, hopened⟩ := hf hactive
    refine allows_ask_bind trivial fun (t : Time) => ?_
    change Allows _ _ _ (g.read w t)
    rw [read_of_opened hopened]
    split
    · exact fun _ => ⟨hfit, hopened⟩
    · refine allows_wrap (gauged_sealActive (fun _ => ⟨hfit, hopened⟩) (.inl ?_)) fun _ _ _ h => h
      change 0 < g.size
      omega

theorem gauged_drainLocked (hf : Fits g m) : (gauge w).Allows Leaves (drainLocked m) g := by
  rw [drainLocked]
  split
  next hm =>
    refine allows_wrap (gauged_sealActive hf (.inl ?_)) fun _ _ _ h => h
    have hsize := (hf hm.1).1
    omega
  next => exact hf

theorem gauged_tickLocked (hf : Fits g m) : (gauge w).Allows Leaves (tickLocked m) g := by
  rw [tickLocked]
  cases hm : m.active with
  | none => exact hf
  | some h => exact allows_ask_bind trivial fun r => hf

/-! ## Operations -/

/-- Nothing is said of where an operation ends. -/
def Anywhere {α : Type} (_ : Gauge) (_ : Except String α) : Prop := True

theorem gauged_locked {body : Mem → Prog iface Fault Mem}
    (hbody : ∀ g m, Fits g m → (gauge w).Allows Leaves (body m) g) :
    (gauge w).Allows Anywhere (locked body) g := by
  refine allows_locked trivial (fun m => hbody _ m fun _ => ⟨rfl, rfl⟩) ?_ ?_
  · exact fun g m hout => ⟨hout, trivial⟩
  · exact fun g f hout => ⟨hout, trivial⟩

theorem gauged_closeWal : (gauge w).Allows Anywhere closeWal g := by
  refine allows_ask_bind trivial fun m => ?_
  split
  · exact allows_ask (fun _ => ⟨rfl, rfl⟩) fun _ => trivial
  · refine allows_ask_bind (fits_of_none rfl) fun _ => ?_
    cases hm : m.active with
    | none => exact trivial
    | some h =>
      refine allows_ask_bind trivial (either (fun _ => trivial) fun _ => ?_)
      refine allows_ask_bind trivial fun r => ?_
      cases r <;> exact trivial

theorem gauged_shipOne (n : Name) : (gauge w).Allows Anywhere (w.shipOne n) g := by
  refine allows_ask_bind trivial (either (fun _ => trivial) fun _ => ?_)
  refine allows_ask_bind trivial
    (either (fun _ => allows_ask_bind trivial fun r => trivial) fun _ => ?_)
  refine allows_ask_bind trivial fun removed => ?_
  refine allows_ask_bind trivial fun r => ?_
  cases removed <;> exact trivial

theorem gauged_ship : (gauge w).Allows Anywhere w.ship g :=
  allows_ship trivial (fun _ => trivial) fun n _ _ _ => gauged_shipOne n

theorem gauged_drain : (gauge w).Allows Anywhere w.drain g :=
  allows_drain (gauged_locked fun _ _ => gauged_drainLocked) (fun _ _ => gauged_ship)
    (fun _ _ => gauged_closeWal) (fun _ _ _ => trivial) fun _ _ _ => trivial

theorem gauged_prog (w : Wal) (j : Job) : (gauge w).Allows Anywhere (j.prog w) {} := by
  cases j with
  | append obj =>
    refine allows_ask_bind trivial fun r => ?_
    cases r with
    | some e => exact trivial
    | none => exact gauged_locked fun _ _ => gauged_appendLocked obj
  | sealIfStale => exact gauged_locked fun _ _ => gauged_sealIfStaleLocked
  | ship => exact gauged_ship
  | drain => exact gauged_drain
  | close => exact gauged_closeWal
  | tick => exact gauged_locked fun _ _ => gauged_tickLocked

end

/-! ## The condition and the property -/

/-- The segment that a recovery has created and not yet written. -/
def Seat.filling : Seat → Option Nat
  | .created _ h _ => some h
  | _ => none

/-- The log that the operation `i` is one of. -/
def walOf (w : World) (i : Nat) : Wal :=
  match w.tasks[i]? with
  | some (j, _) => j.1
  | none => {}

def gaugeOf (w : World) (i : Nat) : Gauge := (gauge (walOf w i)).after {} (own i w.log)

/-- The call does not come upon an empty segment.  The clock does not show the holder of the mutex
that an empty active segment is of age.  A recovery reads an active segment that has a line, and
does not give up before its own is written.  What is shipped is not being recovered. -/
def Shuns (w : World) (i : Nat) (luck : Luck) : Call → Prop
  | .now =>
    w.shared.holder = some i → (view w).seat.active ≠ none → (gaugeOf w i).size = 0 →
      ∀ o ∈ (gaugeOf w i).openedAt, luck.now - o < (walOf w i).ageBound
  | .readFile n => ∀ k ∈ w.shared.disk.file n, '\n' ∈ w.shared.disk.bytes k
  | .unlock _ => (view w).seat.filling = none
  | .put _ h => (view w).seat.filling ≠ some h
  | _ => True

/-- No call comes upon an empty segment, and the process does not stop while a sealed segment has no
durable line. -/
def Filling (w : World) : Event → Prop
  | .act i luck => ∀ c ∈ nextCall w i, Shuns w i luck c
  | .crash _ =>
    ∀ n ∈ w.shared.disk.names, isSealed n = true → ∀ k ∈ w.shared.disk.file n,
      '\n' ∈ (w.shared.disk.bytes k).take (w.shared.disk.synced k)
  | _ => True

instance (w : World) (i : Nat) (luck : Luck) : (c : Call) → Decidable (Shuns w i luck c)
  | .now =>
    inferInstanceAs (Decidable (w.shared.holder = some i → (view w).seat.active ≠ none →
      (gaugeOf w i).size = 0 →
        ∀ o ∈ (gaugeOf w i).openedAt, luck.now - o < (walOf w i).ageBound))
  | .readFile n =>
    inferInstanceAs (Decidable (∀ k ∈ w.shared.disk.file n, '\n' ∈ w.shared.disk.bytes k))
  | .unlock _ => inferInstanceAs (Decidable ((view w).seat.filling = none))
  | .put _ h => inferInstanceAs (Decidable ((view w).seat.filling ≠ some h))
  | .ctxErr | .lock | .mkdirAll | .readDir | .stat _ | .create _ | .write _ _ | .sync _ | .close _
  | .rename _ _ | .remove _ | .openFile _ => .isTrue trivial

instance (w : World) : (e : Event) → Decidable (Filling w e)
  | .spawn _ | .act _ _ | .crash _ | .reopen _ => by
    dsimp only [Filling]
    infer_instance

/-- Every sealed segment has a line, but for one that a recovery has just created, and so has
everything the sink has taken. -/
structure NoEmpty (w : World) : Prop where
  sealed : ∀ {n : Name} {k : Nat}, isSealed n = true → w.shared.disk.file n = some k →
    texts '\n' (w.shared.disk.bytes k) ≠ [] ∨
      ∃ i b content, (phase w i).point = .inside (.created b k content)
  shipped : ∀ p ∈ w.shared.sink, texts '\n' p.2 ≠ []

/-! ## The invariant -/

/-- What a filling run keeps of a view, where the active segment has the size `size`. -/
structure Filled (v : View) (size : Nat) : Prop where
  live : ∀ {k}, Live v k → ('\n' ∈ v.disk.bytes k ∨ v.seat.filling = some k) ∧
    v.disk.file activeSegmentName ≠ some k ∧ k < v.disk.next
  orphan : ∀ {b raw}, v.seat = .orphan b raw → '\n' ∈ raw
  created : ∀ {b h content}, v.seat = .created b h content → '\n' ∈ content
  opened : ∀ {h}, v.seat.active = some h →
    v.disk.file activeSegmentName = some h ∧ (0 < size → '\n' ∈ v.disk.bytes h)
  sink : ∀ p ∈ v.sink, '\n' ∈ p.2

section

variable {v v' : View} {size size' : Nat} {t : Seat} {n : Name} {i h b k : Nat} {bs : List Char}

theorem mem_write {d : Disk Name Char} (hk : '\n' ∈ d.bytes k) (h : Nat) (bs : List Char) :
    '\n' ∈ (d.write h bs).bytes k := by
  by_cases hkh : k = h
  · subst hkh
    rw [bytes_write_self]
    exact mem_append_left _ hk
  · rwa [bytes_write_of_ne hkh]

theorem Filled.sit (hf : Filled v size) (hfill : v.seat.filling = none)
    (ho : ∀ b raw, t = .orphan b raw → '\n' ∈ raw) (hc : ∀ b f bs, t ≠ .created b f bs)
    (ha : ∀ f, t.active = some f → v.seat.active = some f ∧ (0 < size' → 0 < size)) :
    Filled { v with seat := t } size' where
  live hk := by
    obtain ⟨hmem, hrest⟩ := hf.live (Live.of_sit hk hc)
    rw [hfill] at hmem
    exact ⟨.inl (hmem.resolve_right nofun), hrest⟩
  orphan hr := ho _ _ hr
  created hc' := absurd hc' (hc _ _ _)
  opened hf' := by
    obtain ⟨hactive, hsize⟩ := ha _ hf'
    exact ⟨(hf.opened hactive).1, fun hpos => (hf.opened hactive).2 (hsize hpos)⟩
  sink := hf.sink

theorem Filled.resize (hf : Filled v size) (hs : v.seat.active ≠ none → 0 < size' → 0 < size) :
    Filled v size' :=
  { hf with
    opened ha := ⟨(hf.opened ha).1, fun hpos => (hf.opened ha).2 (hs (by rw [ha]; nofun) hpos)⟩ }

theorem Filled.write (hf : Filled v size) (h : Nat) (bs : List Char) :
    Filled { v with disk := v.disk.write h bs } size :=
  { hf with
    live hk := by
      obtain ⟨hmem, hrest⟩ := hf.live hk
      exact ⟨hmem.imp_left fun hm => mem_write hm h bs, hrest⟩
    opened ha := ⟨(hf.opened ha).1, fun hpos => mem_write ((hf.opened ha).2 hpos) h bs⟩ }

theorem Filled.sync (hf : Filled v size) (h : Nat) :
    Filled { v with disk := v.disk.sync h } size :=
  { hf with }

theorem Filled.dock (hf : Filled v size) {d : Dock} (hd : ∀ n k, d = .opened n k → Live v k) :
    Filled { v with docks := update v.docks i d } size :=
  { hf with
    live hk := hf.live (Live.of_dock hk hd) }

theorem Filled.remove (hf : Filled v size) (hn : n ≠ activeSegmentName ∨ v.seat.active = none) :
    Filled { v with disk := v.disk.remove n } size :=
  { hf with
    live hk := by
      obtain ⟨hmem, ha, hlt⟩ := hf.live (Live.of_remove hk)
      exact ⟨hmem, fun hfile => ha (file_of_remove hfile), hlt⟩
    opened := by
      intro f ha
      obtain ⟨hfile, hsize⟩ := hf.opened ha
      rcases hn with hn | hn
      · exact ⟨(file_remove_of_ne (Ne.symm hn)).trans hfile, hsize⟩
      · exact absurd (hn.symm.trans ha) nofun }

theorem Filled.live_of_create (hf : Filled v size) (hfill : v.seat.filling = none)
    (hk : Live v k) (hne : k ≠ (v.disk.create n).1) :
    '\n' ∈ (v.disk.create n).2.bytes k ∧ k < (v.disk.create n).2.next := by
  obtain ⟨hmem, -, hlt⟩ := hf.live hk
  rw [hfill] at hmem
  rw [bytes_create_of_ne hne]
  exact ⟨hmem.resolve_right nofun, Nat.lt_of_lt_of_le hlt next_le_create⟩

theorem Filled.createSegment (hf : Filled v size) (hw : v.disk.Wf) {raw : List Char}
    (hseat : v.seat = .orphan b raw) (hn : isSealed n = true) :
    Filled { v with
      disk := (v.disk.create n).2
      sealed := (n, (v.disk.create n).1) :: v.sealed
      seat := .created b (v.disk.create n).1 (complete '\n' raw) } size' := by
  have hfill : v.seat.filling = none := by
    rw [hseat]
    rfl
  have hactive : (v.disk.create n).2.file activeSegmentName = v.disk.file activeSegmentName :=
    file_create_of_ne (ne_active_of_sealed hn).symm
  have hnew : v.disk.file activeSegmentName ≠ some (v.disk.create n).1 := fun hfile =>
    hw.create_ne (ne_active_of_sealed hn).symm hfile rfl
  constructor
  · intro k hk
    by_cases hkn : k = (v.disk.create n).1
    · subst hkn
      exact ⟨.inr rfl, by rwa [hactive], hw.create_lt⟩
    · have hlive := (Live.of_createSegment hk).resolve_left hkn
      obtain ⟨hmem, hlt⟩ := hf.live_of_create hfill hlive hkn
      exact ⟨.inl hmem, by rw [hactive]; exact (hf.live hlive).2.1, hlt⟩
  · nofun
  · intro b' h content hc
    cases hc
    exact mem_complete (hf.orphan hseat)
  · nofun
  · exact hf.sink

theorem Filled.openActive (hf : Filled v size) (hseat : v.seat = .cleared b) :
    Filled { v with
      disk := (v.disk.create activeSegmentName).2
      seat := .held (some (v.disk.create activeSegmentName).1) b } 0 := by
  have hfill : v.seat.filling = none := by
    rw [hseat]
    rfl
  constructor
  · intro k hk
    have hlive := Live.of_openActive hk nofun
    obtain ⟨-, ha, hlt⟩ := hf.live hlive
    have hne := ne_create ha hlt
    obtain ⟨hmem, hlt'⟩ := hf.live_of_create hfill hlive hne
    refine ⟨.inl hmem, ?_, hlt'⟩
    rw [file_create_self, Ne, Option.some.injEq]
    exact hne.symm
  · nofun
  · nofun
  · rintro h ⟨⟩
    exact ⟨file_create_self, fun hpos => absurd hpos (Nat.lt_irrefl 0)⟩
  · exact hf.sink

theorem Filled.fill (hf : Filled v size) (hseat : v.seat = .created b h bs) :
    Filled { v with disk := v.disk.write h bs, seat := .written b h } size' := by
  have hbs := hf.created hseat
  constructor
  · intro k hk
    have hlive : Live v k := Live.of_sit (v := { v with disk := v.disk.write h bs }) hk nofun
    obtain ⟨hmem, hrest⟩ := hf.live hlive
    refine ⟨.inl ?_, hrest⟩
    rcases hmem with hmem | hfill
    · exact mem_write hmem h bs
    · rw [hseat] at hfill
      cases hfill
      rw [bytes_write_self]
      exact mem_append_right _ hbs
  · nofun
  · nofun
  · nofun
  · exact hf.sink

theorem Filled.writeLine (hf : Filled v size) (hseat : v.seat = .held (some h) b) (line : Text) :
    Filled { v with disk := v.disk.write h line.encode } size' := by
  have hwritten := hf.write h line.encode
  refine ⟨hwritten.live, hf.orphan, hf.created, ?_, hf.sink⟩
  intro f ha
  obtain ⟨hfile, -⟩ := hf.opened ha
  have hactive : v.seat.active = some h := by
    rw [hseat]
    rfl
  cases hactive.symm.trans ha
  refine ⟨hfile, fun _ => ?_⟩
  rw [bytes_write_self]
  exact mem_append_right _ (mem_append_right _ mem_cons_self)

theorem Filled.sealActive (hf : Filled v size) (hw : v.disk.Wf) (hseat : v.seat = .synced h b)
    (hfile : v.disk.file activeSegmentName = some k) (hn : isSealed n = true) (hsize : 0 < size) :
    Filled { v with
      disk := v.disk.rename k activeSegmentName n
      sealed := (n, k) :: v.sealed
      seat := .cleared (b + 1) } size' := by
  have hfill : v.seat.filling = none := by
    rw [hseat]
    rfl
  obtain ⟨hactive, hmem⟩ := hf.opened (by rw [hseat]; rfl)
  obtain rfl : k = h := Option.some.inj (hfile.symm.trans hactive)
  have hgone : (v.disk.rename k activeSegmentName n).file activeSegmentName = none :=
    file_rename_src (ne_active_of_sealed hn).symm
  constructor
  · intro k' hk'
    have hnone : (v.disk.rename k activeSegmentName n).file activeSegmentName ≠ some k' := by
      rw [hgone]
      nofun
    rcases Live.of_sealActive hk' nofun with rfl | hlive
    · exact ⟨.inl (hmem hsize), hnone, hw.below hfile⟩
    · obtain ⟨hmem', -, hlt⟩ := hf.live hlive
      rw [hfill] at hmem'
      exact ⟨.inl (hmem'.resolve_right nofun), hnone, hlt⟩
  · nofun
  · nofun
  · nofun
  · exact hf.sink

theorem Filled.put (hf : Filled v size) {key : String} (hdock : v.docks i = .opened n h)
    (hfill : v.seat.filling ≠ some h) :
    Filled { v with
      sink := v.sink ++ [(key, v.disk.bytes h)]
      docks := update v.docks i (.sent n h) } size := by
  have hdocked := hf.dock (i := i) (d := .sent n h) nofun
  refine { hdocked with sink := ?_ }
  intro p hp
  rcases mem_append.mp hp with hp | hp
  · exact hf.sink p hp
  · rw [mem_singleton.mp hp]
    exact (hf.live (.inr (.inl ⟨i, n, hdock⟩))).1.resolve_right hfill

/-! ## Moves -/

/-- What a call must not come upon, on a view where the active segment has the size `size`. -/
def Shy (v : View) (size : Nat) : Call → Prop
  | .readFile n => ∀ k ∈ v.disk.file n, '\n' ∈ v.disk.bytes k
  | .unlock _ => v.seat.filling = none
  | .put _ h => v.seat.filling ≠ some h
  | .rename _ _ => 0 < size
  | _ => True

variable {j : Job} {luck : Luck} {c : Call} {wrote wrote' failed : Bool} {holder : Option Nat}

/-- A move keeps the invariant, where the size grows only with a line and is none in a segment that
was just opened. -/
theorem Filled.moves (hf : Filled v size) (hw : v.disk.Wf)
    (hm : Moves j luck i holder failed v c wrote wrote' v') (hc : Shy v size c)
    (hsize : v'.seat.active ≠ none → 0 < size' →
      (v.seat.active ≠ none ∧ 0 < size) ∨ wrote ≠ wrote') :
    Filled v' size' := by
  have hsame (hv : v'.seat.active ≠ none → 0 < size' → wrote = wrote') :
      v'.seat.active ≠ none → 0 < size' → 0 < size := fun ha hpos =>
    ((hsize ha hpos).resolve_right fun hne => hne (hv ha hpos)).2
  cases hm with
  | idle => exact hf.resize (hsame fun _ _ => rfl)
  | leave rests _ =>
    refine hf.sit hc nofun nofun fun f ha => ⟨rests.1.symm.trans ha, ?_⟩
    exact hsame (fun _ _ => rfl) (by rw [ha]; nofun)
  | shut _ closed =>
    exact hf.sit hc nofun nofun fun f ha => absurd (closed.symm.trans ha) nofun
  | count _ seat => exact hf.sit (by rw [seat]; rfl) nofun nofun nofun
  | absent seat _ => exact hf.sit (by rw [seat]; rfl) nofun nofun nofun
  | found seat _ => exact hf.sit (by rw [seat]; rfl) nofun nofun nofun
  | readOrphan seat file =>
    refine hf.sit (by rw [seat]; rfl) ?_ nofun nofun
    rintro b raw ⟨⟩
    exact hc _ file
  | createSegment seat named => exact hf.createSegment hw seat named
  | openActive seat =>
    refine (hf.openActive seat).resize fun ha hpos => ?_
    rcases hsize ha hpos with ⟨hnone, -⟩ | hne
    · rw [seat] at hnone
      exact absurd rfl hnone
    · exact absurd rfl hne
  | fill seat _ => exact hf.fill seat
  | writeLine seat _ => exact hf.writeLine seat _
  | short _ => exact (hf.write _ _).resize (hsame fun _ _ => rfl)
  | syncActive seat =>
    have hseat (h : Nat) : ({ v with disk := v.disk.sync h } : View).seat = v.seat := rfl
    refine (hf.sync _).sit (by rw [hseat, seat]; rfl) nofun nofun fun f ha => ⟨?_, ?_⟩
    · rw [hseat, seat]
      exact ha
    · exact hsame (fun _ _ => rfl) nofun
  | syncSegment seat =>
    refine (hf.sync _).sit ?_ nofun nofun nofun
    rw [seat]
    rfl
  | syncClosed => exact (hf.sync _).resize (hsame fun _ _ => rfl)
  | sealActive seat file named => exact hf.sealActive hw seat file named hc
  | clear seat =>
    exact (hf.remove (.inr (by rw [seat]; rfl))).sit (by rw [seat]; rfl) nofun nofun nofun
  | openSealed _ named file =>
    refine (hf.dock ?_).resize (hsame fun _ _ => rfl)
    rintro n k ⟨⟩
    exact .inl ⟨_, named, file⟩
  | put dock _ => exact (hf.put dock hc).resize (hsame fun _ _ => rfl)
  | removeSealed _ named =>
    exact ((hf.remove (.inl (ne_active_of_sealed named))).dock (d := .idle) nofun).resize
      (hsame fun _ _ => rfl)
  | keepSealed _ _ | undock _ => exact (hf.dock (d := .idle) nofun).resize (hsame fun _ _ => rfl)

theorem Moves.opened (hm : Moves j luck i holder failed v c wrote wrote' v')
    (ha : v'.seat.active = some h) : v.seat.active = some h ∨
      (c = .create activeSegmentName ∧ (∃ b, v.seat = .cleared b) ∧
        h = (v.disk.create activeSegmentName).1) := by
  cases hm with
  | leave rests _ => exact .inl (rests.1.symm.trans ha)
  | shut _ closed => exact absurd (closed.symm.trans ha) nofun
  | syncActive seat =>
    rw [seat]
    exact .inl ha
  | openActive seat =>
    cases ha
    exact .inr ⟨rfl, ⟨_, seat⟩, rfl⟩
  | count _ _ | absent _ _ | found _ _ | readOrphan _ _ | createSegment _ _ | fill _ _
  | syncSegment _ | sealActive _ _ _ | clear _ => cases ha
  | _ => exact .inl ha

theorem Filled.crash (hf : Filled v size) {keep : Nat → Nat}
    (hsync : ∀ n ∈ v.disk.names, isSealed n = true → ∀ k ∈ v.disk.file n,
      '\n' ∈ (v.disk.bytes k).take (v.disk.synced k)) :
    Filled { v with
      disk := v.disk.crash keep
      seat := .held none 0
      docks := fun _ => .idle } size' where
  live := by
    rintro k (⟨n, hn, hk⟩ | ⟨i, n, hk⟩ | ⟨b, content, hk⟩)
    · obtain ⟨-, hrest⟩ := hf.live (.inl ⟨n, hn, hk⟩)
      refine ⟨.inl ?_, hrest⟩
      have hdurable := hsync n (mem_names.mpr ⟨k, hk⟩) hn k hk
      exact (take_subset_take_left _ (Nat.le_max_left _ _)) hdurable
    · cases hk
    · cases hk
  orphan := nofun
  created := nofun
  opened := nofun
  sink := hf.sink

end

/-! ## Runs -/

/-- The size of the active segment: the field, or what the holder of the mutex has for it. -/
def sizeOf (w : World) : Nat :=
  match w.shared.holder with
  | none => w.shared.mem.size
  | some i => (gaugeOf w i).size

/-- What a filling run keeps. -/
structure Measured (w : World) : Prop where
  base : Base w
  filled : Filled (view w) (sizeOf w)
  aged : ∀ {i}, w.shared.holder = some i → (view w).seat.active ≠ none →
    (gaugeOf w i).aged = true → 0 < (gaugeOf w i).size

section

variable {w w' : World} {e : Event} {i : Nat} {luck : Luck} {c : Call} {r : iface.Answer c}
  {s s' : Store}

variable {j : Wal × Job} {rest : iface.Answer c → Prog iface String Unit}

theorem Base.gauged (hb : Base w)
    (hi : w.tasks[i]? = some (j, .call c rest)) : (gaugeOf w i).Permits c := by
  have hwal : walOf w i = j.1 := by rw [walOf, hi]
  rw [gaugeOf, hwal]
  exact ((gauged_prog j.1 j.2).steps (hb.ran.steps hi)).1.1

/-- The answer is read off the gauge of the operation that made the call, and no other. -/
theorem gaugeOf_act {q q' : Prog iface String Unit}
    (hi : w.tasks[i]? = some (j, q)) (htasks : w'.tasks = w.tasks.set i (j, q'))
    (hlog : w'.log = (i, ⟨c, r⟩) :: w.log) :
    gaugeOf w' = update (gaugeOf w) i ((gaugeOf w i).next (walOf w i) c r) := by
  have hwal (k : Nat) : walOf w' k = walOf w k := by
    rw [walOf, walOf, htasks]
    by_cases hk : i = k
    · subst hk
      rw [List.getElem?_set_self (List.getElem?_eq_some_iff.mp hi).1, hi]
    · rw [getElem?_set_ne hk]
  unfold gaugeOf
  simp only [hwal, hlog]
  exact own_cons_update (after_snoc _ _ _ _ _)

theorem answer_mutex {α : Type} {x : Option (α × Store)} {r : Except FsError α} {t : Store}
    (h : some (luck.answer t x) = some (r, s')) (ht : t.holder = s.holder ∧ t.mem = s.mem)
    (hx : ∀ p, x = some p → p.2.holder = s.holder ∧ p.2.mem = s.mem) :
    s'.holder = s.holder ∧ s'.mem = s.mem := by
  rcases answer_cases h with ⟨-, e, -, -, rfl⟩ | ⟨-, a, hx', -⟩ | ⟨-, -, e, -, -, rfl⟩
  · exact ht
  · exact hx _ hx'
  · exact ht

theorem record_mutex (s : Store) (n : Name) (k : Nat) :
    (s.record n k).holder = s.holder ∧ (s.record n k).mem = s.mem := by
  rw [Store.record]
  split <;> exact ⟨rfl, rfl⟩

/-- The mutex is taken, or given back with the fields, or neither. -/
theorem serve_mutex (hs : serve i luck s c = some (r, s')) :
    (s.holder = none ∧ s'.holder = some i ∧ (⟨c, r⟩ : Answered iface) = ⟨.lock, s.mem⟩) ∨
      (∃ m, c = .unlock m ∧ s'.holder = none ∧ s'.mem = m) ∨
      (c ≠ .lock ∧ s'.holder = s.holder ∧ s'.mem = s.mem) := by
  have hfound {α β : Type} {x : Option α} {f : α → β × Store}
      (hf : ∀ a, (f a).2.holder = s.holder ∧ (f a).2.mem = s.mem) (p : β × Store)
      (hp : x.map f = some p) : p.2.holder = s.holder ∧ p.2.mem = s.mem := by
    obtain ⟨a, -, rfl⟩ := Option.map_eq_some_iff.mp hp
    exact hf a
  cases c with
  | ctxErr | now =>
    cases hs
    exact .inr (.inr ⟨by rintro ⟨⟩, rfl, rfl⟩)
  | lock =>
    simp only [serve] at hs
    split at hs
    next hnone =>
      cases hs
      exact .inl ⟨hnone, rfl, rfl⟩
    next => cases hs
  | unlock m =>
    cases hs
    exact .inr (.inl ⟨m, rfl, rfl, rfl⟩)
  | mkdirAll | sync _ | close _ | put _ _ =>
    refine .inr (.inr ⟨by rintro ⟨⟩, answer_mutex hs ⟨rfl, rfl⟩ ?_⟩)
    rintro p ⟨⟩
    exact ⟨rfl, rfl⟩
  | create n =>
    refine .inr (.inr ⟨by rintro ⟨⟩, answer_mutex (serve_create hs).2 ⟨rfl, rfl⟩ ?_⟩)
    rintro p ⟨⟩
    exact record_mutex _ n _
  | rename src dst =>
    refine .inr (.inr ⟨by rintro ⟨⟩, ?_⟩)
    refine answer_mutex (serve_rename hs).2 ⟨rfl, rfl⟩ (hfound fun k => ?_)
    exact record_mutex _ dst k
  | stat _ | readFile _ | remove _ | openFile _ =>
    exact .inr (.inr ⟨by rintro ⟨⟩, answer_mutex hs ⟨rfl, rfl⟩ (hfound fun _ => ⟨rfl, rfl⟩)⟩)
  | readDir =>
    refine .inr (.inr ⟨by rintro ⟨⟩, answer_mutex hs ⟨rfl, rfl⟩ ?_⟩)
    intro p hp
    split at hp
    · cases hp
      exact ⟨rfl, rfl⟩
    · cases hp
  | write h bs =>
    refine .inr (.inr ⟨by rintro ⟨⟩, answer_mutex hs ?_ ?_⟩)
    · split <;> exact ⟨rfl, rfl⟩
    · rintro p ⟨⟩
      exact ⟨rfl, rfl⟩

theorem Gauge.next_cases (wal : Wal) (g : Gauge) (c : Call) (r : iface.Answer c) : (c = .lock) ∨
    (∃ n k, (⟨c, r⟩ : Answered iface) = ⟨.create n, (.ok k : Except FsError Nat)⟩ ∧
      g.next wal c r = {}) ∨
    (∃ t, (⟨c, r⟩ : Answered iface) = ⟨.now, (t : Time)⟩ ∧ g.next wal c r = g.read wal t) ∨
    (∃ h bs n, (⟨c, r⟩ : Answered iface) = ⟨.write h bs, (.ok n : Except FsError Nat)⟩ ∧
      g.next wal c r = { g with size := g.size + n }) ∨
    (g.next wal c r = g ∧
      ∀ n k, (⟨c, r⟩ : Answered iface) ≠ ⟨.create n, (.ok k : Except FsError Nat)⟩) := by
  unfold Gauge.next
  split
  next => exact .inl rfl
  next n k => exact .inr (.inl ⟨n, k, rfl, rfl⟩)
  next t => exact .inr (.inr (.inl ⟨t, rfl, rfl⟩))
  next h bs n => exact .inr (.inr (.inr (.inl ⟨h, bs, n, rfl, rfl⟩)))
  next _ hcreate _ _ =>
    refine .inr (.inr (.inr (.inr ⟨rfl, fun n k he => ?_⟩)))
    cases he
    exact hcreate n k rfl HEq.rfl

theorem active_of_act (hpermits : (phase w i).Permits j.2 c)
    (hphase : phase w' = update (phase w) i ((phase w i).next c r))
    (hmoves : Moves j.2 luck i w.shared.holder (phase w i).failed (view w) c (phase w i).wrote
      ((phase w i).next c r).wrote (view w'))
    (hx : Exclusive w'.shared (phase w')) (ha : (view w').seat.active ≠ none) :
    (view w).seat.active ≠ none ∨ ∃ n k,
      (⟨c, r⟩ : Answered iface) = ⟨.create n, (.ok k : Except FsError Nat)⟩ := by
  obtain ⟨h, hh⟩ := Option.ne_none_iff_exists'.mp ha
  rcases hmoves.opened hh with hbefore | ⟨rfl, -, -⟩
  · exact .inl (by rw [hbefore]; nofun)
  · cases r with
    | ok k => exact .inr ⟨_, k, rfl⟩
    | error e =>
      -- an operation that could not open a segment stays where it is
      have hstay {t : Seat} (hp : (phase w i).point = .inside t) : (view w').seat = t := by
        refine seatOf_inside hx (i := i) ?_
        rw [hphase, update_self]
        change (phase w i).point.next _ _ = _
        rw [hp]
        rfl
      obtain ⟨b, raw, t, hp, -⟩ | ⟨b, hp, -⟩ := hpermits
      · rw [hstay hp] at ha
        exact absurd rfl ha
      · rw [hstay hp] at ha
        exact absurd rfl ha

theorem sizeOf_holder (hh : w.shared.holder = some i) : sizeOf w = (gaugeOf w i).size := by
  rw [sizeOf, hh]

theorem sizeOf_free (hh : w.shared.holder = none) : sizeOf w = w.shared.mem.size := by
  rw [sizeOf, hh]

/-- What a gauge permits, the condition and the invariant make of the next call. -/
theorem Measured.shy (hm : Measured w) (hi : w.tasks[i]? = some (j, .call c rest))
    (hpermits : (phase w i).Permits j.2 c) (hshuns : Shuns w i luck c) :
    Shy (view w) (sizeOf w) c := by
  have hgauged := hm.base.gauged hi
  cases c with
  | rename src dst =>
    obtain ⟨-, h, b, t, hp, -⟩ := hpermits
    have hh := (hm.base.exclusive i).mp ⟨_, hp⟩
    have hseat : (view w).seat = .synced h b := seatOf_inside hm.base.exclusive hp
    rw [sizeOf_holder hh]
    rcases hgauged with hpos | haged
    · exact hpos
    · exact hm.aged hh (by rw [hseat]; nofun) haged
  | readFile _ | unlock _ | put _ _ => exact hshuns
  | _ => exact trivial

theorem Base.holder_of_create (hb : Base w) {j : Job} {n : Name}
    (hpermits : (phase w i).Permits j (.create n)) : w.shared.holder = some i := by
  obtain ⟨b, raw, t, hp, -⟩ | ⟨b, hp, -⟩ := hpermits
  · exact (hb.exclusive i).mp ⟨_, hp⟩
  · exact (hb.exclusive i).mp ⟨_, hp⟩

theorem Base.wrote_of_write (hb : Base w) {j : Job} {h n : Nat} {bs : List Char}
    (hpermits : (phase w i).Permits j (.write h bs)) (ha : (view w).seat.active ≠ none) :
    (phase w i).wrote ≠ ((phase w i).next (.write h bs) (.ok n : Except FsError Nat)).wrote := by
  obtain ⟨b, line, hp, hw, -, -⟩ | ⟨b, hp⟩ := hpermits
  · change (phase w i).wrote ≠
      (phase w i).wroteAfter (.write h bs) (.ok n : Except FsError Nat)
    simp only [Phase.wroteAfter, hp, hw]
    nofun
  · have hseat : (view w).seat = .created b h bs := seatOf_inside hb.exclusive hp
    rw [hseat] at ha
    exact absurd rfl ha

theorem Measured.grows (hm : Measured w) (hi : w.tasks[i]? = some (j, .call c rest))
    (hpermits : (phase w i).Permits j.2 c)
    (hserve : serve i luck w.shared c = some (r, w'.shared))
    (hgauge : gaugeOf w' = update (gaugeOf w) i ((gaugeOf w i).next (walOf w i) c r))
    (hactive : (view w').seat.active ≠ none → (view w).seat.active ≠ none ∨ ∃ n k,
      (⟨c, r⟩ : Answered iface) = ⟨.create n, (.ok k : Except FsError Nat)⟩)
    (ha : (view w').seat.active ≠ none) (hpos : 0 < sizeOf w') :
    ((view w).seat.active ≠ none ∧ 0 < sizeOf w) ∨
      (phase w i).wrote ≠ ((phase w i).next c r).wrote := by
  rcases serve_mutex hserve with ⟨hfree, hh, hcall⟩ | ⟨m, rfl, hfree, hmem⟩ | ⟨hlock, hh, hmem⟩
  · -- the holder takes the size from the field
    cases hcall
    rw [sizeOf_holder hh, hgauge, update_self] at hpos
    rw [sizeOf_free hfree]
    refine .inl ⟨(hactive ha).resolve_right ?_, hpos⟩
    rintro ⟨n, k, hcall⟩
    cases hcall
  · -- and gives it back
    have hfits : Fits (gaugeOf w i) m := hm.base.gauged hi
    obtain ⟨-, t, hp, -⟩ := hpermits
    have hseat : (view w').seat = .held m.active m.baseOffset := by
      change seatOf w'.shared (phase w') = _
      simp only [seatOf, hfree, hmem]
    rw [hseat] at ha
    rw [sizeOf_free hfree, hmem, (hfits ha).1] at hpos
    rw [sizeOf_holder ((hm.base.exclusive i).mp ⟨t, hp⟩)]
    rw [hseat] at hactive
    refine .inl ⟨(hactive ha).resolve_right ?_, hpos⟩
    rintro ⟨n, k, hcall⟩
    cases hcall
  · have hbefore : (view w).seat.active ≠ none := by
      refine (hactive ha).resolve_right ?_
      rintro ⟨n, k, hcall⟩
      cases hcall
      rw [sizeOf_holder (hh.trans (hm.base.holder_of_create hpermits)), hgauge, update_self] at hpos
      exact Nat.lt_irrefl 0 hpos
    cases hk : w.shared.holder with
    | none =>
      rw [sizeOf_free (hh.trans hk), hmem, ← sizeOf_free hk] at hpos
      exact .inl ⟨hbefore, hpos⟩
    | some k =>
    rw [sizeOf_holder (hh.trans hk), hgauge] at hpos
    rw [sizeOf_holder hk]
    by_cases hki : k = i
    · subst hki
      rw [update_self] at hpos
      rcases Gauge.next_cases (walOf w k) (gaugeOf w k) c r with hc | ⟨n, f, -, hnext⟩ |
        ⟨t, -, hnext⟩ | ⟨h, bs, n, hcall, -⟩ | ⟨hnext, -⟩
      · exact absurd hc hlock
      · rw [hnext] at hpos
        exact absurd hpos (Nat.lt_irrefl 0)
      · rw [hnext, size_read] at hpos
        exact .inl ⟨hbefore, hpos⟩
      · cases hcall
        exact .inr (hm.base.wrote_of_write hpermits hbefore)
      · rw [hnext] at hpos
        exact .inl ⟨hbefore, hpos⟩
    · rw [update_of_ne hki] at hpos
      exact .inl ⟨hbefore, hpos⟩

/-- A segment has a size when it comes of age, where the clock is as the condition says. -/
theorem Measured.ages (hm : Measured w) (hpermits : (phase w i).Permits j.2 c)
    (hserve : serve i luck w.shared c = some (r, w'.shared)) (hshuns : Shuns w i luck c)
    (hgauge : gaugeOf w' = update (gaugeOf w) i ((gaugeOf w i).next (walOf w i) c r))
    (hactive : (view w').seat.active ≠ none → (view w).seat.active ≠ none ∨ ∃ n k,
      (⟨c, r⟩ : Answered iface) = ⟨.create n, (.ok k : Except FsError Nat)⟩)
    {k : Nat} (hk : w'.shared.holder = some k) (ha : (view w').seat.active ≠ none)
    (haged : (gaugeOf w' k).aged = true) : 0 < (gaugeOf w' k).size := by
  rcases serve_mutex hserve with ⟨-, hh, hcall⟩ | ⟨m, rfl, hfree, -⟩ | ⟨hlock, hh, -⟩
  · cases hcall
    cases hh.symm.trans hk
    rw [hgauge, update_self] at haged
    cases haged
  · cases hfree.symm.trans hk
  · have hholder : w.shared.holder = some k := hh.symm.trans hk
    by_cases hki : k = i
    · subst hki
      rw [hgauge, update_self] at haged ⊢
      rcases Gauge.next_cases (walOf w k) (gaugeOf w k) c r with hc | ⟨n, f, -, hnext⟩ |
        ⟨t, hcall, hnext⟩ | ⟨h, bs, n, hcall, hnext⟩ | ⟨hnext, hcreate⟩
      · exact absurd hc hlock
      · rw [hnext] at haged
        cases haged
      · cases hcall
        obtain rfl : luck.now = t := congrArg Prod.fst (Option.some.inj hserve)
        have hbefore := (hactive ha).resolve_right nofun
        rw [hnext] at haged ⊢
        rw [size_read]
        by_contra hzero
        have hsize : (gaugeOf w k).size = 0 := by omega
        -- the clock does not show that an empty segment is of age, so it was known before
        have hyoung := hshuns hholder hbefore hsize
        refine hzero (hm.aged hholder hbefore ?_)
        rw [Gauge.read] at haged
        split at haged
        next => exact haged
        next o ho =>
          have hlt := hyoung o ho
          rcases Bool.or_eq_true_iff.mp haged with h | h
          · exact h
          · have hle := of_decide_eq_true h
            exact absurd hlt (Int.not_lt.mpr hle)
      · cases hcall
        have hbefore := (hactive ha).resolve_right nofun
        exact Nat.lt_of_lt_of_le (hm.aged hholder hbefore haged) (Nat.le_add_right _ _)
      · have hbefore := (hactive ha).resolve_right fun ⟨n, f, hcall⟩ => hcreate n f hcall
        rw [hnext] at haged ⊢
        exact hm.aged hholder hbefore haged
    · have hbefore : (view w).seat.active ≠ none := by
        refine (hactive ha).resolve_right ?_
        rintro ⟨n, f, hcall⟩
        cases hcall
        cases hholder.symm.trans (hm.base.holder_of_create hpermits)
        exact hki rfl
      rw [hgauge, update_of_ne hki] at haged ⊢
      exact hm.aged hholder hbefore haged

theorem Measured.act (hm : Measured w) (hc : Filling w (.act i luck))
    (hs : w.act (serve i luck) i = some w') : Measured w' := by
  obtain ⟨hb', -⟩ := turn_of_act hm.base hs
  obtain ⟨j, c, rest, r, hi, hpermits, hserve, htasks, hlog, hphase, hmoves, hx⟩ :=
    moves_of_act hm.base hs
  have hgauge := gaugeOf_act hi htasks hlog
  have hshuns := hc c (nextCall_eq hi)
  have hactive := active_of_act hpermits hphase hmoves hx
  refine ⟨hb', hm.filled.moves hm.base.wf hmoves (hm.shy hi hpermits hshuns) ?_, ?_⟩
  · exact hm.grows hi hpermits hserve hgauge hactive
  · exact hm.ages hpermits hserve hshuns hgauge hactive

/-- An operation that was just started has read nothing. -/
theorem gaugeOf_spawn (hb : Base w) {task : (Wal × Job) × Prog iface String Unit}
    (htasks : w'.tasks = w.tasks ++ [task]) (hlog : w'.log = w.log) : gaugeOf w' = gaugeOf w := by
  funext k
  by_cases hk : k < w.tasks.length
  · rw [gaugeOf, gaugeOf, walOf, walOf, htasks, hlog, getElem?_append_left hk]
  · rw [gaugeOf, gaugeOf, hlog, hb.ran.fresh (Nat.le_of_not_lt hk)]
    rfl

theorem Measured.spawn (hm : Measured w) (k : Job)
    (hs : machine.step w (.spawn k) = some w') : Measured w' := by
  obtain ⟨hb', -⟩ := turn_of_step hm.base hs
  cases hs
  have hgauge : gaugeOf (Pool.spawn prog
      { w with shared := { w.shared with offered := k.line.toList ++ w.shared.offered } }
      (w.shared.wal, k)) = gaugeOf w := gaugeOf_spawn hm.base rfl rfl
  refine ⟨hb', ?_, ?_⟩
  · rw [sizeOf, hgauge]
    exact ⟨hm.filled.live, hm.filled.orphan, hm.filled.created, hm.filled.opened, hm.filled.sink⟩
  · rw [hgauge]
    exact hm.aged

theorem measured_of_step (hm : Measured w) (hc : Filling w e) (hs : machine.step w e = some w') :
    Measured w' := by
  obtain ⟨hb', ht⟩ := turn_of_step hm.base hs
  cases ht with
  | spawn _ _ _ => exact hm.spawn _ hs
  | act _ _ _ _ _ => exact hm.act hc hs
  | crash tasks seen =>
    cases hs
    refine ⟨hb', ?_, fun hk => absurd hk (Option.some_ne_none _).symm⟩
    exact hm.filled.crash hc
  | reopen quiet tasks phases seen =>
    simp only [machine, quiet, if_true, Option.some.injEq] at hs
    subst hs
    have hfree := hm.base.holder_of_quiet quiet
    have hseat : (view w).seat = .held w.shared.mem.active w.shared.mem.baseOffset := by
      change seatOf w.shared (phase w) = _
      simp only [seatOf, hfree]
    refine ⟨hb', ?_, fun hk => absurd (hfree.symm.trans hk) (Option.some_ne_none _).symm⟩
    rw [seen]
    refine hm.filled.sit (by rw [hseat]; rfl) ?_ ?_ ?_
    · rintro b raw ⟨⟩
    · rintro b f bs ⟨⟩
    · rintro f ⟨⟩

theorem measured_start (wal : Wal) : Measured (start wal) where
  base := base_start wal
  filled := by
    refine ⟨?_, nofun, nofun, nofun, nofun⟩
    rintro k (⟨n, -, hk⟩ | ⟨i, n, hk⟩ | ⟨b, content, hk⟩)
    · cases hk
    · cases hk
    · cases hk
  aged := nofun

/-- Along every run in which no empty segment comes of age under an append, no recovery finds one or
gives up on its own, and the process does not stop on one, every sealed segment has a line, and so
has everything the sink has taken. -/
theorem segments_filled (wal : Wal) (es : List Event) (w : World)
    (hc : machine.Along Filling (start wal) es) (hr : machine.run (start wal) es = some w) :
    NoEmpty w := by
  have hm : Measured w :=
    run_invariant (fun _ _ _ hm hc hs => measured_of_step hm hc hs) (measured_start wal)
      hc hr
  constructor
  · intro n k hn hk
    rcases (hm.filled.live (.inl ⟨n, hn, hk⟩)).1 with hmem | hfill
    · exact .inl (texts_ne_nil_iff.mpr hmem)
    · right
      cases hseat : (view w).seat with
      | created b h content =>
        rw [hseat] at hfill
        cases hfill
        obtain ⟨i, hi⟩ := inside_of_seat hseat
        exact ⟨i, b, content, hi⟩
      | _ =>
        rw [hseat] at hfill
        cases hfill
  · intro p hp
    exact texts_ne_nil_iff.mpr (hm.filled.sink p hp)

end

/-! ## Empty segments that are sealed -/

/-- A clock ten minutes on. -/
def later : Luck := { now := 600000000000 }

/-- An append, a seal by age and a shipment. -/
def sealing : List Event :=
  Event.spawn (.append (.ok oneLine)) :: List.replicate 10 (.act 0 {}) ++
  Event.spawn .sealIfStale :: List.replicate 9 (.act 1 later) ++
  Event.spawn .ship :: List.replicate 5 (.act 2 later)

/-- An append that seals by size and leaves a fresh active segment. -/
def fresh : List Event := Event.spawn (.append (.ok oneLine)) :: List.replicate 16 (.act 0 {})

/-- The log is closed and opened again, and the next append recovers the fresh segment. -/
def reopened : List Event :=
  fresh ++ Event.spawn .close :: List.replicate 4 (.act 1 {}) ++
  Event.reopen {} :: .spawn (.append (.ok oneLine)) :: List.replicate 17 (.act 2 {}) ++
  Event.spawn .ship :: List.replicate 9 (.act 3 {})

/-- The next append comes when the fresh segment is of age. -/
def idled : List Event :=
  fresh ++ Event.spawn (.append (.ok oneLine)) :: List.replicate 17 (.act 1 later) ++
  Event.spawn .ship :: List.replicate 13 (.act 2 later)

/-- A segment with a line is sealed and shipped. -/
theorem sealing_filled :
    ∃ w, machine.run (start {}) sealing = some w ∧
      w.shared.sink.map Prod.snd = [['1', '\n']] ∧ NoEmpty w := by
  exact exists_run_of
    (by decide +kernel) fun w hr hsink => ⟨hsink, segments_filled {} _ w (by decide +kernel) hr⟩

theorem not_noEmpty {w : World} (h : [] ∈ w.shared.sink.map Prod.snd) : ¬ NoEmpty w := by
  intro hw
  obtain ⟨p, hp, hnil⟩ := mem_map.mp h
  refine hw.shipped p hp ?_
  rw [hnil]
  rfl

/-- A segment that was opened and never written is sealed by the next process, and by an append that
comes late, and shipped. -/
theorem empty_shipped :
    (∃ w, machine.run (start { maxBytes := 1 }) reopened = some w ∧ ¬ NoEmpty w) ∧
      ∃ w, machine.run (start { maxBytes := 1 }) idled = some w ∧ ¬ NoEmpty w := by
  constructor
  · exact exists_run_of (by decide +kernel) fun w _ => not_noEmpty
  · exact exists_run_of (by decide +kernel) fun w _ => not_noEmpty

end Beats.Publish
