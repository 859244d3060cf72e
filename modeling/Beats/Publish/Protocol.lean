import Beats.Publish.Wal

/-!
# The protocol of the log

Where an operation stands is decided by the calls it has made.  Under the mutex it is at a `Seat`:
the active segment is open or was synced, the sealed segments were counted, an orphan was read,
its segment was created, filled, made durable, and the name of the active segment is free.
Outside of the mutex it ships a segment, or closes the file that was active.

`protocol` is the monitor that says which calls are made where.  Every operation follows it
(`follows_prog`), so what a call finds is read off the point it is made at, not off the program.
-/

namespace Beats.Publish

open Lib Monitor List Wal

/-! ## Points -/

/-- Where the holder of the mutex stands. -/
inductive Seat where
  | held (active : Option Nat) (base : Nat)
  /-- The next segment has the offset `base`. -/
  | counted (base : Nat)
  /-- There is an active segment of a previous process. -/
  | found (base : Nat)
  /-- It was read. -/
  | orphan (base : Nat) (raw : List Char)
  /-- The file `h` was created for the `content` of the orphan. -/
  | created (base h : Nat) (content : List Char)
  | written (base h : Nat)
  | durable (base : Nat)
  /-- The name of the active segment is free. -/
  | cleared (base : Nat)
  /-- The active segment is `h`, and it was synced. -/
  | synced (h base : Nat)

/-- The active segment that is open at a seat. -/
def Seat.active : Seat → Option Nat
  | .held a _ => a
  | .synced h _ => some h
  | _ => none

/-- The offset of the next segment at a seat. -/
def Seat.base : Seat → Nat
  | .held _ b => b
  | .counted b => b
  | .found b => b
  | .orphan b _ => b
  | .created b _ _ => b
  | .written b _ => b
  | .durable b => b
  | .cleared b => b
  | .synced _ b => b

/-- No recovery is under way. -/
def Seat.Settled : Seat → Prop
  | .held _ _ => True
  | .synced _ _ => True
  | _ => False

/-- The fields `m` say what is open at a seat. -/
def Seat.Rests (s : Seat) (m : Mem) : Prop :=
  m.active = s.active ∧ (m.active ≠ none → m.baseOffset = s.base)

/-- Where an operation stands. -/
inductive Point where
  | out
  /-- The file `h` was active when the log was closed. -/
  | closing (h : Nat)
  | shipping (n : Name) (h : Nat)
  /-- The sink has taken the segment. -/
  | shipped (n : Name) (h : Nat)
  /-- The segment was to be removed, and its file `h` is open. -/
  | removed (h : Nat)
  | inside (s : Seat)

/-- What has become of the handle of the active segment under the mutex. -/
inductive Handle where
  | usable
  | closed
  /-- The seal that was to close the handle has failed. -/
  | torn

/-- Where an operation stands, and what it has done. -/
structure Phase where
  point : Point := .out
  /-- Its line was written. -/
  wrote : Bool := false
  /-- A call failed under the mutex. -/
  failed : Bool := false
  handle : Handle := .usable

def Job.line : Job → Option Text
  | .append (.ok line) => some line
  | _ => none

/-! ## Calls and answers -/

def fails : (c : Call) → iface.Answer c → Bool
  | .mkdirAll, .error _ => true
  | .readDir, .error e => !e.notExist
  | .stat _, .error e => !e.notExist
  | .readFile _, .error _ => true
  | .create _, .error _ => true
  | .write _ _, .error _ => true
  | .sync _, .error _ => true
  | .close _, .error _ => true
  | .rename _ _, .error _ => true
  | .remove _, .error _ => true
  | .openFile _, .error _ => true
  | .put _ _, .error _ => true
  | _, _ => false

def Seat.next (s : Seat) : (c : Call) → iface.Answer c → Seat
  | .readDir, .ok names =>
    match s with
    | .held _ _ => .counted (nextBaseOffset names)
    | s => s
  | .stat _, .ok _ =>
    match s with
    | .counted b => .found b
    | s => s
  | .stat _, .error e =>
    match s with
    | .counted b => if e.notExist then .cleared b else .counted b
    | s => s
  | .readFile _, .ok raw =>
    match s with
    | .found b => .orphan b raw
    | s => s
  | .create _, .ok h =>
    match s with
    | .orphan b raw => .created b h (complete '\n' raw)
    | .cleared b => .held (some h) b
    | s => s
  | .write h _, .ok _ =>
    match s with
    | .created b _ _ => .written b h
    | s => s
  | .sync h, .ok _ =>
    match s with
    | .held _ b => .synced h b
    | .written b _ => .durable b
    | s => s
  | .rename _ _, .ok _ =>
    match s with
    | .synced _ b => .cleared (b + 1)
    | s => s
  | .remove _, .ok _ =>
    match s with
    | .durable b => .cleared (b + 1)
    | s => s
  | _, _ => s

/-- The point after the mutex was given back with the fields `m`. -/
def Seat.leave (s : Seat) (m : Mem) : Point :=
  match s.active, m.active with
  | some h, none => .closing h
  | _, _ => .out

def Point.next : Point → (c : Call) → iface.Answer c → Point
  | .inside s, .unlock m, _ => s.leave m
  | .inside s, c, r => .inside (s.next c r)
  | .out, .lock, m => .inside (.held m.active m.baseOffset)
  | .out, .openFile n, .ok h => .shipping n h
  | .shipping n h, .put _ _, .ok _ => .shipped n h
  | .shipping _ _, .close _, _ => .out
  | .shipped _ h, .remove _, _ => .removed h
  | .removed _, .close _, _ => .out
  | p, _, _ => p

/-- The handle after an answered call at the point `p`. -/
def Handle.next (x : Handle) (p : Point) : (c : Call) → iface.Answer c → Handle
  | .lock, _ => .usable
  | .close _, r =>
    match p, r with
    | .inside (.synced _ _), .ok _ => .closed
    | .inside (.synced _ _), .error _ => .torn
    | _, _ => x
  | .rename _ _, .ok _ => .usable
  | .rename _ _, .error _ => .torn
  | _, _ => x

/-- Whether the line of the operation is written after an answered call. -/
def Phase.wroteAfter (φ : Phase) : (c : Call) → iface.Answer c → Bool
  | .write _ _, .ok _ =>
    match φ.point with
    | .inside (.held _ _) => true
    | _ => φ.wrote
  | _, _ => φ.wrote

def Phase.next (φ : Phase) (c : Call) (r : iface.Answer c) : Phase where
  point := φ.point.next c r
  wrote := φ.wroteAfter c r
  failed :=
    match φ.point, fails c r with
    | .inside _, true => true
    | _, _ => φ.failed
  handle := φ.handle.next φ.point c r

/-- The calls that an operation makes in a phase.  It closes what it has opened, and its active
segment once.  It gives the mutex back without a handle that it has closed, unless its seal has
failed. -/
def Phase.Permits (j : Job) (φ : Phase) : Call → Prop
  | .ctxErr => True
  | .now => True
  | .close h =>
    (∃ n, φ.point = .shipping n h) ∨ φ.point = .removed h ∨ φ.point = .closing h ∨
      ∃ s, φ.point = .inside s ∧
        (s.active = none ∨ (∃ b, s = .synced h b) ∧ φ.handle = .usable)
  | .lock => φ.point = .out
  | .unlock m =>
    φ.handle ≠ .closed ∧ ∃ s, φ.point = .inside s ∧
      (s.Rests m ∧ (s.Settled ∨ φ.failed = true) ∨
        (∃ h b, s = .held (some h) b) ∧ m.active = none)
  | .mkdirAll => ∃ b, φ.point = .inside (.held none b)
  | .readDir => φ.point = .out ∨ ∃ b, φ.point = .inside (.held none b)
  | .stat n => n = activeSegmentName ∧ ∃ b, φ.point = .inside (.counted b)
  | .readFile n => n = activeSegmentName ∧ ∃ b, φ.point = .inside (.found b)
  | .create n =>
    (∃ b raw t, φ.point = .inside (.orphan b raw) ∧ n = segmentName b t) ∨
      ∃ b, φ.point = .inside (.cleared b) ∧ n = activeSegmentName
  | .write h bs =>
    (∃ b line, φ.point = .inside (.held (some h) b) ∧ φ.wrote = false ∧ j.line = some line ∧
      bs = line.encode) ∨
      ∃ b, φ.point = .inside (.created b h bs)
  | .sync h =>
    (∃ b, φ.point = .inside (.held (some h) b)) ∨ (∃ b, φ.point = .inside (.written b h)) ∨
      φ.point = .closing h
  | .rename src dst =>
    src = activeSegmentName ∧
      ∃ h b t, φ.point = .inside (.synced h b) ∧ dst = segmentName b t
  | .remove n =>
    (n = activeSegmentName ∧ ∃ b, φ.point = .inside (.durable b)) ∨
      isSealed n = true ∧ ∃ h, φ.point = .shipped n h
  | .openFile n => φ.point = .out ∧ isSealed n = true
  | .put key h => ∃ n, φ.point = .shipping n h ∧ ∃ wal : Wal, key = wal.key n

/-- What every operation keeps to. -/
def protocol (j : Job) : Monitor iface Phase where
  permits := Phase.Permits j
  next := Phase.next

/-! ## Rules for the operations

Whatever a monitor follows, it is the same walk along the operations: under the mutex and out of it,
and from one segment to the next. -/

variable {what : String} {n : Name} {body : Mem → Prog iface Fault Mem}

theorem mem_sealedOf {names : List Name} : n ∈ sealedOf names ↔ n ∈ names ∧ isSealed n = true := by
  rw [sealedOf, mem_insertionSort, mem_filter]

section

variable {σ : Type} {M : Monitor iface σ} {s : σ} {w : Wal}

theorem allows_wrap {Q : σ → Except Fault Mem → Prop} {p : Prog iface Fault Mem}
    (hp : M.Allows Q p s) (hQ : ∀ s f text, Q s (.error f) → Q s (.error { f with text })) :
    M.Allows Q (wrap what p) s := by
  refine hp.attempt_bind fun s out hout => ?_
  cases out with
  | ok m => exact hout
  | error f => exact hQ s f _ hout

/-- An operation takes the mutex and gives it back. -/
theorem allows_locked {P : σ → Except Fault Mem → Prop} {Q : σ → Except String Unit → Prop}
    (hlock : M.permits s .lock) (hbody : ∀ m : Mem, M.Allows P (body m) (M.next s .lock m))
    (hok : ∀ s m, P s (.ok m) → M.permits s (.unlock m) ∧ Q (M.next s (.unlock m) ()) (.ok ()))
    (herror : ∀ s f, P s (.error f) →
      M.permits s (.unlock f.mem) ∧ Q (M.next s (.unlock f.mem) ()) (.error f.text)) :
    M.Allows Q (locked body) s := by
  refine allows_ask_bind hlock fun m => ?_
  refine (hbody m).attempt_bind fun s out hout => ?_
  cases out with
  | ok m =>
    obtain ⟨hpermits, hq⟩ := hok s m hout
    exact allows_ask hpermits fun _ => hq
  | error f =>
    obtain ⟨hpermits, hq⟩ := herror s f hout
    exact allows_ask_bind hpermits fun _ => hq

variable {P : σ → Prop}

theorem allows_shipAll {ns : List Name}
    (hone : ∀ n ∈ ns, ∀ s, P s → M.Allows (fun s _ => P s) (w.shipOne n) s) (hs : P s) :
    M.Allows (fun s _ => P s) (w.shipAll ns) s := by
  induction ns generalizing s with
  | nil => exact hs
  | cons n ns ih =>
    refine (hone n mem_cons_self s hs).bind (fun s _ hs => ?_) fun _ _ hs => hs
    exact ih (fun n hn => hone n (mem_cons_of_mem _ hn)) hs

theorem allows_ship (hread : M.permits s .readDir)
    (hnext : ∀ r : Except FsError (List Name), P (M.next s .readDir r))
    (hone : ∀ n, isSealed n = true → ∀ s, P s → M.Allows (fun s _ => P s) (w.shipOne n) s) :
    M.Allows (fun s _ => P s) w.ship s := by
  refine allows_bind.mpr ?_
  refine allows_ask_bind hread fun r => ?_
  have hs := hnext r
  cases r with
  | ok names => exact allows_shipAll (fun n hn => hone n (mem_sealedOf.mp hn).2) hs
  | error e =>
    change Allows _ _ (if _ then _ else _) _
    split
    · exact hs
    · exact hs

theorem allows_drain {O Q : σ → Except String Unit → Prop}
    (hlocked : M.Allows O (locked drainLocked) s)
    (hship : ∀ s, O s (.ok ()) → M.Allows (fun s _ => P s) w.ship s)
    (hclose : ∀ s, P s → M.Allows Q closeWal s) (hO : ∀ s e, O s (.error e) → Q s (.error e))
    (hP : ∀ s e, P s → Q s (.error e)) : M.Allows Q w.drain s := by
  refine hlocked.bind (fun s _ hs => ?_) hO
  refine (hship s hs).attempt_bind fun s out hs => ?_
  cases out with
  | ok _ => exact hclose s hs
  | error e => exact hP s _ hs

end

/-! ## Programs under the mutex -/

/-- The operation holds the mutex with an active segment, as `m` says. -/
def Holds (φ : Phase) (m : Mem) : Prop :=
  φ.handle = .usable ∧
    ∃ h, m.active = some h ∧ φ.point = .inside (.held (some h) m.baseOffset)

/-- The operation can give the mutex back with the fields `m`. -/
def Stops (φ : Phase) (m : Mem) : Prop :=
  φ.handle ≠ .closed ∧
    ∃ s, φ.point = .inside s ∧ s.Rests m ∧ (s.Settled ∨ φ.failed = true)

/-- What a program that opens an active segment comes to. -/
def Opens (wrote : Bool) (φ : Phase) : Except Fault Mem → Prop
  | .ok m => Holds φ m ∧ φ.wrote = wrote
  | .error f => Stops φ f.mem ∧ φ.wrote = wrote ∧ (wrote = true → φ.failed = true)

/-- An operation that returned has written its line, and one that failed only where a call
failed. -/
def Accounts {ε α : Type} (j : Job) (φ : Phase) : Except ε α → Prop
  | .ok _ => φ.wrote = j.line.isSome
  | .error _ => φ.wrote = true → φ.failed = true

/-- What an operation under the mutex comes to. -/
def Settles (j : Job) (φ : Phase) (out : Except Fault Mem) : Prop :=
  Accounts j φ out ∧
    match out with
    | .ok m => Stops φ m
    | .error f => Stops φ f.mem

section

variable {j : Job} {m : Mem} {b : Nat} {wrote failed : Bool}

variable {φ : Phase} {α : Type} {s : Seat}

theorem Holds.stops (h : Holds φ m) : Stops φ m := by
  obtain ⟨hh, k, hk, hp⟩ := h
  exact ⟨ne_of_eq_of_ne hh nofun, _, hp, ⟨hk, fun _ => rfl⟩, .inl trivial⟩

/-- Giving the fields back as they are leaves no file behind. -/
theorem Seat.Rests.leave (h : s.Rests m) : s.leave m = .out := by
  rw [Seat.leave, h.1]
  cases s.active <;> rfl

theorem Seat.rests_of_none (hm : m.active = none) (hs : s.active = none) : s.Rests m :=
  ⟨hm.trans hs.symm, fun h => absurd hm h⟩

theorem opens_of_failed {x : Handle} (h : s.Rests m) (hx : x ≠ .closed) :
    Opens wrote ⟨.inside s, wrote, true, x⟩ (.error { mem := m, text := what }) :=
  ⟨⟨hx, s, rfl, h, .inr rfl⟩, rfl, fun _ => rfl⟩

theorem opens_of_none (hm : m.active = none) (hs : s.active = none) :
    Opens wrote ⟨.inside s, wrote, true, .usable⟩ (.error { mem := m, text := what }) :=
  opens_of_failed (Seat.rests_of_none hm hs) nofun

theorem follows_openFreshActive (hm : m.active = none) :
    (protocol j).Allows (Opens wrote) (openFreshActive m)
      ⟨.inside (.cleared m.baseOffset), wrote, failed, .usable⟩ := by
  exact allows_ask_bind (.inr ⟨_, rfl, rfl⟩)
    (either (fun _ => opens_of_none hm rfl)
      fun h => allows_ask_bind trivial fun t => ⟨⟨rfl, h, rfl, rfl⟩, rfl⟩)

theorem follows_sealFile {h : Nat} (hm : m.active = some h) :
    (protocol j).Allows (Opens wrote) (sealFile m h)
      ⟨.inside (.held (some h) m.baseOffset), wrote, failed, .usable⟩ := by
  refine allows_ask_bind (.inl ⟨_, rfl⟩)
    (either (fun _ => opens_of_failed ⟨hm, fun _ => rfl⟩ nofun) fun _ => ?_)
  refine allows_ask_bind (.inr (.inr (.inr ⟨_, rfl, .inr ⟨⟨_, rfl⟩, rfl⟩⟩)))
    (either (fun _ => opens_of_failed ⟨hm, fun _ => rfl⟩ nofun) fun _ => ?_)
  refine allows_ask_bind trivial fun t => ?_
  exact allows_ask_bind ⟨rfl, _, _, _, rfl, rfl⟩
    (either (fun _ => opens_of_failed ⟨hm, fun _ => rfl⟩ nofun)
      fun _ => follows_openFreshActive rfl)

theorem follows_sealActive (h : Holds φ m) :
    (protocol j).Allows (Opens φ.wrote) (sealActive m) φ := by
  obtain ⟨point, wrote, failed, x⟩ := φ
  obtain ⟨rfl, k, hk, rfl⟩ := h
  rw [sealActive, hk]
  exact follows_sealFile hk

/-- What a recovery comes to. -/
def Recovers (b : Nat) (φ : Phase) : Except Fault Unit → Prop
  | .ok _ => ∃ failed, φ = ⟨.inside (.cleared (b + 1)), false, failed, .usable⟩
  | .error f => Opens false φ (.error f)

theorem follows_recoverOrphan (hm : m.active = none) :
    (protocol j).Allows (Recovers b) (recoverOrphan m b)
      ⟨.inside (.found b), false, failed, .usable⟩ := by
  have hclose {s : Seat} {f : Nat} (hs : s.active = none) (failed : Bool) :
      Phase.Permits j ⟨.inside s, false, failed, .usable⟩ (.close f) :=
    .inr (.inr (.inr ⟨s, rfl, .inl hs⟩))
  refine allows_ask_bind ⟨rfl, _, rfl⟩ (either (fun _ => opens_of_none hm rfl) fun _ => ?_)
  refine allows_ask_bind trivial fun t => ?_
  refine allows_ask_bind (.inl ⟨_, _, _, rfl, rfl⟩)
    (either (fun _ => opens_of_none hm rfl) fun _ => ?_)
  refine allows_ask_bind (.inr ⟨_, rfl⟩) fun r => ?_
  cases r with
  | error e =>
    refine allows_ask_bind (hclose rfl _) fun r => ?_
    cases r <;> exact opens_of_none hm rfl
  | ok _ =>
  refine allows_ask_bind (.inr (.inl ⟨_, rfl⟩)) fun r => ?_
  cases r with
  | error e =>
    refine allows_ask_bind (hclose rfl _) fun r => ?_
    cases r <;> exact opens_of_none hm rfl
  | ok _ =>
  refine allows_ask_bind (hclose rfl _) (either (fun _ => opens_of_none hm rfl) fun _ => ?_)
  exact allows_ask_bind (.inl ⟨rfl, _, rfl⟩)
    (either (fun _ => opens_of_none hm rfl) fun _ => ⟨_, rfl⟩)

theorem follows_ensureActive (w : Wal) : (protocol j).Allows (Opens false) (w.ensureActive m)
      ⟨.inside (.held m.active m.baseOffset), false, failed, .usable⟩ := by
  rw [ensureActive]
  cases hm : m.active with
  | some h => exact ⟨⟨rfl, h, hm, rfl⟩, rfl⟩
  | none =>
  refine allows_ask_bind ⟨_, rfl⟩ (either (fun _ => opens_of_none hm rfl) fun _ => ?_)
  refine allows_ask_bind (.inr ⟨_, rfl⟩)
    (either (fun _ => ⟨⟨nofun, _, rfl, Seat.rests_of_none hm rfl, .inl trivial⟩, rfl, nofun⟩)
      fun names => ?_)
  refine allows_ask_bind ⟨rfl, _, rfl⟩ fun r => ?_
  cases r with
  | ok _ =>
    refine (follows_recoverOrphan hm).bind ?_ fun _ _ hf => hf
    rintro φ _ ⟨failed, rfl⟩
    exact follows_openFreshActive rfl
  | error e =>
    obtain ⟨notExist, text⟩ := e
    cases notExist with
    | false => exact opens_of_none hm rfl
    | true => exact follows_openFreshActive rfl

/-! ## Operations under the mutex -/

theorem Accounts.error {ε : Type} {e : ε} (h : φ.wrote = false) :
    Accounts j φ (.error e : Except ε α) := by
  intro hw
  rw [h] at hw
  cases hw

/-- What opens an active segment settles an operation that appends nothing more. -/
theorem Opens.settles {out : Except Fault Mem} (hj : wrote = j.line.isSome)
    (h : Opens wrote φ out) : Settles j φ out := by
  cases out with
  | ok m => exact ⟨h.2.trans hj, h.1.stops⟩
  | error f => exact ⟨fun hw => h.2.2 (h.2.1.symm.trans hw), h.1⟩

theorem follows_sealAged (w : Wal) (hm : Holds φ m) :
    (protocol j).Allows (Opens φ.wrote) (w.sealAged m) φ := by
  obtain ⟨point, wrote, failed, x⟩ := φ
  obtain ⟨rfl, h, ha, rfl⟩ := hm
  have hold : Holds ⟨.inside (.held (some h) m.baseOffset), wrote, failed, .usable⟩ m :=
    ⟨rfl, h, ha, rfl⟩
  refine allows_ask_bind trivial fun t => ?_
  split
  · exact follows_sealActive hold
  · exact ⟨hold, rfl⟩

theorem follows_writeLine (w : Wal) (obj : Except String Text) (hm : Holds φ m)
    (hw : φ.wrote = false) :
    (protocol (.append obj)).Allows (Settles (.append obj)) (w.writeLine obj m) φ := by
  obtain ⟨point, wrote, failed, x⟩ := φ
  obtain ⟨rfl, h, ha, rfl⟩ := hm
  cases hw
  cases obj with
  | error e => exact ⟨.error rfl, Holds.stops ⟨rfl, h, ha, rfl⟩⟩
  | ok line =>
  simp only [writeLine, ha]
  refine allows_ask_bind (.inl ⟨_, line, rfl, rfl, rfl, rfl⟩)
    (either (fun _ => ⟨.error rfl, Holds.stops ⟨rfl, h, ha, rfl⟩⟩) fun n => ?_)
  change Allows _ _ (if _ then _ else _) _
  split
  · exact (follows_sealActive ⟨rfl, h, rfl, rfl⟩).mono fun φ out hout => hout.settles rfl
  · exact ⟨rfl, Holds.stops ⟨rfl, h, rfl, rfl⟩⟩

theorem follows_appendLocked (w : Wal) (obj : Except String Text) :
    (protocol (.append obj)).Allows (Settles (.append obj)) (w.appendLocked obj m)
      ⟨.inside (.held m.active m.baseOffset), false, failed, .usable⟩ := by
  have hfault : ∀ φ f, Opens false φ (.error f) → Settles (.append obj) φ (.error f) :=
    fun φ f h => ⟨.error h.2.1, h.1⟩
  refine (follows_ensureActive w).bind ?_ hfault
  rintro φ m ⟨hm, hw⟩
  have haged := follows_sealAged (j := .append obj) w hm
  rw [hw] at haged
  refine haged.bind ?_ hfault
  rintro φ m ⟨hm, hw⟩
  exact follows_writeLine w obj hm hw

theorem Accounts.idle {ε : Type} (hj : j.line = none) (hw : φ.wrote = false)
    (out : Except ε α) : Accounts j φ out := by
  cases out with
  | ok _ =>
    change φ.wrote = j.line.isSome
    rw [hw, hj]
    rfl
  | error e => exact .error hw

theorem Settles.keep (hj : j.line = none) (hw : φ.wrote = false) (h : Stops φ m) :
    Settles j φ (.ok m) :=
  ⟨.idle hj hw _, h⟩

theorem follows_sealWrapped (hj : j.line = none) (hm : m.active ≠ none) :
    (protocol j).Allows (Settles j) (wrap what (sealActive m))
      ⟨.inside (.held m.active m.baseOffset), false, failed, .usable⟩ := by
  obtain ⟨k, hk⟩ := Option.ne_none_iff_exists'.mp hm
  have hseal := follows_sealActive (j := j)
    (φ := ⟨.inside (.held m.active m.baseOffset), false, failed, .usable⟩) ⟨rfl, k, hk, by rw [hk]⟩
  have hnone : false = j.line.isSome := by
    rw [hj]
    rfl
  exact allows_wrap (hseal.mono fun _ _ h => h.settles hnone) fun _ _ _ h => h

theorem follows_sealIfStaleLocked (w : Wal) (hj : j.line = none) :
    (protocol j).Allows (Settles j) (w.sealIfStaleLocked m)
      ⟨.inside (.held m.active m.baseOffset), false, failed, .usable⟩ := by
  rw [sealIfStaleLocked]
  split
  · exact .keep hj rfl ⟨nofun, _, rfl, ⟨rfl, fun _ => rfl⟩, .inl trivial⟩
  next h =>
    refine allows_ask_bind trivial fun t => ?_
    split
    · exact .keep hj rfl ⟨nofun, _, rfl, ⟨rfl, fun _ => rfl⟩, .inl trivial⟩
    · exact follows_sealWrapped hj fun hn => h (.inl hn)

theorem follows_drainLocked (hj : j.line = none) :
    (protocol j).Allows (Settles j) (drainLocked m)
      ⟨.inside (.held m.active m.baseOffset), false, failed, .usable⟩ := by
  rw [drainLocked]
  split
  next h => exact follows_sealWrapped hj h.1
  · exact .keep hj rfl ⟨nofun, _, rfl, ⟨rfl, fun _ => rfl⟩, .inl trivial⟩

theorem follows_tickLocked (hj : j.line = none) : (protocol j).Allows (Settles j) (tickLocked m)
      ⟨.inside (.held m.active m.baseOffset), false, failed, .usable⟩ := by
  rw [tickLocked]
  cases hm : m.active with
  | none => exact .keep hj rfl ⟨nofun, _, rfl, ⟨hm, fun _ => rfl⟩, .inl trivial⟩
  | some h =>
    refine allows_ask_bind (.inl ⟨_, rfl⟩) fun r => ?_
    cases r <;> exact .keep hj rfl ⟨nofun, _, rfl, ⟨hm, fun _ => rfl⟩, .inl trivial⟩

/-! ## Operations -/

variable {x : Handle}

/-- What an operation comes to. -/
def Ends {α : Type} (j : Job) (φ : Phase) (out : Except String α) : Prop :=
  Accounts j φ out ∧ (φ.point = .out ∨ ∃ h, φ.point = .closing h)

/-- What an operation that can go on comes to. -/
def Pauses {α : Type} (j : Job) (φ : Phase) (out : Except String α) : Prop :=
  Accounts j φ out ∧ φ.point = .out

theorem Pauses.ends {out : Except String α} (h : Pauses j φ out) :
    Ends j φ out :=
  ⟨h.1, .inl h.2⟩

theorem follows_locked (hbody : ∀ m, (protocol j).Allows (Settles j) (body m)
      ⟨.inside (.held m.active m.baseOffset), false, failed, .usable⟩) :
    (protocol j).Allows (Pauses j) (locked body) ⟨.out, false, failed, x⟩ := by
  refine allows_locked rfl hbody ?_ ?_
  · rintro ⟨point, wrote, failed, x⟩ m ⟨hacc, hx, t, rfl, hs⟩
    exact ⟨⟨hx, t, rfl, .inl hs⟩, hacc, hs.1.leave⟩
  · rintro ⟨point, wrote, failed, x⟩ f ⟨hacc, hx, t, rfl, hs⟩
    exact ⟨⟨hx, t, rfl, .inl hs⟩, hacc, hs.1.leave⟩

theorem follows_closeWal (hj : j.line = none) :
    (protocol j).Allows (Ends j) closeWal ⟨.out, false, failed, x⟩ := by
  refine allows_ask_bind rfl fun m => ?_
  have hrest : (Seat.held m.active m.baseOffset).Rests m := ⟨rfl, fun _ => rfl⟩
  split
  · exact allows_ask ⟨nofun, _, rfl, .inl ⟨hrest, .inl trivial⟩⟩ fun _ =>
      ⟨.idle hj rfl _, .inl hrest.leave⟩
  · cases hm : m.active with
    | none =>
      have hnone : (Seat.held m.active m.baseOffset).Rests
          { m with active := none, closed := true } := ⟨hm.symm, fun h => absurd rfl h⟩
      refine allows_ask_bind ⟨nofun, _, rfl, .inl ⟨hnone, .inl trivial⟩⟩ fun _ => ?_
      exact ⟨.idle hj rfl _, .inl hnone.leave⟩
    | some h =>
      refine allows_ask_bind ⟨nofun, _, rfl, .inr ⟨⟨h, m.baseOffset, ?_⟩, rfl⟩⟩ fun _ => ?_
      · rw [hm]
      have hleave : (Seat.held m.active m.baseOffset).leave
          { m with active := none, closed := true } = .closing h := by
        rw [hm]
        rfl
      change Allows _ _ _ (⟨Seat.leave _ _, false, failed, _⟩ : Phase)
      rw [hleave]
      refine allows_ask_bind (.inr (.inr rfl))
        (either (fun _ => ⟨.idle hj rfl _, .inr ⟨h, rfl⟩⟩) fun _ => ?_)
      refine allows_ask_bind (.inr (.inr (.inl rfl))) fun r => ?_
      cases r <;> exact ⟨.idle hj rfl _, .inr ⟨h, rfl⟩⟩

/-- Nothing was written, and the operation is out of the mutex. -/
def Idle {α : Type} (φ : Phase) (_ : Except String α) : Prop := φ.point = .out ∧ φ.wrote = false

theorem follows_shipOne (w : Wal) (hn : isSealed n = true) :
    (protocol j).Allows Idle (w.shipOne n) ⟨.out, false, failed, x⟩ := by
  refine allows_ask_bind ⟨rfl, hn⟩ (either (fun _ => ⟨rfl, rfl⟩) fun h => ?_)
  refine allows_ask_bind ⟨n, rfl, w, rfl⟩ fun r => ?_
  cases r with
  | error e =>
    refine allows_ask_bind (.inl ⟨n, rfl⟩) fun r => ?_
    cases r <;> exact ⟨rfl, rfl⟩
  | ok _ =>
  refine allows_ask_bind (.inr ⟨hn, h, rfl⟩) fun removed => ?_
  cases removed <;>
    refine allows_ask_bind (.inr (.inl rfl)) fun r => ?_ <;>
    cases r <;> exact ⟨rfl, rfl⟩

theorem follows_ship (w : Wal) : (protocol j).Allows Idle w.ship ⟨.out, false, failed, x⟩ := by
  refine allows_ship ?_ ?_ ?_
  · exact .inl rfl
  · intro r
    cases r <;> exact ⟨rfl, rfl⟩
  · rintro n hn ⟨point, wrote, failed, x⟩ ⟨rfl, rfl⟩
    exact follows_shipOne w hn

theorem Idle.pauses {out : Except String α} (hj : j.line = none)
    (h : Idle φ out) : Pauses j φ out :=
  ⟨.idle hj h.2 out, h.1⟩

theorem follows_drain (w : Wal) (hj : j.line = none) :
    (protocol j).Allows (Ends j) w.drain ⟨.out, false, failed, x⟩ := by
  refine allows_drain (P := fun φ : Phase => φ.point = .out ∧ φ.wrote = false)
    (follows_locked fun m => follows_drainLocked hj) ?_ ?_ (fun _ _ => Pauses.ends) ?_
  · rintro ⟨point, wrote, failed, x⟩ ⟨hw, rfl⟩
    obtain rfl : wrote = false := hw.trans (by rw [hj]; rfl)
    exact follows_ship w
  · rintro ⟨point, wrote, failed, x⟩ ⟨rfl, rfl⟩
    exact follows_closeWal hj
  · intro φ e hidle
    have hpauses : Pauses j φ (.error e : Except String Unit) := Idle.pauses hj hidle
    exact hpauses.ends

theorem follows_prog (w : Wal) (j : Job) : (protocol j).Allows (Ends j) (j.prog w) {} := by
  cases j with
  | append obj =>
    refine allows_ask_bind trivial fun r => ?_
    cases r with
    | some e => exact ⟨.error rfl, .inl rfl⟩
    | none =>
      exact (follows_locked fun m => follows_appendLocked w obj).mono fun _ _ => Pauses.ends
  | sealIfStale =>
    exact (follows_locked fun m => follows_sealIfStaleLocked w rfl).mono fun _ _ => Pauses.ends
  | ship => exact (follows_ship w).mono fun _ _ h => (h.pauses rfl).ends
  | drain => exact follows_drain w rfl
  | close => exact follows_closeWal rfl
  | tick => exact (follows_locked fun m => follows_tickLocked rfl).mono fun _ _ => Pauses.ends

end

end Beats.Publish
