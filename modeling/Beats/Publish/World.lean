import Beats.Lib.Disk
import Beats.Lib.Machine
import Beats.Lib.Pool
import Beats.Publish.Protocol

/-!
# The log on a disk

Any number of operations of the log over one directory, one call at a time.  Every file operation
can fail, a failing write may have written a part, and the process can stop at any point, which
keeps of a file what was synced and any part of the rest.

What the operations do to the directory is a step of a smaller machine, `Moves`, whose states are
the disk, what the sink has taken, one `Seat` for the mutex, and the segments that are being
shipped.  While nobody holds the mutex, the seat is the one that the fields of the log describe, so
that taking the mutex changes nothing.  `moves_of_step` says that the steps of the world are such
moves.
-/

namespace Beats.Publish

open Lib Function List

/-! ## The environment -/

/-- How the environment answers a call. -/
structure Luck where
  now : Time := 0
  /-- The file operation fails with this text. -/
  err : Option String := none
  /-- How much a failing write has written. -/
  kept : Nat := 0
  /-- What the context was cancelled with. -/
  done : Option String := none

/-- The directory of the log, what the sink has taken, and the fields of the log.  `sealed` has
every sealed segment there ever was with its file, the newest first, and `offered` every line that
was to be appended. -/
structure Store where
  wal : Wal := {}
  disk : Disk Name Char := {}
  /-- The directory is there. -/
  made : Bool := false
  mem : Mem := {}
  holder : Option Nat := none
  sink : List (String × List Char) := []
  sealed : List (Name × Nat) := []
  offered : List Text := []

namespace Store

/-- Record that the file `k` has the name `n` from now on. -/
def record (s : Store) (n : Name) (k : Nat) : Store :=
  if isSealed n then { s with sealed := (n, k) :: s.sealed } else s

/-- Open a name for writing. -/
def create (s : Store) (n : Name) : Store :=
  { s with disk := (s.disk.create n).2 }.record n (s.disk.create n).1

/-- Move the file `k` to another name. -/
def rename (s : Store) (k : Nat) (src dst : Name) : Store :=
  { s with disk := s.disk.rename k src dst }.record dst k

/-- The store after a crash.  A new process starts with no fields. -/
def crash (s : Store) (keep : Nat → Nat) : Store :=
  { s with disk := s.disk.crash keep, mem := {}, holder := none }

end Store

/-- The answer of a file operation: its own, or that the file is not there. -/
def Luck.answer {α : Type} (luck : Luck) (s : Store) (x : Option (α × Store)) :
    Except FsError α × Store :=
  match luck.err with
  | some e => (.error { text := e }, s)
  | none =>
    match x with
    | some (a, s') => (.ok a, s')
    | none => (.error { notExist := true, text := "no such file or directory" }, s)

/-- The names that the files of a log have.  The source counts the offsets of the segments in the
type `int64`, and no log makes so many that the count wraps around. -/
def isLogName (n : Name) : Bool := n == activeSegmentName || isSealed n

/-- Answer a call of the operation `i`.  The mutex is given to one operation at a time. -/
def serve (i : Nat) (luck : Luck) (s : Store) : (c : Call) → Option (iface.Answer c × Store)
  | .ctxErr => some (luck.done, s)
  | .now => some (luck.now, s)
  | .lock => if s.holder = none then some (s.mem, { s with holder := some i }) else none
  | .unlock m => some ((), { s with mem := m, holder := none })
  | .mkdirAll => some (luck.answer s (some ((), { s with made := true })))
  | .readDir => some (luck.answer s (if s.made then some (s.disk.names, s) else none))
  | .stat n => some (luck.answer s ((s.disk.file n).map fun _ => ((), s)))
  | .readFile n => some (luck.answer s ((s.disk.file n).map fun k => (s.disk.bytes k, s)))
  | .create n =>
    if isLogName n then some (luck.answer s (some ((s.disk.create n).1, s.create n))) else none
  | .write h bs =>
    some (luck.answer
      (if luck.err.isSome then { s with disk := s.disk.write h (bs.take luck.kept) } else s)
      (some (bs.length, { s with disk := s.disk.write h bs })))
  | .sync h => some (luck.answer s (some ((), { s with disk := s.disk.sync h })))
  | .close _ => some (luck.answer s (some ((), s)))
  | .rename src dst =>
    if isLogName dst then
      some (luck.answer s ((s.disk.file src).map fun k => ((), s.rename k src dst)))
    else none
  | .remove n =>
    some (luck.answer s
      ((s.disk.file n).map fun _ => ((), { s with disk := s.disk.remove n })))
  | .openFile n => some (luck.answer s ((s.disk.file n).map fun k => (k, s)))
  | .put key h =>
    some (luck.answer s (some ((), { s with sink := s.sink ++ [(key, s.disk.bytes h)] })))

/-! ## The machine -/

/-- The program of an operation of a log. -/
def prog (j : Wal × Job) : Prog iface String Unit := j.2.prog j.1

abbrev World := Pool iface (Wal × Job) String Unit Store

/-- The world before the first operation. -/
def start (wal : Wal) : World := { shared := { wal } }

/-- The operation has calls to make. -/
def running (task : (Wal × Job) × Prog iface String Unit) : Bool :=
  match task.2 with
  | .call _ _ => true
  | _ => false

def quiet (w : World) : Bool := w.tasks.all fun task => !running task

inductive Event where
  | spawn (j : Job)
  | act (i : Nat) (luck : Luck)
  /-- The process stops, and `keep` symbols of each file are kept. -/
  | crash (keep : Nat → Nat)
  /-- A new log is opened on the directory. -/
  | reopen (wal : Wal)

def machine : Machine World Event where
  step w
    | .spawn j =>
      some (Pool.spawn prog
        { w with shared := { w.shared with offered := j.line.toList ++ w.shared.offered } }
        (w.shared.wal, j))
    | .act i luck => w.act (serve i luck) i
    | .crash keep => some { shared := w.shared.crash keep }
    | .reopen wal =>
      if quiet w then some { w with shared := { w.shared with wal, mem := {} } } else none

/-- The name that a call gives to a file. -/
def Call.target : Call → Option Name
  | .create n => some n
  | .rename _ n => some n
  | _ => none

/-- The call that the operation `i` makes next. -/
def nextCall (w : World) (i : Nat) : Option Call :=
  match w.tasks[i]? with
  | some (_, .call c _) => some c
  | _ => none

/-! ## Views -/

/-- What an operation that ships is about. -/
inductive Dock where
  | idle
  | opened (n : Name) (h : Nat)
  /-- The sink has taken the segment. -/
  | sent (n : Name) (h : Nat)

/-- What an operation at a point ships. -/
def Point.dock : Point → Dock
  | .shipping n h => .opened n h
  | .shipped n h => .sent n h
  | _ => .idle

/-- The world as the mutex lets it be seen. -/
structure View where
  disk : Disk Name Char
  sink : List (String × List Char)
  sealed : List (Name × Nat)
  offered : List Text
  seat : Seat
  docks : Nat → Dock

/-- The seat of the mutex, where the operations stand at `φ`. -/
def seatOf (s : Store) (φ : Nat → Phase) : Seat :=
  match s.holder with
  | none => .held s.mem.active s.mem.baseOffset
  | some i =>
    match (φ i).point with
    | .inside t => t
    | _ => .held none 0

/-- What the invariants see of a store and its operations. -/
def viewOf (s : Store) (φ : Nat → Phase) : View where
  disk := s.disk
  sink := s.sink
  sealed := s.sealed
  offered := s.offered
  seat := seatOf s φ
  docks i := (φ i).point.dock

/-- The mutex is held by the operation that is inside. -/
def Exclusive (s : Store) (φ : Nat → Phase) : Prop :=
  ∀ i, (∃ t, (φ i).point = .inside t) ↔ s.holder = some i

/-- Where the calls in the log have brought the operation `i`. -/
def phase (w : World) (i : Nat) : Phase :=
  (own i w.log).foldl (fun φ a => φ.next a.1 a.2) {}

def view (w : World) : View := viewOf w.shared (phase w)

/-! ## Moves -/

/-- What a call of the operation `i` can do to a view while the mutex is with `holder`.  The flag
`failed` says whether a call of the operation has failed, and the two flags after the call whether
it has written its line, before and after. -/
inductive Moves (j : Job) (luck : Luck) (i : Nat) (holder : Option Nat) (failed : Bool)
    (v : View) : Call → Bool → Bool → View → Prop
  | idle {c : Call} {wrote : Bool} : Moves j luck i holder failed v c wrote wrote v
  | leave {m : Mem} {wrote : Bool} (rests : v.seat.Rests m)
      (settled : v.seat.Settled ∨ failed = true) :
      Moves j luck i holder failed v (.unlock m) wrote wrote
        { v with seat := .held m.active m.baseOffset }
  | shut {m : Mem} {wrote : Bool} {h b : Nat} (seat : v.seat = .held (some h) b)
      (closed : m.active = none) :
      Moves j luck i holder failed v (.unlock m) wrote wrote
        { v with seat := .held m.active m.baseOffset }
  | count {wrote : Bool} {b : Nat} (holds : holder = some i) (seat : v.seat = .held none b) :
      Moves j luck i holder failed v .readDir wrote wrote
        { v with seat := .counted (nextBaseOffset v.disk.names) }
  | absent {wrote : Bool} {b : Nat} (seat : v.seat = .counted b)
      (file : v.disk.file activeSegmentName = none) :
      Moves j luck i holder failed v (.stat activeSegmentName) wrote wrote
        { v with seat := .cleared b }
  | found {wrote : Bool} {b k : Nat} (seat : v.seat = .counted b)
      (file : v.disk.file activeSegmentName = some k) :
      Moves j luck i holder failed v (.stat activeSegmentName) wrote wrote
        { v with seat := .found b }
  | readOrphan {wrote : Bool} {b k : Nat} (seat : v.seat = .found b)
      (file : v.disk.file activeSegmentName = some k) :
      Moves j luck i holder failed v (.readFile activeSegmentName) wrote wrote
        { v with seat := .orphan b (v.disk.bytes k) }
  | createSegment {wrote : Bool} {b : Nat} {raw : List Char} {t : Time}
      (seat : v.seat = .orphan b raw) (named : isSealed (segmentName b t) = true) :
      Moves j luck i holder failed v (.create (segmentName b t)) wrote wrote
        { v with
          disk := (v.disk.create (segmentName b t)).2
          sealed := (segmentName b t, (v.disk.create (segmentName b t)).1) :: v.sealed
          seat := .created b (v.disk.create (segmentName b t)).1 (complete '\n' raw) }
  | openActive {wrote : Bool} {b : Nat} (seat : v.seat = .cleared b) :
      Moves j luck i holder failed v (.create activeSegmentName) wrote wrote
        { v with
          disk := (v.disk.create activeSegmentName).2
          seat := .held (some (v.disk.create activeSegmentName).1) b }
  | fill {wrote : Bool} {b h : Nat} {bs : List Char} (seat : v.seat = .created b h bs)
      (dock : v.docks i = .idle) :
      Moves j luck i holder failed v (.write h bs) wrote wrote
        { v with disk := v.disk.write h bs, seat := .written b h }
  | writeLine {b h : Nat} {line : Text} (seat : v.seat = .held (some h) b)
      (text : j.line = some line) :
      Moves j luck i holder failed v (.write h line.encode) false true
        { v with disk := v.disk.write h line.encode }
  | short {wrote : Bool} {h : Nat} {bs : List Char} (err : luck.err ≠ none) :
      Moves j luck i holder failed v (.write h bs) wrote wrote
        { v with disk := v.disk.write h (bs.take luck.kept) }
  | syncActive {wrote : Bool} {b h : Nat} (seat : v.seat = .held (some h) b) :
      Moves j luck i holder failed v (.sync h) wrote wrote
        { v with disk := v.disk.sync h, seat := .synced h b }
  | syncSegment {wrote : Bool} {b h : Nat} (seat : v.seat = .written b h) :
      Moves j luck i holder failed v (.sync h) wrote wrote
        { v with disk := v.disk.sync h, seat := .durable b }
  | syncClosed {wrote : Bool} {h : Nat} :
      Moves j luck i holder failed v (.sync h) wrote wrote { v with disk := v.disk.sync h }
  | sealActive {wrote : Bool} {b h k : Nat} {t : Time} (seat : v.seat = .synced h b)
      (file : v.disk.file activeSegmentName = some k)
      (named : isSealed (segmentName b t) = true) :
      Moves j luck i holder failed v (.rename activeSegmentName (segmentName b t)) wrote wrote
        { v with
          disk := v.disk.rename k activeSegmentName (segmentName b t)
          sealed := (segmentName b t, k) :: v.sealed
          seat := .cleared (b + 1) }
  | clear {wrote : Bool} {b : Nat} (seat : v.seat = .durable b) :
      Moves j luck i holder failed v (.remove activeSegmentName) wrote wrote
        { v with disk := v.disk.remove activeSegmentName, seat := .cleared (b + 1) }
  | openSealed {wrote : Bool} {n : Name} {k : Nat} (dock : v.docks i = .idle)
      (named : isSealed n = true) (file : v.disk.file n = some k) :
      Moves j luck i holder failed v (.openFile n) wrote wrote
        { v with docks := update v.docks i (.opened n k) }
  | put {wrote : Bool} {n : Name} {h : Nat} {key : String} (dock : v.docks i = .opened n h)
      (keyed : ∃ wal : Wal, key = wal.key n) :
      Moves j luck i holder failed v (.put key h) wrote wrote
        { v with
          sink := v.sink ++ [(key, v.disk.bytes h)]
          docks := update v.docks i (.sent n h) }
  | removeSealed {wrote : Bool} {n : Name} {h : Nat} (dock : v.docks i = .sent n h)
      (named : isSealed n = true) :
      Moves j luck i holder failed v (.remove n) wrote wrote
        { v with disk := v.disk.remove n, docks := update v.docks i .idle }
  | keepSealed {wrote : Bool} {n : Name} {h : Nat} (dock : v.docks i = .sent n h)
      (why : luck.err ≠ none ∨ v.disk.file n = none) :
      Moves j luck i holder failed v (.remove n) wrote wrote
        { v with docks := update v.docks i .idle }
  | undock {wrote : Bool} {n : Name} {h h' : Nat} (dock : v.docks i = .opened n h) :
      Moves j luck i holder failed v (.close h') wrote wrote
        { v with docks := update v.docks i .idle }

/-! ## Operations on views -/

section

variable {s s' : Store} {φ : Nat → Phase} {ψ : Phase} {i : Nat} {t t' : Seat} {j : Job}
  {luck : Luck}

/-- A file operation fails, or it does what it does, or it does not find the file. -/
theorem answer_cases {α : Type} {x : Option (α × Store)} {r : Except FsError α}
    (h : some (luck.answer s x) = some (r, s')) :
    (luck.err ≠ none ∧ ∃ e, r = .error e ∧ e.notExist = false ∧ s' = s) ∨
    (luck.err = none ∧ ∃ a, x = some (a, s') ∧ r = .ok a) ∨
    (luck.err = none ∧ x = none ∧ ∃ e, r = .error e ∧ e.notExist = true ∧ s' = s) := by
  simp only [Luck.answer, Option.some.injEq] at h
  cases he : luck.err with
  | some e =>
    rw [he] at h
    cases h
    exact .inl ⟨nofun, _, rfl, rfl, rfl⟩
  | none =>
    rw [he] at h
    cases x with
    | some p =>
      cases h
      exact .inr (.inl ⟨rfl, _, rfl, rfl⟩)
    | none =>
      cases h
      exact .inr (.inr ⟨rfl, rfl, _, rfl, rfl, rfl⟩)

theorem isSealed_of_isLogName {b : Nat} {t : Time} (h : isLogName (segmentName b t) = true) :
    isSealed (segmentName b t) = true := by
  rw [isLogName, beq_false_of_ne (segmentName_ne_active b t)] at h
  exact h

theorem serve_create {n : Name} {r : Except FsError Nat}
    (hs : serve i luck s (.create n) = some (r, s')) : isLogName n = true ∧
      some (luck.answer s (some ((s.disk.create n).1, s.create n))) = some (r, s') :=
  Option.ite_none_right_eq_some.mp hs

theorem serve_rename {src dst : Name} {r : Except FsError Unit}
    (hs : serve i luck s (.rename src dst) = some (r, s')) : isLogName dst = true ∧
      some (luck.answer s ((s.disk.file src).map fun k => ((), s.rename k src dst))) =
        some (r, s') :=
  Option.ite_none_right_eq_some.mp hs

theorem seatOf_inside (hx : Exclusive s φ) (hp : (φ i).point = .inside t) : seatOf s φ = t := by
  rw [seatOf, (hx i).mp ⟨t, hp⟩]
  simp only [hp]

theorem docks_update (hd : ψ.point.dock = (φ i).point.dock) :
    (fun k => (update φ i ψ k).point.dock) = fun k => (φ k).point.dock := by
  funext k
  by_cases hk : k = i
  · subst hk
    rw [update_self, hd]
  · rw [update_of_ne hk]

theorem viewOf_stay (hp : ψ.point = (φ i).point) : viewOf s (update φ i ψ) = viewOf s φ := by
  have hseat : seatOf s (update φ i ψ) = seatOf s φ := by
    rw [seatOf, seatOf]
    cases s.holder with
    | none => rfl
    | some k =>
      by_cases hk : k = i
      · subst hk
        simp only [update_self, hp]
      · simp only [update_of_ne hk]
  rw [viewOf, hseat, docks_update (by rw [hp])]
  rfl

theorem viewOf_inside (hx : Exclusive s φ) (hp : (φ i).point = .inside t)
    (hp' : ψ.point = .inside t') (hs : s'.holder = s.holder) :
    viewOf s' (update φ i ψ) = { viewOf s' φ with seat := t' } := by
  have hseat : seatOf s' (update φ i ψ) = t' := by
    rw [seatOf, hs, (hx i).mp ⟨t, hp⟩]
    simp only [update_self, hp']
  rw [viewOf, hseat, docks_update (by rw [hp, hp']; rfl)]
  rfl

theorem viewOf_outside (hx : Exclusive s φ) (hp : ∀ t, (φ i).point ≠ .inside t)
    (hs : s'.holder = s.holder) (hm : s'.mem = s.mem) :
    viewOf s' (update φ i ψ) =
      { viewOf s' φ with
        seat := (viewOf s φ).seat
        docks := update (viewOf s φ).docks i ψ.point.dock } := by
  have hseat : seatOf s' (update φ i ψ) = seatOf s φ := by
    rw [seatOf, seatOf, hs, hm]
    cases hh : s.holder with
    | none => rfl
    | some k =>
      have hk : k ≠ i := by
        rintro rfl
        obtain ⟨t, ht⟩ := (hx k).mpr hh
        exact hp t ht
      simp only [update_of_ne hk]
  have hdocks : (fun k => (update φ i ψ k).point.dock) =
      update (viewOf s φ).docks i ψ.point.dock := by
    funext k
    by_cases hk : k = i
    · subst hk
      rw [update_self, update_self]
    · rw [update_of_ne hk, update_of_ne hk]
      rfl
  rw [viewOf, hseat, hdocks]
  rfl

theorem viewOf_lock (hp : (φ i).point = .out) (hh : s.holder = none)
    (hp' : ψ.point = .inside (.held s.mem.active s.mem.baseOffset)) :
    viewOf { s with holder := some i } (update φ i ψ) = viewOf s φ := by
  have hseat : seatOf { s with holder := some i } (update φ i ψ) = seatOf s φ := by
    simp only [seatOf, hh, update_self, hp']
  rw [viewOf, hseat, docks_update (by rw [hp, hp']; rfl)]
  rfl

/-- Giving the mutex back leaves the seat to the fields. -/
theorem viewOf_unlock {m : Mem} (hp : (φ i).point.dock = .idle) (hp' : ψ.point.dock = .idle) :
    viewOf { s with mem := m, holder := none } (update φ i ψ) =
      { viewOf s φ with seat := .held m.active m.baseOffset } := by
  rw [viewOf, docks_update (hp'.trans hp.symm)]
  rfl

/-! ## Exclusion -/

theorem Exclusive.update (hx : Exclusive s φ)
    (hp : (∃ t, ψ.point = .inside t) ↔ ∃ t, (φ i).point = .inside t)
    (hs : s'.holder = s.holder) : Exclusive s' (update φ i ψ) := by
  intro k
  rw [hs]
  by_cases hk : k = i
  · subst hk
    rw [update_self, hp, hx]
  · rw [update_of_ne hk, hx]

theorem Exclusive.lock (hx : Exclusive s φ) (hh : s.holder = none) (hp : ψ.point = .inside t) :
    Exclusive { s with holder := some i } (Function.update φ i ψ) := by
  intro k
  by_cases hk : k = i
  · subst hk
    rw [update_self]
    exact ⟨fun _ => rfl, fun _ => ⟨t, hp⟩⟩
  · rw [update_of_ne hk, hx, hh]
    constructor
    · nofun
    · intro hi
      exact absurd (Option.some.inj hi).symm hk

theorem Exclusive.unlock {m : Mem} (hx : Exclusive s φ) (hh : s.holder = some i)
    (hp : ∀ t, ψ.point ≠ .inside t) :
    Exclusive { s with mem := m, holder := none } (Function.update φ i ψ) := by
  intro k
  refine iff_of_false ?_ nofun
  rintro ⟨t, ht⟩
  by_cases hk : k = i
  · subst hk
    rw [update_self] at ht
    exact hp t ht
  · rw [update_of_ne hk] at ht
    exact hk (Option.some.inj (((hx k).mp ⟨t, ht⟩).symm.trans hh))

theorem leave_ne_inside (t t' : Seat) (m : Mem) : t.leave m ≠ .inside t' := by
  intro h
  rw [Seat.leave] at h
  split at h <;> cases h

theorem leave_dock (t : Seat) (m : Mem) : (t.leave m).dock = .idle := by
  rw [Seat.leave]
  split <;> rfl

/-! ## Answered calls -/

/-- The answered call that brought the operation `i` to `ψ` is a move. -/
def MovesTo (j : Job) (luck : Luck) (i : Nat) (s : Store) (φ : Nat → Phase) (c : Call) (ψ : Phase)
    (s' : Store) : Prop :=
  Moves j luck i s.holder (φ i).failed (viewOf s φ) c (φ i).wrote ψ.wrote
      (viewOf s' (update φ i ψ)) ∧
    Exclusive s' (update φ i ψ)

variable {c : Call} {p : Point} {wrote wrote' failed failed' : Bool} {holder : Option Nat}

variable {n : Name} {h : Nat} {x x' : Handle}

theorem MovesTo.stay (hx : Exclusive s φ) (hp : ψ.point = (φ i).point)
    (hw : ψ.wrote = (φ i).wrote) : MovesTo j luck i s φ c ψ s := by
  rw [MovesTo, viewOf_stay hp, hw]
  exact ⟨.idle, hx.update (by rw [hp]) rfl⟩

theorem MovesTo.same (hx : Exclusive s φ) (hφ : φ i = ⟨p, wrote, failed, x⟩) :
    MovesTo j luck i s φ c ⟨p, wrote, failed', x'⟩ s :=
  .stay hx (by rw [hφ]) (by rw [hφ])

theorem MovesTo.inside (hx : Exclusive s φ) (hφ : φ i = ⟨.inside t, wrote, failed, x⟩)
    (hs : s'.holder = s.holder)
    (h : (viewOf s φ).seat = t → (viewOf s φ).docks i = .idle →
      Moves j luck i s.holder failed (viewOf s φ) c wrote wrote' { viewOf s' φ with seat := t' }) :
    MovesTo j luck i s φ c ⟨.inside t', wrote', failed', x'⟩ s' := by
  have hp : (φ i).point = .inside t := by rw [hφ]
  have hw : (φ i).wrote = wrote := by rw [hφ]
  have hf : (φ i).failed = failed := by rw [hφ]
  have hdock : (viewOf s φ).docks i = .idle := by
    change (φ i).point.dock = .idle
    rw [hp]
    rfl
  rw [MovesTo, viewOf_inside hx hp rfl hs, hw, hf]
  exact ⟨h (seatOf_inside hx hp) hdock, hx.update (iff_of_true ⟨_, rfl⟩ ⟨_, hp⟩) hs⟩

theorem MovesTo.outside (hx : Exclusive s φ) (hφ : φ i = ⟨p, wrote, failed, x⟩)
    (hp : ∀ t, p ≠ .inside t) (hp' : ∀ t, ψ.point ≠ .inside t) (hs : s'.holder = s.holder)
    (hm : s'.mem = s.mem)
    (h : (viewOf s φ).docks i = p.dock → Moves j luck i s.holder failed (viewOf s φ) c wrote ψ.wrote
      { viewOf s' φ with
        seat := (viewOf s φ).seat
        docks := update (viewOf s φ).docks i ψ.point.dock }) :
    MovesTo j luck i s φ c ψ s' := by
  have hpoint : (φ i).point = p := by rw [hφ]
  have hw : (φ i).wrote = wrote := by rw [hφ]
  have hf : (φ i).failed = failed := by rw [hφ]
  rw [MovesTo, viewOf_outside hx (fun t => by rw [hpoint]; exact hp t) hs hm, hw, hf]
  refine ⟨h (by rw [← hpoint]; rfl), hx.update (iff_of_false ?_ ?_) hs⟩
  · rintro ⟨t, ht⟩
    exact hp' t ht
  · rintro ⟨t, ht⟩
    exact hp t (hpoint.symm.trans ht)

/-! One lemma for each call. -/

/-- However a call of the operation `i` in the phase `ψ` is answered, it is a move. -/
def Served (j : Job) (luck : Luck) (i : Nat) (s : Store) (φ : Nat → Phase) (ψ : Phase)
    (c : Call) : Prop :=
  ∀ {r : iface.Answer c} {s' : Store}, ψ.Permits j c → serve i luck s c = some (r, s') →
    MovesTo j luck i s φ c (ψ.next c r) s'

section

variable (hx : Exclusive s φ)

include hx

theorem served_lock : Served j luck i s φ (φ i) .lock := by
  intro m s' hp hs
  simp only [serve] at hs
  split at hs
  next hh =>
    cases hs
    have hnext : ((φ i).next .lock s.mem).point = .inside (.held s.mem.active s.mem.baseOffset) :=
      by simp [Phase.next, show (φ i).point = .out from hp, Point.next]
    rw [MovesTo, viewOf_lock hp hh hnext]
    exact ⟨.idle, hx.lock hh hnext⟩
  next => cases hs

theorem served_unlock {m : Mem} : Served j luck i s φ (φ i) (.unlock m) := by
  rintro r s' ⟨-, t, hp, hrest⟩ hs
  cases hs
  have hseat : (viewOf s φ).seat = t := seatOf_inside hx hp
  have hnext : ((φ i).next (.unlock m) ()).point = t.leave m := by simp [Phase.next, hp, Point.next]
  rw [MovesTo, viewOf_unlock (by rw [hp]; rfl) (by rw [hnext]; exact leave_dock t m)]
  refine ⟨?_, hx.unlock ((hx i).mp ⟨t, hp⟩) fun t' => by rw [hnext]; exact leave_ne_inside t t' m⟩
  rcases hrest with hrest | ⟨⟨h, b, rfl⟩, hm⟩
  · exact .leave (by rw [hseat]; exact hrest.1) (by rw [hseat]; exact hrest.2)
  · exact .shut hseat hm

theorem served_mkdirAll : Served j luck i s φ (φ i) .mkdirAll := by
  intro r s' _ hs
  rcases answer_cases hs with ⟨-, e, rfl, -, rfl⟩ | ⟨-, a, ha, rfl⟩ | ⟨-, hn, -⟩
  · exact .stay hx (by cases h : (φ i).point <;> simp [Phase.next, h, Point.next, Seat.next]) rfl
  · cases ha
    exact MovesTo.stay hx
      (by cases h : (φ i).point <;> simp [Phase.next, h, Point.next, Seat.next]) rfl
  · cases hn

variable (hφ : φ i = ⟨p, wrote, failed, x⟩)

include hφ

theorem served_readDir : Served j luck i s φ ⟨p, wrote, failed, x⟩ .readDir := by
  intro r s' hc hs
  rcases answer_cases hs with ⟨-, e, rfl, -, rfl⟩ | ⟨-, names, ha, rfl⟩ | ⟨-, -, e, rfl, -, rfl⟩
  · obtain rfl | ⟨b, rfl⟩ := hc <;> exact .same hx hφ
  · split at ha
    · cases ha
      obtain rfl | ⟨b, rfl⟩ := hc
      · exact .same hx hφ
      · exact .inside hx hφ rfl fun hseat _ => .count ((hx i).mp ⟨_, by rw [hφ]⟩) hseat
    · cases ha
  · obtain rfl | ⟨b, rfl⟩ := hc <;> exact .same hx hφ

theorem served_stat : Served j luck i s φ ⟨p, wrote, failed, x⟩ (.stat n) := by
  rintro r s' ⟨rfl, b, rfl⟩ hs
  rcases answer_cases hs with ⟨-, ⟨_, text⟩, rfl, rfl, rfl⟩ | ⟨-, a, ha, rfl⟩ |
    ⟨-, hn, ⟨_, text⟩, rfl, rfl, rfl⟩
  · exact .same hx hφ
  · obtain ⟨k, hfile, hk⟩ := Option.map_eq_some_iff.mp ha
    cases hk
    exact .inside hx hφ rfl fun hseat _ => .found hseat hfile
  · exact .inside hx hφ rfl fun hseat _ => .absent hseat (Option.map_eq_none_iff.mp hn)

theorem served_readFile : Served j luck i s φ ⟨p, wrote, failed, x⟩ (.readFile n) := by
  rintro r s' ⟨rfl, b, rfl⟩ hs
  rcases answer_cases hs with ⟨-, e, rfl, -, rfl⟩ | ⟨-, raw, ha, rfl⟩ | ⟨-, -, e, rfl, -, rfl⟩
  · exact .same hx hφ
  · obtain ⟨k, hfile, hk⟩ := Option.map_eq_some_iff.mp ha
    cases hk
    exact .inside hx hφ rfl fun hseat _ => .readOrphan hseat hfile
  · exact .same hx hφ

theorem served_create : Served j luck i s φ ⟨p, wrote, failed, x⟩ (.create n) := by
  intro r s' hc hs
  obtain ⟨hlog, hs⟩ := serve_create hs
  rcases answer_cases hs with ⟨-, e, rfl, -, rfl⟩ | ⟨-, k, hk, rfl⟩ | ⟨-, hn, -⟩
  · obtain ⟨b, raw, t, rfl, rfl⟩ | ⟨b, rfl, rfl⟩ := hc <;>
      exact .same hx hφ
  · cases hk
    obtain ⟨b, raw, t, rfl, rfl⟩ | ⟨b, rfl, rfl⟩ := hc
    · have hnamed := isSealed_of_isLogName hlog
      rw [Store.create, Store.record, if_pos hnamed]
      exact .inside hx hφ rfl fun hseat _ => .createSegment hseat hnamed
    · exact .inside hx hφ rfl fun hseat _ => .openActive hseat
  · cases hn

theorem served_write {bs : List Char} :
    Served j luck i s φ ⟨p, wrote, failed, x⟩ (.write h bs) := by
  intro r s' hc hs
  rcases answer_cases hs with ⟨he, e, rfl, -, rfl⟩ | ⟨-, k, hk, rfl⟩ | ⟨-, hn, -⟩
  · rw [if_pos (Option.isSome_iff_ne_none.mpr he)]
    have hmove {t : Seat} (hseat : (viewOf s φ).seat = t) :
        Moves j luck i s.holder failed (viewOf s φ) (.write h bs) wrote wrote
          { viewOf s φ with disk := s.disk.write h (bs.take luck.kept), seat := t } := by
      subst hseat
      exact .short he
    obtain ⟨b, line, rfl, -⟩ | ⟨b, rfl⟩ := hc <;>
      exact .inside hx hφ rfl fun hseat _ => hmove hseat
  · cases hk
    obtain ⟨b, line, rfl, rfl, hline, rfl⟩ | ⟨b, rfl⟩ := hc
    · have hmove {t : Seat} (ht : t = .held (some h) b) (hseat : (viewOf s φ).seat = t) :
          Moves j luck i s.holder failed (viewOf s φ) (.write h line.encode) false true
            { viewOf s φ with disk := s.disk.write h line.encode, seat := t } := by
        subst hseat
        exact .writeLine ht hline
      exact .inside hx hφ rfl fun hseat _ => hmove rfl hseat
    · exact .inside hx hφ rfl fun hseat hdock => .fill hseat hdock
  · cases hn

theorem served_sync : Served j luck i s φ ⟨p, wrote, failed, x⟩ (.sync h) := by
  intro r s' hc hs
  rcases answer_cases hs with ⟨-, e, rfl, -, rfl⟩ | ⟨-, k, hk, rfl⟩ | ⟨-, hn, -⟩
  · obtain ⟨b, rfl⟩ | ⟨b, rfl⟩ | rfl := hc <;>
      exact .same hx hφ
  · cases hk
    obtain ⟨b, rfl⟩ | ⟨b, rfl⟩ | rfl := hc
    · exact .inside hx hφ rfl fun hseat _ => .syncActive hseat
    · exact .inside hx hφ rfl fun hseat _ => .syncSegment hseat
    · refine .outside hx hφ nofun nofun rfl rfl fun hdock => ?_
      rw [update_eq_self_iff.mpr hdock.symm]
      exact .syncClosed
  · cases hn

theorem served_close : Served j luck i s φ ⟨p, wrote, failed, x⟩ (.close h) := by
  intro r s' hc hs
  obtain rfl : s' = s := by
    rcases answer_cases hs with ⟨-, e, rfl, -, rfl⟩ | ⟨-, k, hk, rfl⟩ | ⟨-, hn, -⟩
    · rfl
    · cases hk
      rfl
    · cases hn
  obtain ⟨n, rfl⟩ | rfl | rfl | ⟨t, rfl, -⟩ := hc
  · exact .outside hx hφ nofun nofun rfl rfl fun hdock => .undock hdock
  · refine .outside hx hφ nofun nofun rfl rfl fun hdock => ?_
    rw [update_eq_self_iff.mpr hdock.symm]
    exact .idle
  · exact .same hx hφ
  · exact .same hx hφ

theorem served_rename {src dst : Name} :
    Served j luck i s φ ⟨p, wrote, failed, x⟩ (.rename src dst) := by
  rintro r s' ⟨rfl, h, b, t, rfl, rfl⟩ hs
  obtain ⟨hlog, hs⟩ := serve_rename hs
  rcases answer_cases hs with ⟨-, e, rfl, -, rfl⟩ | ⟨-, a, ha, rfl⟩ | ⟨-, -, e, rfl, -, rfl⟩
  · exact .same hx hφ
  · obtain ⟨k, hfile, hk⟩ := Option.map_eq_some_iff.mp ha
    cases hk
    have hnamed := isSealed_of_isLogName hlog
    rw [Store.rename, Store.record, if_pos hnamed]
    exact .inside hx hφ rfl fun hseat _ => .sealActive hseat hfile hnamed
  · exact .same hx hφ

theorem served_remove : Served j luck i s φ ⟨p, wrote, failed, x⟩ (.remove n) := by
  intro r s' hc hs
  obtain ⟨rfl, b, rfl⟩ | ⟨hn, h, rfl⟩ := hc
  · rcases answer_cases hs with ⟨-, e, rfl, -, rfl⟩ | ⟨-, a, ha, rfl⟩ | ⟨-, -, e, rfl, -, rfl⟩
    · exact .same hx hφ
    · obtain ⟨k, -, hk⟩ := Option.map_eq_some_iff.mp ha
      cases hk
      exact .inside hx hφ rfl fun hseat _ => .clear hseat
    · exact .same hx hφ
  · rcases answer_cases hs with ⟨he, e, rfl, -, rfl⟩ | ⟨-, a, ha, rfl⟩ |
      ⟨-, hf, e, rfl, -, rfl⟩
    · exact .outside hx hφ nofun nofun rfl rfl fun hdock => .keepSealed hdock (.inl he)
    · obtain ⟨k, -, hk⟩ := Option.map_eq_some_iff.mp ha
      cases hk
      exact .outside hx hφ nofun nofun rfl rfl fun hdock => .removeSealed hdock hn
    · exact .outside hx hφ nofun nofun rfl rfl fun hdock =>
        .keepSealed hdock (.inr (Option.map_eq_none_iff.mp hf))

theorem served_openFile : Served j luck i s φ ⟨p, wrote, failed, x⟩ (.openFile n) := by
  rintro r s' ⟨rfl, hn⟩ hs
  rcases answer_cases hs with ⟨-, e, rfl, -, rfl⟩ | ⟨-, k, ha, rfl⟩ | ⟨-, -, e, rfl, -, rfl⟩
  · exact .same hx hφ
  · obtain ⟨k, hfile, hk⟩ := Option.map_eq_some_iff.mp ha
    cases hk
    exact .outside hx hφ nofun nofun rfl rfl fun hdock => .openSealed hdock hn hfile
  · exact .same hx hφ

theorem served_put {key : String} : Served j luck i s φ ⟨p, wrote, failed, x⟩ (.put key h) := by
  rintro r s' ⟨n, rfl, hkeyed⟩ hs
  rcases answer_cases hs with ⟨-, e, rfl, -, rfl⟩ | ⟨-, k, hk, rfl⟩ | ⟨-, hn, -⟩
  · exact .same hx hφ
  · cases hk
    exact .outside hx hφ nofun nofun rfl rfl fun hdock => .put hdock hkeyed
  · cases hn

end

theorem movesTo_of_serve {r : iface.Answer c} (hx : Exclusive s φ) (hc : (φ i).Permits j c)
    (hs : serve i luck s c = some (r, s')) : MovesTo j luck i s φ c ((φ i).next c r) s' := by
  cases c with
  | ctxErr | now =>
    cases hs
    exact .stay hx (by cases h : (φ i).point <;> simp [Phase.next, h, Point.next, Seat.next]) rfl
  | lock => exact served_lock hx hc hs
  | unlock m => exact served_unlock hx hc hs
  | mkdirAll => exact served_mkdirAll hx hc hs
  | readDir => exact served_readDir hx rfl hc hs
  | stat n => exact served_stat hx rfl hc hs
  | readFile n => exact served_readFile hx rfl hc hs
  | create n => exact served_create hx rfl hc hs
  | write h bs => exact served_write hx rfl hc hs
  | sync h => exact served_sync hx rfl hc hs
  | close h => exact served_close hx rfl hc hs
  | rename src dst => exact served_rename hx rfl hc hs
  | remove n => exact served_remove hx rfl hc hs
  | openFile n => exact served_openFile hx rfl hc hs
  | put key h => exact served_put hx rfl hc hs

theorem Moves.wf {v v' : View} (h : Moves j luck i holder failed v c wrote wrote' v')
    (hw : v.disk.Wf) : v'.disk.Wf := by
  cases h with
  | createSegment _ _ | openActive _ => exact hw.create _
  | fill _ _ | writeLine _ _ | short _ => exact hw.write _ _
  | syncActive _ | syncSegment _ | syncClosed => exact hw.sync _
  | sealActive _ file _ => exact hw.rename file _
  | clear _ | removeSealed _ _ => exact hw.remove _
  | _ => exact hw

theorem Moves.offered {v v' : View} (h : Moves j luck i holder failed v c wrote wrote' v') :
    v'.offered = v.offered := by
  cases h <;> rfl

end

/-! ## Steps -/

/-- What every world has: the log is of runs of the operations, the mutex is exclusive, the disk is
well formed, and the lines of the operations were offered. -/
structure Base (w : World) : Prop where
  ran : Pool.Ran prog w
  exclusive : Exclusive w.shared (phase w)
  wf : w.shared.disk.Wf
  offered : ∀ {i : Nat} {j : Wal × Job} {q : Prog iface String Unit} {line : Text},
    w.tasks[i]? = some (j, q) → j.2.line = some line → line ∈ w.shared.offered

section

variable {w w' : World} {e : Event} {i : Nat} {j : Wal × Job} {q : Prog iface String Unit}

theorem after_protocol (k : Job) (φ : Phase) (t : List (Answered iface)) :
    (protocol k).after φ t = t.foldl (fun φ a => φ.next a.1 a.2) φ := by
  induction t generalizing φ with
  | nil => rfl
  | cons a t ih => exact ih _

theorem Base.follows (h : Base w) (hi : w.tasks[i]? = some (j, q)) :
    (protocol j.2).Allows (Ends j.2) q (phase w i) := by
  have hrun := ((follows_prog j.1 j.2).steps (h.ran.steps hi)).1
  rwa [after_protocol] at hrun

theorem Base.ends (h : Base w) (hi : w.tasks[i]? = some (j, q)) (hq : running (j, q) = false) :
    ∃ out, q = .ofExcept out ∧ Ends j.2 (phase w i) out := by
  have hf := h.follows hi
  cases q with
  | ret a => exact ⟨.ok a, rfl, hf⟩
  | fail e => exact ⟨.error e, rfl, hf⟩
  | call c k => cases hq

theorem phase_of_length_le (h : Base w) (hi : w.tasks.length ≤ i) : phase w i = {} := by
  rw [phase, h.ran.fresh hi]
  rfl

theorem quiet_iff : quiet w = true ↔
    ∀ {i : Nat} {t : (Wal × Job) × Prog iface String Unit}, w.tasks[i]? = some t →
      running t = false := by
  rw [quiet, all_eq_true]
  constructor
  · intro h i t hi
    exact (Bool.not_eq_eq_eq_not.mp (h t (mem_of_getElem? hi)))
  · intro h t ht
    obtain ⟨i, hi⟩ := mem_iff_getElem?.mp ht
    rw [h hi]
    rfl

/-- An operation that is not running is neither inside nor at a dock. -/
theorem Base.rests (h : Base w) (hi : ∀ t, w.tasks[i]? = some t → running t = false) :
    (phase w i).point = .out ∨ ∃ f, (phase w i).point = .closing f := by
  cases ht : w.tasks[i]? with
  | none =>
    rw [phase_of_length_le h (getElem?_eq_none_iff.mp ht)]
    exact .inl rfl
  | some t =>
    obtain ⟨out, -, hends⟩ := h.ends ht (hi t ht)
    exact hends.2

theorem Base.holder_of_quiet (h : Base w) (hq : quiet w = true) : w.shared.holder = none := by
  cases hh : w.shared.holder with
  | none => rfl
  | some i =>
    obtain ⟨t, ht⟩ := (h.exclusive i).mpr hh
    rcases h.rests fun t ht => quiet_iff.mp hq ht with hp | ⟨f, hp⟩ <;> rw [hp] at ht <;> cases ht

theorem phase_cons_self {s : Store} {tasks : List ((Wal × Job) × Prog iface String Unit)}
    {a : Answered iface} :
    phase { shared := s, tasks, log := (i, a) :: w.log } =
      update (phase w) i ((phase w i).next a.1 a.2) := by
  let reach (t : List (Answered iface)) : Phase := t.foldl (fun φ a => φ.next a.1 a.2) {}
  have hx : reach (own i w.log ++ [a]) = (phase w i).next a.1 a.2 := foldl_append
  exact own_cons_update hx

/-- What an event does to the view. -/
inductive Turn (w : World) : Event → World → Prop
  | spawn {k : Job} {w' : World}
      (tasks : w'.tasks = w.tasks ++ [((w.shared.wal, k), k.prog w.shared.wal)])
      (phases : phase w' = phase w)
      (seen : view w' = { view w with offered := k.line.toList ++ w.shared.offered }) :
      Turn w (.spawn k) w'
  | act {i : Nat} {luck : Luck} {j : Wal × Job} {c : Call}
      {rest : iface.Answer c → Prog iface String Unit} {r : iface.Answer c} {s : Store} {w' : World}
      (task : w.tasks[i]? = some (j, .call c rest))
      (served : serve i luck w.shared c = some (r, s))
      (tasks : w'.tasks = w.tasks.set i (j, rest r))
      (phases : phase w' = update (phase w) i ((phase w i).next c r))
      (moves : Moves j.2 luck i w.shared.holder (phase w i).failed (view w) c
        (phase w i).wrote ((phase w i).next c r).wrote
        (view w')) :
      Turn w (.act i luck) w'
  | crash {keep : Nat → Nat} {w' : World} (tasks : w'.tasks = [])
      (seen : view w' =
        { view w with
          disk := w.shared.disk.crash keep
          seat := .held none 0
          docks := fun _ => .idle }) :
      Turn w (.crash keep) w'
  | reopen {wal : Wal} {w' : World} (quiet : quiet w = true) (tasks : w'.tasks = w.tasks)
      (phases : phase w' = phase w)
      (seen : view w' = { view w with seat := .held none 0 }) : Turn w (.reopen wal) w'

theorem turn_of_spawn (h : Base w) (k : Job) :
    let w' := Pool.spawn prog
      { w with shared := { w.shared with offered := k.line.toList ++ w.shared.offered } }
      (w.shared.wal, k)
    Base w' ∧ Turn w (.spawn k) w' := by
  have hran : Pool.Ran prog
      { w with shared := { w.shared with offered := k.line.toList ++ w.shared.offered } } :=
    ⟨h.ran.steps, h.ran.fresh⟩
  refine ⟨⟨hran.spawn _, h.exclusive, h.wf, ?_⟩, .spawn rfl rfl rfl⟩
  intro i j q line hi hline
  rcases Pool.getElem?_spawn.mp hi with hi | ⟨-, ht⟩
  · exact mem_append_right _ (h.offered hi hline)
  · cases ht
    exact mem_append_left _ (by rw [hline]; exact mem_singleton_self _)

/-- What an operation that moves has done: it has made a call that it may make, and the answer is in
the log. -/
theorem moves_of_act (h : Base w) {luck : Luck} (hs : w.act (serve i luck) i = some w') :
    ∃ (j : Wal × Job) (c : Call) (rest : iface.Answer c → Prog iface String Unit)
      (r : iface.Answer c), w.tasks[i]? = some (j, .call c rest) ∧
      (phase w i).Permits j.2 c ∧ serve i luck w.shared c = some (r, w'.shared) ∧
      w'.tasks = w.tasks.set i (j, rest r) ∧ w'.log = (i, ⟨c, r⟩) :: w.log ∧
      phase w' = update (phase w) i ((phase w i).next c r) ∧
      Moves j.2 luck i w.shared.holder (phase w i).failed (view w) c (phase w i).wrote
        ((phase w i).next c r).wrote (view w') ∧
      Exclusive w'.shared (phase w') := by
  obtain ⟨j, c, k, r, s, hi, hserve, rfl⟩ := Pool.act_cases hs
  have hpermits : (phase w i).Permits j.2 c := (h.follows hi).1
  obtain ⟨hmoves, hx⟩ := movesTo_of_serve h.exclusive hpermits hserve
  have hphase :
      phase { shared := s, tasks := w.tasks.set i (j, k r), log := (i, ⟨c, r⟩) :: w.log } =
        update (phase w) i ((phase w i).next c r) := phase_cons_self
  rw [← hphase] at hx hmoves
  exact ⟨j, c, k, r, hi, hpermits, hserve, rfl, rfl, hphase, hmoves, hx⟩

theorem turn_of_act (h : Base w) {luck : Luck} (hs : w.act (serve i luck) i = some w') :
    Base w' ∧ Turn w (.act i luck) w' := by
  obtain ⟨j, c, rest, r, hi, -, hserve, htasks, -, hphase, hmoves, hx⟩ := moves_of_act h hs
  refine ⟨⟨h.ran.act hs, hx, hmoves.wf h.wf, ?_⟩, .act hi hserve htasks hphase hmoves⟩
  intro i' j' q line hi' hline
  have hoffered : w'.shared.offered = w.shared.offered := hmoves.offered
  rw [hoffered]
  rw [htasks] at hi'
  rcases (Pool.getElem?_set hi).mp hi' with ⟨-, ht⟩ | ⟨-, hi'⟩
  · cases ht
    exact h.offered hi hline
  · exact h.offered hi' hline

theorem exclusive_idle {s : Store} (hs : s.holder = none) : Exclusive s fun _ => ({} : Phase) := by
  intro i
  rw [hs]
  refine iff_of_false ?_ nofun
  rintro ⟨t, ht⟩
  cases ht

theorem turn_of_crash (h : Base w) (keep : Nat → Nat) : Base { shared := w.shared.crash keep } ∧
      Turn w (.crash keep) { shared := w.shared.crash keep } := by
  refine ⟨⟨Pool.ran_init _, exclusive_idle rfl, h.wf.crash keep, ?_⟩, .crash rfl rfl⟩
  intro i j q line hi
  cases hi

theorem turn_of_reopen (h : Base w) (hq : quiet w = true) (wal : Wal) :
    Base { w with shared := { w.shared with wal, mem := {} } } ∧
      Turn w (.reopen wal) { w with shared := { w.shared with wal, mem := {} } } := by
  refine ⟨⟨⟨h.ran.steps, h.ran.fresh⟩, h.exclusive, h.wf, h.offered⟩, .reopen hq rfl rfl ?_⟩
  have hseat : seatOf { w.shared with wal, mem := {} } (phase w) = .held none 0 := by
    simp only [seatOf, h.holder_of_quiet hq]
  change View.mk _ _ _ _ (seatOf _ (phase w)) _ = _
  rw [hseat]
  rfl

theorem turn_of_step (h : Base w) (hs : machine.step w e = some w') : Base w' ∧ Turn w e w' := by
  cases e with
  | spawn k =>
    cases hs
    exact turn_of_spawn h k
  | act i luck => exact turn_of_act h hs
  | crash keep =>
    cases hs
    exact turn_of_crash h keep
  | reopen wal =>
    simp only [machine] at hs
    split at hs
    next hq =>
      cases hs
      exact turn_of_reopen h hq wal
    next => cases hs

theorem nextCall_eq {c : Call} {rest : iface.Answer c → Prog iface String Unit}
    (hi : w.tasks[i]? = some (j, .call c rest)) : nextCall w i = some c := by
  rw [nextCall, hi]

theorem base_start (wal : Wal) : Base (start wal) := by
  refine ⟨Pool.ran_init _, exclusive_idle rfl, Disk.wf_empty, ?_⟩
  intro i j q line hi
  cases hi

end

end Beats.Publish
