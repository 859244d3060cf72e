import Mathlib.Data.List.Sort
import Beats.Api.Proposal
import Beats.Lib.Digits
import Beats.Lib.Lines
import Beats.Lib.Prog

/-!
# The write-ahead log

`WAL` of `internal/publish`: one object is one line of an active segment, which is sealed by a
rename, shipped to a sink and removed.  A segment that a previous process left open is recovered
into a sealed one first.

The file system, the sink, the clock and the mutex are the environment.  Taking the mutex hands
the fields it guards to the program, and giving it back returns them, so a failure under the mutex
carries the fields as it leaves them.
-/

namespace Beats.Publish

open Lib List Digits

/-! ## Segment names -/

/-- A name in the directory of the log. -/
abbrev Name := List Char

/-- The output of `json.Marshal`, which has no newline. -/
abbrev Text := Line '\n'

def activeSegmentName : Name := "active.jsonl".toList

def segmentExt : List Char := ".jsonl".toList

/-- The name of a sealed segment.  `UnixNano` wraps around at the bounds of `int64`. -/
def segmentName (baseOffset : Nat) (sealedAt : Time) : Name :=
  Digits.padded 20 baseOffset ++
    '-' :: (Digits.decimal (sealedAt.unixNano.bmod (2 ^ 64)) ++ segmentExt)

/-- `strings.CutSuffix`. -/
def cutSuffix (s suffix : List Char) : Option (List Char) :=
  if suffix <:+ s then some (s.take (s.length - suffix.length)) else none

/-- `strings.Cut` at one character. -/
def cut (sep : Char) : List Char → Option (List Char × List Char)
  | [] => none
  | c :: cs => if c = sep then some ([], cs) else (cut sep cs).map fun p => (c :: p.1, p.2)

/-- The offset and the time of a sealed segment's name. -/
def parseSegmentName (name : Name) : Option (Int × Time) :=
  match cutSuffix name segmentExt with
  | none => none
  | some trimmed =>
    match cut '-' trimmed with
    | none => none
    | some (offsetPart, nanosPart) =>
      match Digits.parseInt64 offsetPart, Digits.parseInt64 nanosPart with
      | some offset, some nanos => some (offset, nanos)
      | _, _ => none

def isSealed (name : Name) : Bool := (parseSegmentName name).isSome

def nextBaseOffset (names : List Name) : Nat := names.countP isSealed

/-- The sealed segments among the names of the directory, sorted.  The source sorts their paths,
which differ from the names by one directory. -/
def sealedOf (names : List Name) : List Name := (names.filter isSealed).insertionSort (· ≤ ·)

theorem cutSuffix_append (s suffix : List Char) : cutSuffix (s ++ suffix) suffix = some s := by
  rw [cutSuffix, if_pos (suffix_append s suffix), length_append, Nat.add_sub_cancel, take_left]

theorem cut_append {sep : Char} {s : List Char} (h : sep ∉ s) (rest : List Char) :
    cut sep (s ++ sep :: rest) = some (s, rest) := by
  induction s with
  | nil => rw [nil_append, cut, if_pos rfl]
  | cons c s ih =>
    have hc : c ≠ sep := fun he => h (by simp [he])
    rw [cons_append, cut, if_neg hc, ih fun hm => h (mem_cons_of_mem _ hm)]
    rfl

theorem cutSuffix_eq_some {s suffix p : List Char} (h : cutSuffix s suffix = some p) :
    s = p ++ suffix := by
  unfold cutSuffix at h
  split at h
  next hs =>
    obtain ⟨q, rfl⟩ := hs
    rw [length_append, Nat.add_sub_cancel, take_left] at h
    rw [Option.some.inj h]
  next => cases h

theorem cut_eq_some {sep : Char} {s : List Char} {p : List Char × List Char}
    (h : cut sep s = some p) : s = p.1 ++ sep :: p.2 := by
  induction s generalizing p with
  | nil => cases h
  | cons c s ih =>
    rw [cut] at h
    split at h
    next hc =>
      cases h
      rw [hc]
      rfl
    next =>
      obtain ⟨q, hq, rfl⟩ := Option.map_eq_some_iff.mp h
      rw [ih hq]
      rfl

/-- A name that parses is two numbers, a dash between them and the extension. -/
theorem parseSegmentName_eq_some {n : Name} {p : Int × Time} (h : parseSegmentName n = some p) :
    ∃ x y, n = x ++ '-' :: y ++ segmentExt ∧ parseInt64 x = some p.1 ∧
      parseInt64 y = some p.2 := by
  unfold parseSegmentName at h
  split at h
  next => cases h
  next trimmed htrim =>
    split at h
    next => cases h
    next x y hcut =>
      split at h
      next offset nanos hx hy =>
        cases h
        exact ⟨x, y, by rw [cutSuffix_eq_some htrim, cut_eq_some hcut], hx, hy⟩
      next => cases h

/-- The name of a segment parses where its offset is of the type `int64`. -/
theorem parseSegmentName_segmentName (b : Nat) (t : Time) :
    parseSegmentName (segmentName b t) =
      if b < 2 ^ 63 then some ((b : Int), t.unixNano.bmod (2 ^ 64)) else none := by
  have hdash : '-' ∉ padded 20 b := fun hm =>
    absurd (isDigit_of_mem_padded hm) (by decide)
  have htrim : cutSuffix (segmentName b t) segmentExt =
      some (padded 20 b ++ '-' :: decimal (t.unixNano.bmod (2 ^ 64))) := by
    rw [segmentName, ← cons_append, ← append_assoc, cutSuffix_append]
  have hnanos := parseInt64_eq_some.mpr ⟨parseInt_decimal _, inInt64_bmod t.unixNano⟩
  simp only [parseSegmentName, htrim, cut_append hdash, hnanos, parseInt64_padded]
  by_cases hb : b < 2 ^ 63
  · simp only [if_pos hb]
  · simp only [if_neg hb]

theorem isSealed_segmentName {b : Nat} {t : Time} :
    isSealed (segmentName b t) = true ↔ b < 2 ^ 63 := by
  rw [isSealed, parseSegmentName_segmentName]
  split
  next hb => exact iff_of_true rfl hb
  next hb => exact iff_of_false Bool.false_ne_true hb

theorem segmentName_ne_active (b : Nat) (t : Time) : segmentName b t ≠ activeSegmentName := by
  intro h
  have hdash : '-' ∈ segmentName b t := mem_append_right _ (mem_cons_self ..)
  rw [h] at hdash
  revert hdash
  decide

theorem slash_notMem_of_sealed {n : Name} (h : isSealed n = true) : '/' ∉ n := by
  obtain ⟨p, hp⟩ := Option.isSome_iff_exists.mp h
  obtain ⟨x, y, rfl, hx, hy⟩ := parseSegmentName_eq_some hp
  have hnumber {ds : List Char} {z : Int} (hd : parseInt64 ds = some z) : '/' ∉ ds := fun hm => by
    have := isDigit_of_parseInt (parseInt64_eq_some.mp hd).1 hm
    revert this
    decide
  simp [hnumber hx, hnumber hy, segmentExt]

theorem ne_active_of_sealed {n : Name} (hn : isSealed n = true) : n ≠ activeSegmentName := by
  rintro rfl
  cases hn

/-! ## The environment -/

/-- What a file system call or the sink fails with. -/
structure FsError where
  notExist : Bool := false
  text : String := ""
deriving DecidableEq

/-- The fields that the mutex guards.  A file is known by its number. -/
structure Mem where
  active : Option Nat := none
  size : Nat := 0
  openedAt : Time := Time.zero
  baseOffset : Nat := 0
  /-- `closeOnce` has run. -/
  closed : Bool := false
deriving DecidableEq

/-- What the log asks of its surroundings. -/
inductive Call where
  | ctxErr
  | now
  | lock
  | unlock (m : Mem)
  | mkdirAll
  | readDir
  | stat (n : Name)
  | readFile (n : Name)
  /-- `OpenFile` with `O_CREATE|O_WRONLY|O_TRUNC`. -/
  | create (n : Name)
  | write (h : Nat) (bs : List Char)
  | sync (h : Nat)
  | close (h : Nat)
  | rename (src dst : Name)
  | remove (n : Name)
  | openFile (n : Name)
  /-- `SegmentSink.Put` of what the file holds. -/
  | put (key : String) (h : Nat)
deriving DecidableEq

/-- The interface of the log. -/
def iface : Iface where
  Call := Call
  Answer
    | .ctxErr => Option String
    | .now => Time
    | .lock => Mem
    | .unlock _ => Unit
    | .mkdirAll => Except FsError Unit
    | .readDir => Except FsError (List Name)
    | .stat _ => Except FsError Unit
    | .readFile _ => Except FsError (List Char)
    | .create _ => Except FsError Nat
    | .write _ _ => Except FsError Nat
    | .sync _ => Except FsError Unit
    | .close _ => Except FsError Unit
    | .rename _ _ => Except FsError Unit
    | .remove _ => Except FsError Unit
    | .openFile _ => Except FsError Nat
    | .put _ _ => Except FsError Unit

section

variable {ε : Type}

def now : Prog iface ε Time := @Prog.ask iface ε .now

def lock : Prog iface ε Mem := @Prog.ask iface ε .lock

def unlock (m : Mem) : Prog iface ε Unit := @Prog.ask iface ε (.unlock m)

def readDir : Prog iface ε (Except FsError (List Name)) := @Prog.ask iface ε .readDir

def create (n : Name) : Prog iface ε (Except FsError Nat) := @Prog.ask iface ε (.create n)

def write (h : Nat) (bs : List Char) : Prog iface ε (Except FsError Nat) :=
  @Prog.ask iface ε (.write h bs)

def sync (h : Nat) : Prog iface ε (Except FsError Unit) := @Prog.ask iface ε (.sync h)

def close (h : Nat) : Prog iface ε (Except FsError Unit) := @Prog.ask iface ε (.close h)

def remove (n : Name) : Prog iface ε (Except FsError Unit) := @Prog.ask iface ε (.remove n)

end

/-- A failure under the mutex, with the fields as it leaves them. -/
structure Fault where
  mem : Mem
  text : String := ""

/-- Fail with the fields `m` where a call failed. -/
def orFault {α : Type} (m : Mem) (what : String) : Except FsError α → Prog iface Fault α :=
  Prog.orFail fun e => { mem := m, text := what ++ e.text }

/-- `publish.WAL`, with the bounds that its maker set. -/
structure Wal where
  dir : String := ""
  beat : String := ""
  subject : String := ""
  maxBytes : Int := 0
  maxAge : Duration := 0

namespace Wal

def defaultMaxBytes : Int := 67108864

def defaultMaxAge : Duration := 600000000000

/-- The size that seals the active segment. -/
def sizeBound (w : Wal) : Int := if w.maxBytes ≤ 0 then defaultMaxBytes else w.maxBytes

/-- `WAL.maxAge`. -/
def ageBound (w : Wal) : Duration := if w.maxAge ≤ 0 then defaultMaxAge else w.maxAge

def beatDir (w : Wal) : String := w.dir ++ "/" ++ w.beat ++ "/" ++ w.subject

def path (w : Wal) (n : Name) : String := w.beatDir ++ "/" ++ String.ofList n

/-! ## Sealing and recovery -/

/-- The active segment is created, and is empty. -/
def openFreshActive (m : Mem) : Prog iface Fault Mem := do
  let h ← orFault m "wal: open active segment: " (← create activeSegmentName)
  let at' ← now
  return { m with active := some h, size := 0, openedAt := at' }

/-- `WAL.seal` of the open file `h`. -/
def sealFile (m : Mem) (h : Nat) : Prog iface Fault Mem := do
  orFault m "wal: seal: sync: " (← sync h)
  orFault m "wal: seal: close: " (← close h)
  let at' ← now
  orFault m "wal: seal: rename: "
    (← @Prog.ask iface Fault (.rename activeSegmentName (segmentName m.baseOffset at')))
  openFreshActive { m with baseOffset := m.baseOffset + 1, active := none }

/-- `WAL.seal`.  Without an active segment it would dereference nil. -/
def sealActive (m : Mem) : Prog iface Fault Mem :=
  match m.active with
  | some h => sealFile m h
  | none => .fail { mem := m, text := "invalid memory address or nil pointer dereference" }

/-- The complete lines of an orphan are sealed, and it is removed. -/
def recoverOrphan (m : Mem) (base : Nat) : Prog iface Fault Unit := do
  let raw ← orFault m "wal: read orphaned active segment: "
    (← @Prog.ask iface Fault (.readFile activeSegmentName))
  let at' ← now
  let f ← orFault m "wal: create revovered segment: " (← create (segmentName base at'))
  match ← write f (complete '\n' raw) with
  | .error e => do
    let _ ← close f
    .fail { mem := m, text := "wal: write recovered segment: " ++ e.text }
  | .ok _ => do
    match ← sync f with
    | .error e => do
      let _ ← close f
      .fail { mem := m, text := "wal: sync recovered segment: " ++ e.text }
    | .ok _ => do
      orFault m "wal: close recovered segment: " (← close f)
      orFault m "" (← remove activeSegmentName)

/-- Where no segment is active, an orphan is recovered and one opened. -/
def ensureActive (w : Wal) (m : Mem) : Prog iface Fault Mem :=
  match m.active with
  | some _ => return m
  | none => do
    orFault m ("wal: mkdir " ++ w.beatDir ++ ": ") (← @Prog.ask iface Fault .mkdirAll)
    let names ← orFault m "wal: next base offset: wal: next base offset: " (← readDir)
    let base := nextBaseOffset names
    match ← @Prog.ask iface Fault (.stat activeSegmentName) with
    | .ok _ => do
      recoverOrphan m base
      openFreshActive { m with baseOffset := base + 1 }
    | .error e =>
      if !e.notExist then
        .fail { mem := m, text := "wal: stat " ++ w.path activeSegmentName ++ ": " ++ e.text }
      else openFreshActive { m with baseOffset := base }

/-! ## Operations under the mutex -/

/-- The part of `WAL.Append` that seals an active segment of age. -/
def sealAged (w : Wal) (m : Mem) : Prog iface Fault Mem := do
  let at' ← now
  if w.ageBound ≤ at' - m.openedAt then sealActive m else return m

/-- The part of `WAL.Append` that encodes and writes the line, and seals by size. -/
def writeLine (w : Wal) (obj : Except String Text) (m : Mem) : Prog iface Fault Mem :=
  match obj, m.active with
  | .error e, _ => .fail { mem := m, text := "wal: encode line: " ++ e }
  | .ok _, none => .fail { mem := m, text := "invalid memory address or nil pointer dereference" }
  | .ok line, some h => do
    let n ← orFault m "wal: write: " (← write h line.encode)
    let m := { m with size := m.size + n }
    if w.sizeBound ≤ m.size then sealActive m else return m

/-- One append, under the mutex. -/
def appendLocked (w : Wal) (obj : Except String Text) (m : Mem) : Prog iface Fault Mem := do
  let m ← ensureActive w m
  let m ← sealAged w m
  writeLine w obj m

/-- A failure with a text before its own. -/
def wrap (what : String) (p : Prog iface Fault Mem) : Prog iface Fault Mem := do
  Prog.orFail (fun f : Fault => { f with text := what ++ f.text }) (← p.attempt)

/-- The active segment is sealed if it is old, under the mutex. -/
def sealIfStaleLocked (w : Wal) (m : Mem) : Prog iface Fault Mem :=
  if m.active = none ∨ m.size = 0 then return m
  else do
    let at' ← now
    if at' - m.openedAt < w.ageBound then return m
    else wrap "wal: seal if stale: " (sealActive m)

/-- What `WAL.Drain` does under the mutex. -/
def drainLocked (m : Mem) : Prog iface Fault Mem :=
  if m.active ≠ none ∧ 0 < m.size then wrap "wal: drain: seal: " (sealActive m) else return m

/-- One tick of `WAL.runSyncLoop`. -/
def tickLocked (m : Mem) : Prog iface Fault Mem :=
  match m.active with
  | some h => do
    let _ ← sync h
    return m
  | none => return m

/-- Run an operation under the mutex. -/
def locked (body : Mem → Prog iface Fault Mem) : Prog iface String Unit := do
  let m ← lock
  match ← (body m).attempt with
  | .ok m => unlock m
  | .error f => do
    unlock f.mem
    .fail f.text

/-! ## Operations -/

def append (w : Wal) (obj : Except String Text) : Prog iface String Unit := do
  match ← @Prog.ask iface String .ctxErr with
  | some e => .fail e
  | none => locked (appendLocked w obj)

/-- `WAL.Close`.  Only the first one does anything. -/
def closeWal : Prog iface String Unit := do
  let m ← lock
  if m.closed then unlock m
  else do
    unlock { m with active := none, closed := true }
    match m.active with
    | none => return ()
    | some h => do
      Prog.orFail (fun e : FsError => "wal: close: sync: " ++ e.text) (← sync h)
      Prog.orFail FsError.text (← close h)

/-- The sealed segments, in their order. -/
def sealedSegments : Prog iface String (List Name) := do
  match ← readDir with
  | .ok names => return sealedOf names
  | .error e =>
    if e.notExist then return [] else .fail ("wal: sealed segments: " ++ e.text)

/-- The key of a segment in the sink. -/
def key (w : Wal) (n : Name) : String := w.beat ++ "/" ++ w.subject ++ "/" ++ String.ofList n

/-- `WAL.shipOne`.  The file is closed on every path. -/
def shipOne (w : Wal) (n : Name) : Prog iface String Unit := do
  let f ← Prog.orFail (fun e : FsError => "wal: ship: open " ++ w.path n ++ ": " ++ e.text)
    (← @Prog.ask iface String (.openFile n))
  match ← @Prog.ask iface String (.put (w.key n) f) with
  | .error e => do
    let _ ← close f
    .fail ("wal: ship: put " ++ w.key n ++ ": " ++ e.text)
  | .ok _ => do
    let removed ← remove n
    let _ ← close f
    Prog.orFail (fun e : FsError => "wal: ship: remove " ++ w.path n ++ ": " ++ e.text) removed

/-- The segments are shipped one after another. -/
def shipAll (w : Wal) : List Name → Prog iface String Unit
  | [] => return ()
  | n :: ns => do
    shipOne w n
    shipAll w ns

def ship (w : Wal) : Prog iface String Unit := do
  let segments ← sealedSegments
  shipAll w segments

/-- The active segment is sealed, everything shipped, and the log closed. -/
def drain (w : Wal) : Prog iface String Unit := do
  locked drainLocked
  Prog.orFail (fun e => "wal: drain: ship: " ++ e) (← (ship w).attempt)
  closeWal

end Wal

/-- An operation of the log. -/
inductive Job where
  | append (obj : Except String Text)
  | sealIfStale
  | ship
  | drain
  | close
  | tick

/-- The program of an operation. -/
def Job.prog (w : Wal) : Job → Prog iface String Unit
  | .append obj => w.append obj
  | .sealIfStale => Wal.locked (Wal.sealIfStaleLocked w)
  | .ship => w.ship
  | .drain => w.drain
  | .close => Wal.closeWal
  | .tick => Wal.locked Wal.tickLocked

end Beats.Publish
