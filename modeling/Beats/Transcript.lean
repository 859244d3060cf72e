import Mathlib.Data.Finset.Sort
import Beats.Lib.SliceSort
import Beats.Clank.Store
import Beats.Publish.Wal

/-!
# Recovering transcripts

`internal/transcript`: what was checkpointed is read back from the bucket.  `WalkTurns` reads the
turns of one run, `ListRunIDs` finds the runs, and `WriteAll` writes each run that it finds with the
set that the run left.

`WalkTurns` is exact for every run, whatever its ID is.  `ListRunIDs` takes the ID to be the part of
a key up to the next slash, and every ID that `Propose` mints holds a slash.  So it finds none of
them, and `WriteAll` writes nothing (`discovery_iff`).
-/

namespace Beats.Transcript

open Lib Clank Publish Monitor Prog Digits
open List hiding set

/-! ## The environment -/

/-- What a listing gave: the keys of the pages that came, and the error that ended it. -/
structure Listing where
  keys : List String := []
  err : Option String := none

/-- How an object fails to be read. -/
inductive GetFailure where
  | get (err : String)
  | read (err : String)

/-- The calls of the readers.  `writePair` is `WritePair` of a run with its set. -/
inductive Call where
  | list (pre : String)
  | get (key : String)
  | writePair (dir : String) (turns : List Turn) (set : Proposal.Set)

def iface : Iface where
  Call := Call
  Answer
    | .list _ => Listing
    | .get _ => Except GetFailure Bytes
    | .writePair _ _ _ => Except String Unit

/-- What the readers use: the key and the JSON of the store, the decoder of a set, the sort of the
turns by their steps, and `filepath.Join`. -/
structure Reader where
  store : S3Store
  unmarshalSet : Bytes → Except String Proposal.Set
  slice : SliceSort fun found : Int × Turn => found.1
  join : String → String → String

/-! ## The turns of a run -/

/-- `strings.TrimPrefix`. -/
def trimPrefix (s pre : List Char) : List Char := if pre <+: s then s.drop pre.length else s

/-- `strings.TrimSuffix`. -/
def trimSuffix (s suffix : List Char) : List Char := (cutSuffix s suffix).getD s

/-- `strconv.Atoi`. -/
def atoi (s : List Char) : Option Int := Digits.parseInt64 s

/-- Where the turns of a run are. -/
def dirOf (runID : String) : String := "transcripts/" ++ runID ++ "/"

/-- The step of a turn's object. -/
def stepOf (pre key : String) : Option Int :=
  atoi (trimSuffix (trimPrefix key.toList pre.toList) ".json".toList)

def getTurnError (key : String) : GetFailure → String
  | .get err => "transcript: get " ++ key ++ ": " ++ err
  | .read err => "transcript: read " ++ key ++ ": " ++ err

namespace Reader

variable (r : Reader)

/-- A turn is got, opened and decoded. -/
def getTurn (key : String) : Prog iface String Turn := do
  let sealed ← Prog.orFail (getTurnError key) (← @Prog.ask iface String (.get key))
  let raw ← Prog.orFail (fun err => "transcript: unseal " ++ key ++ ": " ++ err)
    (r.store.key.open sealed)
  Prog.orFail (fun err => "transcript: decode " ++ key ++ ": " ++ err) (r.store.json.unmarshal raw)

/-- The turns of the listed objects, each with its step. -/
def collect (pre : String) : List String → List (Int × Turn) →
    Prog iface String (List (Int × Turn))
  | [], found => return found
  | key :: keys, found =>
    match stepOf pre key with
    | none => collect pre keys found
    | some step => do
      let turn ← r.getTurn key
      collect pre keys (found ++ [(step, turn)])

/-- The listing came to its end. -/
def ended (what : String) : Option String → Prog iface String Unit
  | none => return ()
  | some err => .fail (what ++ ": " ++ err)

/-- The turns of a run, in the order of their steps. -/
def walkTurns (runID : String) : Prog iface String (List Turn) := do
  let pre := dirOf runID
  let listing : Listing ← @Prog.ask iface String (.list pre)
  let found ← r.collect pre listing.keys []
  ended ("transcript: list " ++ pre) listing.err
  return (r.slice.sort found).map Prod.snd

/-! ## The runs -/

/-- The run that an object is of. -/
def runIDOf (key : String) : Option String :=
  match cut '/' (trimPrefix key.toList "transcripts/".toList) with
  | none => none
  | some (runID, _) => if runID = [] then none else some (String.ofList runID)

/-- The distinct elements in order. -/
def sorted (ids : List String) : List String := ids.toFinset.sort (· ≤ ·)

/-- The runs that have objects, sorted. -/
def listRunIDs : Prog iface String (List String) := do
  let listing : Listing ← @Prog.ask iface String (.list "transcripts/")
  ended "transcript: list transcripts/" listing.err
  return sorted (listing.keys.filterMap runIDOf)

/-! ## The set of a run -/

/-- `objectstore.UnsealSegment`, of the bytes that were read. -/
def unsealSegment (sealed : Bytes) : Except String (List Bytes) :=
  match r.store.key.open sealed with
  | .error err =>
    .error ("unseal segment: open (wrong seal key, or not a sealed segment): " ++ err)
  | .ok plain =>
    let trimmed := if [10] <:+ plain then plain.dropLast else plain
    .ok ((trimmed.splitOn 10).filter (· ≠ []))

/-- `getSegment`.  What it fails with is logged. -/
def getSegment (key : String) : Prog iface String (Option (List Bytes)) := do
  let sealed : Except GetFailure Bytes ← @Prog.ask iface String (.get key)
  match sealed with
  | .error _ => return none
  | .ok sealed => return (r.unsealSegment sealed).toOption

/-- The lines of the segments, each with its key. -/
def segments : List String → Prog iface String (List (String × List Bytes))
  | [] => return []
  | key :: keys => do
    let lines ← r.getSegment key
    let rest ← segments keys
    return (lines.map fun lines => (key, lines)).toList ++ rest

/-- `corpus.Walk`. -/
def walk (pre : String) : Prog iface String (List String × List Bytes) := do
  let listing : Listing ← @Prog.ask iface String (.list pre)
  let read ← r.segments listing.keys
  ended ("corpus: list " ++ pre) listing.err
  if listing.keys ≠ [] ∧ read = [] then
    .fail ("corpus: every segment under " ++ pre ++ " failed to read (" ++
      toString listing.keys.length ++ " segments)")
  else return (read.map Prod.fst, read.flatMap Prod.snd)

/-- `corpus.DecodeEach`, of sets. -/
def decodeEach : List Bytes → Except String (List Proposal.Set)
  | [] => .ok []
  | line :: lines =>
    match r.unmarshalSet line with
    | .error err => .error ("corpus: decode: " ++ err)
    | .ok set => (decodeEach lines).map (set :: ·)

/-- Where the published sets are. -/
def proposalsPrefix : String := "clank/thump.proposals/"

/-- Where the journaled sets are. -/
def journalPrefix : String := "clank/thump.reasoning/"

/-- The set of the run under the first place that has it. -/
def findSetUnder (runID : String) : List String → Prog iface String (Option Proposal.Set)
  | [] => return none
  | pre :: pres => do
    let (_, lines) ← r.walk pre
    let sets ← Prog.orFail (fun err => "transcript: decoding " ++ pre ++ ": " ++ err)
      (r.decodeEach lines)
    match sets.find? fun set => set.runID = runID with
    | some set => return some set
    | none => findSetUnder runID pres

/-- The set of the run. -/
def findSet (runID : String) : Prog iface String (Option Proposal.Set) :=
  r.findSetUnder runID [proposalsPrefix, journalPrefix]

/-! ## Writing all -/

/-- Why a run without turns is skipped. -/
def noTurns : String := "no checkpointed turns"

/-- Why a run without a set is skipped. -/
def noSet : String :=
  "no proposal.Set found (can lag turns by up to MaxAge + ShipInterval before shipping; retry " ++
    "after ~11 minutes)"

/-- The runs one after the other: those that were written, and those that were skipped with the
reason. -/
def writeRuns (out : String) : List String → List String → List (String × String) →
    Prog iface String (List String × List (String × String))
  | [], written, skipped => return (written, skipped)
  | runID :: runIDs, written, skipped => do
    let turns ← r.walkTurns runID
    if turns = [] then writeRuns out runIDs written (skipped ++ [(runID, noTurns)])
    else
      match ← r.findSet runID with
      | none => writeRuns out runIDs written (skipped ++ [(runID, noSet)])
      | some set => do
        let _ ← Prog.orFail id
          (← @Prog.ask iface String (.writePair (r.join out runID) turns set))
        writeRuns out runIDs (written ++ [runID]) skipped

/-- Every run is read and written out. -/
def writeAll (out : String) : Prog iface String (List String × List (String × String)) := do
  let runIDs ← listRunIDs
  r.writeRuns out runIDs [] []

end Reader

/-! ## Reading a bucket -/

/-- A written run: the directory, the turns and the set. -/
structure Pair where
  dir : String
  turns : List Turn
  set : Proposal.Set
deriving DecidableEq

/-- The keys that start so. -/
def listed (b : Bucket) (pre : String) : List String :=
  b.keys.filter fun key => pre.toList.isPrefixOf key.toList

/-- The environment of a bucket.  Its state is what was written. -/
def answer (b : Bucket) (w : List Pair) : (c : iface.Call) → iface.Answer c × List Pair
  | .list pre => ({ keys := listed b pre }, w)
  | .get key =>
    ((match b[key]? with
      | some body => .ok body
      | none => .error (.get "NoSuchKey") : Except GetFailure Bytes), w)
  | .writePair dir turns set => ((.ok () : Except String Unit), w ++ [⟨dir, turns, set⟩])

section

variable {α : Type} {b : Bucket} {w : List Pair}

theorem runIn_list {pre : String} {f : Listing → Prog iface String α} :
    runIn (answer b) w (@Prog.ask iface String (.list pre) >>= f) =
      runIn (answer b) w (f { keys := listed b pre }) :=
  rfl

theorem runIn_get {key : String} {body : Bytes}
    {f : Except GetFailure Bytes → Prog iface String α} (h : b[key]? = some body) :
    runIn (answer b) w (@Prog.ask iface String (.get key) >>= f) =
      runIn (answer b) w (f (.ok body)) := by
  have hanswer : answer b w (.get key) = ((.ok body : Except GetFailure Bytes), w) := by
    simp only [answer, h]
    rfl
  exact runIn_ask hanswer

theorem runIn_writePair {dir : String} {turns : List Turn} {set : Proposal.Set}
    {f : Except String Unit → Prog iface String α} :
    runIn (answer b) w (@Prog.ask iface String (.writePair dir turns set) >>= f) =
      runIn (answer b) (w ++ [⟨dir, turns, set⟩]) (f (.ok ())) :=
  rfl

end

/-- The outcome of a program that reads. -/
def reads {α : Type} (b : Bucket) (p : Prog iface String α) : Except String α :=
  (Prog.runIn (answer b) [] p).1

/-- The call reads. -/
def ReadCall : Call → Prop
  | .list _ => True
  | .get _ => True
  | .writePair _ _ _ => False

/-- The program only reads. -/
def Reading {α : Type} (p : Prog iface String α) : Prop :=
  (only ReadCall).Allows (fun _ _ => True) p ()

/-- A program that only reads leaves what was written as it is. -/
theorem Reading.runIn_eq {α : Type} {p : Prog iface String α} (h : Reading p) (b : Bucket)
    (w : List Pair) : runIn (answer b) w p = (reads b p, w) := by
  have hread (w : List Pair) (c : iface.Call) (hc : ReadCall c) :
      answer b w c = ((answer b [] c).1, w) := by
    cases c with
    | list pre => rfl
    | get key => rfl
    | writePair dir turns set => cases hc
  exact Allows.runIn_eq hread h w []

theorem Reading.bind {α β : Type} {p : Prog iface String α} {f : α → Prog iface String β}
    (h : Reading p) (hf : ∀ a, Reading (f a)) : Reading (p >>= f) :=
  Allows.bind h (fun _ a _ => hf a) fun _ _ _ => trivial

theorem reading_orFail {α ε : Type} (wrap : ε → String) (x : Except ε α) :
    Reading (orFail wrap x) := by
  cases x <;> exact trivial

theorem reading_ended (what : String) (err : Option String) : Reading (Reader.ended what err) := by
  cases err <;> exact trivial

theorem reading_list {β : Type} {pre : String} {f : Listing → Prog iface String β}
    (hf : ∀ listing, Reading (f listing)) :
    Reading (@Prog.ask iface String (.list pre) >>= f) :=
  allows_ask_bind trivial hf

theorem reading_get {β : Type} {key : String} {f : Except GetFailure Bytes → Prog iface String β}
    (hf : ∀ body, Reading (f body)) : Reading (@Prog.ask iface String (.get key) >>= f) :=
  allows_ask_bind trivial hf

namespace Reader

variable (r : Reader)

theorem reading_getTurn (key : String) : Reading (r.getTurn key) :=
  reading_get fun _ => (reading_orFail _ _).bind fun _ =>
    (reading_orFail _ _).bind fun _ => reading_orFail _ _

theorem reading_collect (pre : String) : ∀ (keys : List String) (found : List (Int × Turn)),
    Reading (r.collect pre keys found)
  | [], _ => trivial
  | key :: keys, found => by
    unfold collect
    split
    · exact reading_collect pre keys found
    · exact (r.reading_getTurn key).bind fun _ => reading_collect pre keys _

theorem reading_walkTurns (runID : String) : Reading (r.walkTurns runID) :=
  reading_list fun _ => (r.reading_collect _ _ _).bind fun _ =>
    (reading_ended _ _).bind fun _ => trivial

theorem reading_listRunIDs : Reading listRunIDs :=
  reading_list fun _ => (reading_ended _ _).bind fun _ => trivial

theorem reading_getSegment (key : String) : Reading (r.getSegment key) :=
  reading_get fun sealed => by cases sealed <;> exact trivial

theorem reading_segments : ∀ keys : List String, Reading (r.segments keys)
  | [] => trivial
  | key :: keys => (r.reading_getSegment key).bind fun _ =>
    (reading_segments keys).bind fun _ => trivial

theorem reading_walk (pre : String) : Reading (r.walk pre) :=
  reading_list fun _ => (r.reading_segments _).bind fun _ =>
    (reading_ended _ _).bind fun _ => by split <;> exact trivial

theorem reading_findSetUnder (runID : String) : ∀ pres : List String,
    Reading (r.findSetUnder runID pres)
  | [] => trivial
  | pre :: pres => (r.reading_walk pre).bind fun _ => (reading_orFail _ _).bind fun _ => by
    split
    · exact trivial
    · exact reading_findSetUnder runID pres

theorem reading_findSet (runID : String) : Reading (r.findSet runID) :=
  r.reading_findSetUnder runID _

end Reader

/-! ## What a key names -/

theorem trimPrefix_append (pre s : List Char) : trimPrefix (pre ++ s) pre = s := by
  rw [trimPrefix, if_pos (prefix_append pre s), drop_left]

theorem trimSuffix_append (s suffix : List Char) : trimSuffix (s ++ suffix) suffix = s := by
  rw [trimSuffix, cutSuffix_append]
  rfl

/-- The step that the call writes. -/
def step? : StoreCall → Option Int
  | .checkpoint t _ => some t.step
  | .finish _ _ => none

/-- The name of an object is read back as its step. -/
theorem atoi_base (c : StoreCall) : atoi (trimSuffix c.base.toList ".json".toList) = step? c := by
  cases c with
  | checkpoint t fits =>
    have hfits : (t.step : Int) < 2 ^ 63 := by exact_mod_cast fits
    have hlow : -2 ^ 63 ≤ (t.step : Int) := by omega
    rw [StoreCall.base, String.toList_append, trimSuffix_append, toList_toString_nat, atoi]
    refine parseInt64_eq_some.mpr ⟨?_, hlow, hfits⟩
    rw [parseInt_of_isDigit fun _ => isDigit_of_mem_digits, parseNat_digits]
    rfl
  | finish runID runErr =>
    change atoi (trimSuffix "finish.json".toList ".json".toList) = none
    decide

/-- A deeper name is no step. -/
theorem atoi_of_slash {name : List Char} (h : '/' ∈ name) :
    atoi (trimSuffix name ".json".toList) = none := by
  have hmem : '/' ∈ trimSuffix name ".json".toList := by
    by_cases hs : ".json".toList <:+ name
    · obtain ⟨l, rfl⟩ := hs
      rw [trimSuffix_append]
      exact (mem_append.mp h).resolve_right (by decide)
    · rw [trimSuffix, cutSuffix, if_neg hs]
      exact h
  refine Option.eq_none_iff_forall_ne_some.mpr fun z hz => ?_
  exact absurd (isDigit_of_parseInt (parseInt64_eq_some.mp hz).1 hmem) (by decide)

theorem toList_dirOf (runID : String) :
    (dirOf runID).toList = "transcripts/".toList ++ (runID.toList ++ ['/']) := by
  change ("transcripts/" ++ runID ++ "/").toList = _
  simp only [String.toList_append, append_assoc]
  rfl

/-- The step of an object is read in the directory of its own run only. -/
theorem stepOf_key {c : StoreCall} {runID : String} (h : (dirOf runID).toList <+: c.key.toList) :
    stepOf (dirOf runID) c.key = if c.runID = runID then step? c else none := by
  obtain ⟨name, hname⟩ := h
  rw [stepOf, ← hname, trimPrefix_append]
  rw [toList_dirOf, StoreCall.toList_key, append_assoc, append_cancel_left_eq,
    append_assoc, singleton_append] at hname
  by_cases hslash : '/' ∈ name
  · rw [atoi_of_slash hslash, if_neg]
    rintro rfl
    rw [append_cancel_left_eq] at hname
    injection hname with _ hbase
    exact c.slash_notMem_base (hbase ▸ hslash)
  · obtain ⟨hrun, rfl⟩ := eq_of_append_cons hslash c.slash_notMem_base hname
    rw [atoi_base, if_pos (String.toList_inj.mp hrun).symm]

theorem key_under_dirOf (c : StoreCall) : (dirOf c.runID).toList <+: c.key.toList := by
  rw [toList_dirOf, StoreCall.toList_key]
  exact ⟨c.base.toList, by simp⟩

/-- The part of a run's ID up to its first slash. -/
def firstPart (runID : String) : String := String.ofList (runID.toList.takeWhile (· ≠ '/'))

/-- An ID is its own first part exactly if it holds no slash. -/
theorem firstPart_eq_iff {runID : String} : firstPart runID = runID ↔ '/' ∉ runID.toList := by
  rw [firstPart, ← String.toList_inj, String.toList_ofList, takeWhile_eq_self_iff]
  constructor
  · intro h hm
    exact absurd (h '/' hm) (by decide)
  · intro h c hc
    refine decide_eq_true ?_
    rintro rfl
    exact h hc

theorem slash_notMem_firstPart (runID : String) : '/' ∉ (firstPart runID).toList := by
  rw [firstPart, String.toList_ofList]
  intro hm
  exact absurd (mem_takeWhile_imp hm) (by decide)

theorem cut_fst (sep : Char) (l : List Char) : ∀ s : List Char,
    ∃ rest, cut sep (s ++ sep :: l) = some (s.takeWhile (· ≠ sep), rest)
  | [] => ⟨l, by rw [nil_append, cut, if_pos rfl]; rfl⟩
  | c :: s => by
    rw [cons_append, cut]
    by_cases hc : c = sep
    · exact ⟨_, by rw [if_pos hc, takeWhile_cons_of_neg (by simpa using hc)]⟩
    · obtain ⟨rest, hrest⟩ := cut_fst sep l s
      refine ⟨rest, ?_⟩
      rw [if_neg hc, hrest, takeWhile_cons_of_pos (by simpa using hc)]
      rfl

/-- The run that an object is listed for is the first part of its ID. -/
theorem runIDOf_key (c : StoreCall) :
    Reader.runIDOf c.key = if firstPart c.runID = "" then none else some (firstPart c.runID) := by
  obtain ⟨rest, hcut⟩ := cut_fst '/' c.base.toList c.runID.toList
  have hnil : firstPart c.runID = "" ↔ c.runID.toList.takeWhile (· ≠ '/') = [] := by
    rw [firstPart, ← String.toList_inj, String.toList_ofList]
    rfl
  rw [Reader.runIDOf, StoreCall.toList_key, trimPrefix_append, hcut]
  simp only [hnil]
  rfl

/-! ## The turns of a run -/

section

variable {s : S3Store} {b₀ b : Bucket} {calls : List StoreCall}

variable {runID key id : String} {r : Reader} {ids : List String}

/-- No object is a transcript's. -/
def Apart (b : Bucket) : Prop := ∀ key ∈ b, ¬ "transcripts/".toList <+: key.toList

/-- The transcripts of the bucket are those that some call has written. -/
theorem mem_iff_of_filled (h : Filled s b₀ calls b) (h₀ : Apart b₀)
    (hkey : "transcripts/".toList <+: key.toList) : key ∈ b ↔ ∃ c, lastCall calls key = some c := by
  rw [Std.ExtTreeMap.mem_iff_isSome_getElem?]
  cases hl : lastCall calls key with
  | none =>
    have hnone : b₀[key]? = none := by
      rw [← Option.not_isSome_iff_eq_none, ← Std.ExtTreeMap.mem_iff_isSome_getElem?]
      exact fun hm => h₀ key hm hkey
    simp [h.get_of_none hl, hnone]
  | some c =>
    obtain ⟨body, nonce, -, hb⟩ := h.get_of_some hl
    simp [hb]

/-- The turn is the last that was written to its object. -/
def Kept (calls : List StoreCall) (runID : String) (t : Turn) : Prop :=
  t.runID = runID ∧ ∃ fits, lastCall calls (turnKey t.runID t.step) = some (.checkpoint t fits)

/-- The turn of an object, with its step. -/
def turnAt (calls : List StoreCall) (runID key : String) : Option (Int × Turn) :=
  match stepOf (dirOf runID) key, lastCall calls key with
  | some step, some (.checkpoint t _) => some (step, t)
  | _, _ => none

theorem turnAt_eq_some {step : Int} {t : Turn} :
    turnAt calls runID key = some (step, t) ↔ stepOf (dirOf runID) key = some step ∧
      ∃ fits, lastCall calls key = some (.checkpoint t fits) := by
  unfold turnAt
  constructor
  · intro h
    split at h
    next t' fits hs hl =>
      cases h
      exact ⟨hs, fits, hl⟩
    next => cases h
  · rintro ⟨hs, fits, hl⟩
    rw [hs, hl]

/-- What was checkpointed last is got. -/
theorem runIn_getTurn (h : Filled r.store b₀ calls b) {t : Turn}
    {fits : t.step < 2 ^ 63} (hl : lastCall calls key = some (.checkpoint t fits))
    (w : List Pair) : runIn (answer b) w (r.getTurn key) = (.ok t, w) := by
  obtain ⟨body, nonce, hbody, hb⟩ := h.get_of_some hl
  refine (runIn_get hb).trans ?_
  simp only [orFail, ret_bind, r.store.key.open_seal,
    r.store.json.unmarshal_marshal hbody, runIn_ret]

/-- The listed turns are collected in their order. -/
theorem runIn_collect (h : Filled r.store b₀ calls b)
    (w : List Pair) : ∀ {keys : List String} (found : List (Int × Turn)),
      (∀ key ∈ keys, ∀ step, stepOf (dirOf runID) key = some step →
        ∃ t fits, lastCall calls key = some (.checkpoint t fits)) →
      runIn (answer b) w (r.collect (dirOf runID) keys found) =
        (.ok (found ++ keys.filterMap (turnAt calls runID)), w)
  | [], found, _ => by
    rw [filterMap_nil, append_nil]
    rfl
  | key :: keys, found, hkeys => by
    have ih found := runIn_collect h w found fun key hm =>
      hkeys key (mem_cons_of_mem _ hm)
    unfold Reader.collect
    split
    next hstep =>
      have hnone : turnAt calls runID key = none := by
        unfold turnAt
        rw [hstep]
      rw [ih, filterMap_cons_none hnone]
    next step hstep =>
      obtain ⟨t, fits, hl⟩ := hkeys key mem_cons_self step hstep
      have hturn := turnAt_eq_some.mpr ⟨hstep, fits, hl⟩
      refine (runIn_bind (runIn_getTurn h hl w)).trans ?_
      rw [ih, filterMap_cons_some hturn, append_assoc, singleton_append]

theorem mem_listed {pre : String} : key ∈ listed b pre ↔ key ∈ b ∧ pre.toList <+: key.toList := by
  rw [listed, mem_filter, Std.ExtTreeMap.mem_keys, isPrefixOf_iff_prefix]

/-- A listed object with a step is a turn of the run. -/
theorem lastCall_of_stepOf (h : Filled s b₀ calls b) (h₀ : Apart b₀)
    (hkey : key ∈ listed b (dirOf runID)) {step : Int}
    (hstep : stepOf (dirOf runID) key = some step) :
    ∃ t fits, lastCall calls key = some (.checkpoint t fits) ∧ t.runID = runID ∧ step = t.step := by
  obtain ⟨hb, hpre⟩ := mem_listed.mp hkey
  have htop : "transcripts/".toList <+: key.toList := by
    rw [toList_dirOf] at hpre
    exact (prefix_append _ _).trans hpre
  obtain ⟨c, hc⟩ := (mem_iff_of_filled h h₀ htop).mp hb
  obtain ⟨-, rfl⟩ := mem_of_lastCall hc
  rw [stepOf_key hpre] at hstep
  split at hstep
  next hrun =>
    cases c with
    | checkpoint t fits =>
      cases hstep
      exact ⟨t, fits, hc, hrun, rfl⟩
    | finish runID runErr => cases hstep
  next => cases hstep

/-- The turns that are found are those that were kept. -/
theorem mem_found_iff (h : Filled s b₀ calls b) (h₀ : Apart b₀) {x : Int × Turn} :
    x ∈ (listed b (dirOf runID)).filterMap (turnAt calls runID) ↔
      x.1 = x.2.step ∧ Kept calls runID x.2 := by
  obtain ⟨step, t⟩ := x
  rw [mem_filterMap]
  change _ ↔ step = t.step ∧ Kept calls runID t
  constructor
  · rintro ⟨key, hkey, hturn⟩
    obtain ⟨hstep, fits, hl⟩ := turnAt_eq_some.mp hturn
    obtain ⟨t', fits', hl', hrun, rfl⟩ := lastCall_of_stepOf h h₀ hkey hstep
    rw [hl] at hl'
    cases hl'
    obtain ⟨-, rfl⟩ := mem_of_lastCall hl
    rw [StoreCall.key_checkpoint] at hl
    exact ⟨rfl, hrun, fits, hl⟩
  · rintro ⟨rfl, rfl, fits, hl⟩
    have hkey := StoreCall.key_checkpoint t fits
    have hpre : (dirOf t.runID).toList <+: (turnKey t.runID t.step).toList :=
      hkey ▸ key_under_dirOf (.checkpoint t fits)
    have htop : "transcripts/".toList <+: (turnKey t.runID t.step).toList := by
      refine IsPrefix.trans ?_ hpre
      rw [toList_dirOf]
      exact prefix_append _ _
    have hstep : stepOf (dirOf t.runID) (turnKey t.runID t.step) = some (t.step : Int) :=
      hkey ▸ (stepOf_key (hkey ▸ hpre)).trans (if_pos rfl)
    exact ⟨turnKey t.runID t.step, mem_listed.mpr ⟨(mem_iff_of_filled h h₀ htop).mpr ⟨_, hl⟩, hpre⟩,
      turnAt_eq_some.mpr ⟨hstep, fits, hl⟩⟩

/-- No two of them have one step. -/
theorem found_distinct (h : Filled s b₀ calls b) (h₀ : Apart b₀) (runID : String) :
    ((listed b (dirOf runID)).filterMap (turnAt calls runID)).Pairwise fun x y => x.1 ≠ y.1 := by
  have hkeys : (listed b (dirOf runID)).Pairwise (· ≠ ·) := by
    refine (Std.ExtTreeMap.ordered_keys.imp fun {k k'} hlt he => ?_).filter _
    have heq : compare k k' = .eq := Std.LawfulEqCmp.compare_eq_iff_eq.mpr he
    rw [heq] at hlt
    cases hlt
  rw [pairwise_filterMap]
  refine hkeys.imp_of_mem fun {key key'} hm hm' hne x hx y hy he => hne ?_
  obtain ⟨hstep, fits, hl⟩ := turnAt_eq_some.mp hx
  obtain ⟨hstep', fits', hl'⟩ := turnAt_eq_some.mp hy
  obtain ⟨t, ft, ht, hrun, hs⟩ := lastCall_of_stepOf h h₀ hm hstep
  obtain ⟨t', ft', ht', hrun', hs'⟩ := lastCall_of_stepOf h h₀ hm' hstep'
  obtain ⟨-, rfl⟩ := mem_of_lastCall ht
  obtain ⟨-, rfl⟩ := mem_of_lastCall ht'
  have hstep : t.step = t'.step := by
    rw [hs, hs'] at he
    exact_mod_cast he
  rw [StoreCall.key_checkpoint, StoreCall.key_checkpoint, hrun, hrun', hstep]

/-- `WalkTurns` returns the turns that were kept, by their steps. -/
theorem walkTurns_eq (h : Filled r.store b₀ calls b) (h₀ : Apart b₀) (runID : String) :
    ∃ ts, reads b (r.walkTurns runID) = .ok ts ∧ ts.Pairwise (fun t t' => t.step < t'.step) ∧
      ∀ t, t ∈ ts ↔ Kept calls runID t := by
  let found := (listed b (dirOf runID)).filterMap (turnAt calls runID)
  have hturns : ∀ key ∈ listed b (dirOf runID), ∀ step, stepOf (dirOf runID) key = some step →
      ∃ t fits, lastCall calls key = some (.checkpoint t fits) := by
    intro key hm step hstep
    obtain ⟨t, fits, hl, -⟩ := lastCall_of_stepOf h h₀ hm hstep
    exact ⟨t, fits, hl⟩
  have hcollect := runIn_collect h [] [] hturns
  have hperm := r.slice.perm found
  have hmem {x : Int × Turn} (hx : x ∈ r.slice.sort found) : x.1 = x.2.step :=
    ((mem_found_iff h h₀).mp (hperm.mem_iff.mp hx)).1
  refine ⟨(r.slice.sort found).map Prod.snd, ?_, ?_, fun t => ?_⟩
  · have hwalk : runIn (answer b) [] (r.walkTurns runID) = _ :=
      (@runIn_list _ b [] (dirOf runID) _).trans (runIn_bind hcollect)
    rw [reads, hwalk]
    rfl
  · have hlt : (r.slice.sort found).Pairwise fun x y => x.1 < y.1 := by
      have hne : (r.slice.sort found).Pairwise fun x y => x.1 ≠ y.1 :=
        (hperm.pairwise_iff fun hxy => hxy.symm).mpr (found_distinct h h₀ runID)
      exact ((r.slice.sorted found).and hne).imp fun hxy => lt_of_le_of_ne hxy.1 hxy.2
    rw [pairwise_map]
    refine hlt.imp_of_mem fun {x y} hx hy hxy => ?_
    rw [hmem hx, hmem hy] at hxy
    exact_mod_cast hxy
  · rw [mem_map]
    constructor
    · rintro ⟨x, hx, rfl⟩
      exact ((mem_found_iff h h₀).mp (hperm.mem_iff.mp hx)).2
    · intro ht
      exact ⟨(t.step, t), hperm.mem_iff.mpr ((mem_found_iff h h₀).mpr ⟨rfl, ht⟩), rfl⟩

/-! ## The runs -/

/-- The runs that called, sorted. -/
def runIDs (calls : List StoreCall) : List String := Reader.sorted (calls.map StoreCall.runID)

theorem mem_sorted : id ∈ Reader.sorted ids ↔ id ∈ ids := by
  rw [Reader.sorted, Finset.mem_sort, mem_toFinset]

theorem sorted_eq_iff {ids' : List String} :
    Reader.sorted ids = Reader.sorted ids' ↔ ∀ id, id ∈ ids ↔ id ∈ ids' := by
  constructor
  · intro h id
    rw [← mem_sorted, h, mem_sorted]
  · intro h
    have hset : ids.toFinset = ids'.toFinset := by
      ext id
      rw [mem_toFinset, mem_toFinset, h]
    rw [Reader.sorted, hset, Reader.sorted]

/-- The runs that are listed are the first parts of those that called. -/
theorem mem_named_iff (h : Filled s b₀ calls b) (h₀ : Apart b₀) :
    id ∈ (listed b "transcripts/").filterMap Reader.runIDOf ↔
      ∃ c ∈ calls, firstPart c.runID = id ∧ id ≠ "" := by
  rw [mem_filterMap]
  constructor
  · rintro ⟨key, hkey, hid⟩
    obtain ⟨hb, hpre⟩ := mem_listed.mp hkey
    obtain ⟨c, hc⟩ := (mem_iff_of_filled h h₀ hpre).mp hb
    obtain ⟨hm, rfl⟩ := mem_of_lastCall hc
    rw [runIDOf_key] at hid
    split at hid
    next => cases hid
    next hne =>
      cases hid
      exact ⟨c, hm, rfl, hne⟩
  · rintro ⟨c, hc, rfl, hne⟩
    have hpre : "transcripts/".toList <+: c.key.toList := by
      rw [StoreCall.toList_key]
      exact prefix_append _ _
    obtain ⟨c', hc'⟩ := exists_lastCall hc
    exact ⟨c.key, mem_listed.mpr ⟨(mem_iff_of_filled h h₀ hpre).mpr ⟨c', hc'⟩, hpre⟩,
      (runIDOf_key c).trans (if_neg hne)⟩

theorem reads_listRunIDs (b : Bucket) : reads b Reader.listRunIDs =
      .ok (Reader.sorted ((listed b "transcripts/").filterMap Reader.runIDOf)) :=
  rfl

/-- The ID can be read back from a key. -/
def Plain (runID : String) : Prop := runID ≠ "" ∧ '/' ∉ runID.toList

/-- `ListRunIDs` is exact where no ID is empty or holds a slash, and nowhere else. -/
theorem listRunIDs_exact_iff (h : Filled s b₀ calls b) (h₀ : Apart b₀) :
    reads b Reader.listRunIDs = .ok (runIDs calls) ↔ ∀ c ∈ calls, Plain c.runID := by
  rw [reads_listRunIDs, Except.ok.injEq, runIDs, sorted_eq_iff]
  simp only [mem_named_iff h h₀, mem_map]
  constructor
  · intro hexact c hc
    -- the ID is one of those that are found, and these are first parts
    obtain ⟨c', -, hfirst, hne⟩ := (hexact c.runID).mpr ⟨c, hc, rfl⟩
    exact ⟨hne, hfirst ▸ slash_notMem_firstPart c'.runID⟩
  · intro hplain id
    constructor
    · rintro ⟨c, hc, rfl, -⟩
      exact ⟨c, hc, (firstPart_eq_iff.mpr (hplain c hc).2).symm⟩
    · rintro ⟨c, hc, rfl⟩
      exact ⟨c, hc, firstPart_eq_iff.mpr (hplain c hc).2, (hplain c hc).1⟩

/-- A minted ID holds a slash. -/
theorem not_plain_of_minted (h : MintedRun runID) : ¬ Plain runID := by
  obtain ⟨fingerprint, now, rfl⟩ := h
  rintro ⟨-, hslash⟩
  refine hslash ?_
  simp only [mintedID, String.toList_append, mem_append]
  exact .inl (.inr mem_cons_self)

/-! ## Writing all -/

/-- The turns and the set of a run, where both are there. -/
def Reader.recovered (r : Reader) (b : Bucket) (runID : String) :
    Option (List Turn × Proposal.Set) :=
  match reads b (r.walkTurns runID), reads b (r.findSet runID) with
  | .ok (t :: ts), .ok (some set) => some (t :: ts, set)
  | _, _ => none

/-- What is written out of a run. -/
def Reader.pairOf (r : Reader) (b : Bucket) (out runID : String) : Option Pair :=
  (r.recovered b runID).map fun x => { dir := r.join out runID, turns := x.1, set := x.2 }

/-- What a run needs is read without an error. -/
def Reader.Readable (r : Reader) (b : Bucket) (runID : String) : Prop :=
  ∃ ts, reads b (r.walkTurns runID) = .ok ts ∧
    (ts = [] ∨ ∃ set, reads b (r.findSet runID) = .ok set)

/-- A run is written if it is recovered, and skipped if not. -/
theorem runIn_writeRuns_cons (r : Reader) (out : String) (h : r.Readable b id)
    (ids written : List String) (skipped : List (String × String)) (w : List Pair) :
    ∃ skipped', runIn (answer b) w (r.writeRuns out (id :: ids) written skipped) =
      runIn (answer b) (w ++ (r.pairOf b out id).toList)
        (r.writeRuns out ids (written ++ [id].filter fun id => (r.recovered b id).isSome)
          skipped') := by
  have hskip (hrec : r.recovered b id = none) : w ++ (r.pairOf b out id).toList = w ∧
      (written ++ [id].filter fun id => (r.recovered b id).isSome) = written := by
    simp [Reader.pairOf, hrec]
  obtain ⟨ts, hts, hset⟩ := h
  have hwalk := (r.reading_walkTurns id).runIn_eq b w
  rw [hts] at hwalk
  cases ts with
  | nil =>
    obtain ⟨hw, hwritten⟩ := hskip (by rw [Reader.recovered, hts])
    rw [hw, hwritten]
    exact ⟨skipped ++ [(id, Reader.noTurns)], runIn_bind hwalk⟩
  | cons t ts =>
    obtain ⟨set, hset⟩ := hset.resolve_left (cons_ne_nil t ts)
    have hfind := (r.reading_findSet id).runIn_eq b w
    rw [hset] at hfind
    cases set with
    | none =>
      obtain ⟨hw, hwritten⟩ := hskip (by rw [Reader.recovered, hts, hset])
      rw [hw, hwritten]
      exact ⟨skipped ++ [(id, Reader.noSet)], (runIn_bind hwalk).trans (runIn_bind hfind)⟩
    | some set =>
      have hrec : r.recovered b id = some (t :: ts, set) := by rw [Reader.recovered, hts, hset]
      have hpair : r.pairOf b out id =
          some { dir := r.join out id, turns := t :: ts, set := set } := by
        rw [Reader.pairOf, hrec]
        rfl
      have hwritten : ([id].filter fun id => (r.recovered b id).isSome) = [id] := by simp [hrec]
      rw [hpair, hwritten]
      exact ⟨skipped, (runIn_bind hwalk).trans ((runIn_bind hfind).trans runIn_writePair)⟩

/-- So are all of them, in order. -/
theorem runIn_writeRuns (r : Reader) (out : String) : ∀ (ids written : List String)
    (skipped : List (String × String)) (w : List Pair), (∀ id ∈ ids, r.Readable b id) →
    ∃ skipped', runIn (answer b) w (r.writeRuns out ids written skipped) =
      (.ok (written ++ ids.filter fun id => (r.recovered b id).isSome, skipped'),
        w ++ ids.filterMap (r.pairOf b out))
  | [], written, skipped, w, _ => ⟨skipped, by simp [Reader.writeRuns]⟩
  | id :: ids, written, skipped, w, hids => by
    obtain ⟨skipped₁, hstep⟩ := runIn_writeRuns_cons r out (hids id mem_cons_self) ids
      written skipped w
    obtain ⟨skipped', hrest⟩ := runIn_writeRuns r out ids
      (written ++ [id].filter fun id => (r.recovered b id).isSome) skipped₁
      (w ++ (r.pairOf b out id).toList) fun id hm => hids id (mem_cons_of_mem _ hm)
    have hpairs : (r.pairOf b out id).toList ++ ids.filterMap (r.pairOf b out) =
        (id :: ids).filterMap (r.pairOf b out) := by
      cases hpair : r.pairOf b out id <;> simp [hpair]
    refine ⟨skipped', hstep.trans (hrest.trans ?_)⟩
    rw [append_assoc, ← filter_append, singleton_append, append_assoc, hpairs]

theorem runIn_writeAll (r : Reader) (out : String)
    (hids : reads b Reader.listRunIDs = .ok ids) (hread : ∀ id ∈ ids, r.Readable b id) :
    ∃ skipped, runIn (answer b) [] (r.writeAll out) =
      (.ok (ids.filter fun id => (r.recovered b id).isSome, skipped),
        ids.filterMap (r.pairOf b out)) := by
  have hlist := Reader.reading_listRunIDs.runIn_eq b []
  rw [hids] at hlist
  obtain ⟨skipped, hrest⟩ := runIn_writeRuns r out ids [] [] [] hread
  exact ⟨skipped, (runIn_bind hlist).trans hrest⟩

theorem walkTurns_eq_nil (h : Filled r.store b₀ calls b) (h₀ : Apart b₀)
    (hno : ∀ c ∈ calls, c.runID ≠ runID) :
    reads b (r.walkTurns runID) = .ok [] := by
  obtain ⟨ts, hts, -, hmem⟩ := walkTurns_eq h h₀ runID
  have hnil : ts = [] := by
    refine eq_nil_iff_forall_not_mem.mpr fun t ht => ?_
    obtain ⟨hrun, fits, hl⟩ := (hmem t).mp ht
    exact hno _ (mem_of_lastCall hl).1 hrun
  rw [hts, hnil]

/-- What is recovered of the runs that a store has filled a bucket with.

* `WalkTurns` returns the turns of every run, in the order of their steps.
* `ListRunIDs` returns the IDs of the runs exactly if none of them is empty or holds a slash.  Then
  `WriteAll` writes the runs whose turns and set can be recovered, and no others.
* It does not where an ID was minted.  Of runs with minted IDs alone, `WriteAll` writes none. -/
theorem discovery_iff (r : Reader) (h : Filled r.store b₀ calls b) (h₀ : Apart b₀) :
    (∀ runID, ∃ ts, reads b (r.walkTurns runID) = .ok ts ∧
        ts.Pairwise (fun t t' => t.step < t'.step) ∧ ∀ t, t ∈ ts ↔ Kept calls runID t) ∧
      (reads b Reader.listRunIDs = .ok (runIDs calls) ↔ ∀ c ∈ calls, Plain c.runID) ∧
      ((∀ c ∈ calls, Plain c.runID) →
        (∀ c ∈ calls, ∃ set, reads b (r.findSet c.runID) = .ok set) →
        ∀ out, ∃ skipped, Prog.runIn (answer b) [] (r.writeAll out) =
          (.ok ((runIDs calls).filter fun id => (r.recovered b id).isSome, skipped),
            (runIDs calls).filterMap (r.pairOf b out))) ∧
      ((∀ c ∈ calls, MintedRun c.runID) →
        (reads b Reader.listRunIDs = .ok (runIDs calls) ↔ calls = []) ∧
        ∀ out, ∃ skipped, Prog.runIn (answer b) [] (r.writeAll out) = (.ok ([], skipped), [])) := by
  refine ⟨walkTurns_eq h h₀, listRunIDs_exact_iff h h₀, fun hplain hset out => ?_, fun hminted =>
    ⟨?_, fun out => ?_⟩⟩
  · refine runIn_writeAll r out ((listRunIDs_exact_iff h h₀).mpr hplain) fun id hid => ?_
    obtain ⟨c, hc, rfl⟩ := mem_map.mp (mem_sorted.mp hid)
    obtain ⟨ts, hts, -⟩ := walkTurns_eq h h₀ c.runID
    exact ⟨ts, hts, .inr (hset c hc)⟩
  · rw [listRunIDs_exact_iff h h₀]
    constructor
    · intro hplain
      refine eq_nil_iff_forall_not_mem.mpr fun c hc => ?_
      exact not_plain_of_minted (hminted c hc) (hplain c hc)
    · rintro rfl c hc
      cases hc
  · -- what is found holds no slash, so it is the ID of no run
    have hnil : ∀ id ∈ Reader.sorted ((listed b "transcripts/").filterMap Reader.runIDOf),
        reads b (r.walkTurns id) = .ok [] := by
      intro id hid
      obtain ⟨c, -, rfl, hne⟩ := (mem_named_iff h h₀).mp (mem_sorted.mp hid)
      refine walkTurns_eq_nil h h₀ fun c' hc' he => ?_
      exact not_plain_of_minted (hminted c' hc') (he ▸ ⟨hne, slash_notMem_firstPart c.runID⟩)
    obtain ⟨skipped, hrun⟩ := runIn_writeAll r out (reads_listRunIDs b) fun id hid =>
      ⟨[], hnil id hid, .inl rfl⟩
    have hrec : ∀ id ∈ Reader.sorted ((listed b "transcripts/").filterMap Reader.runIDOf),
        r.recovered b id = none := by
      intro id hid
      rw [Reader.recovered, hnil id hid]
    refine ⟨skipped, hrun.trans ?_⟩
    rw [filter_eq_nil_iff.mpr fun id hid => by rw [hrec id hid]; decide,
      filterMap_eq_nil_iff.mpr fun id hid => by rw [Reader.pairOf, hrec id hid]; rfl]

end

/-! ## One run -/

def firstTurn (runID : String) : Turn := { runID := runID }

def oneTurn (runID : String) : S3Store where
  key := { «seal» := fun _ b => b, «open» := .ok, open_seal := fun _ _ => rfl }
  json :=
    { marshal := fun t => if t = firstTurn runID then .ok [1] else .error "other"
      unmarshal := fun b => if b = [1] then .ok (firstTurn runID) else .error "other"
      unmarshal_marshal := by
        intro t b h
        split at h
        next ht =>
          cases h
          rw [ht]
          rfl
        next => cases h }
  marshalRecord _ := .ok [2]

def oneReader (runID : String) : Reader where
  store := oneTurn runID
  unmarshalSet _ := .ok { runID := runID }
  slice := .insertion _
  join out runID := out ++ "/" ++ runID

/-- The bucket with the published set of a run. -/
def published : Bucket := (∅ : Bucket).insert "clank/thump.proposals/0" [3]

def checkpointed (runID : String) : Bucket := published.insert (turnKey runID 0) [1]

def firstCall (runID : String) : StoreCall := .checkpoint (firstTurn runID) (Nat.two_pow_pos 63)

theorem checkpointed_filled (runID : String) :
    Filled (oneReader runID).store published [firstCall runID] (checkpointed runID) := by
  have hmarshal : (oneTurn runID).json.marshal (firstTurn runID) = .ok [1] := if_pos rfl
  have hexits : ((firstCall runID).prog (oneTurn runID)).Exits
      [⟨.ctxErr, none⟩, ⟨.nonce, .ok []⟩, ⟨.putObject (turnKey runID 0) [1], .ok ()⟩] (.ok ()) := by
    change ((oneTurn runID).putJSON (turnKey runID 0)
      ((oneTurn runID).json.marshal (firstTurn runID))).Exits _ _
    rw [hmarshal]
    exact .call (.call (.call .refl))
  exact Filled.start.done hexits

theorem apart_published : Apart published := by
  intro key hkey
  rcases Std.ExtTreeMap.mem_insert.mp hkey with he | he
  · rw [← Std.LawfulEqCmp.compare_eq_iff_eq.mp he]
    decide
  · exact absurd he Std.ExtTreeMap.not_mem_empty

/-- A run without a slash in its ID is found and written. -/
theorem plain_run_discovered :
    reads (checkpointed "checkout") Reader.listRunIDs = .ok (runIDs [firstCall "checkout"]) ∧
      ∃ skipped, Prog.runIn (answer (checkpointed "checkout")) []
          ((oneReader "checkout").writeAll "out") =
        (.ok (["checkout"], skipped),
          [{ dir := "out/checkout", turns := [firstTurn "checkout"]
             set := { runID := "checkout" } }]) := by
  obtain ⟨-, hlist, hwrite, -⟩ := discovery_iff (oneReader "checkout")
    (checkpointed_filled "checkout") apart_published
  have hplain : ∀ c ∈ [firstCall "checkout"], Plain c.runID := by
    intro c hc
    cases mem_singleton.mp hc
    exact ⟨by decide, by decide⟩
  have hset : ∀ c ∈ [firstCall "checkout"], ∃ set,
      reads (checkpointed "checkout") ((oneReader "checkout").findSet c.runID) = .ok set := by
    intro c hc
    cases mem_singleton.mp hc
    exact ⟨some { runID := "checkout" }, by decide +kernel⟩
  have hwritten : ((runIDs [firstCall "checkout"]).filter fun id =>
      ((oneReader "checkout").recovered (checkpointed "checkout") id).isSome) = ["checkout"] := by
    decide +kernel
  have hpairs : (runIDs [firstCall "checkout"]).filterMap
      ((oneReader "checkout").pairOf (checkpointed "checkout") "out") =
        [{ dir := "out/checkout", turns := [firstTurn "checkout"]
           set := { runID := "checkout" } }] := by
    decide +kernel
  obtain ⟨skipped, h⟩ := hwrite hplain hset "out"
  rw [hwritten, hpairs] at h
  exact ⟨hlist.mpr hplain, skipped, h⟩

/-- The turns and the set of a run with a minted ID can be recovered.  But the fingerprint is
taken for its ID, so it is not found, and nothing is written. -/
theorem minted_run_undiscovered :
    MintedRun "checkout/1" ∧
      Filled (oneReader "checkout/1").store published [firstCall "checkout/1"]
        (checkpointed "checkout/1") ∧ Apart published ∧
      (oneReader "checkout/1").recovered (checkpointed "checkout/1") "checkout/1" =
        some ([firstTurn "checkout/1"], { runID := "checkout/1" }) ∧
      reads (checkpointed "checkout/1") Reader.listRunIDs = .ok ["checkout"] ∧
      Prog.runIn (answer (checkpointed "checkout/1")) [] ((oneReader "checkout/1").writeAll "out") =
        (.ok ([], [("checkout", Reader.noTurns)]), []) :=
  ⟨⟨"checkout", (1 : Int), by decide⟩, checkpointed_filled _, apart_published, by decide +kernel,
    by decide +kernel, by decide +kernel⟩

end Beats.Transcript
