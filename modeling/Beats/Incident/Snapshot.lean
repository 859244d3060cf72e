import Beats.Incident.Projection
import Beats.Lib.SliceSort

/-!
# Two snapshots

The operator's view can be built from the broker (`SnapshotBroker`) or from the files that the
beats left (`Transport.Snapshot` of `internal/calipers`).  The broker's objects are folded in the
order in which they were stored, and the first that has no fingerprint ends it.  The files are
folded type by type, in each type by name, those that were archived after those that were not, and
an object that has no fingerprint is passed over.

What an incident shows is what its latest objects say (`view_projected`), and the two orders need
not agree on which these are (`snapshots_agree_iff`).
-/

namespace Beats.Incident

open Lib List Object Projection

/-! ## From the broker -/

/-- What the four subjects have, each with the times at which it was stored. -/
structure Streams where
  detections : List (Time × Signal.Detection) := []
  proposals : List (Time × Proposal.Set) := []
  decisions : List (Time × Decision.Governed) := []
  outcomes : List (Time × Outcome) := []

structure BrokerEvent where
  storedAt : Time
  obj : Object

/-- The objects in the order in which the subjects are drained. -/
def Streams.events (s : Streams) : List BrokerEvent :=
  (s.detections.map fun (at', d) => ⟨at', .value (.detection d)⟩) ++
  (s.proposals.map fun (at', ps) => ⟨at', .value (.set ps)⟩) ++
  (s.decisions.map fun (at', g) => ⟨at', .value (.governed g)⟩) ++
  (s.outcomes.map fun (at', oc) => ⟨at', .value (.outcome oc)⟩)

/-- The objects in the order of their times. -/
def Streams.timeline (slice : SliceSort BrokerEvent.storedAt) (s : Streams) : List Object :=
  (slice.sort s.events).map BrokerEvent.obj

/-- `SnapshotBroker`, of subjects that were drained. -/
def snapshotBroker (slice : SliceSort BrokerEvent.storedAt) (s : Streams) :
    Except String Projection :=
  match (s.timeline slice).foldlM apply {} with
  | .error err => .error ("incident: snapshot broker: " ++ err)
  | .ok p => .ok p

/-! ## From the files -/

/-- A file, and what reading it gives. -/
structure File where
  name : String
  content : Except String String

/-- The files of a directory and those of its `processed`. -/
structure Dir where
  arrived : List File := []
  processed : List File := []

/-- The four directories of the inbox. -/
structure Inbox where
  root : String := ""
  detections : Dir := {}
  proposals : Dir := {}
  decisions : Dir := {}
  outcomes : Dir := {}

/-- `yaml.Unmarshal` to each of the types, where it succeeds. -/
structure Yaml where
  detection : String → Option Signal.Detection
  set : String → Option Proposal.Set
  governed : String → Option Decision.Governed
  outcome : String → Option Outcome

/-- `filepath.Glob` for `*.yaml`: by name. -/
def glob (files : List File) : List File :=
  (files.filter fun file => ".yaml".toList.isSuffixOf file.name.toList).insertionSort
    fun a b => a.name ≤ b.name

/-- The projection of the files of a directory. -/
def snapshotFiles (parse : String → Option Boundary) (path : String) (files : List File)
    (p : Projection) : Except String Projection :=
  (glob files).foldlM (fun p file =>
    match file.content with
    | .error err => .error ("calipers: read " ++ path ++ "/" ++ file.name ++ ": " ++ err)
    | .ok raw =>
      match parse raw with
      | none => .ok p
      | some b => .ok (p.after (.value b))) p

/-- The files that arrived, then those that were processed. -/
def snapshotDir (parse : String → Option Boundary) (path : String) (dir : Dir) (p : Projection) :
    Except String Projection := do
  let p ← snapshotFiles parse path dir.arrived p
  snapshotFiles parse (path ++ "/processed") dir.processed p

/-- `Transport.Snapshot`. -/
def Inbox.snapshot (yaml : Yaml) (inbox : Inbox) : Except String Projection := do
  let p ← snapshotDir (fun raw => (yaml.detection raw).map .detection)
    (inbox.root ++ "/detections") inbox.detections {}
  let p ← snapshotDir (fun raw => (yaml.set raw).map .set)
    (inbox.root ++ "/proposals") inbox.proposals p
  let p ← snapshotDir (fun raw => (yaml.governed raw).map .governed)
    (inbox.root ++ "/decisions") inbox.decisions p
  snapshotDir (fun raw => (yaml.outcome raw).map .outcome)
    (inbox.root ++ "/outcomes") inbox.outcomes p

/-! ## The objects of the files -/

/-- The object of a file, if it parses. -/
def File.object? (parse : String → Option Boundary) (file : File) : Option Object :=
  (file.content.toOption.bind parse).map .value

/-- The objects of a directory, in the order in which they are folded. -/
def Dir.objects (parse : String → Option Boundary) (dir : Dir) : List Object :=
  (glob dir.arrived ++ glob dir.processed).filterMap (File.object? parse)

/-- The objects of the inbox, in the order in which they are folded. -/
def Inbox.objects (yaml : Yaml) (inbox : Inbox) : List Object :=
  inbox.detections.objects (fun raw => (yaml.detection raw).map .detection) ++
  inbox.proposals.objects (fun raw => (yaml.set raw).map .set) ++
  inbox.decisions.objects (fun raw => (yaml.governed raw).map .governed) ++
  inbox.outcomes.objects (fun raw => (yaml.outcome raw).map .outcome)

/-- The files of the directory can be read. -/
def Dir.Readable (dir : Dir) : Prop :=
  ∀ file ∈ dir.arrived ++ dir.processed, file.content.isOk = true

/-- The files of the inbox can be read. -/
structure Inbox.Readable (inbox : Inbox) : Prop where
  detections : inbox.detections.Readable
  proposals : inbox.proposals.Readable
  decisions : inbox.decisions.Readable
  outcomes : inbox.outcomes.Readable

section

variable {parse : String → Option Boundary} {files : List File} {dir : Dir}

theorem mem_glob {file : File} (h : file ∈ glob files) : file ∈ files :=
  (mem_filter.mp ((mem_insertionSort _).mp h)).1

theorem snapshotFiles_eq (path : String) (h : ∀ file ∈ files, file.content.isOk = true)
    (p : Projection) :
    snapshotFiles parse path files p =
      .ok (((glob files).filterMap (File.object? parse)).foldl after p) := by
  have hglob : ∀ file ∈ glob files, file.content.isOk = true := fun file hf => h file (mem_glob hf)
  unfold snapshotFiles
  generalize glob files = fs at hglob
  induction fs generalizing p with
  | nil => rfl
  | cons file fs ih =>
    have ih := fun p => ih p fun file' hf => hglob file' (mem_cons_of_mem _ hf)
    cases hc : file.content with
    | error err =>
      have hok := hglob file mem_cons_self
      rw [hc] at hok
      cases hok
    | ok raw =>
      cases hp : parse raw with
      | none =>
        have hobj : file.object? parse = none := by simp [File.object?, hc, hp, Except.toOption]
        rw [foldlM_cons, filterMap_cons_none hobj]
        simp only [hc, hp]
        exact ih p
      | some b =>
        have hobj : file.object? parse = some (.value b) := by
          simp [File.object?, hc, hp, Except.toOption]
        rw [foldlM_cons, filterMap_cons_some hobj]
        simp only [hc, hp]
        exact ih (p.after (.value b))

theorem snapshotDir_eq (path : String) (h : dir.Readable) (p : Projection) :
    snapshotDir parse path dir p = .ok ((dir.objects parse).foldl after p) := by
  unfold snapshotDir
  rw [snapshotFiles_eq _ fun file hf => h file (mem_append_left _ hf)]
  change snapshotFiles _ _ _ _ = _
  rw [snapshotFiles_eq _ fun file hf => h file (mem_append_right _ hf), Dir.objects,
    filterMap_append, foldl_append]

theorem snapshot_eq (yaml : Yaml) {inbox : Inbox} (h : inbox.Readable) :
    inbox.snapshot yaml = .ok (projected (inbox.objects yaml)) := by
  unfold Inbox.snapshot
  rw [snapshotDir_eq _ h.detections]
  change Except.bind (snapshotDir _ _ _ _) _ = _
  rw [snapshotDir_eq _ h.proposals]
  change Except.bind (snapshotDir _ _ _ _) _ = _
  rw [snapshotDir_eq _ h.decisions]
  change snapshotDir _ _ _ _ = _
  rw [snapshotDir_eq _ h.outcomes, projected, Inbox.objects, foldl_append, foldl_append,
    foldl_append]

end

/-! ## The order of the broker -/

variable {obj a b : Object} {n : Nat} {s : Streams} {history : List BrokerEvent} {p : Projection}

/-- Objects that were stored at different times are folded in the order of these. -/
theorem timeline_eq (slice : SliceSort BrokerEvent.storedAt)
    (ht : history.Pairwise fun a b => a.storedAt < b.storedAt) (hs : s.events.Perm history) :
    s.timeline slice = history.map BrokerEvent.obj := by
  rw [Streams.timeline, eq_of_ascending ((slice.perm _).trans hs) (slice.sorted _) ht]

theorem foldlM_apply_eq {objs : List Object} (h : ∀ obj ∈ objs, fingerprintOf obj ≠ none)
    (p : Projection) : objs.foldlM Projection.apply p = .ok (objs.foldl Projection.after p) := by
  induction objs generalizing p with
  | nil => rfl
  | cons obj objs ih =>
    obtain ⟨f, hf⟩ := Option.ne_none_iff_exists'.mp (h obj mem_cons_self)
    have happly : p.apply obj = .ok (p.after obj) := by
      simp [Projection.after, Projection.apply, hf, Except.toOption]
    rw [foldlM_cons, happly]
    exact ih (fun o ho => h o (mem_cons_of_mem _ ho)) _

theorem foldlM_apply_ok {objs : List Object} {q : Projection}
    (h : objs.foldlM apply p = .ok q) : ∀ obj ∈ objs, fingerprintOf obj ≠ none := by
  induction objs generalizing p with
  | nil => exact fun _ ho => nomatch ho
  | cons obj objs ih =>
    rw [foldlM_cons] at h
    cases hf : fingerprintOf obj with
    | none =>
      simp only [apply, hf] at h
      cases h
    | some f =>
      simp only [apply, hf] at h
      refine forall_mem_cons.mpr ⟨?_, ih h⟩
      rw [hf]
      exact Option.some_ne_none f

theorem snapshotBroker_ok_iff (slice : SliceSort BrokerEvent.storedAt)
    (ht : history.Pairwise fun a b => a.storedAt < b.storedAt) (hs : s.events.Perm history) :
    snapshotBroker slice s = .ok p ↔ (∀ ev ∈ history, fingerprintOf ev.obj ≠ none) ∧
        p = projected (history.map BrokerEvent.obj) := by
  rw [snapshotBroker, timeline_eq slice ht hs]
  constructor
  · intro h
    cases hfold : (history.map BrokerEvent.obj).foldlM apply {} with
    | error err =>
      rw [hfold] at h
      cases h
    | ok q =>
      rw [hfold] at h
      cases h
      have hall := foldlM_apply_ok hfold
      refine ⟨fun ev hev => hall _ (mem_map_of_mem hev), ?_⟩
      exact Except.ok.inj (hfold.symm.trans (foldlM_apply_eq hall {}))
  · rintro ⟨hall, rfl⟩
    rw [foldlM_apply_eq (forall_mem_map.mpr hall)]
    rfl

/-! ## What an incident shows -/

/-- What the operator reads of an incident. -/
structure View where
  stage : Stage
  governed : Option Decision.Governed
  severity : Option Rat
deriving DecidableEq

/-- What the projection shows of a fingerprint. -/
def Projection.view (p : Projection) (f : String) : Option View :=
  (p.get f).map fun i => ⟨i.stage, i.governed, i.severity⟩

/-- The stage that an object sets. -/
def Object.stage? : Object → Option Stage
  | .value (.detection _) => some .detected
  | .value (.set _) => some .proposed
  | .value (.governed _) => some .decided
  | .value (.outcome oc) => some (stageOf oc.result)
  | _ => none

def Object.governed? : Object → Option Decision.Governed
  | .value (.governed g) => some g
  | _ => none

/-- Where in the order of the directories an object lies. -/
def Object.rank : Object → Nat
  | .value (.set _) => 1
  | .value (.governed _) => 2
  | .value (.outcome _) => 3
  | _ => 0

theorem Object.forms (h : fingerprintOf obj ≠ none) :
    (∃ d, obj = .value (.detection d)) ∨ (∃ ps, obj = .value (.set ps)) ∨
      (∃ g, obj = .value (.governed g)) ∨ ∃ oc, obj = .value (.outcome oc) := by
  cases obj with
  | value b =>
    cases b with
    | detection d => exact .inl ⟨d, rfl⟩
    | set ps => exact .inr (.inl ⟨ps, rfl⟩)
    | governed g => exact .inr (.inr (.inl ⟨g, rfl⟩))
    | decision d => exact absurd rfl h
    | outcome oc => exact .inr (.inr (.inr ⟨oc, rfl⟩))
  | pointer _ | other _ => exact absurd rfl h

theorem Object.exists_stage (h : fingerprintOf obj ≠ none) : ∃ st, obj.stage? = some st := by
  rcases obj.forms h with ⟨_, rfl⟩ | ⟨_, rfl⟩ | ⟨_, rfl⟩ | ⟨_, rfl⟩ <;> exact ⟨_, rfl⟩

theorem Object.outcome_of_rank (h : fingerprintOf obj ≠ none) (hr : obj.rank = 3) :
    ∃ oc, obj.outcome? = some oc := by
  rcases obj.forms h with ⟨_, rfl⟩ | ⟨_, rfl⟩ | ⟨_, rfl⟩ | ⟨oc, rfl⟩
  · cases hr
  · cases hr
  · cases hr
  · exact ⟨oc, rfl⟩

theorem Object.outcome_of_rank_ne (h : fingerprintOf obj ≠ none) (hr : obj.rank ≠ 3) :
    obj.outcome? = none := by
  rcases obj.forms h with ⟨_, rfl⟩ | ⟨_, rfl⟩ | ⟨_, rfl⟩ | ⟨oc, rfl⟩
  · rfl
  · rfl
  · rfl
  · exact absurd rfl hr

def lastGoverned (f : String) (objs : List Object) : Option Decision.Governed :=
  ((keyed.at' f objs).filterMap governed?).getLast?

def lastOutcome (f : String) (objs : List Object) : Option Outcome := (outcomesOf f objs).getLast?

def lastObject (f : String) (objs : List Object) : Option Object := (keyed.at' f objs).getLast?

theorem foldRecord_shows (h : fingerprintOf obj ≠ none) (r : Record) :
    (foldRecord r obj).stage = obj.stage?.getD r.stage ∧
      (foldRecord r obj).governed = (obj.governed?.map some).getD r.governed ∧
      (foldRecord r obj).severity =
        (obj.outcome?.map Outcome.observedSeverity).getD r.severity := by
  rcases obj.forms h with ⟨_, rfl⟩ | ⟨_, rfl⟩ | ⟨_, rfl⟩ | ⟨_, rfl⟩ <;> exact ⟨rfl, rfl, rfl⟩

section

variable {f : String} {objs : List Object}

theorem fingerprint_of_mem (h : obj ∈ keyed.at' f objs) : fingerprintOf obj ≠ none := by
  have hf : fingerprintOf obj = some f := (Keyed.mem_at.mp h).2
  rw [hf]
  exact Option.some_ne_none f

theorem foldl_shows {own : List Object} (h : ∀ obj ∈ own, fingerprintOf obj ≠ none) :
    (own.foldl foldRecord {}).stage = (own.filterMap stage?).getLast?.getD (.other "") ∧
      (own.foldl foldRecord {}).governed = (own.filterMap governed?).getLast? ∧
      (own.foldl foldRecord {}).severity =
        (own.filterMap outcome?).getLast?.bind Outcome.observedSeverity := by
  refine ⟨?_, ?_, ?_⟩
  · exact keyed.get_foldl (fun r => r.stage) stage?
      (fun r o ho => (foldRecord_shows (h o ho) r).1) {}
  · have hlast := keyed.get_foldl (fun r => r.governed) (fun o => o.governed?.map some)
      (fun r o ho => (foldRecord_shows (h o ho) r).2.1) {}
    rw [← map_filterMap, getLast?_map] at hlast
    refine hlast.trans ?_
    cases (own.filterMap governed?).getLast? <;> rfl
  · have hlast := keyed.get_foldl (fun r => r.severity)
      (fun o => o.outcome?.map Outcome.observedSeverity)
      (fun r o ho => (foldRecord_shows (h o ho) r).2.2) {}
    rw [← map_filterMap, getLast?_map] at hlast
    refine hlast.trans ?_
    cases (own.filterMap outcome?).getLast? <;> rfl

theorem view_projected (f : String) (objs : List Object) :
    (projected objs).view f = (lastObject f objs).map fun obj =>
      ⟨obj.stage?.getD (.other ""), lastGoverned f objs,
        (lastOutcome f objs).bind Outcome.observedSeverity⟩ := by
  have hget : (projected objs).get f = (keyed.value (keyed.at' f objs)).map Record.toIncident := by
    rw [← getRecord_projected]
    rfl
  rw [view, hget]
  unfold lastObject lastGoverned lastOutcome outcomesOf
  have hkey := fun obj (hobj : obj ∈ keyed.at' f objs) => fingerprint_of_mem hobj
  generalize keyed.at' f objs = own at hkey
  obtain ⟨hstage, hgoverned, hseverity⟩ := foldl_shows hkey
  rcases own.eq_nil_or_concat' with rfl | ⟨own, obj, rfl⟩
  · rfl
  · have hvalue : keyed.value (own ++ [obj]) = some ((own ++ [obj]).foldl foldRecord {}) := by
      simp [Keyed.value, keyed]
    obtain ⟨st, hst⟩ := exists_stage (hkey obj (mem_append_right _ (mem_singleton_self obj)))
    rw [hvalue, Option.map_some, Option.map_some, hstage, hgoverned, hseverity]
    simp [filterMap_append, hst]

end

/-! ## The order of the files -/

theorem Dir.exists_of_mem_objects {parse : String → Option Boundary} {dir : Dir}
    (h : obj ∈ dir.objects parse) : ∃ raw b, parse raw = some b ∧ obj = .value b := by
  obtain ⟨file, -, hfile⟩ := mem_filterMap.mp h
  obtain ⟨b, hb, rfl⟩ := Option.map_eq_some_iff.mp hfile
  obtain ⟨raw, -, hparse⟩ := Option.bind_eq_some_iff.mp hb
  exact ⟨raw, b, hparse, rfl⟩

theorem Dir.rank_of_mem_objects {β : Type} {parse : String → Option β} {make : β → Boundary}
    (hmake : ∀ v, (value (make v)).rank = n) {dir : Dir} :
    ∀ obj ∈ dir.objects fun raw => (parse raw).map make, obj.rank = n := by
  intro obj h
  obtain ⟨raw, b, hparse, rfl⟩ := exists_of_mem_objects h
  obtain ⟨v, -, rfl⟩ := Option.map_eq_some_iff.mp hparse
  exact hmake v

/-- The objects come in the order of their kinds, up to `n`. -/
def AscendTo (n : Nat) (objs : List Object) : Prop :=
  objs.Pairwise (fun a b => a.rank ≤ b.rank) ∧ ∀ obj ∈ objs, obj.rank ≤ n

theorem ascendTo_of_rank_eq {objs : List Object} (h : ∀ obj ∈ objs, obj.rank = n) :
    AscendTo n objs :=
  ⟨pairwise_of_forall_mem_list fun a ha b hb => (h a ha).trans_le (h b hb).ge,
    fun obj hobj => (h obj hobj).le⟩

theorem AscendTo.append {objs objs' : List Object} {m : Nat} (h : AscendTo n objs) (hnm : n ≤ m)
    (h' : ∀ obj ∈ objs', obj.rank = m) : AscendTo m (objs ++ objs') := by
  refine ⟨pairwise_append.mpr ⟨h.1, (ascendTo_of_rank_eq h').1, ?_⟩, ?_⟩
  · intro a ha b hb
    exact (h.2 a ha).trans (hnm.trans (h' b hb).ge)
  · intro obj hobj
    rcases mem_append.mp hobj with hobj | hobj
    · exact (h.2 obj hobj).trans hnm
    · exact (h' obj hobj).le

theorem Inbox.objects_ascend (yaml : Yaml) (inbox : Inbox) : AscendTo 3 (inbox.objects yaml) := by
  refine AscendTo.append (n := 2) ?_ (by decide) (Dir.rank_of_mem_objects (by exact fun _ => rfl))
  refine AscendTo.append (n := 1) ?_ (by decide) (Dir.rank_of_mem_objects (by exact fun _ => rfl))
  refine AscendTo.append (n := 0) ?_ (by decide) (Dir.rank_of_mem_objects (by exact fun _ => rfl))
  exact ascendTo_of_rank_eq (Dir.rank_of_mem_objects (by exact fun _ => rfl))

/-! ## Agreement -/

/-- Whether the last object of a fingerprint is of the latest kind that there is. -/
def InOrder (f : String) (objs : List Object) : Prop :=
  ∀ last ∈ lastObject f objs, ∀ obj ∈ keyed.at' f objs, obj.rank ≤ last.rank

/-- What an outcome says of its incident. -/
def closing (oc : Outcome) : Stage × Option Rat := (stageOf oc.result, oc.observedSeverity)

/-- Objects lead to the same stage if they are of one kind and, being outcomes, say the same. -/
theorem stage_eq_iff (ha : fingerprintOf a ≠ none) (hb : fingerprintOf b ≠ none) :
    a.stage? = b.stage? ↔ a.rank = b.rank ∧
      (a.outcome?.map fun oc => stageOf oc.result) =
        b.outcome?.map fun oc => stageOf oc.result := by
  have hoc : ∀ oc : Outcome, stageOf oc.result = .applied ∨ stageOf oc.result = .settled := by
    intro oc
    cases oc.result <;> simp [stageOf]
  rcases a.forms ha with ⟨_, rfl⟩ | ⟨_, rfl⟩ | ⟨_, rfl⟩ | ⟨oc, rfl⟩ <;>
    rcases b.forms hb with ⟨_, rfl⟩ | ⟨_, rfl⟩ | ⟨_, rfl⟩ | ⟨oc', rfl⟩ <;>
    simp only [stage?, rank, outcome?] <;> grind

section

variable {f : String} {objs objs' : List Object}

theorem own_perm (h : objs.Perm objs') (f : String) :
    (keyed.at' f objs).Perm (keyed.at' f objs') := h.filter _

theorem mem_of_lastObject {last : Object} (h : lastObject f objs = some last) :
    last ∈ keyed.at' f objs := mem_of_getLast? h

theorem inOrder_of_pairwise (h : objs.Pairwise fun a b => a.rank ≤ b.rank) : InOrder f objs := by
  intro last hlast obj hobj
  have hown : (keyed.at' f objs).Pairwise fun a b => a.rank ≤ b.rank := h.filter _
  obtain ⟨own, heq⟩ := getLast?_eq_some_iff.mp hlast
  rw [heq] at hown hobj
  rcases mem_append.mp hobj with hobj | hobj
  · exact (pairwise_append.mp hown).2.2 obj hobj last (mem_singleton_self last)
  · rw [mem_singleton.mp hobj]

theorem inOrder_iff (hperm : objs.Perm objs') (h' : InOrder f objs')
    (ha : lastObject f objs = some a) (hb : lastObject f objs' = some b) :
    InOrder f objs ↔ a.rank = b.rank := by
  have hown := own_perm hperm f
  constructor
  · intro h
    exact Nat.le_antisymm (h' b hb a (hown.mem_iff.mp (mem_of_lastObject ha)))
      (h a ha b (hown.mem_iff.mpr (mem_of_lastObject hb)))
  · intro h last hlast obj hobj
    rw [Option.mem_unique hlast ha, h]
    exact h' b hb obj (hown.mem_iff.mp hobj)

theorem lastOutcome_of_lastObject {last : Object} {oc : Outcome}
    (h : lastObject f objs = some last) (hoc : last.outcome? = some oc) :
    lastOutcome f objs = some oc := by
  obtain ⟨own, hown⟩ := getLast?_eq_some_iff.mp h
  simp [lastOutcome, outcomesOf, hown, hoc]

theorem lastOutcome_eq_none {last : Object} (h : InOrder f objs)
    (hlast : lastObject f objs = some last) (hrank : last.rank ≠ 3) :
    lastOutcome f objs = none := by
  have hthree : last.rank ≤ 3 := by
    unfold rank
    split <;> decide
  refine getLast?_eq_none_iff.mpr (filterMap_eq_nil_iff.mpr fun obj hobj => ?_)
  have hlt := (h last hlast obj hobj).trans_lt (Nat.lt_of_le_of_ne hthree hrank)
  exact outcome_of_rank_ne (fingerprint_of_mem hobj) hlt.ne

theorem closing_eq_iff (h : InOrder f objs) (h' : InOrder f objs')
    (ha : lastObject f objs = some a) (hb : lastObject f objs' = some b) (hrank : a.rank = b.rank) :
    (lastOutcome f objs).map closing = (lastOutcome f objs').map closing ↔
      ((a.outcome?.map fun oc => stageOf oc.result) = b.outcome?.map fun oc => stageOf oc.result) ∧
        (lastOutcome f objs).bind Outcome.observedSeverity =
          (lastOutcome f objs').bind Outcome.observedSeverity := by
  have hfa := fingerprint_of_mem (mem_of_lastObject ha)
  have hfb := fingerprint_of_mem (mem_of_lastObject hb)
  by_cases hthree : b.rank = 3
  · obtain ⟨oc, hoc⟩ := outcome_of_rank hfa (hrank.trans hthree)
    obtain ⟨oc', hoc'⟩ := outcome_of_rank hfb hthree
    simp [lastOutcome_of_lastObject ha hoc, lastOutcome_of_lastObject hb hoc', hoc, hoc', closing]
  · have hna := outcome_of_rank_ne hfa (hrank ▸ hthree)
    have hnb := outcome_of_rank_ne hfb hthree
    simp [lastOutcome_eq_none h ha (hrank ▸ hthree), lastOutcome_eq_none h' hb hthree, hna, hnb]

/-- Two orders of the same objects, the second by kind, show the same of a fingerprint exactly if
its objects end in their latest kind, its last decision is the same and its last outcomes say the
same. -/
theorem view_eq_iff (hperm : objs.Perm objs') (hrank : objs'.Pairwise fun a b => a.rank ≤ b.rank) :
    (projected objs).view f = (projected objs').view f ↔
      InOrder f objs ∧ lastGoverned f objs = lastGoverned f objs' ∧
        (lastOutcome f objs).map closing = (lastOutcome f objs').map closing := by
  have hown := own_perm hperm f
  have h' : InOrder f objs' := inOrder_of_pairwise hrank
  rw [view_projected, view_projected]
  cases ha : lastObject f objs with
  | none =>
    have hnil : keyed.at' f objs = [] := getLast?_eq_none_iff.mp ha
    have hnil' : keyed.at' f objs' = [] := (hnil ▸ hown).nil_eq.symm
    simp [InOrder, lastObject, lastGoverned, lastOutcome, outcomesOf, hnil, hnil']
  | some a =>
    obtain ⟨b, hb⟩ : ∃ b, lastObject f objs' = some b := by
      refine Option.ne_none_iff_exists'.mp fun hnone => ?_
      have hmem := hown.mem_iff.mp (mem_of_lastObject ha)
      rw [getLast?_eq_none_iff.mp hnone] at hmem
      exact not_mem_nil hmem
    have hfa := fingerprint_of_mem (mem_of_lastObject ha)
    have hfb := fingerprint_of_mem (mem_of_lastObject hb)
    obtain ⟨sa, hsa⟩ := exists_stage hfa
    obtain ⟨sb, hsb⟩ := exists_stage hfb
    have hstage := stage_eq_iff hfa hfb
    rw [hsa, hsb, Option.some.injEq] at hstage
    simp only [hb, hsa, hsb, Option.map_some, Option.getD_some, Option.some.injEq,
      View.mk.injEq, hstage, inOrder_iff hperm h' ha hb]
    constructor
    · rintro ⟨⟨hr, hst⟩, hg, hsev⟩
      have h := (inOrder_iff hperm h' ha hb).mpr hr
      exact ⟨hr, hg, (closing_eq_iff h h' ha hb hr).mpr ⟨hst, hsev⟩⟩
    · rintro ⟨hr, hg, hc⟩
      have h := (inOrder_iff hperm h' ha hb).mpr hr
      obtain ⟨hst, hsev⟩ := (closing_eq_iff h h' ha hb hr).mp hc
      exact ⟨⟨hr, hst⟩, hg, hsev⟩

end

/-- Where the objects were stored at different times and are the objects of the files, both
snapshots succeed and show the same of every fingerprint exactly if every object has a fingerprint
and, of each fingerprint, the objects end in their latest kind, the last decision in time is the
last among the files, and the last outcome in time says what the last among the files says. -/
theorem snapshots_agree_iff (slice : SliceSort BrokerEvent.storedAt) (yaml : Yaml) {s : Streams}
    {inbox : Inbox} {history : List BrokerEvent}
    (ht : history.Pairwise fun a b => a.storedAt < b.storedAt) (hs : s.events.Perm history)
    (hread : inbox.Readable) (hdisk : (history.map BrokerEvent.obj).Perm (inbox.objects yaml)) :
    (∃ p q, snapshotBroker slice s = .ok p ∧ inbox.snapshot yaml = .ok q ∧
      ∀ f, p.view f = q.view f) ↔
      (∀ ev ∈ history, fingerprintOf ev.obj ≠ none) ∧
      ∀ f, InOrder f (history.map BrokerEvent.obj) ∧
        lastGoverned f (history.map BrokerEvent.obj) = lastGoverned f (inbox.objects yaml) ∧
        (lastOutcome f (history.map BrokerEvent.obj)).map closing =
          (lastOutcome f (inbox.objects yaml)).map closing := by
  have hview := fun f => view_eq_iff (f := f) hdisk (inbox.objects_ascend yaml).1
  constructor
  · rintro ⟨p, q, hp, hq, hpq⟩
    obtain ⟨hall, rfl⟩ := (snapshotBroker_ok_iff slice ht hs).mp hp
    obtain rfl := Except.ok.inj ((snapshot_eq yaml hread).symm.trans hq)
    exact ⟨hall, fun f => (hview f).mp (hpq f)⟩
  · rintro ⟨hall, hf⟩
    exact ⟨_, _, (snapshotBroker_ok_iff slice ht hs).mpr ⟨hall, rfl⟩, snapshot_eq yaml hread,
      fun f => (hview f).mpr (hf f)⟩

def checkoutDetection : Signal.Detection where
  fingerprint := "checkout"

def checkoutOutcome : Outcome where
  signalRef := "checkout"
  result := .success

def strayOutcome : Outcome where
  result := .success

/-- What the files below are read as. -/
def checkoutYaml : Yaml where
  detection raw := if raw = "detection" then some checkoutDetection else none
  set _ := none
  governed _ := none
  outcome raw :=
    if raw = "outcome" then some checkoutOutcome
    else if raw = "stray" then some strayOutcome
    else none

def oneCycle : Streams where
  detections := [(1, checkoutDetection)]
  outcomes := [(2, checkoutOutcome)]

def oneCycleFiles : Inbox where
  detections := { processed := [⟨"1.yaml", .ok "detection"⟩] }
  outcomes := { arrived := [⟨"2.yaml", .ok "outcome"⟩] }

theorem oneCycle_agrees :
    ∃ p q, snapshotBroker (.insertion _) oneCycle = .ok p ∧
      oneCycleFiles.snapshot checkoutYaml = .ok q ∧ ∀ f, p.view f = q.view f := by
  have hfiles : oneCycle.events.map BrokerEvent.obj = oneCycleFiles.objects checkoutYaml := by
    decide
  have ht : oneCycle.events.Pairwise fun a b => a.storedAt < b.storedAt := by decide
  have hread : oneCycleFiles.Readable := by
    constructor <;> · unfold Dir.Readable; decide
  refine (snapshots_agree_iff (.insertion _) checkoutYaml ht (List.Perm.refl _) hread
    (List.Perm.of_eq hfiles)).mpr ⟨by decide, fun f => ?_⟩
  exact ⟨inOrder_of_pairwise (oneCycleFiles.objects_ascend checkoutYaml).1, rfl, rfl⟩

def secondCycle : Streams where
  detections := [(1, checkoutDetection), (3, checkoutDetection)]
  outcomes := [(2, checkoutOutcome)]

def secondCycleFiles : Inbox where
  detections :=
    { arrived := [⟨"3.yaml", .ok "detection"⟩], processed := [⟨"1.yaml", .ok "detection"⟩] }
  outcomes := { processed := [⟨"2.yaml", .ok "outcome"⟩] }

/-- An outcome without a fingerprint. -/
def stray : Streams where
  outcomes := [(1, strayOutcome)]

def strayFiles : Inbox where
  outcomes := { arrived := [⟨"1.yaml", .ok "stray"⟩] }

/-- By the broker the second cycle is detected, and by the files it is settled.  For a stray outcome
there is no snapshot by the broker, and an empty one by the files. -/
theorem snapshots_disagree :
    (∃ p q, snapshotBroker (.insertion _) secondCycle = .ok p ∧
      secondCycleFiles.snapshot checkoutYaml = .ok q ∧
      (p.view "checkout").map View.stage = some .detected ∧
      (q.view "checkout").map View.stage = some .settled) ∧
    (snapshotBroker (.insertion _) stray = .error
      ("incident: snapshot broker: incident: apply outcome.Outcome: " ++ errNoFingerprint) ∧
    ∃ q, strayFiles.snapshot checkoutYaml = .ok q ∧ q.view "" = none) := by
  exact ⟨⟨_, _, rfl, rfl, by decide, by decide⟩, rfl, _, rfl, rfl⟩

end Beats.Incident
