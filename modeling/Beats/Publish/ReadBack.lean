import Beats.Publish.Conservation
import Beats.Transcript

/-!
# Reading the log back

`EncryptingSink.Put` seals a segment on its way to the bucket, and `corpus.Walk` unseals what it
lists there.  No two segments are shipped under one key (`nodup_keys`).  What it returns after a
smooth run and what is left in the directory are together the lines that were appended, but for the
empty ones (`walk_conserves`).
-/

namespace Beats.Publish

open Lib List Clank Transcript Prog Function

variable {r : Reader} {code : Char → UInt8} {pre : String}

/-! ## Walking a bucket -/

section

variable {b : Bucket} {f : String → List Bytes}

theorem runIn_segments {w : List Pair} : ∀ {keys : List String},
    (∀ key ∈ keys, ∃ body, b[key]? = some body ∧ r.unsealSegment body = .ok (f key)) →
      runIn (answer b) w (r.segments keys) = (.ok (keys.map fun key => (key, f key)), w)
  | [], _ => rfl
  | key :: keys, h => by
    obtain ⟨⟨body, hbody, hopen⟩, hrest⟩ := forall_mem_cons.mp h
    have hget : runIn (answer b) w (r.getSegment key) = (.ok (some (f key)), w) := by
      refine (runIn_get hbody).trans ?_
      change runIn _ w (.ret (r.unsealSegment body).toOption) = _
      rw [hopen]
      rfl
    exact (runIn_bind hget).trans (runIn_bind (runIn_segments hrest))

theorem reads_walk (h : ∀ key ∈ listed b pre, ∃ body, b[key]? = some body ∧
    r.unsealSegment body = .ok (f key)) :
    reads b (r.walk pre) = .ok (listed b pre, (listed b pre).flatMap f) := by
  have hwalk : runIn (answer b) [] (r.walk pre) = _ :=
    (@runIn_list _ b [] pre _).trans (runIn_bind (runIn_segments h))
  rw [reads, hwalk]
  change (runIn (answer b) [] (ite _ _ _)).1 = _
  rw [if_neg fun hno => hno.1 (map_eq_nil_iff.mp hno.2)]
  change Except.ok (map _ (map _ (listed b pre)), flatMap _ (map _ (listed b pre))) = _
  simp [Function.comp_def, flatMap_map]

end

/-! ## The segments in a bucket -/

/-- Lines in bytes, without the empty ones. -/
def spelled (code : Char → UInt8) (ts : List (List Char)) : List Bytes :=
  (ts.filter (· ≠ [])).map (map code)

theorem unsealSegment_seal (hcode : ∀ c, code c = 10 ↔ c = '\n') (nonce : Bytes) (ls : List Text) :
    r.unsealSegment (r.store.key.seal nonce ((encode ls).map code)) =
      .ok (spelled code (ls.map Line.text)) := by
  let line (l : Text) : Line (10 : UInt8) := ⟨l.text.map code, by simp [hcode, l.single]⟩
  have hten : code '\n' = 10 := (hcode _).mpr rfl
  have hencode : (encode ls).map code = encode (ls.map line) := by
    simp [encode, map_flatMap, flatMap_map, Line.encode, line, hten]
  have hspelled : spelled code (ls.map Line.text) =
      ((ls.map line).map Line.text).filter (· ≠ []) := by
    simp [spelled, filter_map, line, Function.comp_def]
  rw [Reader.unsealSegment, r.store.key.open_seal, hencode, hspelled]
  refine congrArg Except.ok ?_
  rcases eq_nil_or_concat' (ls.map line) with h | ⟨ls', l, h⟩
  · rw [h]
    rfl
  · -- the newline that is trimmed is that of the last line
    have hlast : encode (ls' ++ [l]) = (encode ls' ++ l.text) ++ [10] := by simp [Line.encode]
    rw [h, hlast, if_pos (suffix_append _ _), dropLast_concat, splitOn_encode_append ls' l.single,
      map_append]
    rfl

/-- What `EncryptingSink.Put` leaves of the segments that the sink has taken. -/
def bucketOf (key : SealKey) (code : Char → UInt8) (nonce : String → Bytes)
    (sink : List (String × List Char)) : Bucket :=
  .ofList (sink.map fun p => (p.1, key.seal (nonce p.1) (p.2.map code)))

section

variable {key : SealKey} {nonce : String → Bytes} {sink : List (String × List Char)}

theorem getElem?_bucketOf (hkeys : (sink.map Prod.fst).Nodup) {p : String × List Char}
    (hp : p ∈ sink) :
    (bucketOf key code nonce sink)[p.1]? = some (key.seal (nonce p.1) (p.2.map code)) := by
  refine Std.ExtTreeMap.getElem?_ofList_of_mem Std.ReflCmp.compare_self ?_
    (mem_map_of_mem (f := fun p => (p.1, key.seal (nonce p.1) (p.2.map code))) hp)
  simpa [pairwise_map, Nodup] using hkeys

theorem listed_bucketOf (hkeys : (sink.map Prod.fst).Nodup)
    (hpre : ∀ p ∈ sink, pre.toList <+: p.1.toList) :
    listed (bucketOf key code nonce sink) pre ~ sink.map Prod.fst := by
  refine (perm_ext_iff_of_nodup (Std.ExtTreeMap.nodup_keys.filter _) hkeys).mpr fun k => ?_
  have hmem : k ∈ bucketOf key code nonce sink ↔ k ∈ sink.map Prod.fst := by
    simp [bucketOf, Std.ExtTreeMap.mem_ofList]
  refine mem_listed.trans ?_
  rw [hmem, and_iff_left_iff_imp]
  intro hk
  obtain ⟨p, hp, rfl⟩ := mem_map.mp hk
  exact hpre p hp

end

/-! ## The keys of the sink -/

/-- The part of a key behind the last slash, which is the name of the segment. -/
def segmentOf (key : String) : Name := (key.toList.reverse.takeWhile (· ≠ '/')).reverse

theorem segmentOf_key {n : Name} (hn : isSealed n = true) (wal : Wal) :
    segmentOf (wal.key n) = n := by
  have hslash : ∀ c ∈ n.reverse, decide (c ≠ '/') = true := fun c hc =>
    decide_eq_true (ne_of_mem_of_not_mem (mem_reverse.mp hc) (slash_notMem_of_sealed hn))
  have hkey : (wal.key n).toList.reverse =
      n.reverse ++ '/' :: (wal.beat ++ "/" ++ wal.subject).toList.reverse := by
    simp [Wal.key]
  rw [segmentOf, hkey, takeWhile_append_of_pos hslash]
  simp

/-- Every segment is in the sink once, and one that is there has left the directory, unless it is
the segment `sent` that is about to. -/
structure Keyed (d : Disk Name Char) (sealed : List (Name × Nat))
    (sink : List (String × List Char)) (sent : Option Name) : Prop where
  nodup : (sink.map fun p => segmentOf p.1).Nodup
  named : ∀ p ∈ sink, isSealed (segmentOf p.1) = true
  recorded : ∀ p ∈ sink, segmentOf p.1 ∈ sealed.map Prod.fst
  gone : ∀ p ∈ sink, d.file (segmentOf p.1) ≠ none → sent = some (segmentOf p.1)

section

variable {d d' : Disk Name Char} {sealed sealed' : List (Name × Nat)}
  {sink : List (String × List Char)} {sent : Option Name}

theorem Keyed.keep (h : Keyed d sealed sink sent)
    (hsealed : sealed.map Prod.fst ⊆ sealed'.map Prod.fst)
    (hfile : ∀ n ∈ sealed.map Prod.fst, isSealed n = true → d'.file n = d.file n) :
    Keyed d' sealed' sink sent where
  nodup := h.nodup
  named := h.named
  recorded p hp := hsealed (h.recorded p hp)
  gone p hp := by
    rw [hfile _ (h.recorded p hp) (h.named p hp)]
    exact h.gone p hp

theorem Keyed.put (h : Keyed d sealed sink none) {n : Name} {k : Nat} {key : String}
    {bs : List Char} (hn : isSealed n = true) (hrecorded : n ∈ sealed.map Prod.fst)
    (hfile : d.file n = some k) (hkey : segmentOf key = n) :
    Keyed d sealed (sink ++ [(key, bs)]) (some n) := by
  subst hkey
  have hnew : ∀ p ∈ sink, segmentOf p.1 ≠ segmentOf key := by
    intro p hp he
    cases h.gone p hp (by rw [he, hfile]; nofun)
  refine ⟨?_, ?_, ?_, ?_⟩
  · rw [map_append, nodup_append]
    refine ⟨h.nodup, nodup_singleton _, fun n hold n' hn' => ?_⟩
    obtain ⟨p, hp, rfl⟩ := mem_map.mp hold
    rw [mem_singleton.mp hn']
    exact hnew p hp
  all_goals
    refine forall_mem_append.mpr ⟨fun p hp => ?_, forall_mem_singleton.mpr ?_⟩
  · exact h.named p hp
  · exact hn
  · exact h.recorded p hp
  · exact hrecorded
  · exact fun hthere => absurd (h.gone p hp hthere) nofun
  · exact fun _ => rfl

end

section

variable {v v' : View} {W : List Text} {i : Nat}

/-- The segments in the sink of a view. -/
def View.Keyed (v : View) (i : Nat) : Prop :=
  Publish.Keyed v.disk v.sealed v.sink (v.docks i).sent?

theorem View.Keyed.dock {docks : Nat → Dock} {x : Dock} (hdocks : v.docks = update docks i x)
    (h : Publish.Keyed v.disk v.sealed v.sink x.sent?) : v.Keyed i := by
  rw [View.Keyed, hdocks, update_self]
  exact h

theorem keyed_of_moves {j : Job} {luck : Luck} {c : Call} {wrote wrote' : Bool}
    {holder : Option Nat} {failed : Bool} (hk : v.Keyed i) (hb : Books v (v.docks i).sent? W)
    (hm : Moves j luck i holder failed v c wrote wrote' v')
    (hluck : luck.err = none ∨ c.ships = true)
    (hnew : ∀ n ∈ c.target, isSealed n = true → n ∉ v.sealed.map Prod.fst) : v'.Keyed i := by
  cases hm with
  | idle | leave _ _ | shut _ _ | count _ _ | absent _ _ | found _ _ | readOrphan _ _ => exact hk
  | fill _ _ | writeLine _ _ | short _ | syncActive _ | syncSegment _ | syncClosed =>
    exact Keyed.keep hk (Subset.refl _) fun _ _ _ => rfl
  | createSegment _ named =>
    refine Keyed.keep hk (subset_cons_self ..) fun n hn _ => Disk.file_create_of_ne ?_
    exact ne_of_mem_of_not_mem hn (hnew _ rfl named)
  | sealActive _ _ named =>
    refine Keyed.keep hk (subset_cons_self ..) fun n hn hs => Disk.file_rename_of_ne ?_
      (ne_active_of_sealed hs)
    exact ne_of_mem_of_not_mem hn (hnew _ rfl named)
  | openActive _ =>
    exact Keyed.keep hk (Subset.refl _) fun n _ hs =>
      Disk.file_create_of_ne (ne_active_of_sealed hs)
  | clear _ =>
    exact Keyed.keep hk (Subset.refl _) fun n _ hs =>
      Disk.file_remove_of_ne (ne_active_of_sealed hs)
  | openSealed dock _ _ | undock dock =>
    rw [View.Keyed, dock] at hk
    exact .dock rfl hk
  | put dock keyed =>
    obtain ⟨wal, rfl⟩ := keyed
    obtain ⟨hn, hfile⟩ := hb.docked dock
    rw [View.Keyed, dock] at hk
    exact .dock rfl (Keyed.put hk hn (hb.recorded hn hfile) hfile (segmentOf_key hn wal))
  | @removeSealed _ n h dock named =>
    rw [View.Keyed, dock] at hk
    refine .dock rfl { hk with gone := fun p hp hthere => ?_ }
    obtain ⟨k, hfile⟩ := Option.ne_none_iff_exists'.mp hthere
    cases hk.gone p hp (by rw [Disk.file_of_remove hfile]; nofun)
    exact absurd Disk.file_remove_self hthere
  | @keepSealed _ n h dock why =>
    rw [View.Keyed, dock] at hk
    refine .dock rfl { hk with gone := fun p hp hthere => ?_ }
    cases hk.gone p hp hthere
    -- the segment is in the directory, and the removal has met no fault
    rcases why with err | hnone
    · exact absurd (hluck.resolve_right nofun) err
    · exact absurd hnone hthere

end

section

variable {w w' : World} {e : Event}

/-- At the end of a smooth run the segment of the last operation is the one that may be both in
the sink and in the directory. -/
theorem keyed_of_turn (h : Steady w) (hk : (view w).Keyed (w.tasks.length - 1))
    (hc : Smooth w e) (ht : Turn w e w') : (view w').Keyed (w'.tasks.length - 1) := by
  cases ht with
  | spawn tasks _ seen =>
    have hidle (i : Nat) : (view w).docks i = .idle := h.base.dock_of_quiet hc i
    rw [View.Keyed, hidle] at hk
    rw [seen]
    change Keyed _ _ _ ((view w).docks _).sent?
    rw [hidle]
    exact hk
  | @act i _ _ _ _ _ _ _ task _ tasks _ moves =>
    have hcall := nextCall_eq task
    have hlast : w.tasks.length - 1 = i := Nat.sub_eq_of_eq_add (h.last task rfl).symm
    have hluck := hc.1
    rw [hcall] at hluck
    have hbooks := h.books
    rw [hlast] at hbooks hk
    rw [tasks, length_set, hlast]
    refine keyed_of_moves hk hbooks moves hluck fun n hn hsealed hrecorded => ?_
    obtain ⟨⟨b, t⟩, hp⟩ := Option.isSome_iff_exists.mp hsealed
    exact hc.2 _ hcall n hn _ hp (mem_stamps hp hrecorded)
  | crash _ _ => exact hc.elim
  | reopen _ tasks _ seen =>
    rw [seen, tasks]
    exact hk

/-- No two objects of a smooth run have one key. -/
theorem nodup_keys {wal : Wal} {es : List Event} (hc : machine.Along Smooth (start wal) es)
    (hr : machine.run (start wal) es = some w) : (w.shared.sink.map Prod.fst).Nodup := by
  have hstart : (view (start wal)).Keyed 0 := ⟨.nil, nofun, nofun, nofun⟩
  have hkeyed := Machine.run_invariant
    (P := fun w => Steady w ∧ (view w).Keyed (w.tasks.length - 1)) (fun w e w' h hc hstep => by
      obtain ⟨hb', ht⟩ := turn_of_step h.1.base hstep
      exact ⟨steady_of_turn h.1 hc hb' ht, keyed_of_turn h.1 h.2 hc ht⟩)
    ⟨steady_start wal, hstart⟩ hc hr
  have hnames := hkeyed.2.nodup
  exact .of_map segmentOf (by rwa [map_map])

end

/-! ## The walk -/

/-- A walk of the bucket reads every segment, and what it returns and what the directory has are
the lines that were appended, each as often as it was. -/
def ReadBack (r : Reader) (code : Char → UInt8) (nonce : String → Bytes) (pre : String)
    (w : World) : Prop :=
  ∃ keys lines, reads (bucketOf r.store.key code nonce w.shared.sink) (r.walk pre) =
      .ok (keys, lines) ∧ keys ~ w.shared.sink.map Prod.fst ∧
    lines ++ spelled code ((sealedNames w.shared.disk).flatMap (textsIn w.shared.disk) ++
      textsIn w.shared.disk activeSegmentName) ~ spelled code ((appended w).map Line.text)

/-- After a smooth run the walk reads every line that was shipped. -/
theorem walk_conserves (hcode : ∀ c, code c = 10 ↔ c = '\n') {nonce : String → Bytes} {wal : Wal}
    {es : List Event} {w : World} (hc : machine.Along Smooth (start wal) es)
    (hr : machine.run (start wal) es = some w) (hq : quiet w = true)
    (hpre : ∀ p ∈ w.shared.sink, pre.toList <+: p.1.toList) : ReadBack r code nonce pre w := by
  have hsteady : Steady w := steady_of_run hc hr
  have hkeys : (w.shared.sink.map Prod.fst).Nodup := nodup_keys hc hr
  let b := bucketOf r.store.key code nonce w.shared.sink
  -- the lines of an object, by its key
  let f (key : String) := (b[key]?.bind fun body => (r.unsealSegment body).toOption).getD []
  have hread {p} (hp : p ∈ w.shared.sink) : r.unsealSegment
      (r.store.key.seal (nonce p.1) (p.2.map code)) = .ok (spelled code (texts '\n' p.2)) := by
    obtain ⟨ls, -, hls⟩ := hsteady.books.sunk p hp
    rw [hls, unsealSegment_seal hcode, texts_encode]
  have hf (p) (hp : p ∈ w.shared.sink) : f p.1 = spelled code (texts '\n' p.2) := by
    simp [f, b, getElem?_bucketOf hkeys hp, hread hp, Except.toOption]
  have hlisted : listed b pre ~ w.shared.sink.map Prod.fst := listed_bucketOf hkeys hpre
  refine ⟨_, _, reads_walk (f := f) fun key hkey => ?_, hlisted, ?_⟩
  · obtain ⟨p, hp, rfl⟩ := mem_map.mp (hlisted.mem_iff.mp hkey)
    rw [hf p hp]
    exact ⟨_, getElem?_bucketOf hkeys hp, hread hp⟩
  · have hlines : (listed b pre).flatMap f ~ spelled code (sinkTexts w.shared.sink) := by
      refine (hlisted.flatMap_right f).trans (.of_eq ?_)
      rw [flatMap_map, flatMap_congr hf]
      simp [spelled, sinkTexts, filter_flatMap, map_flatMap]
    have htotal := ((hsteady.conserved hq).total.filter (· ≠ [])).map (map code)
    refine (hlines.append_right _).trans (.trans (.of_eq ?_) htotal)
    simp [spelled, append_assoc]

theorem shipments_read_back : ∃ w, machine.run (start { maxBytes := 1 }) shipments = some w ∧
    sinkTexts w.shared.sink = [['a'], ['b']] ∧
      ReadBack (oneReader "") (fun c => if c = '\n' then 10 else 0) (fun _ => []) "" w := by
  exact Machine.exists_run_of (P := fun w => quiet w = true ∧
      sinkTexts w.shared.sink = [['a'], ['b']])
    (by decide +kernel) fun w hr ⟨hq, hsink⟩ => ⟨hsink, walk_conserves (by simp)
      (by decide +kernel) hr hq fun _ _ => nil_prefix⟩

end Beats.Publish
