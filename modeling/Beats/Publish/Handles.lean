import Beats.Lib.Sure
import Beats.Publish.Retained

/-!
# Recovery after a failed seal

A handle that was closed is not usable: every call on it fails.  `Site` is the world with the
handles of the process, and its runs are runs of the world in which those calls are unlucky
(`world_of_act`).

A seal that fails while it syncs keeps its handle, and one that cannot open the fresh segment has
let go of it.  A seal that fails while it closes or renames keeps a handle that is closed, and then
every append fails (`append_of_stuck`, `appends_stuck`).  Where no seal fails there, appends go on
(`append_after_seal`).

That rests on what the protocol says of the handles (`Phase.Permits`).
-/

namespace Beats.Publish

open Lib Monitor Function Prog Machine Luck

/-! ## Handles -/

/-- Which handles are closed, and what is open to read. -/
structure Handles where
  /-- The handle that a file was written through is closed. -/
  shut : Nat → Bool := fun _ => false
  /-- The file that an operation has open to read. -/
  reading : Nat → Option Nat := fun _ => none

/-- The call goes to a handle that is closed. -/
def Handles.refuses (x : Handles) (i : Nat) : Call → Bool
  | .write h _ => x.shut h
  | .sync h => x.shut h
  | .close h => x.shut h && x.reading i != some h
  | _ => false

def Handles.close (x : Handles) (i h : Nat) : Handles :=
  if x.reading i = some h then { x with reading := update x.reading i none }
  else { x with shut := update x.shut h true }

/-- The handles after an answered call.  A handle is closed even where `Close` fails. -/
def Handles.next (x : Handles) (i : Nat) : (c : Call) → iface.Answer c → Handles
  | .create _, .ok h => { x with shut := update x.shut h false }
  | .openFile _, .ok h => { x with reading := update x.reading i (some h) }
  | .close h, _ => x.close i h
  | _, _ => x

/-- The store, with the handles of the process. -/
structure Files where
  store : Store
  handles : Handles := {}

/-- What a call meets: `os.ErrClosed`, where it is on a closed handle. -/
def Files.luck (x : Files) (i : Nat) (luck : Luck) (c : Call) : Luck :=
  if x.handles.refuses i c then { luck with err := some "file already closed", kept := 0 }
  else luck

/-- The call is served, or refused by its handle. -/
def serveFiles (i : Nat) (luck : Luck) (x : Files) (c : Call) :
    Option (iface.Answer c × Files) :=
  (serve i (x.luck i luck c) x.store c).map fun p =>
    (p.1, { store := p.2, handles := x.handles.next i c p.1 })

/-! ## Sites -/

/-- The operations over the store and the handles. -/
abbrev Site := Pool iface (Wal × Job) String Unit Files

/-- The world without the handles. -/
def Site.world (s : Site) : World := { shared := s.shared.store, tasks := s.tasks, log := s.log }

/-- The site before the first operation. -/
def site (wal : Wal) : Site := { shared := { store := { wal } } }

/-- The machine of the sites.  A new process has no handles. -/
def sites : Machine Site Event where
  step s
    | .spawn j =>
      some (Pool.spawn prog
        { s with shared := { s.shared with store :=
          { s.shared.store with offered := j.line.toList ++ s.shared.store.offered } } }
        (s.shared.store.wal, j))
    | .act i luck => s.act (serveFiles i luck) i
    | .crash keep => some { shared := { store := s.shared.store.crash keep } }
    | .reopen wal =>
      if quiet s.world then
        some { s with
          shared := { s.shared with store := { s.shared.store with wal, mem := {} } } }
      else none

section

variable {s s' : Site} {e : Event} {i : Nat} {luck : Luck}

/-- A move at a site is one of the world, with the luck that the handles leave, and the handles
follow the answered call. -/
theorem world_of_act (hs : s.act (serveFiles i luck) i = some s') :
    ∃ (c : Call) (r : iface.Answer c), nextCall s.world i = some c ∧
      s.world.act (serve i (s.shared.luck i luck c)) i = some s'.world ∧
      s'.shared.handles = s.shared.handles.next i c r ∧ s'.log = (i, ⟨c, r⟩) :: s.log := by
  obtain ⟨j, c, k, r, x, hi, hserve, rfl⟩ := Pool.act_cases hs
  obtain ⟨⟨r', store⟩, hstore, hx⟩ := Option.map_eq_some_iff.mp hserve
  cases hx
  exact ⟨c, r', nextCall_eq hi, Pool.act_eq hi hstore, rfl, rfl⟩

theorem world_of_step (hs : sites.step s e = some s') (he : ∀ i luck, e ≠ .act i luck) :
    machine.step s.world e = some s'.world := by
  cases e with
  | act i luck => exact absurd rfl (he i luck)
  | spawn j =>
    cases hs
    rfl
  | crash keep =>
    cases hs
    rfl
  | reopen wal =>
    simp only [sites] at hs
    split at hs
    next hq =>
      cases hs
      simp only [machine, hq, if_true]
      rfl
    next => cases hs

end

/-! ## The condition and the property -/

def Call.seals (active : Option Nat) : Call → Bool
  | .rename _ _ => true
  | .close h => active == some h
  | _ => false

/-- A keeping step in which no seal fails when it closes or renames its segment. -/
def Sealing (s : Site) : Event → Prop
  | .act i luck =>
    Keeping s.world (.act i luck) ∧ ∀ c ∈ nextCall s.world i,
      c.seals (view s.world).seat.active = true → luck.err = none
  | _ => True

instance (s : Site) : (e : Event) → Decidable (Sealing s e)
  | .spawn _ | .act _ _ | .crash _ | .reopen _ => by
    dsimp only [Sealing]
    infer_instance

/-- No fault, and the context is not done. -/
def Luck.Fine (luck : Luck) : Prop := luck.err = none ∧ luck.done = none

def returned (s : Site) (i : Nat) : Bool :=
  match s.tasks[i]? with
  | some (_, .ret _) => true
  | _ => false

/-- The offsets that an append may give to segments are of the type `int64`. -/
def Store.Roomy (s : Store) : Prop :=
  s.mem.baseOffset + 2 ≤ 2 ^ 63 ∧ nextBaseOffset s.disk.names + 3 ≤ 2 ^ 63

instance (s : Store) : Decidable s.Roomy := inferInstanceAs (Decidable (_ ∧ _))

/-- An append that is started now and meets no fault returns, whatever the clock shows. -/
def Appends (s : Site) : Prop :=
  ∀ (line : Text) (luck : Nat → Luck), (∀ k, (luck k).Fine) →
    ∃ n s', sites.run s (.spawn (.append (.ok line)) ::
        (List.range n).map fun k => .act s.tasks.length (luck k)) = some s' ∧
      returned s' s.tasks.length = true

/-! ## The invariant -/

/-- The file that is open to read at a point. -/
def Point.reading : Point → Option Nat
  | .shipping _ h => some h
  | .shipped _ h => some h
  | .removed h => some h
  | _ => none

/-- What a sealing run keeps: the handle of an active segment is closed only by the holder of the
mutex, which has not failed since. -/
structure Fit (s : Site) : Prop where
  safe : Safe s.world
  reading : ∀ i, s.shared.handles.reading i = (phase s.world i).point.reading
  left : ∀ {i h}, (phase s.world i).point = .closing h →
    (view s.world).seat.active ≠ some h ∧ h < s.shared.store.disk.next
  whole : ∀ {i}, s.shared.store.holder = some i → (phase s.world i).handle ≠ .torn
  shut : ∀ {h}, (view s.world).seat.active = some h → s.shared.handles.shut h = true →
    ∃ i, s.shared.store.holder = some i ∧ (phase s.world i).handle ≠ .usable

section

variable {x : Handles} {y : Handle} {p : Point} {i h : Nat} {c : Call} {r : iface.Answer c}

theorem shut_next (hs : (x.next i c r).shut h = true) :
    x.shut h = true ∨ c = .close h ∧ x.reading i ≠ some h := by
  unfold Handles.next at hs
  split at hs
  next n k =>
    by_cases hk : h = k
    · subst hk
      cases (update_self ..).symm.trans hs
    · exact .inl ((update_of_ne hk ..).symm.trans hs)
  next => exact .inl hs
  next h' _ =>
    rw [Handles.close] at hs
    split at hs
    · exact .inl hs
    next hr =>
      by_cases hh : h = h'
      · subst hh
        exact .inr ⟨rfl, hr⟩
      · exact .inl ((update_of_ne hh ..).symm.trans hs)
  next => exact .inl hs

/-- A handle that was closed is usable again after a rename only. -/
theorem usable_next (hy : y ≠ .usable) (hc : c ≠ .lock) (hnext : y.next p c r = .usable) :
    ∃ src dst, (⟨c, r⟩ : Answered iface) = ⟨.rename src dst, (.ok () : Except FsError Unit)⟩ := by
  unfold Handle.next at hnext
  split at hnext
  next => exact absurd rfl hc
  next =>
    split at hnext
    · cases hnext
    · cases hnext
    · exact absurd hnext hy
  next src dst _ => exact ⟨src, dst, rfl⟩
  next => cases hnext
  next => exact absurd hnext hy

theorem torn_next (hnext : y.next p c r = .torn) : y = .torn ∨
    (∃ src dst e, (⟨c, r⟩ : Answered iface) = ⟨.rename src dst, (.error e : Except FsError Unit)⟩) ∨
    ∃ k e h b, (⟨c, r⟩ : Answered iface) = ⟨.close k, (.error e : Except FsError Unit)⟩ ∧
      p = .inside (.synced h b) := by
  unfold Handle.next at hnext
  split at hnext
  next => cases hnext
  next k r =>
    split at hnext
    next => cases hnext
    next h b e => exact .inr (.inr ⟨k, e, h, b, rfl, rfl⟩)
    next => exact .inl hnext
  next => cases hnext
  next src dst e => exact .inr (.inl ⟨src, dst, e, rfl⟩)
  next => exact .inl hnext

theorem closing_next (hnext : p.next c r = .closing h) : p = .closing h ∨
    ∃ m t, c = .unlock m ∧ p = .inside t ∧ m.active = none ∧ t.active = some h := by
  unfold Point.next at hnext
  split at hnext
  next t m _ =>
    rw [Seat.leave] at hnext
    split at hnext
    next k ht hm =>
      cases hnext
      exact .inr ⟨m, t, rfl, rfl, hm, ht⟩
    next => cases hnext
  all_goals first
    | cases hnext; done
    | exact .inl hnext

theorem reading_next {φ : Phase} {j : Job} (hr : x.reading i = φ.point.reading)
    (hc : φ.Permits j c) : (x.next i c r).reading i = (φ.next c r).point.reading := by
  obtain ⟨p, wrote, failed, y⟩ := φ
  change x.reading i = p.reading at hr
  change _ = (p.next c r).reading
  have hclose {k : Nat} (hk : x.reading i = some k) : (x.close i k).reading i = none := by
    rw [Handles.close, if_pos hk]
    exact update_self ..
  have hkeep {k : Nat} (hk : x.reading i = none) : (x.close i k).reading i = none := by
    rw [Handles.close, if_neg (by rw [hk]; nofun)]
    exact hk
  cases c with
  | close h =>
    obtain ⟨n, rfl⟩ | rfl | rfl | ⟨t, rfl, -⟩ := hc
    · exact hclose hr
    · exact hclose hr
    · exact hkeep hr
    · exact hkeep hr
  | openFile n =>
    obtain rfl : p = .out := hc.1
    cases r with
    | ok h => exact update_self ..
    | error e => exact hr
  | create n =>
    obtain ⟨b, raw, t, rfl, -⟩ | ⟨b, rfl, -⟩ := hc <;> cases r <;> exact hr
  | unlock m =>
    obtain ⟨-, t, rfl, -⟩ := hc
    change x.reading i = (t.leave m).reading
    rw [Seat.leave]
    split <;> exact hr
  | put key h =>
    obtain ⟨n, rfl, -⟩ := hc
    cases r <;> exact hr
  | _ => cases p <;> exact hr

theorem reading_of_ne {k : Nat} (hk : k ≠ i) (c : Call) (r : iface.Answer c) :
    (x.next i c r).reading k = x.reading k := by
  unfold Handles.next
  split
  next => rfl
  next => exact update_of_ne hk ..
  next =>
    rw [Handles.close]
    split
    · exact update_of_ne hk ..
    · rfl
  next => rfl

end

/-! ## Steps -/

/-- The operation `i` has made the call `c` at a site, and `r` is the answer. -/
structure Answers (s s' : Site) (i : Nat) (luck : Luck) (j : Job) (c : Call)
    (r : iface.Answer c) : Prop where
  next : nextCall s.world i = some c
  permits : (phase s.world i).Permits j c
  served : serve i (s.shared.luck i luck c) s.shared.store c = some (r, s'.shared.store)
  handles : s'.shared.handles = s.shared.handles.next i c r
  phases : phase s'.world = update (phase s.world) i ((phase s.world i).next c r)
  moves : Moves j (s.shared.luck i luck c) i s.shared.store.holder (phase s.world i).failed
    (view s.world) c (phase s.world i).wrote ((phase s.world i).next c r).wrote (view s'.world)
  exclusive : Exclusive s'.shared.store (phase s'.world)

section

variable {s s' : Site} {e : Event} {i h : Nat} {luck : Luck} {j : Job} {c : Call}
  {r : iface.Answer c} {t : Seat}

theorem answers_of_act (hb : Base s.world) (hs : s.act (serveFiles i luck) i = some s') :
    ∃ (j : Job) (c : Call) (r : iface.Answer c), Answers s s' i luck j c r ∧
      s.world.act (serve i (s.shared.luck i luck c)) i = some s'.world := by
  obtain ⟨c, r, hnext, hact, hhandles, hlog⟩ := world_of_act hs
  obtain ⟨j, c', rest, r', hi, hpermits, hserve, -, hlog', hphase, hmoves, hx⟩ :=
    moves_of_act hb hact
  have hcall : (⟨c, r⟩ : Answered iface) = ⟨c', r'⟩ :=
    (Prod.mk.inj (List.cons.inj (hlog.symm.trans hlog')).1).2
  cases hcall
  exact ⟨j.2, c, r, ⟨hnext, hpermits, hserve, hhandles, hphase, hmoves, hx⟩, hact⟩

/-- The luck that closed handles leave is no worse for what is kept. -/
theorem keeping_luck (hc : Keeping s.world (.act i luck)) (c : Call) :
    Keeping s.world (.act i (s.shared.luck i luck c)) := by
  intro c' hc'
  obtain ⟨hkept, hrest⟩ := hc c' hc'
  refine ⟨?_, hrest⟩
  rw [Files.luck]
  split
  · refine .inr fun bs _ => ?_
    exact ended_nil _
  · exact hkept

theorem Fit.seat (hf : Fit s) (hp : (phase s.world i).point = .inside t) :
    (view s.world).seat = t ∧ s.shared.store.holder = some i :=
  ⟨seatOf_inside hf.safe.base.exclusive hp, (hf.safe.base.exclusive i).mp ⟨t, hp⟩⟩

/-- A handle that is not closed is not refused, and a call that is not refused meets the luck
there is. -/
theorem luck_of_open (hr : s.shared.handles.refuses i c = false) :
    s.shared.luck i luck c = luck := by
  rw [Files.luck, hr]
  rfl

theorem Fit.fault_of_rename (hf : Fit s) {src dst : Name} {f : FsError}
    (ha : Answers s s' i luck j (.rename src dst) (.error f : Except FsError Unit)) :
    luck.err ≠ none := by
  obtain ⟨rfl, k, b, t, hp, -⟩ := ha.permits
  have hfile := hf.safe.filed.active (by rw [(hf.seat hp).1]; rfl)
  rcases answer_cases (serve_rename ha.served).2 with ⟨herr, -⟩ | ⟨-, a, -, hr⟩ | ⟨-, hnone, -⟩
  · exact herr
  · cases hr
  · rw [show s.shared.store.disk.file activeSegmentName = some k from hfile] at hnone
    cases hnone

theorem Answers.fault_of_close {f : FsError}
    (ha : Answers s s' i luck j (.close h) (.error f : Except FsError Unit))
    (hopen : s.shared.handles.shut h = false) : luck.err ≠ none := by
  have hserved := ha.served
  have hrefuses : s.shared.handles.refuses i (.close h) = false := by
    rw [Handles.refuses, hopen]
    rfl
  rw [luck_of_open hrefuses] at hserved
  rcases answer_cases hserved with ⟨herr, -⟩ | ⟨-, a, -, hr⟩ | ⟨-, hnone, -⟩
  · exact herr
  · cases hr
  · cases hnone

/-- A seal that has closed its segment without a fault goes on. -/
theorem Fit.whole_act (hf : Fit s) (ha : Answers s s' i luck j c r)
    (hseal : c.seals (view s.world).seat.active = true → luck.err = none) {k : Nat}
    (hk : s'.shared.store.holder = some k) : (phase s'.world k).handle ≠ .torn := by
  rw [ha.phases]
  rcases serve_mutex ha.served with ⟨-, hh, hcall⟩ | ⟨m, rfl, hfree, -⟩ | ⟨-, hh, -⟩
  · cases hcall
    cases hh.symm.trans hk
    rw [update_self]
    nofun
  · cases hfree.symm.trans hk
  · have hholder := hh.symm.trans hk
    by_cases hki : k = i
    · subst hki
      rw [update_self]
      intro htorn
      rcases torn_next htorn with hbefore | ⟨src, dst, e, hcall⟩ | ⟨f, e, h, b, hcall, hp⟩
      · exact hf.whole hholder hbefore
      · cases hcall
        exact hf.fault_of_rename ha (hseal rfl)
      · cases hcall
        obtain ⟨n, hp'⟩ | hp' | hp' | ⟨t, hp', hnone | ⟨⟨b', rfl⟩, husable⟩⟩ := ha.permits
        all_goals cases hp.symm.trans hp'
        · cases hnone
        · have hactive : (view s.world).seat.active = some f := by
            rw [(hf.seat hp).1]
            rfl
          refine ha.fault_of_close (Bool.eq_false_iff.mpr fun hshut => ?_) (hseal ?_)
          · obtain ⟨i, hi, hnot⟩ := hf.shut hactive hshut
            cases hholder.symm.trans hi
            exact hnot husable
          · rw [Call.seals, hactive]
            exact beq_self_eq_true _
    · rw [update_of_ne hki]
      exact hf.whole hholder

theorem Answers.opened {r : iface.Answer (.create activeSegmentName)}
    (ha : Answers s s' i luck j _ r) {b : Nat} (hseat : (view s.world).seat = .cleared b)
    (hh : h = (s.shared.store.disk.create activeSegmentName).1)
    (hnew : (view s'.world).seat.active = some h) : s'.shared.handles.shut h = false := by
  have hcreated := active_of_act (j := (s.shared.store.wal, j)) ha.permits ha.phases ha.moves
    ha.exclusive (by rw [hnew]; nofun)
  rw [hseat] at hcreated
  obtain ⟨n, k, hcall⟩ := hcreated.resolve_left fun hnone => hnone rfl
  cases hcall
  have hk : k = h := by
    rcases answer_cases ha.served with ⟨-, e, he, -⟩ | ⟨-, a, hx, hr⟩ | ⟨-, hn, -⟩
    · cases he
    · cases hr
      exact (congrArg Prod.fst (Option.some.inj hx)).symm.trans hh.symm
    · cases hn
  subst hk
  rw [ha.handles]
  exact update_self ..

/-- The holder of the mutex keeps its active segment closed, where it keeps the segment. -/
theorem Answers.closed (ha : Answers s s' i luck j c r) (hlock : c ≠ .lock)
    (hnew : (view s'.world).seat.active = some h)
    (hclosed : (phase s.world i).handle ≠ .usable) :
    ((phase s.world i).next c r).handle ≠ .usable := by
  intro hnext
  -- after a rename there is no active segment
  obtain ⟨src, dst, hcall⟩ := usable_next hclosed hlock hnext
  cases hcall
  obtain ⟨-, f, b, t, hp, -⟩ := ha.permits
  have hseat : (view s'.world).seat = .cleared (b + 1) := by
    refine seatOf_inside ha.exclusive (i := i) ?_
    rw [ha.phases, update_self]
    change (phase s.world i).point.next _ _ = _
    rw [hp]
    rfl
  rw [hseat] at hnew
  cases hnew

theorem Fit.shut_act (hf : Fit s) (ha : Answers s s' i luck j c r)
    (hnew : (view s'.world).seat.active = some h) (hshut : s'.shared.handles.shut h = true) :
    ∃ k, s'.shared.store.holder = some k ∧ (phase s'.world k).handle ≠ .usable := by
  rcases ha.moves.opened hnew with hbefore | ⟨rfl, ⟨b, hseat⟩, hh⟩
  swap
  · exact absurd ((ha.opened hseat hh hnew).symm.trans hshut) nofun
  rw [ha.handles] at hshut
  rcases shut_next hshut with hshut | ⟨rfl, hreading⟩
  · -- it was closed before, by the holder of the mutex
    obtain ⟨k, hholder, hclosed⟩ := hf.shut hbefore hshut
    rcases serve_mutex ha.served with ⟨hfree, -⟩ | ⟨m, rfl, -⟩ | ⟨hlock, hh, -⟩
    · cases hfree.symm.trans hholder
    · obtain ⟨hopen, t, hp, -⟩ := ha.permits
      cases hholder.symm.trans (hf.seat hp).2
      cases hy : (phase s.world i).handle with
      | usable => exact absurd hy hclosed
      | closed => exact absurd hy hopen
      | torn => exact absurd hy (hf.whole hholder)
    · refine ⟨k, hh.trans hholder, ?_⟩
      rw [ha.phases]
      by_cases hki : k = i
      · subst hki
        rw [update_self]
        exact ha.closed hlock hnew hclosed
      · rw [update_of_ne hki]
        exact hclosed
  · -- it is closed by this very call
    rw [hf.reading] at hreading
    obtain ⟨n, hp⟩ | hp | hp | ⟨t, hp, hkind⟩ := ha.permits
    · exact absurd (congrArg Point.reading hp) hreading
    · exact absurd (congrArg Point.reading hp) hreading
    · exact absurd hbefore (hf.left hp).1
    · obtain ⟨hseat, hholder⟩ := hf.seat hp
      rw [hseat] at hbefore
      rcases hkind with hnone | ⟨⟨b, rfl⟩, -⟩
      · cases hnone.symm.trans hbefore
      · refine ⟨i, ?_, ?_⟩
        · rcases serve_mutex ha.served with ⟨hfree, -⟩ | ⟨m, hc, -⟩ | ⟨-, hh, -⟩
          · cases hfree.symm.trans hholder
          · cases hc
          · exact hh.trans hholder
        · rw [ha.phases, update_self]
          change (phase s.world i).handle.next (phase s.world i).point (.close h) r ≠ .usable
          rw [hp]
          cases r <;> nofun

theorem next_le_of_moves {v v' : View} {wrote wrote' failed : Bool} {holder : Option Nat}
    (hm : Moves j luck i holder failed v c wrote wrote' v') : v.disk.next ≤ v'.disk.next := by
  cases hm with
  | createSegment _ | openActive _ => exact Disk.next_le_create
  | _ => exact Nat.le_refl _

theorem Fit.left_act (hf : Fit s) (ha : Answers s s' i luck j c r) {k : Nat}
    (hleft : (phase s'.world k).point = .closing h) :
    (view s'.world).seat.active ≠ some h ∧ h < s'.shared.store.disk.next := by
  have hle : s.shared.store.disk.next ≤ s'.shared.store.disk.next := next_le_of_moves ha.moves
  have hold (hl : (phase s.world k).point = .closing h) :
      (view s'.world).seat.active ≠ some h ∧ h < s'.shared.store.disk.next := by
    obtain ⟨hne, hlt⟩ := hf.left hl
    refine ⟨fun hnew => ?_, Nat.lt_of_lt_of_le hlt hle⟩
    rcases ha.moves.opened hnew with hbefore | ⟨-, ⟨b, hseat⟩, hh⟩
    · exact hne hbefore
    · have hfree := hf.safe.tidy.cleared hseat
      rw [Disk.create_of_none hfree] at hh
      exact absurd hlt (by rw [hh]; exact Nat.lt_irrefl _)
  rw [ha.phases] at hleft
  by_cases hki : k = i
  · subst hki
    rw [update_self] at hleft
    rcases closing_next hleft with hleft | ⟨m, t, rfl, hp, hm, hactive⟩
    · exact hold hleft
    · have hlt := hf.safe.base.wf.below
        (hf.safe.filed.active ((congrArg Seat.active (hf.seat hp).1).trans hactive))
      refine ⟨fun hnew => ?_, Nat.lt_of_lt_of_le hlt hle⟩
      have hstore : { s.shared.store with mem := m, holder := none } = s'.shared.store :=
        congrArg Prod.snd (Option.some.inj ha.served)
      have hgone : (view s'.world).seat = .held m.active m.baseOffset := by
        change seatOf s'.shared.store (phase s'.world) = _
        rw [← hstore]
        rfl
      rw [hgone] at hnew
      cases hm.symm.trans hnew
  · rw [update_of_ne hki] at hleft
    exact hold hleft

theorem Fit.act (hf : Fit s) (hc : Sealing s (.act i luck))
    (hs : s.act (serveFiles i luck) i = some s') : Fit s' := by
  obtain ⟨j, c, r, ha, hact⟩ := answers_of_act hf.safe.base hs
  refine ⟨hf.safe.act (keeping_luck hc.1 c) hact, fun k => ?_, hf.left_act ha,
    hf.whole_act ha (hc.2 c ha.next), hf.shut_act ha⟩
  rw [ha.handles, ha.phases]
  by_cases hk : k = i
  · subst hk
    rw [update_self]
    exact reading_next (hf.reading k) ha.permits
  · rw [update_of_ne hk, reading_of_ne hk]
    exact hf.reading k

/-- A sealing step keeps the handles fit. -/
theorem fit_of_step (hf : Fit s) (hc : Sealing s e) (hs : sites.step s e = some s') : Fit s' := by
  cases e with
  | act i luck => exact hf.act hc hs
  | spawn k =>
    have hsafe := safe_of_step (e := .spawn k) hf.safe trivial (world_of_step hs nofun)
    cases hs
    exact { hf with safe := hsafe }
  | crash keep =>
    have hsafe := safe_of_step (e := .crash keep) hf.safe trivial (world_of_step hs nofun)
    cases hs
    exact ⟨hsafe, fun _ => rfl, nofun, nofun, nofun⟩
  | reopen wal =>
    have hstep := world_of_step hs nofun
    have hsafe := safe_of_step (e := .reopen wal) hf.safe trivial hstep
    obtain ⟨-, ht⟩ := turn_of_step hf.safe.base hstep
    simp only [sites] at hs
    split at hs
    next hq =>
      cases hs
      have hfree := hf.safe.base.holder_of_quiet hq
      cases ht with
      | reopen _ _ _ seen =>
        refine ⟨hsafe, hf.reading, fun hleft => ?_, ?_, ?_⟩
        · rw [seen]
          exact ⟨nofun, (hf.left hleft).2⟩
        · exact fun hk => absurd (hfree.symm.trans hk) nofun
        · rw [seen]
          nofun
    next => cases hs

theorem fit_site (wal : Wal) : Fit (site wal) where
  safe := safe_start wal
  reading _ := rfl
  left := nofun
  whole := nofun
  shut := nofun

end

/-! ## An append that meets no fault -/

/-- The active segment is there and its handle is open. -/
def Ready (x : Files) (m : Mem) : Prop :=
  ∃ h, m.active = some h ∧ x.store.disk.file activeSegmentName = some h ∧
    x.handles.shut h = false

/-- What a program under the mutex that meets no fault comes to.  The next `room` offsets are of
the type `int64`. -/
def Goes (room : Nat) (x : Files) : Except Fault Mem → Prop
  | .ok m => Ready x m ∧ m.baseOffset + room ≤ 2 ^ 63
  | .error _ => False

section

variable {x : Files} {m : Mem} {w : Wal} {i b h k room : Nat} {luck : Luck} {c : Call}

theorem disk_record (s : Store) (n : Name) (k : Nat) : (s.record n k).disk = s.disk := by
  rw [Store.record]
  split <;> rfl

variable {s' s : Store} {α : Type} {n : Name} {r : iface.Answer c}

theorem served_of_open (hr : x.handles.refuses i c = false)
    (hs : serve i luck x.store c = some (r, s')) :
    serveFiles i luck x c = some (r, { store := s', handles := x.handles.next i c r }) := by
  have hluck : x.luck i luck c = luck := by
    rw [Files.luck, hr]
    rfl
  rw [serveFiles, hluck, hs]
  rfl

theorem answer_of_fine (hl : luck.Fine) (a : α) : luck.answer s (some (a, s')) = (.ok a, s') := by
  rw [answer, hl.1]

theorem answer_of_file {f : Nat → α × Store} {a : α} (hl : luck.Fine)
    (hfile : s.disk.file n = some k) (hf : f k = (a, s')) :
    luck.answer s ((s.disk.file n).map f) = (.ok a, s') := by
  rw [hfile, Option.map_some, hf]
  exact answer_of_fine hl a

theorem answer_of_missing {f : Nat → α × Store} (hl : luck.Fine) (hfile : s.disk.file n = none) :
    luck.answer s ((s.disk.file n).map f) =
      (.error { notExist := true, text := "no such file or directory" }, s) := by
  rw [hfile, Option.map_none, answer.eq_def, hl.1]

section

variable {ε β : Type} {Q : Files → Except ε β → Prop}

theorem sure_call {f : iface.Answer c → Prog iface ε β} (hr : x.handles.refuses i c = false)
    (hs : ∀ l : Luck, l.Fine → serve i l x.store c = some (r, s'))
    (hf : (f r).Sure (serveFiles i) Fine Q { store := s', handles := x.handles.next i c r }) :
    (@Prog.ask iface ε c >>= f).Sure (serveFiles i) Fine Q x :=
  sure_ask_bind fun l hl => ⟨r, _, served_of_open hr (hs l hl), hf⟩

theorem sure_ctxErr {f : Option String → Prog iface ε β}
    (hf : (f none).Sure (serveFiles i) Fine Q x) :
    (@Prog.ask iface ε .ctxErr >>= f).Sure (serveFiles i) Fine Q x :=
  sure_call rfl (fun _ hl => congrArg some (Prod.ext hl.2 rfl)) hf

theorem sure_lock {f : Mem → Prog iface ε β} (hfree : x.store.holder = none)
    (hf : (f x.store.mem).Sure (serveFiles i) Fine Q
      { x with store := { x.store with holder := some i } }) :
    (@Prog.ask iface ε .lock >>= f).Sure (serveFiles i) Fine Q x :=
  sure_call rfl (fun _ _ => if_pos hfree) hf

theorem sure_now {f : Time → Prog iface ε β} (hf : ∀ t, (f t).Sure (serveFiles i) Fine Q x) :
    (@Prog.ask iface ε .now >>= f).Sure (serveFiles i) Fine Q x :=
  sure_ask_bind fun l _ => ⟨l.now, x, served_of_open rfl rfl, hf l.now⟩

variable {f : Except FsError Nat → Prog iface ε β}

theorem sure_create (hn : isLogName n = true)
    (hf : (f (.ok (x.store.disk.create n).1)).Sure (serveFiles i) Fine Q
      { store := x.store.create n
        handles := { x.handles with
          shut := update x.handles.shut (x.store.disk.create n).1 false } }) :
    (@Prog.ask iface ε (.create n) >>= f).Sure (serveFiles i) Fine Q x :=
  sure_call rfl (fun _ hl => (if_pos hn).trans (congrArg some (answer_of_fine hl _))) hf

theorem sure_write {bs : List Char} (hopen : x.handles.shut h = false)
    (hf : (f (.ok bs.length)).Sure (serveFiles i) Fine Q
      { x with store := { x.store with disk := x.store.disk.write h bs } }) :
    (@Prog.ask iface ε (.write h bs) >>= f).Sure (serveFiles i) Fine Q x :=
  sure_call hopen (fun _ hl => congrArg some (answer_of_fine hl _)) hf

theorem sure_sync {f : Except FsError Unit → Prog iface ε β} (hopen : x.handles.shut h = false)
    (hf : (f (.ok ())).Sure (serveFiles i) Fine Q
      { x with store := { x.store with disk := x.store.disk.sync h } }) :
    (@Prog.ask iface ε (.sync h) >>= f).Sure (serveFiles i) Fine Q x :=
  sure_call hopen (fun _ hl => congrArg some (answer_of_fine hl _)) hf

theorem sure_close {f : Except FsError Unit → Prog iface ε β} (hopen : x.handles.shut h = false)
    (hf : (f (.ok ())).Sure (serveFiles i) Fine Q { x with handles := x.handles.close i h }) :
    (@Prog.ask iface ε (.close h) >>= f).Sure (serveFiles i) Fine Q x := by
  refine sure_call ?_ (fun _ hl => congrArg some (answer_of_fine hl _)) hf
  rw [Handles.refuses, hopen]
  rfl

end

theorem isLogName_segmentName (hb : b < 2 ^ 63) (t : Time) :
    isLogName (segmentName b t) = true := by
  rw [isLogName, isSealed_segmentName.mpr hb, Bool.or_true]

theorem sure_openFreshActive (x : Files) (hroom : m.baseOffset + room ≤ 2 ^ 63) :
    (Wal.openFreshActive m).Sure (serveFiles i) Fine (Goes room) x := by
  refine sure_create (by decide) (sure_now fun t => ⟨⟨_, rfl, ?_, update_self ..⟩, hroom⟩)
  exact Disk.file_create_self

theorem sure_sealActive (hr : Ready x m) (hroom : m.baseOffset + (room + 1) ≤ 2 ^ 63) :
    (Wal.sealActive m).Sure (serveFiles i) Fine (Goes room) x := by
  obtain ⟨h, hm, hfile, hopen⟩ := hr
  rw [Wal.sealActive, hm]
  refine sure_sync hopen (sure_close hopen (sure_now fun t => ?_))
  have hname := isLogName_segmentName (b := m.baseOffset) (by omega) t
  refine sure_call rfl (fun l hl => (if_pos hname).trans
    (congrArg some (answer_of_file hl hfile rfl))) ?_
  exact sure_openFreshActive _ (by change m.baseOffset + 1 + room ≤ _; omega)

theorem sure_recoverOrphan (hb : b < 2 ^ 63)
    (hfile : x.store.disk.file activeSegmentName = some k) :
    (Wal.recoverOrphan m b).Sure (serveFiles i) Fine (fun _ out => out = .ok ()) x := by
  refine sure_call rfl (fun l hl => congrArg some (answer_of_file hl hfile rfl)) ?_
  refine sure_now fun t => sure_create (isLogName_segmentName hb t) ?_
  -- the handle of the new segment is open, and the active segment is still there
  have hopen : update x.handles.shut (x.store.disk.create (segmentName b t)).1 false
      (x.store.disk.create (segmentName b t)).1 = false := update_self ..
  have hkept : (x.store.create (segmentName b t)).disk.file activeSegmentName = some k := by
    rw [Store.create, disk_record]
    exact (Disk.file_create_of_ne (segmentName_ne_active _ _).symm).trans hfile
  refine sure_write hopen (sure_sync hopen (sure_close hopen ?_))
  refine sure_call rfl (fun l hl => congrArg some (answer_of_file (k := k) hl ?_ rfl)) rfl
  exact (Disk.file_sync.trans Disk.file_write).trans hkept

theorem sure_ensureActive (hr : m.active = none ∨ Ready x m)
    (hmem : m.baseOffset + room ≤ 2 ^ 63)
    (hnames : nextBaseOffset x.store.disk.names + (room + 1) ≤ 2 ^ 63) :
    (w.ensureActive m).Sure (serveFiles i) Fine (Goes room) x := by
  rw [Wal.ensureActive]
  cases hm : m.active with
  | some h => exact ⟨hr.resolve_left (ne_of_eq_of_ne hm (Option.some_ne_none h)), hmem⟩
  | none =>
  have hbase : nextBaseOffset x.store.disk.names < 2 ^ 63 := by omega
  have hthis : nextBaseOffset x.store.disk.names + room ≤ 2 ^ 63 := by omega
  have hnext : nextBaseOffset x.store.disk.names + 1 + room ≤ 2 ^ 63 := by omega
  refine sure_call rfl (fun l hl => congrArg some (answer_of_fine hl _)) ?_
  refine sure_call rfl (fun l hl => congrArg some (answer_of_fine hl _)) ?_
  cases hfile : x.store.disk.file activeSegmentName with
  | some k =>
    refine sure_call rfl (fun l hl => congrArg some (answer_of_file hl hfile rfl)) ?_
    refine Sure.bind (sure_recoverOrphan hbase hfile) (fun x _ _ => ?_) ?_
    · exact sure_openFreshActive x hnext
    · rintro x f ⟨⟩
  | none =>
    refine sure_call rfl (fun l hl => congrArg some (answer_of_missing hl hfile)) ?_
    exact sure_openFreshActive _ hthis

theorem sure_sealAged (hr : Ready x m) (hroom : m.baseOffset + (room + 1) ≤ 2 ^ 63) :
    (w.sealAged m).Sure (serveFiles i) Fine (Goes room) x := by
  refine sure_now fun t => ?_
  split
  · exact sure_sealActive hr hroom
  · exact ⟨hr, by omega⟩

theorem sure_writeLine (line : Text) (hr : Ready x m) (hroom : m.baseOffset + 1 ≤ 2 ^ 63) :
    (w.writeLine (.ok line) m).Sure (serveFiles i) Fine (Goes 0) x := by
  obtain ⟨h, hm, hfile, hopen⟩ := hr
  simp only [Wal.writeLine, hm]
  refine sure_write hopen ?_
  have hready : Ready
      { store := { x.store with disk := x.store.disk.write h line.encode }, handles := x.handles }
      { m with active := some h, size := m.size + line.encode.length } := ⟨h, rfl, hfile, hopen⟩
  change Sure _ _ _ (if _ then _ else _) _
  split
  · exact sure_sealActive hready hroom
  · exact ⟨hready, Nat.le_of_succ_le hroom⟩

/-- What an append does under the mutex succeeds, where there is room. -/
theorem sure_appendLocked (line : Text) (hr : m.active = none ∨ Ready x m)
    (hmem : m.baseOffset + 2 ≤ 2 ^ 63) (hnames : nextBaseOffset x.store.disk.names + 3 ≤ 2 ^ 63) :
    (w.appendLocked (.ok line) m).Sure (serveFiles i) Fine (Goes 0) x := by
  refine (sure_ensureActive hr hmem hnames).bind (fun x m hr => ?_) fun _ _ h => h
  refine (sure_sealAged hr.1 hr.2).bind (fun x m hr => ?_) fun _ _ h => h
  exact sure_writeLine line hr.1 hr.2

/-- An append that meets no fault returns, where the mutex is free and the handle of the active
segment is open. -/
theorem sure_append (line : Text) (hfree : x.store.holder = none)
    (hr : x.store.mem.active = none ∨ Ready x x.store.mem) (hroomy : x.store.Roomy) :
    (w.append (.ok line)).Sure (serveFiles i) Fine (fun _ out => out = .ok ()) x := by
  refine sure_ctxErr (sure_lock hfree ((sure_appendLocked line ?_ ?_ ?_).attempt_bind ?_))
  · exact hr
  · exact hroomy.1
  · exact hroomy.2
  · rintro x (f | m) hgoes
    · exact hgoes.elim
    · exact fun l hl => ⟨(), _, served_of_open rfl rfl, rfl⟩

end

/-! ## Along sealing runs -/

/-- The site where an append has started. -/
def Site.started (s : Site) (line : Text) : Site :=
  Pool.spawn prog
    { s with shared := { s.shared with store :=
      { s.shared.store with offered := line :: s.shared.store.offered } } }
    (s.shared.store.wal, .append (.ok line))

theorem tasks_started (s : Site) (line : Text) : (s.started line).tasks[s.tasks.length]? =
      some ((s.shared.store.wal, .append (.ok line)), s.shared.store.wal.append (.ok line)) :=
  Pool.getElem?_spawn.mpr (.inr ⟨rfl, rfl⟩)

theorem step_act {i : Nat} (s : Site) (l : Luck) :
    sites.step s (.act i l) = s.act (serveFiles i l) i := rfl

section

variable {s : Site}

/-- While the mutex is free, the handle of an active segment is open. -/
theorem Fit.ready (hf : Fit s) (hfree : s.shared.store.holder = none) :
    s.shared.store.mem.active = none ∨ Ready s.shared s.shared.store.mem := by
  cases hm : s.shared.store.mem.active with
  | none => exact .inl rfl
  | some h =>
    have hseat : (view s.world).seat.active = some h := by
      rw [view, viewOf, seatOf, show s.world.shared.holder = none from hfree]
      exact hm
    refine .inr ⟨h, hm, hf.safe.filed.active hseat, ?_⟩
    by_contra hshut
    obtain ⟨i, hi, -⟩ := hf.shut hseat (Bool.eq_true_of_not_eq_false hshut)
    cases hfree.symm.trans hi

/-- Where the handles fit and the mutex is free, an append returns. -/
theorem Fit.appends (hf : Fit s) (hfree : s.shared.store.holder = none)
    (hroomy : s.shared.store.Roomy) : Appends s := by
  intro line luck hluck
  have hsure : (s.shared.store.wal.append (.ok line)).Sure (serveFiles s.tasks.length) Fine
      (fun _ out => out = .ok ()) (s.started line).shared :=
    sure_append line hfree (hf.ready hfree) hroomy
  obtain ⟨n, s', hrun, _, hout, rfl⟩ := hsure.run step_act hluck (tasks_started s line)
  refine ⟨n, s', run_cons_eq_some.mpr ⟨_, rfl, hrun⟩, ?_⟩
  rw [returned, hout]
  rfl

end

/-- Along a run in which no seal fails when it closes or renames its segment, the lines of the
appends that returned are retained, and whenever the mutex is free, an append that meets no fault
returns. -/
theorem append_after_seal (wal : Wal) (es : List Event) (s : Site)
    (hc : sites.Along Sealing (site wal) es) (hr : sites.run (site wal) es = some s) :
    Retained s.world ∧
      (s.shared.store.holder = none → s.shared.store.Roomy → Appends s) := by
  have hf : Fit s := run_invariant (fun _ _ _ hf hc hs => fit_of_step hf hc hs)
    (fit_site wal) hc hr
  exact ⟨hf.safe.retained, hf.appends⟩

/-- A call that fails. -/
def broken : Luck := { err := some "input/output error" }

/-- The seal by size of the first append fails when it syncs, and that of the second one when it
opens the fresh segment. -/
def resealed : List Event :=
  Event.spawn (.append (.ok oneLine)) :: List.replicate 9 (.act 0 {}) ++
  Event.act 0 broken :: .act 0 {} :: Event.spawn (.append (.ok oneLine)) ::
  List.replicate 8 (.act 1 {}) ++ [Event.act 1 broken, .act 1 {}]

/-- After both failures the next append returns. -/
theorem resealed_appends :
    ∃ s, sites.run (site { maxBytes := 1 }) resealed = some s ∧ Retained s.world ∧ Appends s := by
  refine exists_run_of (P := fun s => s.shared.store.holder = none ∧ s.shared.store.Roomy)
    (by decide +kernel) fun s hr ⟨hfree, hroomy⟩ => ?_
  obtain ⟨hretained, happends⟩ := append_after_seal _ _ s (by decide +kernel) hr
  exact ⟨hretained, happends hfree hroomy⟩

/-! ## A handle that stays closed -/

/-- The mutex is free, and the log has an active segment whose handle is closed. -/
def Files.Stuck (x : Files) : Prop :=
  x.store.holder = none ∧ ∃ h ∈ x.store.mem.active, x.handles.shut h = true

instance (x : Files) : Decidable x.Stuck :=
  inferInstanceAs (Decidable (x.store.holder = none ∧
    ∃ h ∈ x.store.mem.active, x.handles.shut h = true))

/-- What a program under the mutex comes to when the handle `h` is closed. -/
def Jams (h : Nat) (x : Files) : Except Fault Mem → Prop
  | .ok m => m.active = some h ∧ x.handles.shut h = true
  | .error f => f.mem.active = some h ∧ x.handles.shut h = true

section

variable {s : Site} {x : Files} {m : Mem} {w : Wal} {i h : Nat} {luck : Luck} {c : Call}

theorem served_of_shut {r : iface.Answer c} {s' : Store} (hr : x.handles.refuses i c = true)
    (hs : serve i { luck with err := some "file already closed", kept := 0 } x.store c =
      some (r, s')) :
    serveFiles i luck x c = some (r, { store := s', handles := x.handles.next i c r }) := by
  rw [serveFiles, Files.luck, if_pos hr, hs]
  rfl

theorem jams_sealActive (hm : m.active = some h) (hshut : x.handles.shut h = true) :
    (Wal.sealActive m).Sure (serveFiles i) Fine (Jams h) x := by
  rw [Wal.sealActive, hm]
  refine sure_ask_bind fun l hl => ?_
  refine ⟨(.error { text := "file already closed" } : Except FsError Unit), _,
    served_of_shut hshut rfl, ?_⟩
  exact ⟨hm, hshut⟩

theorem jams_sealAged (hm : m.active = some h) (hshut : x.handles.shut h = true) :
    (w.sealAged m).Sure (serveFiles i) Fine (Jams h) x := by
  refine sure_now fun t => ?_
  split
  · exact jams_sealActive hm hshut
  · exact ⟨hm, hshut⟩

theorem jams_writeLine (line : Text) (hm : m.active = some h) (hshut : x.handles.shut h = true) :
    (w.writeLine (.ok line) m).Sure (serveFiles i) Fine
      (fun x out => Jams h x out ∧ ∃ f, out = .error f) x := by
  simp only [Wal.writeLine, hm]
  refine sure_ask_bind fun l hl => ?_
  refine ⟨(.error { text := "file already closed" } : Except FsError Nat), _,
    served_of_shut hshut rfl, ?_⟩
  exact ⟨⟨hm, hshut⟩, _, rfl⟩

theorem jams_appendLocked (line : Text) (hm : m.active = some h) (hshut : x.handles.shut h = true) :
    (w.appendLocked (.ok line) m).Sure (serveFiles i) Fine
      (fun x out => Jams h x out ∧ ∃ f, out = .error f) x := by
  have hensure : w.ensureActive m = .ret m := by
    rw [Wal.ensureActive, hm]
    rfl
  rw [Wal.appendLocked, hensure]
  refine (jams_sealAged hm hshut).bind (fun x m hj => ?_) fun x f hj => ⟨hj, f, rfl⟩
  exact jams_writeLine line hj.1 hj.2

/-- An append that meets no fault fails at a stuck site, and leaves it stuck. -/
theorem jams_append (line : Text) (hs : x.Stuck) :
    (w.append (.ok line)).Sure (serveFiles i) Fine
      (fun x out => x.Stuck ∧ ∃ e, out = .error e) x := by
  obtain ⟨hfree, h, hm, hshut⟩ := hs
  refine sure_ctxErr (sure_lock hfree ((jams_appendLocked line hm ?_).attempt_bind ?_))
  · exact hshut
  · rintro x _ ⟨hj, f, rfl⟩
    exact fun l hl => ⟨(), _, served_of_open rfl rfl, ⟨rfl, h, hj⟩, _, rfl⟩

theorem jams_started (hs : s.shared.Stuck) (line : Text) :
    (s.shared.store.wal.append (.ok line)).Sure (serveFiles s.tasks.length) Fine
      (fun x out => x.Stuck ∧ ∃ e, out = .error e) (s.started line).shared :=
  jams_append line hs

theorem task_of_returned (hr : returned s i = true) :
    ∃ j a, s.tasks[i]? = some (j, .ofExcept (.ok a)) := by
  rw [returned] at hr
  split at hr
  next j a hi => exact ⟨j, a, hi⟩
  next => cases hr

theorem append_of_stuck (hs : s.shared.Stuck) (line : Text) {luck : Nat → Luck}
    (hluck : ∀ k, (luck k).Fine) :
    ∃ n s', sites.run s (.spawn (.append (.ok line)) ::
        (List.range n).map fun k => .act s.tasks.length (luck k)) = some s' ∧
      s'.shared.Stuck ∧ ∃ j e, s'.tasks[s.tasks.length]? = some (j, .fail e) := by
  obtain ⟨n, s', hrun, _, hout, hstuck, e, rfl⟩ :=
    (jams_started hs line).run step_act hluck (tasks_started s line)
  exact ⟨n, s', run_cons_eq_some.mpr ⟨_, rfl, hrun⟩, hstuck, _, e, hout⟩

theorem not_appends_of_stuck (hs : s.shared.Stuck) : ¬ Appends s := by
  intro happends
  have hfine (_ : Nat) : ({} : Luck).Fine := ⟨rfl, rfl⟩
  obtain ⟨n, s', hrun, hreturned⟩ := happends oneLine (fun _ => {}) hfine
  obtain ⟨_, hstart, hrun⟩ := run_cons_eq_some.mp hrun
  cases hstart
  obtain ⟨j, a, hover⟩ := task_of_returned hreturned
  obtain ⟨-, e, herror⟩ := (jams_started hs oneLine).outcome step_act hover hfine
    (tasks_started s oneLine) hrun
  cases herror

end

/-- The seal by size fails when it closes its segment. -/
def unclosed : List Event :=
  Event.spawn (.append (.ok oneLine)) :: List.replicate 10 (.act 0 {}) ++
  [Event.act 0 broken, .act 0 {}]

/-- The seal by size fails when it renames its segment. -/
def unrenamed : List Event :=
  Event.spawn (.append (.ok oneLine)) :: List.replicate 12 (.act 0 {}) ++
  [Event.act 0 broken, .act 0 {}]

/-- After a seal that has failed when it closed its segment, or when it renamed it, the log is
stuck, and no append returns though it meets no fault. -/
theorem appends_stuck :
    (∃ s, sites.run (site { maxBytes := 1 }) unclosed = some s ∧ s.shared.Stuck ∧ ¬ Appends s) ∧
      ∃ s, sites.run (site { maxBytes := 1 }) unrenamed = some s ∧ s.shared.Stuck ∧
        ¬ Appends s := by
  constructor
  · exact exists_run_of (by decide +kernel) fun s _ hs => ⟨hs, not_appends_of_stuck hs⟩
  · exact exists_run_of (by decide +kernel) fun s _ hs => ⟨hs, not_appends_of_stuck hs⟩

end Beats.Publish
