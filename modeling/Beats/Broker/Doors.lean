import Beats.Broker.DeadLetter

/-!
# The deliveries of one message

All deliveries of a message, one after the other, as the subscriber of `internal/broker` disposes of
them.  The server counts them from 1.  It delivers a message again until it has accepted an ack or a
term for it.

`delivery_doors` says what the subscriber's three words come to over all of them.

A handler may make no calls at all, so that a run does not show whether it ran.  The results here
are about `announced h`, which is the handler `h` after a mark that shows.
-/

namespace Beats.Broker

open Lib List

/-! ## The schedule -/

section

variable {T : Type} (s : JetSubscriber T)

/-- The delays in force. -/
def JetSubscriber.schedule : List Duration := if s.backoff = [] then defaultBackoff else s.backoff

/-- `JetSubscriber.backoffFor` on the types of the source, where the counter is converted to
a signed integer and both this and the subtraction can wrap. -/
def JetSubscriber.backoffForUint64 (numDelivered : UInt64) : Duration :=
  let idx : Int64 := if 0 < numDelivered.toInt64 - 1 then numDelivered.toInt64 - 1 else 0
  s.schedule.getD (if idx.toInt < s.schedule.length then idx.toInt.toNat
    else s.schedule.length - 1) 0

theorem JetSubscriber.schedule_ne_nil : s.schedule ≠ [] := by
  unfold schedule
  split
  · decide
  · assumption

/-- The delay is the entry of the schedule at the count less one, or the last. -/
theorem JetSubscriber.getElem?_schedule (n : Nat) :
    s.schedule[min (n - 1) (s.schedule.length - 1)]? = some (s.backoffFor n) := by
  have hpos := length_pos_iff.mpr s.schedule_ne_nil
  have hidx : (if n - 1 < s.schedule.length then n - 1 else s.schedule.length - 1) =
      min (n - 1) (s.schedule.length - 1) := by
    split <;> omega
  have hback : s.backoffFor n =
      s.schedule.getD (if n - 1 < s.schedule.length then n - 1 else s.schedule.length - 1) 0 := rfl
  have hlt : min (n - 1) (s.schedule.length - 1) < s.schedule.length := by omega
  rw [hback, hidx, getD_eq_getElem?_getD, getElem?_eq_getElem hlt, Option.getD_some]

/-- On counts that a signed integer can hold, nothing wraps. -/
theorem JetSubscriber.backoffForUint64_ofNat {n : Nat} (hn : n < 2 ^ 63) :
    s.backoffForUint64 (UInt64.ofNat n) = s.backoffFor n := by
  have hsub : (Int64.ofNat n - 1).toInt = n - 1 := by
    have hone : (1 : Int64).toInt = 1 := rfl
    rw [Int64.toInt_sub, Int64.toInt_ofNat_of_lt hn, hone, Int.bmod_eq_of_le] <;> omega
  have hidx : (if 0 < Int64.ofNat n - 1 then Int64.ofNat n - 1 else 0).toInt = (n - 1 : Nat) := by
    have hzero : (0 : Int64).toInt = 0 := rfl
    split <;> rename_i h <;> rw [Int64.lt_iff_toInt_lt, hsub, hzero] at h
    · omega
    · omega
  have hback : s.backoffFor n =
      s.schedule.getD (if n - 1 < s.schedule.length then n - 1 else s.schedule.length - 1) 0 := rfl
  rw [hback, backoffForUint64]
  simp only [UInt64.toInt64_ofNat', hidx, Int.toNat_natCast, Int.ofNat_lt]

end

/-! ## Words -/

/-- What the subscriber tells the server. -/
inductive Word where
  | ack
  | nak (delay : Duration)
  | term (reason : String)
deriving DecidableEq

def Word.ends : Word → Bool
  | .nak _ => false
  | _ => true

section

variable {I : Iface} {ε T : Type}

def words : List (Answered (iface I)) → List Word
  | [] => []
  | ⟨.ack, _⟩ :: t => .ack :: words t
  | ⟨.nak delay, _⟩ :: t => .nak delay :: words t
  | ⟨.term reason, _⟩ :: t => .term reason :: words t
  | _ :: t => words t

theorem words_lift_append (t : List (Answered I)) (u : List (Answered (iface I))) :
    words (t.map Handled.lift ++ u) = words u := by
  induction t with
  | nil => rfl
  | cons a t ih => rw [map_cons, cons_append, ← ih]; rfl

/-- The server accepted an ack or a term. -/
def Settled : Answered (iface I) → Prop
  | ⟨.ack, r⟩ => Except.isOk r = true
  | ⟨.term _, r⟩ => Except.isOk r = true
  | _ => False

/-- The call is no word to the server, or the server accepted it. -/
def Accepted : Answered (iface I) → Prop
  | ⟨.ack, r⟩ => Except.isOk r = true
  | ⟨.term _, r⟩ => Except.isOk r = true
  | ⟨.nak _, r⟩ => Except.isOk r = true
  | _ => True

/-- Where the server accepts every word, one that ends the deliveries settles the message. -/
theorem settled_of_ends : ∀ {t : List (Answered (iface I))}, (∀ a ∈ t, Accepted a) →
    ∀ w ∈ words t, w.ends = true → ∃ a ∈ t, Settled a
  | [], _, w, hw, _ => by cases hw
  | a :: t, hok, w, hw, he => by
    obtain ⟨ha, ht⟩ := forall_mem_cons.mp hok
    have hrest : w ∈ words t → ∃ b ∈ a :: t, Settled b := fun hw =>
      (settled_of_ends ht w hw he).imp fun b hb => ⟨mem_cons_of_mem _ hb.1, hb.2⟩
    obtain ⟨c, r⟩ := a
    cases c with
    | handler _ | publish _ _ => exact hrest hw
    | ack | term _ => exact ⟨_, mem_cons_self, ha⟩
    | nak delay =>
      rcases mem_cons.mp hw with rfl | hw
      · cases he
      · exact hrest hw

/-! ## Deliveries -/

/-- The handler, after a mark that shows that it was called and on what. -/
def announced (h : T → Prog I ε Unit) (obj : T) : Prog (I.marked T) ε Unit := (h obj).mark obj

/-- What the handler was called on in a run. -/
def invocations (t : List (Answered (iface (I.marked T)))) : List T := Prog.marks (handled t)

/-- The runs of the deliveries of a message, oldest first.  The server delivers it for as
long as nothing settled it, with a count that it can read. -/
inductive Deliveries (s : JetSubscriber T) (subject : String) (h : T → Prog I ε Unit)
    (data : String) : List (List (Answered (iface I))) → Prop where
  | none : Deliveries s subject h data []
  | next {ts : List (List (Answered (iface I)))} {t : List (Answered (iface I))}
      {out : Except Empty Unit} (hts : Deliveries s subject h data ts)
      (hopen : ∀ t' ∈ ts, ∀ a ∈ t', ¬ Settled a)
      (ht : (s.onMessage subject h (.nth data (ts.length + 1) true)).Exits t out) :
      Deliveries s subject h data (ts ++ [t])

section

variable {s : JetSubscriber T} {subject data : String}

/-- Each of them is a run of the subscriber on that delivery, and only the last one settles
the message. -/
theorem Deliveries.at {h : T → Prog I ε Unit} {ts : List (List (Answered (iface I)))}
    (hd : Deliveries s subject h data ts) :
    ∀ {before t after}, ts = before ++ t :: after →
      Course s subject h (.nth data (before.length + 1) true) t ∧
        (after ≠ [] → ∀ a ∈ t, ¬ Settled a) := by
  induction hd with
  | none =>
    intro before t after he
    cases before <;> cases he
  | @next ts t₁ out hts hopen ht ih =>
    intro before t after he
    rcases eq_nil_or_concat after with rfl | ⟨after, t₂, rfl⟩
    · obtain ⟨rfl, hlast⟩ := append_inj' he rfl
      cases hlast
      exact ⟨s.course ht, fun hne => absurd rfl hne⟩
    · rw [concat_eq_append, ← cons_append, ← append_assoc] at he
      obtain ⟨rfl, -⟩ := append_inj' he rfl
      exact ⟨(ih rfl).1, fun _ => hopen t (by simp)⟩

/-- What a delivery of that count came to: its word, and what the handler was called on. -/
inductive Door (s : JetSubscriber T) (h : T → Prog I ε Unit) (data : String) (n : Nat)
    (t : List (Answered (iface (I.marked T)))) : Prop where
  | undecodable {err : String} (hd : s.decode data = .error err)
      (hw : words t = [.term "undecodable"]) (hi : invocations t = [])
  | exhausted {obj : T} {e : ε} (hd : s.decode data = .ok obj)
      (hf : (announced h obj).Exits (handled t) (.error e)) (hn : maxDeliver ≤ n)
      (hw : words t = [.term "retry budget exhausted"]) (hi : invocations t = [obj])
  | nakked {obj : T} {e : ε} (hd : s.decode data = .ok obj)
      (hf : (announced h obj).Exits (handled t) (.error e)) (hn : n < maxDeliver)
      (hw : words t = [.nak (s.backoffFor n)]) (hi : invocations t = [obj])
  | acked {obj : T} (hd : s.decode data = .ok obj)
      (hf : (announced h obj).Exits (handled t) (.ok ()))
      (hw : words t = [.ack]) (hi : invocations t = [obj])

variable {h : T → Prog I ε Unit} {n : Nat} {t : List (Answered (iface (I.marked T)))}

/-- The run of a handler inside a delivery: how it ended, that it was called once, and whose
words the delivery's are. -/
theorem announced_run {obj : T} {u : List (Answered (I.marked T))} {x : Except ε Unit}
    (hu : (announced h obj).Exits u x) {v : List (Answered (iface (I.marked T)))}
    (hv : handled v = []) :
    (announced h obj).Exits (handled (u.map Handled.lift ++ v)) x ∧
      invocations (u.map Handled.lift ++ v) = [obj] ∧
      words (u.map Handled.lift ++ v) = words v := by
  have hh : handled (u.map Handled.lift ++ v) = u := by rw [handled_lift_append, hv, append_nil]
  rw [invocations, hh]
  exact ⟨hu, Prog.marks_mark hu, words_lift_append u v⟩

theorem door_of_course (hc : Course s subject (announced h) (.nth data n true) t) :
    Door s h data n t := by
  cases hc with
  | undecodable hd stored termed => exact .undecodable hd rfl rfl
  | exhausted hd hu hm stored termed =>
    obtain ⟨hf, hi, hw⟩ := announced_run (v := [⟨.publish (subject ++ ".dlq") data, stored⟩,
      ⟨.term "retry budget exhausted", termed⟩]) hu rfl
    exact .exhausted hd hf (by simpa [Msg.nth, Msg.exhausted] using hm) hw hi
  | nakked hd hu hm sent =>
    obtain ⟨hf, hi, hw⟩ := announced_run (v := [⟨.nak (s.backoffFor n), sent⟩]) hu rfl
    exact .nakked hd hf (by simpa [Msg.nth, Msg.exhausted] using hm) hw hi
  | acked hd hu sent =>
    obtain ⟨hf, hi, hw⟩ := announced_run (v := [⟨.ack, sent⟩]) hu rfl
    exact .acked hd hf hw hi

namespace Door

variable (hdoor : Door s h data n t)

include hdoor

theorem one_word : ∃ w, words t = [w] := by
  cases hdoor with
  | undecodable hd hw => exact ⟨_, hw⟩
  | exhausted hd hf hn hw => exact ⟨_, hw⟩
  | nakked hd hf hn hw => exact ⟨_, hw⟩
  | acked hd hf hw => exact ⟨_, hw⟩

theorem invocations_length_le : (invocations t).length ≤ 1 := by
  cases hdoor with
  | undecodable hd hw hi => simp [hi]
  | exhausted hd hf hn hw hi => simp [hi]
  | nakked hd hf hn hw hi => simp [hi]
  | acked hd hf hw hi => simp [hi]

theorem lt_of_not_ends (hw : ∀ w ∈ words t, w.ends = false) : n < maxDeliver := by
  cases hdoor with
  | undecodable hd hw' => simp [hw', Word.ends] at hw
  | exhausted hd hf hn hw' => simp [hw', Word.ends] at hw
  | nakked hd hf hn hw' => exact hn
  | acked hd hf hw' => simp [hw', Word.ends] at hw

theorem eq_of_nak {delay : Duration} (hw : .nak delay ∈ words t) :
    n < maxDeliver ∧ delay = s.backoffFor n := by
  cases hdoor with
  | undecodable hd hw' => simp [hw'] at hw
  | exhausted hd hf hn hw' => simp [hw'] at hw
  | nakked hd hf hn hw' => exact ⟨hn, by simpa [hw'] using hw⟩
  | acked hd hf hw' => simp [hw'] at hw

/-- Once it decodes, a delivery is termed exactly if it failed and its budget is spent. -/
theorem term_iff {obj : T} (hobj : s.decode data = .ok obj) : (∃ reason, .term reason ∈ words t) ↔
      maxDeliver ≤ n ∧ ∃ e, (announced h obj).Exits (handled t) (.error e) := by
  have same : ∀ {obj'}, s.decode data = .ok obj' → obj' = obj := fun hd =>
    Except.ok.inj (hd.symm.trans hobj)
  cases hdoor with
  | undecodable hd => rw [hobj] at hd; cases hd
  | exhausted hd hf hn hw =>
    obtain rfl := same hd
    exact iff_of_true ⟨_, by rw [hw]; exact mem_cons_self⟩ ⟨hn, _, hf⟩
  | nakked hd hf hn hw =>
    exact iff_of_false (by simp [hw]) fun hc => absurd hc.1 (Nat.not_le.mpr hn)
  | acked hd hf hw =>
    obtain rfl := same hd
    refine iff_of_false (by simp [hw]) ?_
    rintro ⟨-, e, he⟩
    cases hf.unique he

end Door

variable {ts : List (List (Answered (iface (I.marked T))))}

theorem Deliveries.eq_nil_of_ends (hd : Deliveries s subject (announced h) data ts)
    (hok : ∀ t ∈ ts, ∀ a ∈ t, Accepted a)
    {before after : List (List (Answered (iface (I.marked T))))} (he : ts = before ++ t :: after)
    {w : Word} (hw : w ∈ words t) (hends : w.ends = true) : after = [] := by
  obtain ⟨a, ha, hsettled⟩ := settled_of_ends (hok t (by simp [he])) w hw hends
  cases after with
  | nil => rfl
  | cons t' after => exact absurd hsettled ((hd.at he).2 (cons_ne_nil _ _) a ha)

/-- A message is delivered at most `maxDeliver` times. -/
theorem Deliveries.length_le (hd : Deliveries s subject (announced h) data ts)
    (hok : ∀ t ∈ ts, ∀ a ∈ t, Accepted a) : ts.length ≤ maxDeliver := by
  rcases eq_nil_or_concat ts with rfl | ⟨before, t, rfl⟩
  · exact Nat.zero_le _
  rcases eq_nil_or_concat before with rfl | ⟨earlier, t', rfl⟩
  · simp [maxDeliver]
  -- the delivery before the last one did not end them
  have he : (earlier.concat t').concat t = earlier ++ t' :: [t] := by simp
  have hdoor := door_of_course (hd.at he).1
  have hlt : earlier.length + 1 < maxDeliver := hdoor.lt_of_not_ends fun w hw =>
    Bool.eq_false_iff.mpr fun hends => by cases hd.eq_nil_of_ends hok he hw hends
  rw [he, length_append]
  exact hlt

theorem length_flatMap_le {α β : Type} {f : α → List β} :
    ∀ {l : List α}, (∀ a ∈ l, (f a).length ≤ 1) → (l.flatMap f).length ≤ l.length
  | [], _ => Nat.le_refl _
  | a :: l, h => by
    obtain ⟨ha, hl⟩ := forall_mem_cons.mp h
    have ih := length_flatMap_le hl
    rw [flatMap_cons, length_append, length_cons]
    omega

/-- For every handler, every message and every sequence of its deliveries, where the server
accepts the words it is told: a delivery has one word, and an ack or a term is the last; the
handler is called at most `maxDeliver` times, and not at all on a message that does not
decode; one that decodes is termed exactly if delivery `maxDeliver` fails; and the delay of
a nak is the entry of the schedule for its count, or the last. -/
theorem delivery_doors (hd : Deliveries s subject (announced h) data ts)
    (hok : ∀ t ∈ ts, ∀ a ∈ t, Accepted a) :
    (∀ t ∈ ts, ∃ w, words t = [w]) ∧
    (∀ before t after, ts = before ++ t :: after → (∃ w ∈ words t, w.ends = true) →
      after = []) ∧
    (∀ err, s.decode data = .error err → ∀ t ∈ ts, invocations t = []) ∧
    (ts.flatMap invocations).length ≤ maxDeliver ∧
    (∀ obj, s.decode data = .ok obj → ∀ before t after, ts = before ++ t :: after →
      ((∃ reason, .term reason ∈ words t) ↔ before.length + 1 = maxDeliver ∧
        ∃ e, (announced h obj).Exits (handled t) (.error e))) ∧
    ∀ before t after delay, ts = before ++ t :: after → .nak delay ∈ words t →
      delay = s.backoffForUint64 (UInt64.ofNat (before.length + 1)) ∧
        s.schedule[min (before.length + 1 - 1) (s.schedule.length - 1)]? = some delay := by
  have hdoor : ∀ {before t after}, ts = before ++ t :: after →
      Door s h data (before.length + 1) t := fun he => door_of_course (hd.at he).1
  have hmem : ∀ t ∈ ts, ∃ n, Door s h data n t := fun t ht => by
    obtain ⟨before, after, he⟩ := append_of_mem ht
    exact ⟨_, hdoor he⟩
  refine ⟨fun t ht => ?_, fun before t after he hw => ?_, fun err herr t ht => ?_, ?_,
    fun obj hobj before t after he => ?_, fun before t after delay he hw => ?_⟩
  · obtain ⟨n, hn⟩ := hmem t ht
    exact hn.one_word
  · obtain ⟨w, hw, hends⟩ := hw
    exact hd.eq_nil_of_ends hok he hw hends
  · obtain ⟨n, hn⟩ := hmem t ht
    cases hn with
    | undecodable _ _ hi => exact hi
    | exhausted hd' => rw [herr] at hd'; cases hd'
    | nakked hd' => rw [herr] at hd'; cases hd'
    | acked hd' => rw [herr] at hd'; cases hd'
  · refine Nat.le_trans (length_flatMap_le fun t ht => ?_) (hd.length_le hok)
    obtain ⟨n, hn⟩ := hmem t ht
    exact hn.invocations_length_le
  · rw [(hdoor he).term_iff hobj]
    refine and_congr_left fun _ => ?_
    have hlen := hd.length_le hok
    rw [he, length_append, length_cons] at hlen
    constructor <;> intro <;> omega
  · obtain ⟨hlt, rfl⟩ := (hdoor he).eq_of_nak hw
    refine ⟨(s.backoffForUint64_ofNat ?_).symm, s.getElem?_schedule _⟩
    exact Nat.lt_trans hlt (by decide)

end

end

/-- A server that accepts everything, under a handler that only says that it was called. -/
def acceptAll : (c : (iface (Iface.marked ⟨Empty, nofun⟩ String)).Call) →
    (iface (Iface.marked ⟨Empty, nofun⟩ String)).Answer c
  | .handler (.inl _) => ()
  | .handler (.inr c) => nomatch c
  | .publish _ _ => (.ok () : Except String Unit)
  | .term _ => (.ok () : Except String Unit)
  | .nak _ => (.ok () : Except String Unit)
  | .ack => (.ok () : Except String Unit)

def failedDelivery (n : Nat) : List (Answered (iface (Iface.marked ⟨Empty, nofun⟩ String))) :=
  (Prog.play (fun _ c => (acceptAll c, ())) ()
    (textSubscriber.onMessage "thump.outcomes" (announced (fixedHandler (.error "down")))
      (.nth "x" n true))).2

theorem failedDelivery_nakked : ∀ n < 5, failedDelivery (n + 1) =
    [⟨.handler (.inl "x"), ()⟩, ⟨.nak (textSubscriber.backoffFor (n + 1)), .ok ()⟩]
  | 0, _ => rfl
  | 1, _ => rfl
  | 2, _ => rfl
  | 3, _ => rfl
  | 4, _ => rfl
  | n + 5, h => absurd h (by omega)

theorem accepted_failedDelivery (n : Nat) : ∀ a ∈ failedDelivery n, Accepted a := by
  rintro ⟨c, r⟩ ha
  rw [Prog.eq_of_mem_play ha]
  cases c with
  | handler _ | publish _ _ => trivial
  | term _ | nak _ | ack => rfl

theorem deliveries_failed : ∀ n ≤ maxDeliver, Deliveries textSubscriber "thump.outcomes"
    (announced (fixedHandler (.error "down"))) "x"
    ((range n).map fun i => failedDelivery (i + 1))
  | 0, _ => .none
  | n + 1, h => by
    rw [range_succ, map_append]
    obtain ⟨out, hrun⟩ : ∃ out, (textSubscriber.onMessage "thump.outcomes"
        (announced (fixedHandler (.error "down"))) (.nth "x"
          (((range n).map fun i => failedDelivery (i + 1)).length + 1) true)).Exits
        (failedDelivery (n + 1)) out := by
      rw [length_map, length_range]
      exact ⟨_, Prog.exits_play _ _ _⟩
    refine .next (deliveries_failed n (Nat.le_of_succ_le h)) (fun t ht a ha => ?_) hrun
    obtain ⟨i, hi, rfl⟩ := mem_map.mp ht
    have hlt : i < 5 := Nat.lt_of_lt_of_le (mem_range.mp hi) (Nat.le_of_succ_le_succ h)
    rw [failedDelivery_nakked i hlt] at ha
    rcases mem_cons.mp ha with rfl | ha
    · exact id
    · cases mem_singleton.mp ha
      exact id

/-- Six failed deliveries, and what the theorem says of them. -/
theorem failedDeliveries_doors :
    let ts := (List.range maxDeliver).map fun i => failedDelivery (i + 1)
    Deliveries textSubscriber "thump.outcomes" (announced (fixedHandler (.error "down"))) "x" ts ∧
      (∀ t ∈ ts, ∃ w, words t = [w]) ∧ (ts.flatMap invocations).length ≤ maxDeliver := by
  have hd := deliveries_failed maxDeliver (Nat.le_refl _)
  have hdoors := delivery_doors hd fun t ht => by
    obtain ⟨i, -, rfl⟩ := mem_map.mp ht
    exact accepted_failedDelivery (i + 1)
  exact ⟨hd, hdoors.1, hdoors.2.2.2.1⟩

end Beats.Broker
