import Mathlib.Data.List.Basic
import Beats.Api.Proposal
import Beats.Lib.Prog

/-!
# Draining a subject

`DrainSubject` of `internal/broker`, with which a starting beat reads the history of a subject: it
fetches batches off a consumer of its own and hands every message that decodes to `fold`, until a
batch brings it nothing.

It counts the messages that it folded and not those that it received.  So a batch in which no
message decodes reads as the end of the history, and what was stored after it is never folded
(`drainSubject_full_iff`).

The loop of the source has no bound of its own; here it has fuel, and fuel for every stored message
is enough.
-/

namespace Beats.Broker.Drain

open Lib List Prog

/-! ## The program -/

/-- A message as the stream stored it. -/
structure Entry where
  data : String := ""
  timestamp : Time := Time.zero
  /-- Its metadata can be read. -/
  readable : Bool := true
deriving DecidableEq

/-- What a fetch brings, and the error that the batch ended with. -/
structure Batch where
  messages : List Entry := []
  error : Option String := none

/-- How many messages are fetched at once. -/
def batchSize : Nat := 256

/-- What a drain asks of the broker and of its caller. -/
inductive Call (T : Type) where
  | createConsumer (subject : String)
  | fetchNoWait (n : Nat)
  | fold (storedAt : Time) (v : T)
  | ack (m : Entry)

/-- The interface of a drain. -/
def iface (T : Type) : Iface where
  Call := Call T
  Answer
    | .createConsumer _ => Except String Unit
    | .fetchNoWait _ => Except String Batch
    | .fold _ _ => Unit
    | .ack _ => Except String Unit

inductive DrainError where
  | failed (text : String)
  /-- The fuel ran out. -/
  | unfinished
deriving DecidableEq

variable {T : Type}

/-- The loop over the messages of a batch, which counts those it folds. -/
def drainBatch (decode : String → Except String T) :
    List Entry → Prog (iface T) DrainError Nat
  | [] => return 0
  | m :: ms =>
    match decode m.data with
    | .error _ => do
      let _ ← @Prog.ask (iface T) DrainError (.ack m)
      drainBatch decode ms
    | .ok v =>
      if m.readable then do
        let _ ← @Prog.ask (iface T) DrainError (.fold m.timestamp v)
        let _ ← @Prog.ask (iface T) DrainError (.ack m)
        let n ← drainBatch decode ms
        return n + 1
      else do
        let _ ← @Prog.ask (iface T) DrainError (.ack m)
        drainBatch decode ms

/-- Batches are fetched and folded until one comes back empty. -/
def drainLoop (decode : String → Except String T) (caller : String) :
    Nat → Prog (iface T) DrainError Unit
  | 0 => .fail .unfinished
  | fuel + 1 => do
    let fetched ← @Prog.ask (iface T) DrainError (.fetchNoWait batchSize)
    let batch ← Prog.orFail (fun err => .failed (caller ++ ": fetch: " ++ err)) fetched
    let n ← drainBatch decode batch.messages
    match batch.error with
    | some err => .fail (.failed (caller ++ ": batch: " ++ err))
    | none => if n = 0 then return () else drainLoop decode caller fuel

/-- A consumer is created and its subject drained. -/
def drainSubject (decode : String → Except String T) (subject caller : String) (fuel : Nat) :
    Prog (iface T) DrainError Unit := do
  let created ← @Prog.ask (iface T) DrainError (.createConsumer subject)
  Prog.orFail (fun err => .failed (caller ++ ": create consumer: " ++ err)) created
  drainLoop decode caller fuel

/-! ## The server -/

/-- The batches that the server cuts a history into. -/
structure Chunked (history : List Entry) (batches : List (List Entry)) : Prop where
  all : batches.flatten = history
  /-- A batch is empty only when nothing remains. -/
  nonempty : ∀ b ∈ batches, b ≠ []
  short : ∀ b ∈ batches, b.length ≤ batchSize

/-- The fetches of a run bring the batches in order, and nothing once there are none left.
One that fails may bring anything, and the calls that are no fetches are answered anyhow. -/
def Serves : List (List Entry) → List (Answered (iface T)) → Prop
  | _, [] => True
  | bs, ⟨.fetchNoWait _, r⟩ :: t =>
    ∀ batch : Batch, r = .ok batch → batch.error = none →
      batch.messages = bs.headD [] ∧ Serves bs.tail t
  | bs, _ :: t => Serves bs t

/-- The call failed in a way that the drain does not pass over. -/
def Failed : Answered (iface T) → Prop
  | ⟨.createConsumer _, r⟩ => Except.isOk r = false
  | ⟨.fetchNoWait _, r⟩ => ∀ batch : Batch, r = .ok batch → batch.error ≠ none
  | _ => False

/-- What a run handed to `fold`, in order. -/
def folded : List (Answered (iface T)) → List (Time × T)
  | [] => []
  | ⟨.fold storedAt v, _⟩ :: t => (storedAt, v) :: folded t
  | _ :: t => folded t

theorem folded_append : ∀ t u : List (Answered (iface T)), folded (t ++ u) = folded t ++ folded u
  | [], _ => rfl
  | ⟨.createConsumer _, _⟩ :: t, u => folded_append t u
  | ⟨.fetchNoWait _, _⟩ :: t, u => folded_append t u
  | ⟨.fold _ _, _⟩ :: t, u => congrArg (cons _) (folded_append t u)
  | ⟨.ack _, _⟩ :: t, u => folded_append t u

/-! ## What is folded -/

/-- What `fold` is to be called on for a message, if it decodes and its metadata is read. -/
def Entry.read (decode : String → Except String T) (m : Entry) : Option (Time × T) :=
  if m.readable then (decode m.data).toOption.map (Prod.mk m.timestamp) else none

/-- What `fold` is to be called on for the messages that decode. -/
def decodable (decode : String → Except String T) (history : List Entry) : List (Time × T) :=
  history.filterMap fun m => (decode m.data).toOption.map (Prod.mk m.timestamp)

variable {decode : String → Except String T} {caller : String}

theorem read_eq_decodable {history : List Entry} (h : ∀ m ∈ history, m.readable = true) :
    history.filterMap (Entry.read decode) = decodable decode history := by
  refine filterMap_congr fun m hm => ?_
  rw [Entry.read, if_pos (h m hm)]

theorem drainBatch_of_unread {m : Entry} (h : m.read decode = none) (ms : List Entry) :
    drainBatch decode (m :: ms) =
      @Prog.ask (iface T) DrainError (.ack m) >>= fun _ => drainBatch decode ms := by
  rw [drainBatch]
  cases hd : decode m.data with
  | error err => rfl
  | ok v =>
    cases hr : m.readable with
    | false => rfl
    | true => simp [Entry.read, hr, hd, Except.toOption] at h

theorem drainBatch_of_read {m : Entry} {storedAt : Time} {v : T}
    (h : m.read decode = some (storedAt, v)) (ms : List Entry) :
    drainBatch decode (m :: ms) = (do
      let _ ← @Prog.ask (iface T) DrainError (.fold storedAt v)
      let _ ← @Prog.ask (iface T) DrainError (.ack m)
      let n ← drainBatch decode ms
      return n + 1) := by
  rw [drainBatch]
  cases hd : decode m.data with
  | error err => simp [Entry.read, hd, Except.toOption] at h
  | ok v' =>
    cases hr : m.readable with
    | false => simp [Entry.read, hr] at h
    | true =>
      simp only [Entry.read, hr, hd, if_true, Except.toOption, Option.map_some,
        Option.some.injEq, Prod.mk.injEq] at h
      obtain ⟨rfl, rfl⟩ := h
      rfl

/-- The loop over a batch folds what it can read, says how many those were, and fetches
nothing. -/
theorem exits_drainBatch : ∀ {ms : List Entry} {t : List (Answered (iface T))}
    {out : Except DrainError Nat}, (drainBatch decode ms).Exits t out →
      folded t = ms.filterMap (Entry.read decode) ∧ out = .ok (folded t).length ∧
        ∀ bs u, Serves bs (t ++ u) ↔ Serves bs u
  | [], t, out, h => by
    obtain ⟨rfl, rfl⟩ := exits_ret.mp h
    exact ⟨rfl, rfl, fun _ _ => Iff.rfl⟩
  | m :: ms, t, out, h => by
    cases hread : m.read decode with
    | none =>
      rw [drainBatch_of_unread hread] at h
      obtain ⟨r, u, rfl, hu⟩ := exits_ask_bind.mp h
      obtain ⟨hfold, hlen, hserves⟩ := exits_drainBatch hu
      rw [filterMap_cons_none hread]
      exact ⟨hfold, hlen, hserves⟩
    | some p =>
      rw [drainBatch_of_read hread] at h
      obtain ⟨r, _, rfl, hu⟩ := exits_ask_bind.mp h
      obtain ⟨r', u, rfl, hcount⟩ := exits_ask_bind.mp hu
      rw [filterMap_cons_some hread]
      rcases exits_bind hcount with ⟨n, u₁, u₂, rfl, hn, hret⟩ | ⟨err, herr, -⟩
      · obtain ⟨hfold, hlen, hserves⟩ := exits_drainBatch hn
        obtain ⟨rfl, rfl⟩ := exits_ret.mp hret
        cases hlen
        rw [append_nil]
        exact ⟨congrArg (cons _) hfold, rfl, hserves⟩
      · cases (exits_drainBatch herr).2.1

/-- What a drain of the batches folds: it stops after the first that brings it nothing. -/
def drained (decode : String → Except String T) : List (List Entry) → List (Time × T)
  | [] => []
  | b :: bs =>
    if b.filterMap (Entry.read decode) = [] then []
    else b.filterMap (Entry.read decode) ++ drained decode bs

/-- A round of the loop: the fetch fails, or its batch is folded and the loop goes on if that
was anything. -/
theorem drainLoop_cases {fuel : Nat} {t : List (Answered (iface T))}
    {out : Except DrainError Unit} (h : (drainLoop decode caller (fuel + 1)).Exits t out) :
    ((∃ text, out = .error (.failed text)) ∧ ∃ a ∈ t, Failed a) ∨
      ∃ batch u₁ u₂, t = ⟨.fetchNoWait batchSize, .ok batch⟩ :: (u₁ ++ u₂) ∧
        batch.error = none ∧ folded u₁ = batch.messages.filterMap (Entry.read decode) ∧
        (∀ bs u, Serves bs (u₁ ++ u) ↔ Serves bs u) ∧
        (folded u₁ = [] ∧ u₂ = [] ∧ out = .ok () ∨
          folded u₁ ≠ [] ∧ (drainLoop decode caller fuel).Exits u₂ out) := by
  obtain ⟨r, u, rfl, hu⟩ := exits_ask_bind.mp h
  cases r with
  | error err =>
    obtain ⟨rfl, rfl⟩ := exits_fail.mp hu
    exact .inl ⟨⟨_, rfl⟩, _, mem_cons_self, fun batch hb => by cases hb⟩
  | ok batch =>
    change (drainBatch decode batch.messages >>= _).Exits u out at hu
    rcases exits_bind hu with ⟨n, u₁, u₂, rfl, hn, hrest⟩ | ⟨err, herr, -⟩
    rotate_left
    · cases (exits_drainBatch herr).2.1
    obtain ⟨hfold, hlen, hserves⟩ := exits_drainBatch hn
    cases hlen
    cases he : batch.error with
    | some err =>
      simp only [he] at hrest
      obtain ⟨rfl, rfl⟩ := exits_fail.mp hrest
      refine .inl ⟨⟨_, rfl⟩, _, mem_cons_self, fun batch' hb => ?_⟩
      cases hb
      simp [he]
    | none =>
      simp only [he, length_eq_zero_iff] at hrest
      refine .inr ⟨batch, u₁, u₂, rfl, he, hfold, hserves, ?_⟩
      by_cases hnil : folded u₁ = []
      · rw [if_pos hnil] at hrest
        exact .inl ⟨hnil, exits_ret.mp hrest⟩
      · rw [if_neg hnil] at hrest
        exact .inr ⟨hnil, hrest⟩

/-- A run that has fuel for every batch ends.  It has drained the batches, or a call of it
failed. -/
theorem exits_drainLoop : ∀ {fuel : Nat} {bs : List (List Entry)}
    {t : List (Answered (iface T))} {out : Except DrainError Unit},
    (drainLoop decode caller fuel).Exits t out → Serves bs t → bs.length < fuel →
      (out = .ok () ∧ folded t = drained decode bs) ∨
        (∃ text, out = .error (.failed text)) ∧ ∃ a ∈ t, Failed a
  | 0, _, _, _, _, _, hfuel => absurd hfuel (Nat.not_lt_zero _)
  | fuel + 1, bs, t, out, h, hs, hfuel => by
    obtain hfailed | ⟨batch, u₁, u₂, rfl, he, hfold, hserves, hrest⟩ := drainLoop_cases h
    · exact .inr hfailed
    obtain ⟨hmsgs, hs⟩ := hs batch rfl he
    have hs : Serves bs.tail u₂ := (hserves _ _).mp hs
    have hfolded : folded (⟨.fetchNoWait batchSize, .ok batch⟩ :: (u₁ ++ u₂)) =
        folded u₁ ++ folded u₂ := folded_append u₁ u₂
    rw [hmsgs] at hfold
    rw [hfolded]
    cases bs with
    | nil =>
      rcases hrest with ⟨hnil, rfl, rfl⟩ | ⟨hne, -⟩
      · exact .inl ⟨rfl, by rw [hnil]; rfl⟩
      · exact absurd hfold hne
    | cons b bs =>
      rcases hrest with ⟨hnil, rfl, rfl⟩ | ⟨hne, hrest⟩
      · exact .inl ⟨rfl, by rw [drained, if_pos (hfold ▸ hnil), hnil]; rfl⟩
      · rcases exits_drainLoop hrest hs (Nat.lt_of_succ_lt_succ hfuel) with
          ⟨hout, hrec⟩ | ⟨hout, a, ha, hfailed⟩
        · exact .inl ⟨hout, by rw [drained, if_neg (hfold ▸ hne), hrec, hfold]; rfl⟩
        · refine .inr ⟨hout, a, ?_, hfailed⟩
          exact mem_cons_of_mem _ (mem_append_right _ ha)

/-! ## What is missed -/

/-- A batch in which nothing decodes comes before a message that does. -/
def Stalls (decode : String → Except String T) (batches : List (List Entry)) : Prop :=
  ∃ before b after, batches = before ++ b :: after ∧ decodable decode b = [] ∧
    decodable decode after.flatten ≠ []

@[simp] theorem not_stalls_nil : ¬ Stalls decode [] := by
  rintro ⟨before, b, after, he, -⟩
  cases before <;> cases he

theorem stalls_cons {b : List Entry} {bs : List (List Entry)} : Stalls decode (b :: bs) ↔
      (decodable decode b = [] ∧ decodable decode bs.flatten ≠ []) ∨ Stalls decode bs := by
  constructor
  · rintro ⟨before, b', after, he, hb', hafter⟩
    cases before with
    | nil =>
      cases he
      exact .inl ⟨hb', hafter⟩
    | cons _ before =>
      cases he
      exact .inr ⟨before, b', after, rfl, hb', hafter⟩
  · rintro (⟨hb, hbs⟩ | ⟨before, b', after, rfl, hb', hafter⟩)
    · exact ⟨[], b, bs, rfl, hb, hbs⟩
    · exact ⟨b :: before, b', after, rfl, hb', hafter⟩

theorem decodable_append (ms ms' : List Entry) :
    decodable decode (ms ++ ms') = decodable decode ms ++ decodable decode ms' :=
  filterMap_append

/-- Where the rest of the history has nothing that decodes, nothing comes after it. -/
theorem decodable_ne_nil_of_stalls : ∀ {bs : List (List Entry)}, Stalls decode bs →
    decodable decode bs.flatten ≠ []
  | [], h => absurd h not_stalls_nil
  | b :: bs, h => by
    rw [flatten_cons, decodable_append]
    intro hnil
    obtain ⟨-, hbs⟩ := append_eq_nil_iff.mp hnil
    rcases stalls_cons.mp h with ⟨-, hne⟩ | h
    · exact hne hbs
    · exact decodable_ne_nil_of_stalls h hbs

theorem drained_eq_iff : ∀ {bs : List (List Entry)}, (∀ m ∈ bs.flatten, m.readable = true) →
    (drained decode bs = decodable decode bs.flatten ↔ ¬ Stalls decode bs)
  | [], _ => iff_of_true rfl not_stalls_nil
  | b :: bs, hr => by
    have hb : b.filterMap (Entry.read decode) = decodable decode b :=
      read_eq_decodable fun m hm => hr m (mem_append_left _ hm)
    have ih : drained decode bs = decodable decode bs.flatten ↔ ¬ Stalls decode bs :=
      drained_eq_iff fun m hm => hr m (mem_append_right _ hm)
    rw [drained, hb, flatten_cons, decodable_append, stalls_cons]
    by_cases hnil : decodable decode b = []
    · rw [if_pos hnil, hnil, nil_append]
      constructor
      · rintro he (⟨-, hne⟩ | hs)
        · exact hne he.symm
        · exact decodable_ne_nil_of_stalls hs he.symm
      · intro hno
        exact (not_not.mp fun hne => hno (.inl ⟨rfl, fun he => hne he.symm⟩))
    · rw [if_neg hnil, append_cancel_left_eq, ih]
      simp [hnil]

theorem Chunked.length_le {history : List Entry} {batches : List (List Entry)}
    (h : Chunked history batches) : batches.length ≤ history.length := by
  obtain ⟨rfl, hne, -⟩ := h
  induction batches with
  | nil => exact Nat.le_refl _
  | cons b bs ih =>
    obtain ⟨hb, hbs⟩ := forall_mem_cons.mp hne
    have hlen := length_pos_iff.mpr hb
    have hrest := ih hbs
    simp only [length_cons, flatten_cons, length_append]
    omega

/-- A drain with fuel for every stored message ends, and it fails only if a call does.  One
that returns has called `fold` on every message that decodes, once and in the stored order,
exactly if no batch in which nothing decodes came before such a message. -/
theorem drainSubject_full_iff {subject : String} {fuel : Nat} {history : List Entry}
    {batches : List (List Entry)} (hc : Chunked history batches)
    (hr : ∀ m ∈ history, m.readable = true) {t : List (Answered (iface T))}
    (hs : Serves batches t) (hfuel : history.length < fuel) {out : Except DrainError Unit}
    (h : (drainSubject decode subject caller fuel).Exits t out) :
    (out = .ok () ∨ (∃ text, out = .error (.failed text)) ∧ ∃ a ∈ t, Failed a) ∧
      (out = .ok () →
        (folded t = decodable decode history ↔ ¬ Stalls decode batches)) := by
  obtain ⟨r, u, rfl, hu⟩ := exits_ask_bind.mp h
  cases r with
  | error err =>
    obtain ⟨rfl, rfl⟩ := exits_fail.mp hu
    refine ⟨.inr ⟨⟨_, rfl⟩, _, mem_cons_self, rfl⟩, fun hout => ?_⟩
    cases hout
  | ok _ =>
    have hlt : batches.length < fuel := Nat.lt_of_le_of_lt hc.length_le hfuel
    rcases exits_drainLoop hu hs hlt with ⟨rfl, hfold⟩ | ⟨⟨text, rfl⟩, a, ha, hfailed⟩
    · refine ⟨.inl rfl, fun _ => ?_⟩
      change folded u = _ ↔ _
      rw [hfold, ← hc.all]
      exact drained_eq_iff (hc.all ▸ hr)
    · refine ⟨.inr ⟨⟨text, rfl⟩, a, mem_cons_of_mem _ ha, hfailed⟩, fun hout => ?_⟩
      cases hout

/-- A server that fails nothing, as an environment: what it has still to bring. -/
def serve : List (List Entry) → (c : (iface T).Call) → (iface T).Answer c × List (List Entry)
  | bs, .createConsumer _ => (.ok (), bs)
  | bs, .fetchNoWait _ => (.ok { messages := bs.headD [] }, bs.tail)
  | bs, .fold _ _ => ((), bs)
  | bs, .ack _ => (.ok (), bs)

theorem serves_play {α : Type} : ∀ (p : Prog (iface T) DrainError α) (bs : List (List Entry)),
    Serves bs (play serve bs p).2
  | .ret _, _ => trivial
  | .fail _, _ => trivial
  | .call (.createConsumer _) k, bs => serves_play (k _) bs
  | .call (.fetchNoWait _) k, bs => fun batch hb _ => by
    cases hb
    exact ⟨rfl, serves_play (k _) bs.tail⟩
  | .call (.fold _ _) k, bs => serves_play (k _) bs
  | .call (.ack _) k, bs => serves_play (k _) bs

/-- A decoder that takes every text but the empty one. -/
def decodeText (data : String) : Except String String :=
  if data = "" then .error "unexpected end of JSON input" else .ok data

/-- The drain of a history in those batches. -/
def drainRun (batches : List (List Entry)) :
    Except DrainError Unit × List (Answered (iface String)) :=
  Prog.play serve batches
    (drainSubject decodeText "thump.holds" "hiss: rebuild holds" (batches.flatten.length + 1))

/-- One message that does not decode, among others. -/
def mixedBatches : List (List Entry) :=
  [[{ data := "a", timestamp := 1 }, { data := "", timestamp := 2 }],
    [{ data := "b", timestamp := 3 }]]

theorem mixedBatches_drained : (drainRun mixedBatches).1 = .ok () ∧
    folded (drainRun mixedBatches).2 = decodable decodeText mixedBatches.flatten := by
  have hc : Chunked mixedBatches.flatten mixedBatches := ⟨rfl, by decide, by decide⟩
  have hno : ¬ Stalls decodeText mixedBatches := by
    rw [mixedBatches, stalls_cons, stalls_cons]
    simp [decodable, decodeText, Except.toOption]
  have hok : (drainRun mixedBatches).1 = .ok () := by rfl
  refine ⟨hok, ?_⟩
  exact ((drainSubject_full_iff hc (by decide) (serves_play _ _) (Nat.lt_succ_self _)
    (exits_play serve _ mixedBatches)).2 hok).mpr hno

/-- A full batch of messages that do not decode, and one more message. -/
def poisonedBatches : List (List Entry) :=
  [List.replicate batchSize {}, [{ data := "a", timestamp := 1 }]]

/-- The drain returns and has folded nothing. -/
theorem poisonedBatches_missed :
    Chunked poisonedBatches.flatten poisonedBatches ∧
      (drainRun poisonedBatches).1 = .ok () ∧ folded (drainRun poisonedBatches).2 = [] ∧
      decodable decodeText poisonedBatches.flatten = [(1, "a")] :=
  ⟨⟨rfl, by decide, by decide +kernel⟩, by decide +kernel, by decide +kernel, by decide +kernel⟩

end Beats.Broker.Drain
