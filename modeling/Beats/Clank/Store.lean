import Mathlib.Data.String.Basic
import Beats.Lib.Delimited
import Beats.Lib.Digits
import Beats.Clank.Conduct

/-!
# The store of checkpoints

`S3Store` of `internal/clank`: each turn of a run is an object of its own, and so is the record
that the run has ended.  Their keys are made of the run and of the step.  The run is known by the
fingerprint and the time at which `Propose` minted its ID, with a slash between them.

The bucket is a map from keys to bytes.  A store call that succeeds puts one object, so calls that
overlap leave what they would leave one after the other, and the object of a key is that of the
last call for it (`Filled.holds`).
-/

namespace Beats.Clank

open Lib List Prog

/-! ## Objects -/

abbrev Bytes := List UInt8

/-- The objects of a bucket by their keys. -/
abbrev Bucket := Std.ExtTreeMap String Bytes

/-- `sealbox.Key`: what was sealed under a nonce can be opened. -/
structure SealKey where
  «seal» : Bytes → Bytes → Bytes
  «open» : Bytes → Except String Bytes
  open_seal : ∀ nonce b, «open» («seal» nonce b) = .ok b

/-- The JSON of a type: what was marshalled can be unmarshalled. -/
structure Json (α : Type) where
  marshal : α → Except String Bytes
  unmarshal : Bytes → Except String α
  unmarshal_marshal : ∀ {a b}, marshal a = .ok b → unmarshal b = .ok a

structure TerminalRecord where
  finished : Bool := false
  error : String := ""

/-- The store: its key and its two encodings. -/
structure S3Store where
  key : SealKey
  json : Json Turn
  marshalRecord : TerminalRecord → Except String Bytes

def turnKey (runID : String) (step : Nat) : String :=
  "transcripts/" ++ runID ++ "/" ++ toString step ++ ".json"

def finishKey (runID : String) : String := "transcripts/" ++ runID ++ "/finish.json"

namespace Store

inductive Call where
  | ctxErr
  /-- The nonce of a seal. -/
  | nonce
  | putObject (key : String) (body : Bytes)

def iface : Iface where
  Call := Call
  Answer
    | .ctxErr => Option String
    | .nonce => Except String Bytes
    | .putObject _ _ => Except String Unit

end Store

namespace S3Store

variable (s : S3Store)

/-- `S3Store.putJSON`, of a value as it marshals. -/
def putJSON (key : String) (v : Except String Bytes) : Prog Store.iface String Unit := do
  let ctxErr : Option String ← @Prog.ask Store.iface String .ctxErr
  match ctxErr with
  | some err => .fail err
  | none =>
    let b ← Prog.orFail (fun err => "s3 store: marshal: " ++ err) v
    let nonce ← Prog.orFail (fun err => "s3 store: seal " ++ key ++ ": sealbox: seal: " ++ err)
      (← @Prog.ask Store.iface String .nonce)
    Prog.orFail (fun err => "s3 store: put " ++ key ++ ": " ++ err)
      (← @Prog.ask Store.iface String (.putObject key (s.key.seal nonce b)))

def checkpoint (t : Turn) : Prog Store.iface String Unit :=
  s.putJSON (turnKey t.runID t.step) (s.json.marshal t)

def finish (runID : String) (runErr : Option String) : Prog Store.iface String Unit :=
  s.putJSON (finishKey runID)
    (s.marshalRecord { finished := true, error := runErr.getD "" })

end S3Store

inductive StoreCall where
  | checkpoint (t : Turn) (fits : t.step < 2 ^ 63)
  | finish (runID : String) (runErr : Option String)

namespace StoreCall

def runID : StoreCall → String
  | .checkpoint t _ => t.runID
  | .finish runID _ => runID

/-- The name of the object in the directory of the run. -/
def base : StoreCall → String
  | .checkpoint t _ => toString t.step ++ ".json"
  | .finish _ _ => "finish.json"

def key (c : StoreCall) : String := "transcripts/" ++ c.runID ++ "/" ++ c.base

/-- What the object holds, before it is sealed. -/
def body (s : S3Store) : StoreCall → Except String Bytes
  | .checkpoint t _ => s.json.marshal t
  | .finish _ runErr => s.marshalRecord { finished := true, error := runErr.getD "" }

def prog (s : S3Store) : StoreCall → Prog Store.iface String Unit
  | .checkpoint t _ => s.checkpoint t
  | .finish runID runErr => s.finish runID runErr

theorem key_checkpoint (t : Turn) (fits : t.step < 2 ^ 63) :
    (checkpoint t fits).key = turnKey t.runID t.step := by
  change "transcripts/" ++ t.runID ++ "/" ++ (toString t.step ++ ".json") =
    "transcripts/" ++ t.runID ++ "/" ++ toString t.step ++ ".json"
  rw [← String.append_assoc]

theorem key_finish (runID : String) (runErr : Option String) :
    (finish runID runErr).key = finishKey runID := by
  change "transcripts/" ++ runID ++ "/" ++ "finish.json" = "transcripts/" ++ runID ++ "/finish.json"
  rw [String.append_assoc]
  rfl

theorem prog_eq (s : S3Store) (c : StoreCall) : c.prog s = s.putJSON c.key (c.body s) := by
  cases c with
  | checkpoint t fits =>
    rw [key_checkpoint]
    rfl
  | finish runID runErr =>
    rw [key_finish]
    rfl

theorem slash_notMem_base (c : StoreCall) : '/' ∉ c.base.toList := by
  cases c with
  | checkpoint t fits =>
    simp only [base, String.toList_append, Digits.toList_toString_nat, mem_append]
    rintro (h | h)
    · exact absurd (Digits.isDigit_of_mem_digits h) (by decide)
    · exact absurd h (by decide)
  | finish runID runErr =>
    have hbase : '/' ∉ "finish.json".toList := by decide
    exact hbase

theorem toList_key (c : StoreCall) :
    c.key.toList = "transcripts/".toList ++ (c.runID.toList ++ '/' :: c.base.toList) := by
  change ("transcripts/" ++ c.runID ++ "/" ++ c.base).toList = _
  simp only [String.toList_append, append_assoc]
  rfl

end StoreCall

/-! ## The bucket -/

/-- The bucket after the calls of a run. -/
def Bucket.after (b : Bucket) : List (Answered Store.iface) → Bucket
  | [] => b
  | ⟨.putObject key body, (.ok () : Except String Unit)⟩ :: t => Bucket.after (b.insert key body) t
  | _ :: t => Bucket.after b t

variable {key : String} {c : StoreCall}

theorem S3Store.exits_putJSON {s : S3Store} {v : Except String Bytes}
    {t : List (Answered Store.iface)} {out : Except String Unit}
    (h : (s.putJSON key v).Exits t out) (b : Bucket) :
    (∃ body nonce, out = .ok () ∧ v = .ok body ∧ b.after t = b.insert key (s.key.seal nonce body)) ∨
      ∃ err, out = .error err ∧ b.after t = b := by
  obtain ⟨ctxErr, u, rfl, hu⟩ := exits_ask_bind.mp h
  cases ctxErr with
  | some err =>
    obtain ⟨rfl, rfl⟩ := exits_fail.mp hu
    exact .inr ⟨_, rfl, rfl⟩
  | none =>
    cases v with
    | error err =>
      obtain ⟨rfl, rfl⟩ := exits_fail.mp hu
      exact .inr ⟨_, rfl, rfl⟩
    | ok body =>
      obtain ⟨nonce, v, rfl, hv⟩ := exits_ask_bind.mp hu
      cases nonce with
      | error err =>
        obtain ⟨rfl, rfl⟩ := exits_fail.mp hv
        exact .inr ⟨_, rfl, rfl⟩
      | ok nonce =>
        obtain ⟨put, w, rfl, hw⟩ := exits_ask_bind.mp hv
        cases put with
        | error err =>
          obtain ⟨rfl, rfl⟩ := exits_fail.mp hw
          exact .inr ⟨_, rfl, rfl⟩
        | ok _ =>
          obtain ⟨rfl, rfl⟩ := exits_ret.mp hw
          exact .inl ⟨body, nonce, rfl, rfl, rfl⟩

/-- The bucket after store calls, of which those are listed that succeeded. -/
inductive Filled (s : S3Store) (b₀ : Bucket) : List StoreCall → Bucket → Prop where
  | start : Filled s b₀ [] b₀
  | done {calls : List StoreCall} {b : Bucket} {c : StoreCall} {t : List (Answered Store.iface)} :
      Filled s b₀ calls b → (c.prog s).Exits t (.ok ()) →
        Filled s b₀ (calls ++ [c]) (b.after t)
  | failed {calls : List StoreCall} {b : Bucket} {c : StoreCall} {t : List (Answered Store.iface)}
      {err : String} :
      Filled s b₀ calls b → (c.prog s).Exits t (.error err) → Filled s b₀ calls (b.after t)

def lastCall (calls : List StoreCall) (key : String) : Option StoreCall :=
  calls.reverse.find? fun c => c.key = key

theorem lastCall_snoc (calls : List StoreCall) (c : StoreCall) (key : String) :
    lastCall (calls ++ [c]) key = if c.key = key then some c else lastCall calls key := by
  rw [lastCall, reverse_append, reverse_singleton, singleton_append, find?_cons, lastCall]
  by_cases h : c.key = key <;> simp [h]

theorem mem_of_lastCall {calls : List StoreCall} (h : lastCall calls key = some c) :
    c ∈ calls ∧ c.key = key :=
  ⟨mem_reverse.mp (mem_of_find?_eq_some h), by simpa using find?_some h⟩

theorem exists_lastCall {calls : List StoreCall} (h : c ∈ calls) :
    ∃ c', lastCall calls c.key = some c' := by
  refine Option.isSome_iff_exists.mp (find?_isSome.mpr ?_)
  exact ⟨c, mem_reverse.mpr h, by simp⟩

/-- The object is what its last call wrote, or what it was. -/
def Holds (s : S3Store) (b₀ : Bucket) (calls : List StoreCall) (b : Bucket) (key : String) : Prop :=
  match lastCall calls key with
  | none => b[key]? = b₀[key]?
  | some c => ∃ body nonce, c.body s = .ok body ∧ b[key]? = some (s.key.seal nonce body)

section

variable {s : S3Store} {b₀ b : Bucket} {calls : List StoreCall}

theorem Filled.holds (h : Filled s b₀ calls b) (key : String) : Holds s b₀ calls b key := by
  induction h with
  | start => rfl
  | @done calls b c t _ hc ih =>
    rw [StoreCall.prog_eq] at hc
    rcases S3Store.exits_putJSON hc b with ⟨body, nonce, -, hbody, hb⟩ | ⟨err, he, -⟩
    · rw [Holds, lastCall_snoc, hb, Std.ExtTreeMap.getElem?_insert]
      by_cases hkey : c.key = key
      · simp only [hkey, Std.LawfulEqCmp.compare_eq_iff_eq, if_pos]
        exact ⟨body, nonce, hbody, rfl⟩
      · simp only [if_neg hkey, Std.LawfulEqCmp.compare_eq_iff_eq]
        exact ih
    · cases he
  | @failed calls b c t err _ hc ih =>
    rw [StoreCall.prog_eq] at hc
    rcases S3Store.exits_putJSON hc b with ⟨body, nonce, he, -⟩ | ⟨err, -, hb⟩
    · cases he
    · rw [hb]
      exact ih

theorem Filled.get_of_none (h : Filled s b₀ calls b) (hl : lastCall calls key = none) :
    b[key]? = b₀[key]? := by
  have hkey := h.holds key
  rw [Holds, hl] at hkey
  exact hkey

theorem Filled.get_of_some (h : Filled s b₀ calls b) (hl : lastCall calls key = some c) :
    ∃ body nonce, c.body s = .ok body ∧ b[key]? = some (s.key.seal nonce body) := by
  have hkey := h.holds key
  rw [Holds, hl] at hkey
  exact hkey

end

/-! ## Run IDs -/

/-- The ID is one that `Propose` mints. -/
def MintedRun (runID : String) : Prop := ∃ fingerprint now, runID = mintedID fingerprint now

/-- What the engine stores, it stores under a minted ID. -/
def MintedCall : iface.Call → Prop
  | .checkpoint t => MintedRun t.runID
  | .finish runID _ => MintedRun runID
  | _ => True

theorem mintedCall_propose (e : Engine) (sig : Signal.Detection) :
    (Monitor.only MintedCall).Allows (fun _ _ => True) (e.propose sig) () := by
  refine (runCall_propose e fun _ _ _ _ _ => trivial).widen ?_
  rintro c ⟨at', h⟩
  cases c with
  | checkpoint t =>
    rcases h with h | h | h | ⟨_, h⟩
    · exact h.elim
    · exact ⟨sig.fingerprint, at', h⟩
    · exact h.1.elim
    · cases h
  | finish runID err =>
    rcases h with h | h | h | ⟨_, h⟩
    · exact h.elim
    · exact h.elim
    · exact h.1.elim
    · cases h
      exact ⟨sig.fingerprint, at', rfl⟩
  | _ => trivial

end Beats.Clank
