import Beats.Api.Decision
import Beats.Contract
import Beats.Lib.Prog

/-!
# The actuator

`internal/actuate`: the authored steps of a contract are bound to mechanisms, and a run
dispatches the mechanisms of one direction, in order, up to the first that fails.

A mechanism that changes the cluster makes its one change with its last call.  So a
mechanism that failed has changed nothing (`Mechanism.mutates_of_error`), and where a
sequence failed whatever was changed was changed by the steps before the failing one
(`exits_doAll_error`).
-/

namespace Beats.Actuate

open Lib Contract Monitor Prog

/-! ## The environment -/

/-- The body of a merge patch. -/
inductive Patch where
  /-- The replicas of a deployment. -/
  | replicas (n : Int)
  /-- The restart annotation of a pod template. -/
  | restartedAt (now : Time)
  /-- One data key of a config map. -/
  | data (key value : String)
deriving DecidableEq

/-- `forge.Release`. -/
structure Release where
  key : String := ""
  path : String := ""
  content : String := ""
  notes : String := ""
deriving DecidableEq

/-- The calls of the actuator: the cluster's, the forge's and the clock. -/
inductive Call where
  | exec (ns selector : String) (command : List String)
  | patch (group version resource ns name : String) (body : Patch)
  | getConfigMapKey (ns name key : String)
  | read (path : String)
  | cut (rel : Release)
  | now

/-- The interface of the actuator. -/
def iface : Iface where
  Call := Call
  Answer
    | .exec _ _ _ => Except String Unit
    | .patch _ _ _ _ _ _ => Except String Unit
    | .getConfigMapKey _ _ _ => Except String String
    | .read _ => Except String String
    | .cut _ => Except String String
    | .now => Time

/-! ## Binding -/

/-- What one step runs. -/
inductive Mechanism where
  | exec (ns selector : String) (command : List String)
  | scale (ns deployment : String) (replicas : Int)
  | restart (ns deployment : String)
  | flagVariant (ns configMap dataKey flag variant : String)
  | maintenanceRelease (path flag variant : String)

/-- What one direction of a contract runs. -/
inductive Operation where
  | one (m : Mechanism)
  | seq (ms : List Mechanism)

/-- What a contract runs, in both directions. -/
structure Binding where
  forward : Operation
  reverse : Operation

def errUnbindable : String := "actuate: contract names no executable mechanism"

/-- The mechanism of a step, if it names all that the verb needs. -/
def mechanismFor (s : Step) (forgeWired : Bool) : Except String Mechanism :=
  if s.verb = "exec" then
    if s.namespace = "" ∨ s.selector = "" ∨ s.command = [] then
      .error ("exec needs namespace, selector and command: " ++ errUnbindable)
    else .ok (.exec s.namespace s.selector s.command)
  else if s.verb = "scale" then
    match s.replicas with
    | none => .error ("scale needs namespace, deployment and replicas: " ++ errUnbindable)
    | some n =>
      if s.namespace = "" ∨ s.deployment = "" then
        .error ("scale needs namespace, deployment and replicas: " ++ errUnbindable)
      else .ok (.scale s.namespace s.deployment n)
  else if s.verb = "restart" then
    if s.namespace = "" ∨ s.deployment = "" then
      .error ("restart needs namespace and deployment: " ++ errUnbindable)
    else .ok (.restart s.namespace s.deployment)
  else if s.verb = "flagVariant" then
    if s.namespace = "" ∨ s.configMap = "" ∨ s.dataKey = "" ∨ s.flag = "" ∨ s.variant = "" then
      .error ("flagVariant needs namespace, configMap, dataKey, flag and variant: "
        ++ errUnbindable)
    else .ok (.flagVariant s.namespace s.configMap s.dataKey s.flag s.variant)
  else if s.verb = "maintenanceRelease" then
    if !forgeWired then
      .error ("maintenanceRelease needs a GitOps source of record - "
        ++ "set FORGE_REPO and FORGE_TOKEN: " ++ errUnbindable)
    else if s.path = "" ∨ s.flag = "" ∨ s.variant = "" then
      .error ("maintenanceRelease needs path, flag, and variant: " ++ errUnbindable)
    else .ok (.maintenanceRelease s.path s.flag s.variant)
  else .error ("verb " ++ Fmt.quote s.verb ++ " has no mechanism: " ++ errUnbindable)

/-- The mechanisms of a list of steps, the first of which has the number `i`. -/
def mechanismsFor (forgeWired : Bool) : Nat → List Step → Except String (List Mechanism)
  | _, [] => .ok []
  | i, s :: ss =>
    match mechanismFor s forgeWired with
    | .error err => .error ("step " ++ toString i ++ ": " ++ err)
    | .ok m => (mechanismsFor forgeWired (i + 1) ss).map (m :: ·)

def opFor (steps : List Step) (forgeWired : Bool) : Except String Operation :=
  match steps with
  | [] => .error ("no steps authored: " ++ errUnbindable)
  | [s] => (mechanismFor s forgeWired).map .one
  | steps => (mechanismsFor forgeWired 1 steps).map .seq

/-- The binding of a contract, or which direction does not bind. -/
def bindingFor (c : ActionContract) (forgeWired : Bool) : Except String Binding :=
  match opFor c.execution.forward forgeWired with
  | .error err => .error ("contract " ++ Fmt.quote c.name ++ " forward: " ++ err)
  | .ok forward =>
    match opFor c.execution.reverse forgeWired with
    | .error err => .error ("contract " ++ Fmt.quote c.name ++ " reverse: " ++ err)
    | .ok reverse => .ok { forward := forward, reverse := reverse }

/-- `bind`.  A later contract of a name replaces an earlier one. -/
def bind (forgeWired : Bool) : List ActionContract → Except String (List (String × Binding))
  | [] => .ok []
  | c :: cs =>
    match bindingFor c forgeWired with
    | .error err => .error err
    | .ok b => (bind forgeWired cs).map fun rest =>
      if rest.any fun p => p.1 == c.name then rest else (c.name, b) :: rest

/-! ## What a step names -/

def Operation.mechanisms : Operation → List Mechanism
  | .one m => [m]
  | .seq ms => ms

/-- The mechanism that a step names, with the targets and values of the step. -/
inductive Names (s : Step) : Mechanism → Prop where
  | exec (hv : s.verb = "exec") : Names s (.exec s.namespace s.selector s.command)
  | scale {n : Int} (hv : s.verb = "scale") (hn : s.replicas = some n) :
      Names s (.scale s.namespace s.deployment n)
  | restart (hv : s.verb = "restart") : Names s (.restart s.namespace s.deployment)
  | flagVariant (hv : s.verb = "flagVariant") :
      Names s (.flagVariant s.namespace s.configMap s.dataKey s.flag s.variant)
  | maintenanceRelease (hv : s.verb = "maintenanceRelease") :
      Names s (.maintenanceRelease s.path s.flag s.variant)

section

variable {s : Step} {m : Mechanism} {forgeWired : Bool} {steps : List Step} {op : Operation}

theorem names_of_mechanismFor (h : mechanismFor s forgeWired = .ok m) : Names s m := by
  unfold mechanismFor at h
  split at h
  next hv =>
    split at h
    · cases h
    · cases h
      exact .exec hv
  split at h
  next hv =>
    split at h
    · cases h
    next hn =>
      split at h
      · cases h
      · cases h
        exact .scale hv hn
  split at h
  next hv =>
    split at h
    · cases h
    · cases h
      exact .restart hv
  split at h
  next hv =>
    split at h
    · cases h
    · cases h
      exact .flagVariant hv
  split at h
  next hv =>
    split at h
    · cases h
    · split at h
      · cases h
      · cases h
        exact .maintenanceRelease hv
  · cases h

theorem mechanismsFor_forall₂ : ∀ {i : Nat} {steps : List Step} {ms : List Mechanism},
    mechanismsFor forgeWired i steps = .ok ms →
      List.Forall₂ (fun s m => mechanismFor s forgeWired = .ok m) steps ms
  | _, [], _, h => by
    cases h
    exact .nil
  | i, s :: steps, ms, h => by
    rw [mechanismsFor] at h
    cases hm : mechanismFor s forgeWired with
    | error err => rw [hm] at h; cases h
    | ok m =>
      rw [hm] at h
      cases hms : mechanismsFor forgeWired (i + 1) steps with
      | error err => rw [hms] at h; cases h
      | ok ms' =>
        rw [hms] at h
        cases h
        exact .cons hm (mechanismsFor_forall₂ hms)

theorem opFor_forall₂ (h : opFor steps forgeWired = .ok op) : steps ≠ [] ∧
      List.Forall₂ (fun s m => mechanismFor s forgeWired = .ok m) steps op.mechanisms := by
  match steps, h with
  | [s], h =>
    rw [opFor] at h
    cases hm : mechanismFor s forgeWired with
    | error err => rw [hm] at h; cases h
    | ok m =>
      rw [hm] at h
      cases h
      exact ⟨List.cons_ne_nil _ _, .cons hm .nil⟩
  | s :: s' :: steps, h =>
    change (mechanismsFor forgeWired 1 (s :: s' :: steps)).map Operation.seq = .ok op at h
    cases hms : mechanismsFor forgeWired 1 (s :: s' :: steps) with
    | error err => rw [hms] at h; cases h
    | ok ms =>
      rw [hms] at h
      cases h
      exact ⟨List.cons_ne_nil _ _, mechanismsFor_forall₂ hms⟩

end

/-! ## Dispatch -/

def releaseKey (ref : String) (reverse : Bool) : String :=
  if reverse then ref ++ ":revert" else ref

/-- What one run hands its operation.  `setDefaultVariant` edits one flag of a document. -/
structure Dispatch where
  forgeWired : Bool := false
  ref : String := ""
  reverse : Bool := false
  notes : String := ""
  setDefaultVariant : (doc flag variant : String) → Except String String

/-- `do` of a mechanism. -/
def Mechanism.run (d : Dispatch) : Mechanism → Prog iface String Unit
  | .exec ns selector command => do
    Prog.orFail id (← @Prog.ask iface String (.exec ns selector command))
  | .scale ns deployment n => do
    Prog.orFail id
      (← @Prog.ask iface String (.patch "apps" "v1" "deployments" ns deployment (.replicas n)))
  | .restart ns deployment => do
    let now ← @Prog.ask iface String .now
    Prog.orFail id (← @Prog.ask iface String
      (.patch "apps" "v1" "deployments" ns deployment (.restartedAt now)))
  | .flagVariant ns configMap dataKey flag variant => do
    let source := ns ++ "/" ++ configMap ++ "[" ++ dataKey ++ "]"
    let current ← Prog.orFail (fun err => "read " ++ source ++ ": " ++ err)
      (← @Prog.ask iface String (.getConfigMapKey ns configMap dataKey))
    let updated ← Prog.orFail (fun err => source ++ ": " ++ err)
      (d.setDefaultVariant current flag variant)
    Prog.orFail id (← @Prog.ask iface String
      (.patch "" "v1" "configmaps" ns configMap (.data dataKey updated)))
  | .maintenanceRelease path flag variant =>
    if !d.forgeWired then .fail ("no forge wired for " ++ path ++ ": " ++ errUnbindable)
    else do
      let current ← Prog.orFail (fun err => "read " ++ path ++ ": " ++ err)
        (← @Prog.ask iface String (.read path))
      let content ← Prog.orFail (fun err => "read " ++ path ++ ": " ++ err)
        (d.setDefaultVariant current flag variant)
      let _ ← Prog.orFail id (← @Prog.ask iface String
        (.cut { key := releaseKey d.ref d.reverse, path, content, notes := d.notes }))
      return ()

/-- `seqOp.do`. -/
def doAll (d : Dispatch) : List Mechanism → Prog iface String Unit
  | [] => return ()
  | m :: ms => do
    m.run d
    doAll d ms

/-- `do` of an operation. -/
def Operation.run (d : Dispatch) : Operation → Prog iface String Unit
  | .one m => m.run d
  | .seq ms => doAll d ms

/-- What a mechanism that succeeded reports. -/
def Mechanism.result : Mechanism → Outcome.Result
  | .maintenanceRelease _ _ _ => .proposed
  | _ => .applied

/-- `resultOf`.  A sequence reports what its last step does. -/
def resultOf : Operation → Outcome.Result
  | .one m => m.result
  | .seq ms => (ms.getLast?.map Mechanism.result).getD .applied

/-- The bindings, and what the mechanisms need of the forge. -/
structure Runner where
  bindings : List (String × Binding) := []
  forgeWired : Bool := false
  setDefaultVariant : (doc flag variant : String) → Except String String

def Binding.op (b : Binding) (reverse : Bool) : Operation :=
  if reverse then b.reverse else b.forward

/-- What `Runner.Run` hands its operation. -/
def Runner.dispatch (r : Runner) (ref : String) (reverse : Bool) (notes : String) : Dispatch where
  forgeWired := r.forgeWired
  ref := ref
  reverse := reverse
  notes := notes
  setDefaultVariant := r.setDefaultVariant

/-- `Runner.Run`.  The deadline is one of the errors of a call. -/
def Runner.run (r : Runner) (ref : String) (reverse : Bool) (notes : String) :
    Prog iface String Outcome.Result :=
  match r.bindings.lookup ref with
  | none => .fail ("actuate: ref " ++ Fmt.quote ref ++ " is not bound to an action")
  | some b => do
    match ← ((b.op reverse).run (r.dispatch ref reverse notes)).attempt with
    | .error err =>
      .fail ("actuate: " ++ ref ++ " (reverse=" ++ toString reverse ++ "): " ++ err)
    | .ok () => return resultOf (b.op reverse)

/-! ## Mutations -/

/-- The answered call changed the cluster. -/
def mutates : Answered iface → Bool
  | ⟨.exec _ _ _, r⟩ => Except.isOk r
  | ⟨.patch _ _ _ _ _ _, r⟩ => Except.isOk r
  | _ => false

/-- The monitor of the changes.  Its state says whether there was one. -/
def changing : Monitor iface Bool where
  permits _ _ := True
  next changed c r := changed || mutates ⟨c, r⟩

theorem changing_after : ∀ (t : List (Answered iface)) (changed : Bool),
    changing.after changed t = (changed || t.any mutates)
  | [], changed => by simp [after]
  | ⟨c, r⟩ :: t, changed => by
    rw [after, changing_after t, List.any_cons, ← Bool.or_assoc]
    rfl

/-- What failed has changed nothing. -/
def Clean {α : Type} (changed : Bool) (out : Except String α) : Prop :=
  ∀ err, out = .error err → changed = false

/-- The mechanism changes the cluster itself, and does not leave the change for review. -/
def Mechanism.direct : Mechanism → Bool
  | .maintenanceRelease _ _ _ => false
  | _ => true

/-- What failed has changed nothing, and what succeeded has changed the cluster if it does so
directly. -/
structure Did (direct changed : Bool) (out : Except String Unit) : Prop where
  clean : Clean changed out
  direct : out = .ok () → changed = direct

section

variable {α : Type} {d : Dispatch}

variable {m : Mechanism} {u : List (Answered iface)} {err : String}

theorem did_error (direct : Bool) (err : String) : Did direct false (.error err) :=
  ⟨fun _ _ => rfl, nofun⟩

theorem did_orFail {direct : Bool} {ε' : Type} {wrap : ε' → String} {x : Except ε' α}
    {f : α → Prog iface String Unit} (hf : ∀ a, changing.Allows (Did direct) (f a) false) :
    changing.Allows (Did direct) (orFail wrap x >>= f) false := by
  cases x with
  | ok a => exact hf a
  | error err => exact did_error direct _

theorem did_last {c : Call} {x : iface.Answer c → Except String Unit}
    (hc : ∀ r, mutates ⟨c, r⟩ = Except.isOk (x r)) :
    changing.Allows (Did true) (@Prog.ask iface String c >>= fun r => orFail id (x r))
      false := by
  refine allows_ask_bind trivial fun r => ?_
  have hr : (false || mutates ⟨c, r⟩) = Except.isOk (x r) := (Bool.false_or _).trans (hc r)
  cases hx : x r with
  | ok a =>
    rw [hx] at hr
    exact ⟨nofun, fun _ => hr⟩
  | error err =>
    rw [hx] at hr
    exact ⟨fun _ _ => hr, nofun⟩

theorem Mechanism.did (m : Mechanism) : changing.Allows (Did m.direct) (m.run d) false := by
  cases m with
  | exec _ _ _ | scale _ _ _ => exact did_last fun _ => rfl
  | restart ns deployment =>
    refine allows_ask_bind trivial fun now => ?_
    exact did_last fun _ => rfl
  | flagVariant ns configMap dataKey flag variant =>
    refine allows_ask_bind trivial fun r => ?_
    refine did_orFail fun current => did_orFail fun updated => ?_
    exact did_last fun _ => rfl
  | maintenanceRelease path flag variant =>
    rw [Mechanism.run]
    split
    · exact did_error _ _
    · refine allows_ask_bind trivial fun r => ?_
      refine did_orFail fun current => did_orFail fun content => ?_
      refine allows_ask_bind trivial fun url => ?_
      exact did_orFail fun _ => ⟨nofun, fun _ => rfl⟩

theorem Mechanism.did_of_exits
    {out : Except String Unit} (h : (m.run d).Exits u out) : Did m.direct (u.any mutates) out := by
  have hdid := m.did.exits h
  rwa [changing_after, Bool.false_or] at hdid

theorem Mechanism.mutates_of_error (h : (m.run d).Exits u (.error err)) : u.any mutates = false :=
  (Mechanism.did_of_exits h).clean err rfl

/-- A sequence that succeeded ran each of its steps, and changed the cluster if one of them does so
directly. -/
theorem exits_doAll_ok : ∀ {ms : List Mechanism} {u : List (Answered iface)},
    (doAll d ms).Exits u (.ok ()) → u.any mutates = ms.any Mechanism.direct
  | [], u, h => by
    obtain ⟨rfl, -⟩ := exits_ret.mp h
    rfl
  | m :: ms, u, h => by
    obtain ⟨_, u₁, u₂, rfl, h₁, h₂⟩ := exits_bind_ok h
    rw [List.any_append, List.any_cons, (Mechanism.did_of_exits h₁).direct rfl, exits_doAll_ok h₂]

/-- A sequence that failed did so at one of its steps, and those before it succeeded. -/
theorem exits_doAll_error :
    ∀ {ms : List Mechanism} {u : List (Answered iface)}, (doAll d ms).Exits u (.error err) →
      ∃ before m after u₁ u₂, ms = before ++ m :: after ∧ u = u₁ ++ u₂ ∧
        (doAll d before).Exits u₁ (.ok ()) ∧ (m.run d).Exits u₂ (.error err)
  | [], u, h => by cases (exits_ret.mp h).2
  | m :: ms, u, h => by
    rcases exits_bind h with ⟨_, u₁, u₂, rfl, h₁, h₂⟩ | ⟨err', h₁, he⟩
    · obtain ⟨before, m', after, v₁, v₂, rfl, rfl, hv₁, hv₂⟩ := exits_doAll_error h₂
      exact ⟨m :: before, m', after, u₁ ++ v₁, v₂, rfl, by rw [List.append_assoc],
        Exits.bind (f := fun _ => doAll d before) hv₁ h₁, hv₂⟩
    · cases he
      exact ⟨[], m, ms, [], u, rfl, rfl, .refl, h₁⟩

theorem doAll_exits_error {after : List Mechanism}
    {u₂ : List (Answered iface)} (h₂ : (m.run d).Exits u₂ (.error err)) :
    ∀ {before : List Mechanism} {u₁ : List (Answered iface)}, (doAll d before).Exits u₁ (.ok ()) →
      (doAll d (before ++ m :: after)).Exits (u₁ ++ u₂) (.error err)
  | [], u₁, h₁ => by
    obtain ⟨rfl, -⟩ := exits_ret.mp h₁
    exact h₂.bind_error
  | m' :: before, u₁, h₁ => by
    obtain ⟨_, v₁, v₂, rfl, hv₁, hv₂⟩ := exits_bind_ok h₁
    rw [List.append_assoc]
    exact Exits.bind (f := fun _ => doAll d (before ++ m :: after)) (doAll_exits_error h₂ hv₂) hv₁

theorem exits_run {r : Runner} {ref notes : String} {reverse : Bool} {b : Binding}
    {res : Except String Outcome.Result}
    (hb : r.bindings.lookup ref = some b) (h : (r.run ref reverse notes).Exits u res) :
    (((b.op reverse).run (r.dispatch ref reverse notes)).Exits u (.ok ()) ∧
        res = .ok (resultOf (b.op reverse))) ∨
      ∃ err, ((b.op reverse).run (r.dispatch ref reverse notes)).Exits u (.error err) ∧
        res = .error ("actuate: " ++ ref ++ " (reverse=" ++ toString reverse ++ "): " ++ err) := by
  rw [Runner.run, hb] at h
  rcases exits_bind h with ⟨x, v, w, rfl, hv, hw⟩ | ⟨e, hv, -⟩
  · obtain ⟨x', hx, hop⟩ := exits_attempt.mp hv
    cases hx
    cases x with
    | ok _ =>
      obtain ⟨rfl, rfl⟩ := exits_ret.mp hw
      rw [List.append_nil]
      exact .inl ⟨hop, rfl⟩
    | error err =>
      obtain ⟨rfl, rfl⟩ := exits_fail.mp hw
      rw [List.append_nil]
      exact .inr ⟨err, hop, rfl⟩
  · obtain ⟨x, hx, -⟩ := exits_attempt.mp hv
    cases hx

end

/-! ## Results -/

theorem Mechanism.result_ne_failure (m : Mechanism) : m.result ≠ .failure := by
  cases m <;> exact nofun

theorem resultOf_ne_failure (op : Operation) : resultOf op ≠ .failure := by
  cases op with
  | one m => exact m.result_ne_failure
  | seq ms =>
    rw [resultOf]
    cases ms.getLast? with
    | none => exact nofun
    | some m => exact m.result_ne_failure

end Beats.Actuate
