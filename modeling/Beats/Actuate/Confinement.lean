import Beats.Actuate.Runner

/-!
# What a run may call

Everything that changes the cluster or the forge goes through three calls of the actuator: an exec,
a patch, and the cut of a release.  A runner is bound from a catalog (`newWith`), and a run of it
makes exactly the calls that the authored steps of one contract and direction name, one for each
step, in order, up to the step that fails (`run_confined`).

A step may read before it calls: the clock for a restart, and the current document for the edit of a
flag.  What it reads is among its own calls (`Issues`), so nothing that a step sends comes from
elsewhere in the run.
-/

namespace Beats.Actuate

open Lib Contract List Prog

/-- The runner of a catalog, if every contract of it binds. -/
def newWith (cat : StaticCatalog) (forgeWired : Bool)
    (setDefaultVariant : (doc flag variant : String) → Except String String) :
    Except String Runner :=
  (bind forgeWired cat.contracts).map fun bindings =>
    { bindings := bindings, forgeWired := forgeWired, setDefaultVariant := setDefaultVariant }

/-- The steps that a contract authors for one direction. -/
def authored (c : ActionContract) (reverse : Bool) : List Step :=
  if reverse then c.execution.reverse else c.execution.forward

/-! ## The calls of a step -/

/-- The call is one of the three that change something. -/
def mutating : Answered iface → Bool
  | ⟨.exec _ _ _, _⟩ => true
  | ⟨.patch _ _ _ _ _ _, _⟩ => true
  | ⟨.cut _, _⟩ => true
  | _ => false

/-- The call was not answered with an error. -/
def accepted : Answered iface → Bool
  | ⟨.exec _ _ _, r⟩ => Except.isOk r
  | ⟨.patch _ _ _ _ _ _, r⟩ => Except.isOk r
  | ⟨.cut _, r⟩ => Except.isOk r
  | _ => true

/-- The call that a step makes of what it has read. -/
inductive Issues (d : Dispatch) (s : Step) (calls : List (Answered iface)) : Call → Prop where
  | exec (hv : s.verb = "exec") : Issues d s calls (.exec s.namespace s.selector s.command)
  | scale {n : Int} (hv : s.verb = "scale") (hn : s.replicas = some n) :
      Issues d s calls (.patch "apps" "v1" "deployments" s.namespace s.deployment (.replicas n))
  | restart {now : Time} (hv : s.verb = "restart") (hnow : ⟨.now, now⟩ ∈ calls) :
      Issues d s calls
        (.patch "apps" "v1" "deployments" s.namespace s.deployment (.restartedAt now))
  | flagVariant {doc updated : String} (hv : s.verb = "flagVariant")
      (hread : ⟨.getConfigMapKey s.namespace s.configMap s.dataKey, Except.ok doc⟩ ∈ calls)
      (hedit : d.setDefaultVariant doc s.flag s.variant = .ok updated) :
      Issues d s calls
        (.patch "" "v1" "configmaps" s.namespace s.configMap (.data s.dataKey updated))
  | maintenanceRelease {doc content : String} (hv : s.verb = "maintenanceRelease")
      (hread : ⟨.read s.path, Except.ok doc⟩ ∈ calls)
      (hedit : d.setDefaultVariant doc s.flag s.variant = .ok content) :
      Issues d s calls
        (.cut { key := releaseKey d.ref d.reverse, path := s.path, content, notes := d.notes })

/-- What a step called, and whether it succeeded: it made its one call, and the answer decides, or
it made none and failed. -/
inductive Acted (d : Dispatch) (s : Step) (calls : List (Answered iface)) : Bool → Prop where
  | issued {c : Call} {r : iface.Answer c} (hcalls : calls.filter mutating = [⟨c, r⟩])
      (hc : Issues d s calls c) : Acted d s calls (accepted ⟨c, r⟩)
  | stopped (hcalls : calls.filter mutating = []) : Acted d s calls false

/-- The calls of a run are those of its steps: of all of them if it succeeded, and otherwise of the
steps before one that failed, and of that one. -/
inductive Confined (d : Dispatch) (steps : List Step) (t : List (Answered iface)) :
    Bool → Prop where
  | whole {done : List (List (Answered iface))} (ht : t = done.flatten)
      (hsteps : List.Forall₂ (fun s calls => Acted d s calls true) steps done) :
      Confined d steps t true
  | broken {before after : List Step} {s : Step} {done : List (List (Answered iface))}
      {last : List (Answered iface)} (hsteps : steps = before ++ s :: after)
      (ht : t = done.flatten ++ last)
      (hbefore : List.Forall₂ (fun s calls => Acted d s calls true) before done)
      (hlast : Acted d s last false) : Confined d steps t false

/-! ## Runs of a mechanism -/

section

variable {d : Dispatch} {s : Step} {m : Mechanism} {t : List (Answered iface)}

variable {out : Except String Unit}

theorem exits_orFail {α ε' : Type} {wrap : ε' → String} {x : Except ε' α}
    {f : α → Prog iface String Unit}
    (h : (orFail wrap x >>= f).Exits t out) :
    (∃ a, x = .ok a ∧ (f a).Exits t out) ∨ (t = [] ∧ out.isOk = false) := by
  cases x with
  | ok a => exact .inl ⟨a, rfl, h⟩
  | error err =>
    obtain ⟨rfl, rfl⟩ := exits_fail.mp h
    exact .inr ⟨rfl, rfl⟩

theorem exits_orFail_id {r : Except String Unit}
    (h : (orFail id r : Prog iface String Unit).Exits t out) : t = [] ∧ out = r := by
  cases r with
  | ok _ => exact exits_ret.mp h
  | error err => exact exits_fail.mp h

theorem Acted.of_last {c : Call} {r : iface.Answer c} {ok : Bool} (reads : List (Answered iface))
    (hreads : reads.filter mutating = []) (hc : Issues d s (reads ++ [⟨c, r⟩]) c)
    (hm : mutating ⟨c, r⟩ = true) (hok : accepted ⟨c, r⟩ = ok) :
    Acted d s (reads ++ [⟨c, r⟩]) ok := by
  have hcalls : (reads ++ [(⟨c, r⟩ : Answered iface)]).filter mutating = [⟨c, r⟩] := by
    rw [filter_append, hreads, nil_append, filter_cons_of_pos hm, filter_nil]
  exact hok ▸ .issued hcalls hc

/-- A run of the mechanism that a step names makes the call of the step. -/
theorem Names.acted (hm : Names s m) (h : (m.run d).Exits t out) : Acted d s t out.isOk := by
  cases hm with
  | exec hv =>
    obtain ⟨r, t₁, rfl, h₁⟩ := exits_ask_bind.mp h
    obtain ⟨rfl, rfl⟩ := exits_orFail_id h₁
    exact Acted.of_last [] rfl (.exec hv) rfl rfl
  | scale hv hn =>
    obtain ⟨r, t₁, rfl, h₁⟩ := exits_ask_bind.mp h
    obtain ⟨rfl, rfl⟩ := exits_orFail_id h₁
    exact Acted.of_last [] rfl (.scale hv hn) rfl rfl
  | restart hv =>
    obtain ⟨now, t₁, rfl, h₁⟩ := exits_ask_bind.mp h
    obtain ⟨r, t₂, rfl, h₂⟩ := exits_ask_bind.mp h₁
    obtain ⟨rfl, rfl⟩ := exits_orFail_id h₂
    exact Acted.of_last [⟨.now, now⟩] rfl (.restart hv (.head _)) rfl rfl
  | flagVariant hv =>
    obtain ⟨read, t₁, rfl, h₁⟩ := exits_ask_bind.mp h
    rcases exits_orFail h₁ with ⟨doc, rfl, h₂⟩ | ⟨rfl, hout⟩
    · rcases exits_orFail h₂ with ⟨updated, hedit, h₃⟩ | ⟨rfl, hout⟩
      · obtain ⟨r, t₂, rfl, h₄⟩ := exits_ask_bind.mp h₃
        obtain ⟨rfl, rfl⟩ := exits_orFail_id h₄
        exact Acted.of_last [⟨.getConfigMapKey s.namespace s.configMap s.dataKey, .ok doc⟩] rfl
          (.flagVariant hv (.head _) hedit) rfl rfl
      · exact hout ▸ .stopped rfl
    · exact hout ▸ .stopped rfl
  | maintenanceRelease hv =>
    rw [Mechanism.run] at h
    split at h
    · obtain ⟨rfl, rfl⟩ := exits_fail.mp h
      exact .stopped rfl
    · obtain ⟨read, t₁, rfl, h₁⟩ := exits_ask_bind.mp h
      rcases exits_orFail h₁ with ⟨doc, rfl, h₂⟩ | ⟨rfl, hout⟩
      · rcases exits_orFail h₂ with ⟨content, hedit, h₃⟩ | ⟨rfl, hout⟩
        · obtain ⟨r, t₂, rfl, h₄⟩ := exits_ask_bind.mp h₃
          cases r with
          | ok url =>
            obtain ⟨rfl, rfl⟩ := exits_ret.mp h₄
            exact Acted.of_last [⟨.read s.path, .ok doc⟩] rfl
              (.maintenanceRelease hv (.head _) hedit) rfl rfl
          | error err =>
            obtain ⟨rfl, rfl⟩ := exits_fail.mp h₄
            exact Acted.of_last [⟨.read s.path, .ok doc⟩] rfl
              (.maintenanceRelease hv (.head _) hedit) rfl rfl
        · exact hout ▸ .stopped rfl
      · exact hout ▸ .stopped rfl

/-! ## Runs of a sequence -/

theorem Confined.cons {steps : List Step} {u : List (Answered iface)} {ok : Bool}
    (hs : Acted d s u true) (h : Confined d steps t ok) :
    Confined d (s :: steps) (u ++ t) ok := by
  cases h with
  | whole ht hsteps => exact .whole (by rw [ht, flatten_cons]) (.cons hs hsteps)
  | broken hsteps ht hbefore hlast =>
    refine .broken (by rw [hsteps, cons_append]) ?_ (.cons hs hbefore) hlast
    rw [ht, flatten_cons, append_assoc]

theorem confined_doAll {steps : List Step} {ms : List Mechanism}
    (hms : Forall₂ Names steps ms) (h : (doAll d ms).Exits t out) :
    Confined d steps t out.isOk := by
  induction hms generalizing t with
  | nil =>
    obtain ⟨rfl, rfl⟩ := exits_ret.mp h
    exact @Confined.whole d [] [] [] rfl .nil
  | @cons s m steps ms hm _ ih =>
    rcases exits_bind h with ⟨_, u, v, rfl, hu, hv⟩ | ⟨err, hu, rfl⟩
    · exact (ih hv).cons (hm.acted hu)
    · exact @Confined.broken d (s :: steps) _ [] steps s [] _ rfl rfl .nil (hm.acted hu)

theorem exits_doAll_mechanisms {op : Operation}
    (h : (op.run d).Exits t out) : (doAll d op.mechanisms).Exits t out := by
  cases op with
  | seq ms => exact h
  | one m =>
    cases out with
    | ok _ =>
      rw [← append_nil t]
      exact Exits.bind (exits_ret.mpr ⟨rfl, rfl⟩) h
    | error err => exact h.bind_error

end

/-! ## What a catalog is bound to -/

section

variable {forgeWired : Bool}

theorem lookup_bind_of_notMem : ∀ {cs : List ActionContract} {bs : List (String × Binding)},
    bind forgeWired cs = .ok bs → ∀ {ref : String}, ref ∉ cs.map ActionContract.name →
      bs.lookup ref = none
  | [], bs, h, ref, _ => by
    cases h
    rfl
  | c :: cs, bs, h, ref, href => by
    rw [bind] at h
    obtain ⟨hne, href⟩ := not_or.mp (mt mem_cons.mpr href)
    cases hb : bindingFor c forgeWired with
    | error err => rw [hb] at h; cases h
    | ok b =>
      rw [hb] at h
      cases hrest : bind forgeWired cs with
      | error err => rw [hrest] at h; cases h
      | ok rest =>
        rw [hrest] at h
        cases h
        have hnone := lookup_bind_of_notMem hrest href
        dsimp only
        split
        · exact hnone
        · rw [lookup_cons, beq_false_of_ne hne]
          exact hnone

theorem lookup_bind_of_mem : ∀ {cs : List ActionContract} {bs : List (String × Binding)},
    (cs.map ActionContract.name).Nodup → bind forgeWired cs = .ok bs → ∀ {c : ActionContract},
      c ∈ cs → ∃ b, bindingFor c forgeWired = .ok b ∧ bs.lookup c.name = some b
  | [], _, _, _, _, hc => by cases hc
  | c :: cs, bs, hd, h, c', hc' => by
    rw [bind] at h
    obtain ⟨hfresh, hd⟩ := nodup_cons.mp hd
    cases hb : bindingFor c forgeWired with
    | error err => rw [hb] at h; cases h
    | ok b =>
      rw [hb] at h
      cases hrest : bind forgeWired cs with
      | error err => rw [hrest] at h; cases h
      | ok rest =>
        rw [hrest] at h
        cases h
        have hnone : rest.any (fun p => p.1 == c.name) = false := by
          rw [any_eq_false]
          intro p hp heq
          have := lookup_eq_none_iff.mp (lookup_bind_of_notMem hrest hfresh) p hp
          simp [eq_of_beq heq] at this
        dsimp only
        rw [hnone]
        rcases mem_cons.mp hc' with rfl | hc'
        · exact ⟨b, hb, lookup_cons_self⟩
        · obtain ⟨b', hb', hlookup⟩ := lookup_bind_of_mem hd hrest hc'
          refine ⟨b', hb', ?_⟩
          have hne : c'.name ≠ c.name := fun heq =>
            hfresh (heq ▸ mem_map_of_mem hc')
          simp only [Bool.false_eq_true, if_false, lookup_cons, beq_false_of_ne hne]
          exact hlookup

theorem names_of_bindingFor {c : ActionContract} {b : Binding}
    (h : bindingFor c forgeWired = .ok b) (reverse : Bool) :
    Forall₂ Names (authored c reverse) (b.op reverse).mechanisms := by
  have hop : opFor (authored c reverse) forgeWired = .ok (b.op reverse) := by
    unfold bindingFor at h
    split at h
    · cases h
    next hforward =>
      split at h
      · cases h
      next hreverse =>
        cases h
        cases reverse with
        | false => exact hforward
        | true => exact hreverse
  exact (opFor_forall₂ hop).2.imp fun _ _ hm => names_of_mechanismFor hm

end

/-- Of every catalog with distinct names that binds: whatever the cluster and the forge answer, a
run calls what the authored steps of the contract and direction name, and a name outside the
catalog calls nothing. -/
theorem run_confined {cat : StaticCatalog} (hd : cat.DistinctNames) {forgeWired : Bool}
    {setDefaultVariant : (doc flag variant : String) → Except String String} {r : Runner}
    (hr : newWith cat forgeWired setDefaultVariant = .ok r) (ref : String) (reverse : Bool)
    (notes : String) {t : List (Answered iface)} {out : Except String Outcome.Result}
    (h : (r.run ref reverse notes).Exits t out) :
    (∀ c ∈ cat.contracts, c.name = ref →
      Confined (r.dispatch ref reverse notes) (authored c reverse) t out.isOk) ∧
    ((∀ c ∈ cat.contracts, c.name ≠ ref) → t = [] ∧ out.isOk = false) := by
  obtain ⟨bs, hbs, rfl⟩ : ∃ bs, bind forgeWired cat.contracts = .ok bs ∧
      r = { bindings := bs, forgeWired := forgeWired, setDefaultVariant := setDefaultVariant } := by
    unfold newWith at hr
    cases hbs : bind forgeWired cat.contracts with
    | error err => rw [hbs] at hr; cases hr
    | ok bs =>
      rw [hbs] at hr
      cases hr
      exact ⟨bs, rfl, rfl⟩
  constructor
  · rintro c hc rfl
    obtain ⟨b, hb, hlookup⟩ := lookup_bind_of_mem hd hbs hc
    have hnames := names_of_bindingFor hb reverse
    rcases exits_run hlookup h with ⟨hop, rfl⟩ | ⟨err, hop, rfl⟩
    · exact confined_doAll hnames (exits_doAll_mechanisms hop)
    · exact confined_doAll hnames (exits_doAll_mechanisms hop)
  · intro hno
    have hnone : bs.lookup ref = none := by
      refine lookup_bind_of_notMem hbs fun hmem => ?_
      obtain ⟨c, hc, hname⟩ := mem_map.mp hmem
      exact hno c hc hname
    rw [Runner.run] at h
    simp only [hnone] at h
    obtain ⟨rfl, rfl⟩ := exits_fail.mp h
    exact ⟨rfl, rfl⟩

def drainCatalog : StaticCatalog where
  contracts :=
    [{ name := "drain"
       execution :=
         { forward :=
             [{ verb := "scale", «namespace» := "shop", deployment := "cart", replicas := some 0 },
               { verb := "restart", «namespace» := "shop", deployment := "checkout" }]
           reverse :=
             [{ verb := "scale", «namespace» := "shop", deployment := "cart"
                replicas := some 2 }] } }]

def drainRunner : Runner where
  bindings :=
    [("drain",
      { forward := .seq [.scale "shop" "cart" 0, .restart "shop" "checkout"]
        reverse := .one (.scale "shop" "cart" 2) })]
  setDefaultVariant doc _ _ := .ok doc

def scaleOnly : (c : Call) → iface.Answer c
  | .exec _ _ _ => Except.ok ()
  | .patch _ _ _ _ _ (.restartedAt _) => Except.error "forbidden"
  | .patch _ _ _ _ _ _ => Except.ok ()
  | .getConfigMapKey _ _ _ => Except.ok ""
  | .read _ => Except.ok ""
  | .cut _ => Except.ok ""
  | .now => (0 : Int)

def drainCalls (ref : String) : List (Answered iface) :=
  (Prog.play (fun _ c => (scaleOnly c, ())) () (drainRunner.run ref false "")).2

/-- The run calls for both steps and ends with the second, and a name outside the catalog calls
nothing. -/
theorem drain_confined :
    newWith drainCatalog false (fun doc _ _ => .ok doc) = .ok drainRunner ∧
    (∀ c ∈ drainCatalog.contracts, Confined (drainRunner.dispatch "drain" false "")
      (authored c false) (drainCalls "drain") false) ∧
    (drainCalls "drain").length = 3 ∧ drainCalls "restart" = [] := by
  have hr : newWith drainCatalog false (fun doc _ _ => .ok doc) = .ok drainRunner := rfl
  have hd : drainCatalog.DistinctNames := pairwise_singleton _ _
  have hruns (ref : String) : (drainRunner.run ref false "").Exits (drainCalls ref)
      (Prog.play (fun _ c => (scaleOnly c, ())) () (drainRunner.run ref false "")).1 :=
    exits_play _ _ ()
  refine ⟨hr, fun c hc => ?_, rfl, ?_⟩
  · refine (run_confined hd hr "drain" false "" (hruns "drain")).1 c hc ?_
    rw [mem_singleton.mp hc]
  · refine ((run_confined hd hr "restart" false "" (hruns "restart")).2 fun c hc => ?_).1
    rw [mem_singleton.mp hc]
    decide

end Beats.Actuate
