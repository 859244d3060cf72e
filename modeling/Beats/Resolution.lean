import Beats.Actuate.Runner
import Beats.Clank.Engine
import Beats.Thump.Actuator

/-!
# What a contract's name stands for

Three components resolve the name of a contract on their own.  The engine and the actuator's
renderer ask the catalog, which finds the first entry of a name.  The engine admits a
candidate if some applicable entry has its name.  The runner has a map from names to
operations, in which a later entry replaced an earlier one.

Loading a catalog asks nothing of its names.  `resolution_agrees_iff` says that the entries
are the same for every name exactly if the document names no two contracts alike.
-/

namespace Beats

open Contract Actuate List

/-! ## Entries -/

namespace Contract

/-- The number of the entry that `ByName` finds: the first of the name. -/
def firstEntry (name : String) (cs : List ActionContract) : Option Nat :=
  cs.findIdx? fun c => c.name == name

/-- The place of the last contract of that name. -/
def lastEntry (name : String) : List ActionContract → Option Nat
  | [] => none
  | c :: cs =>
    match lastEntry name cs with
    | some i => some (i + 1)
    | none => if c.name = name then some 0 else none

variable {name : String} {c : ActionContract} {cs : List ActionContract}

theorem StaticCatalog.byName_eq (cat : StaticCatalog) (name : String) :
    cat.byName name = (firstEntry name cat.contracts).bind fun i => cat.contracts[i]? :=
  find?_eq_bind_findIdx?_getElem?

theorem lastEntry_eq_none : lastEntry name cs = none ↔ ∀ c ∈ cs, c.name ≠ name := by
  induction cs with
  | nil => simp [lastEntry]
  | cons c cs ih =>
    rw [forall_mem_cons, ← ih, lastEntry]
    cases lastEntry name cs <;> simp

theorem getElem?_lastEntry : ∀ {cs : List ActionContract} {i : Nat},
    lastEntry name cs = some i → ∃ c, cs[i]? = some c ∧ c.name = name
  | [], _, h => by cases h
  | c :: cs, i, h => by
    rw [lastEntry] at h
    cases hl : lastEntry name cs with
    | some j =>
      rw [hl] at h
      cases h
      rw [getElem?_cons_succ]
      exact getElem?_lastEntry hl
    | none =>
      rw [hl] at h
      obtain ⟨hc, he⟩ := Option.ite_none_right_eq_some.mp h
      cases he
      exact ⟨c, rfl, hc⟩

theorem lastEntry_cons_of_ne (h : c.name ≠ name) :
    lastEntry name (c :: cs) = (lastEntry name cs).map (· + 1) := by
  rw [lastEntry]
  cases lastEntry name cs <;> simp [h]

theorem firstEntry_cons_of_ne (h : c.name ≠ name) :
    firstEntry name (c :: cs) = (firstEntry name cs).map (· + 1) := by
  simp [firstEntry, findIdx?_cons, h]

/-- The first and the last entry of every name are the same exactly if no two entries have
the same name. -/
theorem firstEntry_eq_lastEntry_iff : ∀ {cs : List ActionContract},
    (∀ name, firstEntry name cs = lastEntry name cs) ↔ (cs.map ActionContract.name).Nodup
  | [] => by simp [firstEntry, lastEntry]
  | c :: cs => by
    rw [map_cons, nodup_cons, ← firstEntry_eq_lastEntry_iff]
    have hmem : c.name ∉ cs.map ActionContract.name ↔ lastEntry c.name cs = none := by
      rw [lastEntry_eq_none, mem_map]
      exact ⟨fun h d hd he => h ⟨d, hd, he⟩, fun h ⟨d, hd, he⟩ => h d hd he⟩
    have hhead : firstEntry c.name (c :: cs) = some 0 := by simp [firstEntry, findIdx?_cons]
    rw [hmem]
    constructor
    · intro h
      have hlast : lastEntry c.name cs = none := by
        have h0 := h c.name
        rw [hhead, lastEntry] at h0
        cases hl : lastEntry c.name cs with
        | none => rfl
        | some i => rw [hl] at h0; cases h0
      refine ⟨hlast, fun name => ?_⟩
      by_cases hne : c.name = name
      · subst hne
        rw [hlast, firstEntry, findIdx?_eq_none_iff]
        exact fun d hd => beq_false_of_ne (lastEntry_eq_none.mp hlast d hd)
      · have hn := h name
        rw [firstEntry_cons_of_ne hne, lastEntry_cons_of_ne hne] at hn
        exact Option.map_injective (add_left_injective 1) hn
    · rintro ⟨hlast, h⟩ name
      by_cases hne : c.name = name
      · subst hne
        rw [hhead, lastEntry, hlast, if_pos rfl]
      · rw [firstEntry_cons_of_ne hne, lastEntry_cons_of_ne hne, h name]

end Contract

/-! ## The runner's map -/

namespace Actuate

variable {forgeWired : Bool} {cs : List ActionContract} {bindings : List (String × Binding)}

/-- The map of a list has what its first entry adds to the map of the rest. -/
theorem bind_cons {c : ActionContract} (h : bind forgeWired (c :: cs) = .ok bindings) :
    ∃ b rest, bindingFor c forgeWired = .ok b ∧ bind forgeWired cs = .ok rest ∧
      bindings = if rest.any fun p => p.1 == c.name then rest else (c.name, b) :: rest := by
  rw [bind] at h
  cases hb : bindingFor c forgeWired with
  | error err =>
    rw [hb] at h
    cases h
  | ok b =>
    rw [hb] at h
    cases hr : bind forgeWired cs with
    | error err =>
      simp only [hr] at h
      cases h
    | ok rest =>
      simp only [hr] at h
      cases h
      exact ⟨b, rest, rfl, rfl, rfl⟩

theorem bindingFor_of_bind : ∀ {cs : List ActionContract} {bindings : List (String × Binding)},
    bind forgeWired cs = .ok bindings → ∀ c ∈ cs, ∃ b, bindingFor c forgeWired = .ok b
  | [], _, _, c, hc => by cases hc
  | c₀ :: cs, bindings, h, c, hc => by
    obtain ⟨b, rest, hb, hr, -⟩ := bind_cons h
    rcases mem_cons.mp hc with rfl | hc
    · exact ⟨b, hb⟩
    · exact bindingFor_of_bind hr c hc

/-- What an entry adds to the map of the entries after it. -/
theorem lookup_unless_bound (rest : List (String × Binding)) (b : Binding) (k name : String) :
    (if rest.any fun p => p.1 == k then rest else (k, b) :: rest).lookup name =
      (rest.lookup name).or (if k = name then some b else none) := by
  cases hany : rest.any fun p => p.1 == k with
  | true =>
    obtain ⟨p, hp, hk⟩ := any_eq_true.mp hany
    rw [if_pos rfl]
    by_cases hname : k = name
    · cases hl : rest.lookup name with
      | some b' => rfl
      | none =>
        have hne := lookup_eq_none_iff.mp hl p hp
        rw [beq_iff_eq.mp hk, hname] at hne
        simp at hne
    · rw [if_neg hname, Option.or_none]
  | false =>
    rw [if_neg Bool.false_ne_true, lookup_cons]
    by_cases hname : k = name
    · subst hname
      have hl : rest.lookup k = none := by
        rw [lookup_eq_none_iff]
        intro p hp
        have hne := any_eq_false.mp hany p hp
        exact bne_iff_ne.mpr fun he => hne (beq_iff_eq.mpr he.symm)
      simp [hl]
    · have hbeq : (name == k) = false := beq_false_of_ne (Ne.symm hname)
      rw [hbeq, if_neg hname, Option.or_none]

/-- The operations that the runner has for a name are those of the last entry of the name. -/
theorem lookup_bind : ∀ {cs : List ActionContract} {bindings : List (String × Binding)},
    bind forgeWired cs = .ok bindings → ∀ name,
      bindings.lookup name = (lastEntry name cs).bind fun i =>
        cs[i]?.bind fun c => (bindingFor c forgeWired).toOption
  | [], _, h, name => by
    cases h
    rfl
  | c :: cs, bindings, h, name => by
    obtain ⟨b, rest, hb, hr, rfl⟩ := bind_cons h
    rw [lookup_unless_bound, lookup_bind hr name, lastEntry]
    cases he : lastEntry name cs with
    | none => by_cases hname : c.name = name <;> simp [hname, hb, Except.toOption]
    | some i =>
      -- a later entry has the name, and it is bound
      obtain ⟨d, hd, -⟩ := getElem?_lastEntry he
      obtain ⟨b', hb'⟩ := bindingFor_of_bind hr d (mem_of_getElem? hd)
      simp [hd, hb', Except.toOption]

end Actuate

/-! ## Agreement -/

/-- Every component resolves the name to the contract: what the engine admits and stamps,
what the renderer takes its terms from, and what the runner runs. -/
structure ResolvesTo (cat : StaticCatalog) (forgeWired : Bool)
    (bindings : List (String × Binding)) (name : String) (c : ActionContract) : Prop where
  admitted : ∀ cls tier sao, ∀ ct ∈ cat.applicable cls tier sao, ct.name = name → ct = c
  stamped : ∀ cand, cand.contractRef = name → Clank.Engine.enrich cat cand =
    Clank.Engine.stamp c cand
  rendered : ∀ g now order, Thump.Actuator.render g cat now = .ok order →
    order.contractRef = name → ∃ cand, order = Thump.orderOf g.decision g.set cand c now
  executed : ∃ b, bindingFor c forgeWired = .ok b ∧ bindings.lookup name = some b

/-- The entry that the catalog finds for a name and the entry that the runner runs for it,
in every catalog that is loaded and bound.  They are the same for all names exactly if the
names of the document are distinct, and then every component means the same contract. -/
theorem resolution_agrees_iff {parse : String → Except String (List ActionContract)}
    {raw : String} {reg : PreconditionRegistry} {cat : StaticCatalog} {forgeWired : Bool}
    {bindings : List (String × Binding)} (hload : load parse raw reg = .ok cat)
    (hbind : bind forgeWired cat.contracts = .ok bindings) :
    (∀ name, cat.byName name =
      (firstEntry name cat.contracts).bind fun i => cat.contracts[i]?) ∧
    (∀ name, bindings.lookup name = (lastEntry name cat.contracts).bind fun i =>
      cat.contracts[i]?.bind fun c => (bindingFor c forgeWired).toOption) ∧
    ∃ doc, parse raw = .ok doc ∧
      ((∀ name, firstEntry name cat.contracts = lastEntry name cat.contracts) ↔
        (doc.map ActionContract.name).Nodup) ∧
      ((doc.map ActionContract.name).Nodup →
        ∀ c ∈ cat.contracts, ResolvesTo cat forgeWired bindings c.name c) := by
  obtain ⟨doc, hdoc, hnames⟩ := names_of_load hload
  refine ⟨cat.byName_eq, lookup_bind hbind, doc, hdoc, ?_, fun hd c hc => ?_⟩
  · rw [← hnames]
    exact firstEntry_eq_lastEntry_iff
  · rw [← hnames] at hd
    have hby : cat.byName c.name = some c := StaticCatalog.byName_of_mem hd hc
    have hfirst := cat.byName_eq c.name
    rw [firstEntry_eq_lastEntry_iff.mpr hd, hby] at hfirst
    obtain ⟨b, hb⟩ := bindingFor_of_bind hbind c hc
    refine ⟨fun cls tier sao ct hct hname => ?_, fun cand href => ?_,
      fun g now order hrender href => ?_, b, hb, ?_⟩
    · have hct' := StaticCatalog.byName_of_mem hd (StaticCatalog.mem_of_mem_applicable hct)
      rw [hname, hby] at hct'
      exact (Option.some.inj hct').symm
    · rw [Clank.Engine.enrich, href, hby]
    · obtain ⟨cand, ct, hgranted, rfl⟩ := Thump.Actuator.render_ok_iff.mp hrender
      have hct := hgranted.contract
      rw [show cand.contractRef = c.name from href, hby] at hct
      cases hct
      exact ⟨cand, rfl⟩
    · obtain ⟨i, hi, hc'⟩ := Option.bind_eq_some_iff.mp hfirst.symm
      rw [lookup_bind hbind, hi, Option.bind_some, hc', Option.bind_some, hb]
      rfl

def scaling (name : String) (blastTier : Proposal.BlastTier) (replicas : Int) :
    ActionContract where
  name := name
  blastTier := blastTier
  execution :=
    { forward := [{ verb := "scale", «namespace» := "shop", deployment := "cart"
                    replicas := some replicas }]
      reverse := [{ verb := "scale", «namespace» := "shop", deployment := "cart"
                    replicas := some 1 }] }

/-- A document with two names. -/
def twoScalings : List ActionContract := [scaling "widen" .low 3, scaling "drain" .high 0]

theorem twoScalings_resolve :
    ∃ bindings, load (fun _ => .ok twoScalings) "" Preconditions = .ok ⟨twoScalings⟩ ∧
      bind false twoScalings = .ok bindings ∧
      ∀ c ∈ twoScalings, ResolvesTo ⟨twoScalings⟩ false bindings c.name c := by
  have hload : load (fun _ => .ok twoScalings) "" Preconditions = .ok ⟨twoScalings⟩ := rfl
  obtain ⟨bindings, hbind⟩ : ∃ bindings, bind false twoScalings = .ok bindings := ⟨_, rfl⟩
  obtain ⟨-, -, doc, hdoc, -, hall⟩ := resolution_agrees_iff hload hbind
  cases hdoc
  exact ⟨bindings, hload, hbind, hall (by decide)⟩

/-- A document that names two contracts alike. -/
def repeatedScalings : List ActionContract := [scaling "widen" .low 3, scaling "widen" .high 0]

/-- It is loaded and bound.  A candidate for the name is stamped with the low blast tier of
the first entry, and what is run scales the deployment to nothing. -/
theorem repeatedScalings_disagree :
    ∃ bindings b, load (fun _ => .ok repeatedScalings) "" Preconditions = .ok ⟨repeatedScalings⟩ ∧
      bind false repeatedScalings = .ok bindings ∧
      (Clank.Engine.enrich ⟨repeatedScalings⟩ { contractRef := "widen" }).blastTier = .low ∧
      bindings.lookup "widen" = some b ∧ b.forward = .one (.scale "shop" "cart" 0) ∧
      bindingFor (scaling "widen" .low 3) false =
        .ok { b with forward := .one (.scale "shop" "cart" 3) } :=
  ⟨_, _, rfl, rfl, rfl, rfl, rfl, rfl⟩

end Beats
