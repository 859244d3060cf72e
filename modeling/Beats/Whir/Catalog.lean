import Mathlib.Data.List.Basic
import Beats.Api.Proposal

/-!
# The declared dependencies

`Load` and `Catalog` of `internal/whir`, and what `internal/clank` reads off a catalog: what a
service depends on, and who depends on it.

The first is read off the first entity of a name, and the second off all of them.  So the two agree
on a pair of names exactly if the first entity of the one declares the other wherever one of its
entities does (`views_agree_iff`).  A catalog that describes a service twice has views that do not
(`twice_disagrees`).
-/

namespace Beats.Whir

open Proposal List

structure Entity where
  name : String
  dependsOn : List String
deriving DecidableEq

structure Catalog where
  entities : List Entity := []
deriving DecidableEq

/-- What the first service of that name depends on. -/
def Catalog.edges (c : Catalog) (name : String) : List String :=
  match c.entities.find? fun e => e.name == name with
  | some e => e.dependsOn
  | none => []

/-- What is decoded of a document: `metadata.name` and `spec.dependsOn`. -/
structure Document where
  name : String := ""
  dependsOn : List String := []

/-- `bytes.SplitSeq` at the text that ends a document. -/
def splitDocs : List Char → List (List Char)
  | '\n' :: '-' :: '-' :: '-' :: cs => [] :: splitDocs cs
  | c :: cs =>
    match splitDocs cs with
    | [] => [[c]]
    | doc :: docs => (c :: doc) :: docs
  | [] => [[]]

/-- A reference without what stands before its last slash. -/
def bareName (ref : String) : String :=
  String.ofList (ref.toList.reverse.takeWhile (· ≠ '/')).reverse

/-- `Load`, with `yaml.Unmarshal`. -/
def load (unmarshal : List Char → Except String Document) (raw : List Char) :
    Except String Catalog := do
  let docs ← (splitDocs raw).mapM fun doc =>
    (unmarshal doc).mapError ("parse catalog doc: " ++ ·)
  return { entities := (docs.filter fun e => e.name ≠ "").map fun e =>
    { name := e.name, dependsOn := e.dependsOn.map bareName } }

/-- `Resolver.State`, where a resolver is wired. -/
abbrev Resolver := Option (String → String)

/-- The state of a service, as far as it is known. -/
def resolveState (resolver : Resolver) (dependency : String) : String :=
  match resolver with
  | none => "unknown"
  | some state => state dependency

/-- What the service depends on, with its states. -/
def catalogUpstream (catalog : Catalog) (resolver : Resolver) (origin : String) : List NodeState :=
  (catalog.edges origin).map fun dep => { name := dep, state := resolveState resolver dep }

/-- What depends on the service, with its states. -/
def catalogDownstream (catalog : Catalog) (resolver : Resolver) (origin : String) :
    List NodeState :=
  (catalog.entities.filter fun e => e.name ≠ origin ∧ origin ∈ e.dependsOn).map fun e =>
    { name := e.name, state := resolveState resolver e.name }

section

variable {catalog : Catalog} {resolver : Resolver} {a b : String}

/-- The two views agree on what `a` declares of `b`. -/
def Agrees (catalog : Catalog) (resolver : Resolver) (a b : String) : Prop :=
  b ∈ (catalogUpstream catalog resolver a).map NodeState.name ↔
    (∃ e ∈ catalog.entities, e.name = a) ∧
      a ∈ (catalogDownstream catalog resolver b).map NodeState.name

theorem mem_upstream :
    b ∈ (catalogUpstream catalog resolver a).map NodeState.name ↔ b ∈ catalog.edges a := by
  simp [catalogUpstream]

theorem mem_downstream (hne : a ≠ b) :
    a ∈ (catalogDownstream catalog resolver b).map NodeState.name ↔
      ∃ e ∈ catalog.entities, e.name = a ∧ b ∈ e.dependsOn := by
  simp only [catalogDownstream, map_map, mem_map, mem_filter, decide_eq_true_eq]
  constructor
  · rintro ⟨e, ⟨he, -, hb⟩, rfl⟩
    exact ⟨e, he, rfl, hb⟩
  · rintro ⟨e, he, rfl, hb⟩
    exact ⟨e, ⟨he, hne, hb⟩, rfl⟩

/-- The entity is the first of the name. -/
def Catalog.First (catalog : Catalog) (name : String) (e : Entity) : Prop :=
  ∃ before after, catalog.entities = before ++ e :: after ∧ e.name = name ∧
    ∀ e' ∈ before, e'.name ≠ name

theorem mem_edges : b ∈ catalog.edges a ↔ ∃ e, catalog.First a e ∧ b ∈ e.dependsOn := by
  have hfirst (e : Entity) :
      (catalog.entities.find? fun e => e.name == a) = some e ↔ catalog.First a e := by
    rw [find?_eq_some_iff_append, Catalog.First]
    constructor
    · rintro ⟨hname, before, after, hsplit, hbefore⟩
      exact ⟨before, after, hsplit, by simpa using hname, fun e he => by simpa using hbefore e he⟩
    · rintro ⟨before, after, hsplit, hname, hbefore⟩
      exact ⟨by simpa using hname, before, after, hsplit, fun e he => by simpa using hbefore e he⟩
  simp only [Catalog.edges, ← hfirst]
  split <;> simp [*]

/-- Of every catalog the two views agree on two names exactly if the first entity of the one
declares the other, where an entity of it does. -/
theorem views_agree_iff (catalog : Catalog) (resolver : Resolver) {a b : String} (hne : a ≠ b) :
    Agrees catalog resolver a b ↔ ∀ e ∈ catalog.entities, e.name = a → b ∈ e.dependsOn →
      ∃ e', catalog.First a e' ∧ b ∈ e'.dependsOn := by
  rw [Agrees, mem_upstream, mem_edges, mem_downstream hne]
  constructor
  · intro h e he ha hb
    exact h.mpr ⟨⟨e, he, ha⟩, e, he, ha, hb⟩
  · intro h
    refine ⟨?_, fun ⟨_, e, he, ha, hb⟩ => h e he ha hb⟩
    rintro ⟨e, ⟨before, after, hsplit, ha, -⟩, hb⟩
    have he : e ∈ catalog.entities := by simp [hsplit]
    exact ⟨⟨e, he, ha⟩, e, he, ha, hb⟩

end

/-- A document of the service `cart` with one dependency. -/
def cartYaml (dependency : String) : List Char :=
  ("metadata:\n  name: cart\nspec:\n  dependsOn:\n    - " ++ dependency).toList

def onRedis : List Char := cartYaml "component:default/redis"

def onPostgres : List Char := cartYaml "resource:default/postgres"

/-- `yaml.Unmarshal` on the documents below, of which one is after the line of a separator. -/
def unmarshalCart (doc : List Char) : Except String Document :=
  if doc = onRedis then .ok { name := "cart", dependsOn := ["component:default/redis"] }
  else if doc = '\n' :: onPostgres then
    .ok { name := "cart", dependsOn := ["resource:default/postgres"] }
  else .error "did not find expected node content"

theorem once_agrees : ∃ catalog, load unmarshalCart onRedis = .ok catalog ∧
    catalog.edges "cart" = ["redis"] ∧ Agrees catalog none "cart" "redis" := by
  refine ⟨{ entities := [⟨"cart", ["redis"]⟩] }, by decide +kernel, by decide +kernel, ?_⟩
  refine (views_agree_iff _ none (by decide)).mpr fun e he ha hb => ?_
  cases mem_singleton.mp he
  exact ⟨_, ⟨[], [], rfl, rfl, nofun⟩, hb⟩

/-- Two documents of one service: its second dependency is seen from one side only. -/
theorem twice_disagrees : ∃ catalog,
    load unmarshalCart (onRedis ++ "\n---\n".toList ++ onPostgres) = .ok catalog ∧
      ¬ Agrees catalog none "cart" "postgres" := by
  refine ⟨{ entities := [⟨"cart", ["redis"]⟩, ⟨"cart", ["postgres"]⟩] }, by decide +kernel, ?_⟩
  unfold Agrees
  decide +kernel

end Beats.Whir
