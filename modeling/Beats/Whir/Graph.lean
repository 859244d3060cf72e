import Mathlib.Algebra.BigOperators.Ring.List
import Mathlib.Algebra.Order.Field.Rat
import Mathlib.Algebra.Order.BigOperators.Group.List
import Mathlib.Data.List.Sort
import Mathlib.Data.String.Basic
import Beats.Api.Proposal

/-!
# The observed graph

`GraphSource` of `internal/whir`: the edges of a service by the requests that were counted on them,
each with its share of the total.  A map has the requests of a node, and a list the nodes.  A node
that comes up twice is listed twice, counted twice in the total and once in the map, so the edges
are a distribution exactly if no usable series repeats a node (`queryEdges_distributed_iff`).
-/

namespace Beats.Whir

open Lib List

/-- A series of an instant query: its labels, and what `parseRawFloat` reads of its value. -/
structure Series where
  metric : String → String
  value : Rat

structure Edge where
  client : String := ""
  server : String := ""
  share : Rat := 0
  failRate : Rat := 0
  state : String := ""
deriving DecidableEq

/-- The queries, and when an edge is degraded. -/
structure GraphQueries where
  requests : String := ""
  failed : String := ""
  inboundRequests : String := ""
  inboundFailed : String := ""
  failedThreshold : Rat := 0

/-- `whir.GraphSource`, with `fmt.Sprintf` of a template and the answers of the backend. -/
structure GraphSource where
  window : Duration := 0
  queries : GraphQueries := {}
  sprintf : String → String → String → String
  instantQuery : String → Except String (List Series)

/-- The variables of the loop over the request series. -/
structure Tally where
  reqMap : String → Rat := fun _ => 0
  totalReq : Rat := 0
  others : List String := []

/-- The body of that loop. -/
def Tally.add (otherLabel : String) (t : Tally) (res : Series) : Tally :=
  if res.metric otherLabel = "" then t
  else if res.value ≤ 0 then t
  else
    { reqMap := Function.update t.reqMap (res.metric otherLabel) res.value
      totalReq := t.totalReq + res.value
      others := t.others ++ [res.metric otherLabel] }

/-- The body of the loop over the failure series. -/
def addFailed (otherLabel : String) (failMap : String → Rat) (res : Series) : String → Rat :=
  if res.metric otherLabel = "" then failMap
  else Function.update failMap (res.metric otherLabel) res.value

namespace GraphSource

def windowStr (g : GraphSource) : String :=
  Fmt.duration (if g.window ≤ 0 then 300000000000 else g.window)

/-- The failures by node, none where the query is unset or fails. -/
def failures (g : GraphSource) (failTemplate name otherLabel : String) : String → Rat :=
  if failTemplate = "" then fun _ => 0
  else
    match g.instantQuery (g.sprintf failTemplate name g.windowStr) with
    | .error _ => fun _ => 0
    | .ok results => results.foldl (addFailed otherLabel) fun _ => 0

/-- The edge to a node, of the tallied requests and the failures. -/
def edge (g : GraphSource) (newEdge : String → Edge) (t : Tally) (failMap : String → Rat)
    (other : String) : Edge :=
  let threshold := if g.queries.failedThreshold ≤ 0 then 1 / 20 else g.queries.failedThreshold
  let req := t.reqMap other
  let failRate := if 0 < req then failMap other / req else 0
  { newEdge other with
    share := req / t.totalReq
    failRate := failRate
    state := if threshold ≤ failRate then "degraded" else "healthy" }

/-- The edges of a service, from two queries. -/
def queryEdges (g : GraphSource) (reqTemplate failTemplate name otherLabel : String)
    (newEdge : String → Edge) : List Edge :=
  if reqTemplate = "" then []
  else
    match g.instantQuery (g.sprintf reqTemplate name g.windowStr) with
    | .error _ => []
    | .ok results =>
      let t := results.foldl (Tally.add otherLabel) {}
      if t.totalReq ≤ 0 then []
      else
        (t.others.insertionSort (· ≤ ·)).map
          (g.edge newEdge t (g.failures failTemplate name otherLabel))

end GraphSource

/-- The side of an edge that the other node is on. -/
inductive Side where
  | server
  | client

/-- The label that names the other service. -/
def Side.label : Side → String
  | .server => "server"
  | .client => "client"

/-- The edge to the other service. -/
def Side.newEdge (side : Side) (name other : String) : Edge :=
  match side with
  | .server => { client := name, server := other }
  | .client => { client := other, server := name }

def Side.other (side : Side) (e : Edge) : String :=
  match side with
  | .server => e.server
  | .client => e.client

namespace GraphSource

def edges (g : GraphSource) (name : String) : List Edge :=
  g.queryEdges g.queries.requests g.queries.failed name Side.server.label
    (Side.server.newEdge name)

def inbound (g : GraphSource) (name : String) : List Edge :=
  g.queryEdges g.queries.inboundRequests g.queries.inboundFailed name Side.client.label
    (Side.client.newEdge name)

end GraphSource

/-! ## The tally -/

def counted (label : String) (results : List Series) : List Series :=
  results.filter fun r => r.metric label ≠ "" ∧ 0 < r.value

def usable (label : String) (results : List Series) : List String :=
  (counted label results).map (·.metric label)

def Tally.push (label : String) (t : Tally) (res : Series) : Tally where
  reqMap := Function.update t.reqMap (res.metric label) res.value
  totalReq := t.totalReq + res.value
  others := t.others ++ [res.metric label]

section

variable {label : String} {rs : List Series} {t : Tally}

theorem foldl_add (results : List Series) :
    results.foldl (Tally.add label) t = (counted label results).foldl (Tally.push label) t := by
  rw [counted, foldl_filter]
  congr 1
  funext t r
  rw [Tally.add]
  by_cases hm : r.metric label = ""
  · simp [hm]
  · by_cases hv : r.value ≤ 0
    · simp [hm, hv, not_lt.mpr hv]
    · simp [hm, hv, not_le.mp hv, Tally.push]

theorem others_foldl :
    (rs.foldl (Tally.push label) t).others = t.others ++ rs.map (·.metric label) := by
  induction rs generalizing t with
  | nil => exact (append_nil _).symm
  | cons r rs ih =>
    rw [foldl_cons, ih]
    exact append_assoc ..

theorem totalReq_foldl :
    (rs.foldl (Tally.push label) t).totalReq = t.totalReq + (rs.map Series.value).sum := by
  induction rs generalizing t with
  | nil => exact (add_zero _).symm
  | cons r rs ih =>
    rw [foldl_cons, ih, map_cons, sum_cons]
    exact add_assoc ..

theorem reqMap_foldl_of_notMem {o : String} (ho : o ∉ rs.map (·.metric label)) :
    (rs.foldl (Tally.push label) t).reqMap o = t.reqMap o := by
  induction rs generalizing t with
  | nil => rfl
  | cons r rs ih =>
    obtain ⟨hne, ho⟩ := not_or.mp (mt mem_cons.mpr ho)
    rw [foldl_cons, ih ho]
    exact Function.update_of_ne hne ..

theorem reqMap_foldl (hn : (rs.map (·.metric label)).Nodup) {r : Series} (hr : r ∈ rs) :
    (rs.foldl (Tally.push label) t).reqMap (r.metric label) = r.value := by
  induction rs generalizing t with
  | nil => cases hr
  | cons r' rs ih =>
    obtain ⟨hnew, hn⟩ := nodup_cons.mp hn
    rw [foldl_cons]
    rcases mem_cons.mp hr with rfl | hr
    · rw [reqMap_foldl_of_notMem hnew]
      exact Function.update_self ..
    · exact ih hn hr

theorem value_pos {results : List Series} {r : Series} (hr : r ∈ counted label results) :
    0 < r.value :=
  (of_decide_eq_true (mem_filter.mp hr).2).2

end

/-! ## The edges -/

/-- One edge for each node, in their order, with positive shares that sum to one. -/
structure Distributed (side : Side) (nodes : List String) (edges : List Edge) : Prop where
  sorted : (edges.map side.other).Pairwise (· < ·)
  mem : ∀ o, o ∈ edges.map side.other ↔ o ∈ nodes
  pos : ∀ e ∈ edges, 0 < e.share
  sum : (edges.map Edge.share).sum = 1

theorem Side.other_edge (g : GraphSource) (side : Side) (name : String) (t : Tally)
    (failMap : String → Rat) (o : String) :
    side.other (g.edge (side.newEdge name) t failMap o) = o := by
  cases side <;> rfl

/-- The edges of a vector with a usable series are a distribution over the nodes exactly if no
usable series repeats a node. -/
theorem queryEdges_distributed_iff (g : GraphSource) (side : Side)
    {reqTemplate failTemplate name : String} {results : List Series} (hreq : reqTemplate ≠ "")
    (hquery : g.instantQuery (g.sprintf reqTemplate name g.windowStr) = .ok results)
    (husable : usable side.label results ≠ []) :
    Distributed side (usable side.label results)
        (g.queryEdges reqTemplate failTemplate name side.label (side.newEdge name)) ↔
      (usable side.label results).Nodup := by
  generalize hcount : counted side.label results = rs at husable
  generalize ht : rs.foldl (Tally.push side.label) {} = t
  have hothers : t.others = rs.map (·.metric side.label) := ht ▸ others_foldl
  have htotal : t.totalReq = (rs.map Series.value).sum := by
    rw [← ht, totalReq_foldl]
    exact zero_add _
  have hvalue (r : Series) (hr : r ∈ rs) : 0 < r.value := value_pos (hcount ▸ hr)
  have hpos : 0 < t.totalReq := by
    rw [htotal]
    refine sum_pos _ (fun v hv => ?_) (by simpa [usable, hcount] using husable)
    obtain ⟨r, hr, rfl⟩ := mem_map.mp hv
    exact hvalue r hr
  simp only [GraphSource.queryEdges, if_neg hreq, hquery, foldl_add, hcount, ht,
    if_neg (not_le.mpr hpos), hothers, usable]
  generalize g.failures failTemplate name side.label = failMap
  have hperm := perm_insertionSort (· ≤ ·) (rs.map (·.metric side.label))
  have hnodes : side.other ∘ g.edge (side.newEdge name) t failMap = id :=
    funext (side.other_edge g name t failMap)
  constructor
  · intro h
    have hs := h.sorted
    rw [map_map, hnodes, map_id] at hs
    exact hperm.nodup_iff.mp (hs.imp ne_of_lt)
  · intro hn
    have hreqMap (r : Series) (hr : r ∈ rs) : t.reqMap (r.metric side.label) = r.value :=
      ht ▸ reqMap_foldl hn hr
    refine ⟨?_, fun o => ?_, fun e he => ?_, ?_⟩
    · rw [map_map, hnodes, map_id]
      exact ((pairwise_insertionSort _ _).and (hperm.nodup_iff.mpr hn)).imp
        fun ⟨hle, hne⟩ => lt_of_le_of_ne hle hne
    · rw [map_map, hnodes, map_id, hperm.mem_iff]
    · obtain ⟨o, ho, rfl⟩ := mem_map.mp he
      obtain ⟨r, hr, rfl⟩ := mem_map.mp (hperm.mem_iff.mp ho)
      exact div_pos ((hreqMap r hr).symm ▸ hvalue r hr) hpos
    · rw [map_map]
      calc (((rs.map (·.metric side.label)).insertionSort (· ≤ ·)).map
            fun o => t.reqMap o / t.totalReq).sum
          = ((rs.map (·.metric side.label)).map fun o => t.reqMap o / t.totalReq).sum :=
            (hperm.map _).sum_eq
        _ = (rs.map fun r => r.value * t.totalReq⁻¹).sum := by
            rw [map_map]
            refine congrArg _ (map_congr_left fun r hr => ?_)
            rw [← hreqMap r hr, ← div_eq_mul_inv]
            rfl
        _ = 1 := by rw [sum_map_mul_right, ← htotal, mul_inv_cancel₀ hpos.ne']

def answering (results : List Series) : GraphSource where
  sprintf template _ _ := template
  instantQuery _ := .ok results

def serverSeries (other : String) (value : Rat) : Series where
  metric label := if label = "server" then other else ""
  value := value

def twoServers : List Series := [serverSeries "cart" 3, serverSeries "ads" 1]

theorem twoServers_distributed :
    Distributed .server (usable "server" twoServers)
      ((answering twoServers).queryEdges "r" "" "checkout" "server"
        (Side.server.newEdge "checkout")) :=
  (queryEdges_distributed_iff (answering twoServers) .server (by decide) rfl (by decide)).mpr
    (by decide)

def twoCarts : List Series := [serverSeries "cart" 1, serverSeries "cart" 3]

/-- A node with two series has two edges, and the shares sum to one and a half. -/
theorem repeatedCart_undistributed :
    let edges := (answering twoCarts).queryEdges "r" "" "checkout" "server"
      (Side.server.newEdge "checkout")
    edges.map (fun e => (e.server, e.share)) = [("cart", 3 / 4), ("cart", 3 / 4)] ∧
      ¬ Distributed .server (usable "server" twoCarts) edges := by
  refine ⟨by decide +kernel, fun h => absurd h.sum ?_⟩
  decide +kernel

end Beats.Whir
