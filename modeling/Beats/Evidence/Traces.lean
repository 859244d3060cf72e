import Beats.Clank.Gate
import Beats.Evidence.Queries

/-!
# The traces tool

`TracesTool` of `internal/evidence`.  The model chooses a namespace and attributes.  The tool
refuses keys that are no identifiers, sends a TraceQL query with the attributes to Tempo, and stamps
the result with the subject that its index has for the namespace and the attributes.

The namespace is not in the query, so one query is stamped with the subject of any namespace, and
one without a matcher too (`unconstrained_stamped_twice`).  Given the namespace, the query
determines the subject, and a rule that claims the result has its labels in the query
(`traces_subject`).
-/

namespace Beats.Evidence

open Lib Proposal List Prog

/-! ## The tool -/

structure TracesInput where
  «namespace» : String := ""
  labels : Labels := .empty
  errorsOnly : Bool := false
  limit : Int := 0
  lookback : String := ""

def TracesInput.coordinates (input : TracesInput) : Coordinates where
  «namespace» := input.namespace
  labels := input.labels

structure TracesTool where
  subjects : SubjectIndex := []

/-- What the tool takes from the standard library. -/
structure TracesText where
  decodeArgs : String → Except String TracesInput
  parseDuration : String → Except String Duration
  isPrint : Char → Bool

/-- `[a-zA-Z_]`. -/
def identStart (c : Char) : Bool := c.isAlpha || c == '_'

/-- `[a-zA-Z0-9_.]`. -/
def identRest (c : Char) : Bool := c.isAlphanum || c == '_' || c == '.'

/-- `[a-zA-Z_][a-zA-Z0-9_.]*`, on a whole text. -/
def ident : List Char → Bool
  | [] => false
  | c :: cs => identStart c && cs.all identRest

/-- `traceKeyRegex`. -/
def traceKey (k : String) : Bool :=
  ["", "resource.", "span."].any fun scope =>
    scope.toList.isPrefixOf k.toList && ident (k.toList.drop scope.length)

def buildTraceQL (isPrint : Char → Bool) (labels : Labels) (errorsOnly : Bool) : String :=
  let matchers := (labels.entries.map fun (k, v) => k ++ "=" ++ quote isPrint v) ++
    (if errorsOnly then ["status=error"] else [])
  if matchers.isEmpty then "\x7b\x7d" else "\x7b" ++ " && ".intercalate matchers ++ "\x7d"

def tempoRef («namespace» : String) (labels : Labels) : String :=
  if labels.entries.isEmpty then "tempo://" ++ «namespace»
  else "tempo://" ++ «namespace» ++ "/" ++ labels.text

namespace Traces

/-- How a search fails. -/
inductive Failure where
  | url (err : String)
  | newRequest (err : String)
  | request (err : String)
  | status (status : String)
  | decode (err : String)

/-- The search of a request, with its range in seconds. -/
structure Search where
  traceQL : String
  start : Int
  «end» : Int
  limit : Int

structure Trace where
  rootServiceName : String := ""
  rootTraceName : String := ""

/-- What the tool asks.  Keys are ranged over in any order. -/
inductive Call where
  | range (keys : List String)
  | now
  | search (search : Search)

def iface : Iface where
  Call := Call
  Answer
    | .range keys => { ks : List String // ks.Perm keys }
    | .now => Time
    | .search _ => Except Failure (List Trace)

end Traces

def noTraces (traceQL subject summary : String) : EvidenceRef :=
  { tool := "traces", query := traceQL, summary := summary, subject := subject }

namespace TracesInput

/-- The evidence of an answer, or the error. -/
def answered (input : TracesInput) (traceQL subject : String) :
    Except Traces.Failure (List Traces.Trace) → Except String EvidenceRef
  | .error (.url err) => .error ("parse url: " ++ err)
  | .error (.newRequest err) => .error ("new request: " ++ err)
  | .error (.request err) => .ok (noTraces traceQL subject ("tempo request failed: " ++ err))
  | .error (.status status) => .ok (noTraces traceQL subject ("tempo returned status: " ++ status))
  | .error (.decode err) => .ok (noTraces traceQL subject ("decode tempo response: " ++ err))
  | .ok traces =>
    match traces.getLast? with
    | none =>
      .ok { noTraces traceQL subject "no matching traces" with
        ref := tempoRef input.namespace input.labels }
    | some last =>
      let summary := toString traces.length ++ " trace(s); last root: " ++
        last.rootServiceName ++ "/" ++ last.rootTraceName
      .ok { tool := "traces", query := traceQL, summary := summary
            ref := tempoRef input.namespace input.labels, live := true, subject := subject }

def duration (input : TracesInput) (text : TracesText) : Except String Duration :=
  text.parseDuration (if input.lookback = "" then "15m" else input.lookback)

/-- The search that is sent at an instant. -/
def search (input : TracesInput) (text : TracesText) (lb : Duration) (now : Time) :
    Traces.Search where
  traceQL := buildTraceQL text.isPrint input.labels input.errorsOnly
  start := Time.unix (now - lb)
  «end» := Time.unix now
  limit := if input.limit ≤ 0 then 20 else input.limit

end TracesInput

/-- `TracesTool.Run`, once the keys are accepted. -/
def TracesTool.searchTempo (t : TracesTool) (text : TracesText) (input : TracesInput) :
    Prog Traces.iface String EvidenceRef :=
  let subject := t.subjects.for input.coordinates
  let traceQL := buildTraceQL text.isPrint input.labels input.errorsOnly
  match input.duration text with
  | .error err => return noTraces traceQL subject ("invalid lookback: " ++ err)
  | .ok lb => do
    let now : Time ← @Prog.ask Traces.iface String .now
    Prog.ofExcept (input.answered traceQL subject
      (← @Prog.ask Traces.iface String (.search (input.search text lb now))))

/-- `TracesTool.Run`, from the loop over the keys on. -/
def TracesTool.checkKeys (t : TracesTool) (text : TracesText) (input : TracesInput)
    (keys : List String) : Prog Traces.iface String EvidenceRef :=
  match keys.find? fun k => !traceKey k with
  | some k =>
    return noTraces "" (t.subjects.for input.coordinates) ("invalid trace label key " ++
      quote text.isPrint k ++ ": must match identifier pattern")
  | none => t.searchTempo text input

/-- The keys are checked, and the traces read. -/
def TracesTool.run (t : TracesTool) (text : TracesText) (args : String) :
    Prog Traces.iface String EvidenceRef := do
  let input ← Prog.orFail (fun err => "decode traces args: " ++ err) (text.decodeArgs args)
  let keys ← @Prog.ask Traces.iface String (.range (input.labels.entries.map Prod.fst))
  t.checkKeys text input keys.val

/-! ## What a query says -/

/-- Every key may stand in a query. -/
def Labels.TraceKeys (l : Labels) : Prop := ∀ p ∈ l.entries, traceKey p.1 = true

instance (l : Labels) : Decidable l.TraceKeys :=
  inferInstanceAs (Decidable (∀ p ∈ l.entries, traceKey p.1 = true))

theorem ident_clean {cs : List Char} (h : ident cs = true) : '=' ∉ cs := by
  cases cs with
  | nil => simp
  | cons c cs =>
    simp only [ident, Bool.and_eq_true, all_eq_true] at h
    intro hm
    rcases mem_cons.mp hm with rfl | hm
    · exact absurd h.1 (by decide)
    · exact absurd (h.2 _ hm) (by decide)

variable {isPrint : Char → Bool} {ref : EvidenceRef} {l : Labels} {k traceQL : String}
  {errorsOnly : Bool} {lb : Duration} {rule : SubjectRule}

theorem traceKey_clean (h : traceKey k = true) : '=' ∉ k.toList := by
  obtain ⟨scope, hscope, hk⟩ := any_eq_true.mp h
  obtain ⟨hpre, hident⟩ := Bool.and_eq_true_iff.mp hk
  have hclean : ∀ scope ∈ ["", "resource.", "span."], '=' ∉ scope.toList := by decide
  obtain ⟨rest, hrest⟩ := isPrefixOf_iff_prefix.mp hpre
  have hdrop : k.toList.drop scope.length = rest := by
    rw [← hrest, ← String.length_toList, drop_left]
  rw [hdrop] at hident
  rw [← hrest, mem_append, not_or]
  exact ⟨hclean scope hscope, ident_clean hident⟩

/-- The matchers of a query: an attribute with its value, or a status of error. -/
def matchers (labels : Labels) (errorsOnly : Bool) : List (String × Option String) :=
  (labels.entries.map fun p => (p.1, some p.2)) ++ (if errorsOnly then [("status", none)] else [])

def valueChars (isPrint : Char → Bool) : Option String → List Char
  | some v => Quote.quote isPrint v.toList
  | none => "error".toList

theorem delimited_value (isPrint : Char → Bool) :
    Delimited (fun _ => True) (valueChars isPrint) := by
  intro v v' r r' _ _ he
  match v, v', he with
  | none, none, he => exact ⟨rfl, append_cancel_left he⟩
  | none, some v', he => cases he
  | some v, none, he => cases he
  | some v, some v', he =>
    obtain ⟨hv, hr⟩ := (Quote.delimited_quote isPrint).comp toList_injective trivial trivial he
    exact ⟨congrArg some hv, hr⟩

/-- A matcher, on characters. -/
def attributeChars (isPrint : Char → Bool) (m : String × Option String) : List Char :=
  m.1.toList ++ ['='] ++ valueChars isPrint m.2

theorem delimited_attribute (isPrint : Char → Bool) :
    Delimited (fun m : String × Option String => '=' ∉ m.1.toList ∧ True)
      (attributeChars isPrint) :=
  ((delimited_upTo '=').comp toList_injective).pair (delimited_value isPrint)

theorem toList_buildTraceQL (isPrint : Char → Bool) (l : Labels) (errorsOnly : Bool) :
    (buildTraceQL isPrint l errorsOnly).toList = '\x7b' ::
      (" && ".toList.intercalate ((matchers l errorsOnly).map (attributeChars isPrint)) ++
        ['\x7d']) := by
  have hjoin : ((l.entries.map fun (k, v) => k ++ "=" ++ quote isPrint v) ++
      (if errorsOnly then ["status=error"] else [])).map String.toList =
      (matchers l errorsOnly).map (attributeChars isPrint) := by
    rw [matchers, map_append, map_append, map_map, map_map]
    refine congrArg₂ (· ++ ·) (map_congr_left fun p _ => ?_) ?_
    · have hquote : (quote isPrint p.2).toList = valueChars isPrint (some p.2) :=
        String.toList_ofList
      change (p.1 ++ "=" ++ quote isPrint p.2).toList = _
      rw [String.toList_append, String.toList_append, hquote]
      rfl
    · cases errorsOnly <;> rfl
  have hbraces (ms : List String) :
      (if ms.isEmpty then "\x7b\x7d" else "\x7b" ++ " && ".intercalate ms ++ "\x7d").toList =
        '\x7b' :: (" && ".toList.intercalate (ms.map String.toList) ++ ['\x7d']) := by
    split
    next h =>
      rw [isEmpty_iff.mp h]
      rfl
    next =>
      rw [String.toList_append, String.toList_append, String.toList_intercalate]
      rfl
  rw [← hjoin]
  exact hbraces _

theorem buildTraceQL_inj {l' : Labels} {errorsOnly' : Bool} (hk : l.TraceKeys) (hk' : l'.TraceKeys)
    (h : buildTraceQL isPrint l errorsOnly = buildTraceQL isPrint l' errorsOnly') : l = l' := by
  have hclean {l : Labels} {errorsOnly : Bool} (hk : l.TraceKeys) :
      ∀ m ∈ matchers l errorsOnly, '=' ∉ m.1.toList ∧ True := by
    intro m hm
    refine ⟨?_, trivial⟩
    rcases mem_append.mp hm with hm | hm
    · obtain ⟨p, hp, rfl⟩ := mem_map.mp hm
      exact traceKey_clean (hk p hp)
    · cases errorsOnly with
      | false => cases hm
      | true =>
        cases mem_singleton.mp hm
        decide
  have hlabels (l : Labels) (errorsOnly : Bool) :
      (matchers l errorsOnly).filterMap (fun m => m.2.map (m.1, ·)) = l.entries := by
    cases errorsOnly <;> simp [matchers, filterMap_map]
  have htext := congrArg String.toList h
  rw [toList_buildTraceQL, toList_buildTraceQL, cons.injEq, append_cancel_right_eq] at htext
  have hm := ((delimited_attribute isPrint).followed _).intercalate_inj
    (fun m _ => by simp [attributeChars]) (hclean hk) (hclean hk') htext.2
  refine Labels.ext ?_
  rw [← hlabels l errorsOnly, hm, hlabels]

/-! ## What is sent and what is stamped -/

/-- A run that sends the search gives the evidence. -/
def TracesTool.Sends (t : TracesTool) (text : TracesText) (args : String)
    (search : Traces.Search) (ref : EvidenceRef) : Prop :=
  ∃ tr, (t.run text args).Exits tr (.ok ref) ∧
    ∃ found, ⟨.search search, found⟩ ∈ tr

theorem TracesInput.subject_answered {input : TracesInput} {subject : String}
    {found : Except Traces.Failure (List Traces.Trace)}
    (h : input.answered traceQL subject found = .ok ref) : ref.subject = subject := by
  cases found with
  | error e => cases e <;> cases h <;> rfl
  | ok traces =>
    simp only [answered] at h
    split at h <;> cases h <;> rfl

namespace TracesTool

variable {t : TracesTool} {text : TracesText} {args : String} {input : TracesInput}

variable {ks : List String} {err : String}

theorem run_error (hd : text.decodeArgs args = .error err) :
    t.run text args = .fail ("decode traces args: " ++ err) := by
  unfold run
  rw [hd]
  rfl

theorem run_ranged (hd : text.decodeArgs args = .ok input) :
    t.run text args = .call (.range (input.labels.entries.map Prod.fst)) fun ks =>
      t.checkKeys text input ks.val := by
  unfold run
  rw [hd]
  rfl

theorem find?_eq_none_iff (h : ks.Perm (input.labels.entries.map Prod.fst)) :
    (ks.find? fun k => !traceKey k) = none ↔ input.labels.TraceKeys := by
  rw [find?_eq_none, Labels.TraceKeys]
  constructor
  · intro hk p hp
    simpa using hk p.1 (h.mem_iff.mpr (mem_map_of_mem hp))
  · intro hk k hm
    obtain ⟨p, hp, rfl⟩ := mem_map.mp (h.mem_iff.mp hm)
    simpa using hk p hp

theorem checkKeys_accepted (h : ks.Perm (input.labels.entries.map Prod.fst))
    (hk : input.labels.TraceKeys) : t.checkKeys text input ks = t.searchTempo text input := by
  unfold checkKeys
  rw [(find?_eq_none_iff h).mpr hk]

theorem checkKeys_refused (h : ks.Perm (input.labels.entries.map Prod.fst))
    (hk : ¬ input.labels.TraceKeys) : ∃ ref, t.checkKeys text input ks = .ret ref := by
  unfold checkKeys
  cases hf : ks.find? fun k => !traceKey k with
  | none => exact absurd ((find?_eq_none_iff h).mp hf) hk
  | some k => exact ⟨_, rfl⟩

theorem searchTempo_sent (hl : input.duration text = .ok lb) :
    t.searchTempo text input = .call .now fun (now : Time) =>
      .call (.search (input.search text lb now)) fun found =>
        ofExcept (input.answered (input.search text lb now).traceQL
          (t.subjects.for input.coordinates) found) := by
  unfold searchTempo
  simp only [hl]
  rfl

theorem searchTempo_unsent (hl : input.duration text = .error err) :
    t.searchTempo text input = .ret (noTraces
      (buildTraceQL text.isPrint input.labels input.errorsOnly)
      (t.subjects.for input.coordinates) ("invalid lookback: " ++ err)) := by
  unfold searchTempo
  simp only [hl]
  rfl

theorem sends_iff {search : Traces.Search} :
    t.Sends text args search ref ↔ ∃ input lb now found, text.decodeArgs args = .ok input ∧
      input.labels.TraceKeys ∧ input.duration text = .ok lb ∧
      search = input.search text lb now ∧
      input.answered search.traceQL (t.subjects.for input.coordinates) found = .ok ref := by
  constructor
  · rintro ⟨tr, h, found, hm⟩
    cases hd : text.decodeArgs args with
    | error err =>
      rw [run_error hd] at h
      cases (exits_fail.mp h).2
    | ok input =>
      rw [run_ranged hd] at h
      obtain ⟨⟨ks, hp⟩, u, rfl, hu⟩ := exits_call.mp h
      have hm : ⟨.search search, found⟩ ∈ u := (mem_cons.mp hm).resolve_left nofun
      by_cases hk : input.labels.TraceKeys
      · rw [checkKeys_accepted hp hk] at hu
        cases hl : input.duration text with
        | error err =>
          rw [searchTempo_unsent hl] at hu
          obtain ⟨rfl, -⟩ := exits_ret.mp hu
          cases hm
        | ok lb =>
          rw [searchTempo_sent hl] at hu
          obtain ⟨now, v, rfl, hv⟩ := exits_call.mp hu
          obtain ⟨found', w, rfl, hw⟩ := exits_call.mp hv
          obtain ⟨rfl, href⟩ := exits_ofExcept.mp hw
          have hm := (mem_cons.mp hm).resolve_left nofun
          cases mem_singleton.mp hm
          exact ⟨input, lb, now, found', rfl, hk, hl, rfl, href.symm⟩
      · have hret : ∃ ref, t.checkKeys text input ks = .ret ref := checkKeys_refused hp hk
        obtain ⟨ref', href⟩ := hret
        rw [href] at hu
        obtain ⟨rfl, -⟩ := exits_ret.mp hu
        cases hm
  · rintro ⟨input, lb, now, found, hd, hk, hl, rfl, href⟩
    have hlast : (ofExcept (input.answered (input.search text lb now).traceQL
        (t.subjects.for input.coordinates) found) : Prog Traces.iface _ _).Exits [] (.ok ref) :=
      exits_ofExcept.mpr ⟨rfl, href.symm⟩
    refine ⟨⟨.range (input.labels.entries.map Prod.fst), ⟨_, .rfl⟩⟩ :: ⟨.now, now⟩ ::
      [⟨.search (input.search text lb now), found⟩], ?_, found, by simp⟩
    rw [run_ranged hd]
    refine .call ?_
    rw [checkKeys_accepted .rfl hk, searchTempo_sent hl]
    exact .call (.call hlast)

end TracesTool

/-! ## One subject for one search of a namespace -/

/-- The searches have one query and one range. -/
def Traces.Search.Alike (q q' : Traces.Search) : Prop :=
  q.traceQL = q'.traceQL ∧ q.start = q'.start ∧ q.end = q'.end

/-- The query has a matcher for the attribute with the value. -/
def Constrains (isPrint : Char → Bool) (traceQL : String) (p : String × String) : Prop :=
  ∃ labels : Labels, ∃ errorsOnly, labels.TraceKeys ∧
    traceQL = buildTraceQL isPrint labels errorsOnly ∧ p ∈ labels.entries

/-- The query has no matcher for an attribute. -/
def Unconstrained (isPrint : Char → Bool) (traceQL : String) : Prop :=
  ∀ p, ¬ Constrains isPrint traceQL p

theorem constrains_iff {p : String × String} (hk : l.TraceKeys) :
    Constrains isPrint (buildTraceQL isPrint l errorsOnly) p ↔ p ∈ l.entries := by
  constructor
  · rintro ⟨l', errorsOnly', hk', hq, hp⟩
    rwa [buildTraceQL_inj hk hk' hq]
  · exact fun hp => ⟨l, errorsOnly, hk, rfl, hp⟩

theorem Labels.mem_of_get {v : String} (h : l.get k = v) (hv : v ≠ "") : (k, v) ∈ l.entries := by
  unfold get at h
  cases hl : l.entries.lookup k with
  | none =>
    rw [hl] at h
    exact absurd h.symm hv
  | some w =>
    rw [hl, Option.getD_some] at h
    obtain ⟨l₁, l₂, he, -⟩ := lookup_eq_some_iff.mp hl
    rw [he, ← h]
    exact mem_append_right _ mem_cons_self

/-- The rule claims what a query finds for a namespace: where it declares a namespace it is that
one, and the attributes that it declares with a value are constrained by the query. -/
structure SubjectRule.Claims (rule : SubjectRule) (isPrint : Char → Bool)
    («namespace» traceQL : String) : Prop where
  «namespace» : rule.namespace = "" ∨ rule.namespace = «namespace»
  kind : rule.kind = ""
  name : rule.name = ""
  labels : ∀ p ∈ rule.labels.entries, p.2 ≠ "" → Constrains isPrint traceQL p

/-- Nothing but the namespace is left of a rule that claims what an unconstrained query finds. -/
theorem SubjectRule.Claims.labels_empty {ns : String} (h : rule.Claims isPrint ns traceQL)
    (hq : Unconstrained isPrint traceQL) : ∀ p ∈ rule.labels.entries, p.2 = "" := by
  intro p hp
  by_contra hv
  exact hq p (h.labels p hp hv)

theorem TracesInput.claims_of_matches {input : TracesInput} (hk : input.labels.TraceKeys)
    (h : rule.matches input.coordinates = true) :
    rule.Claims isPrint input.namespace (buildTraceQL isPrint input.labels input.errorsOnly) := by
  obtain ⟨hns, hkind, hname, hlabels⟩ := SubjectRule.matches_iff.mp h
  exact
    { «namespace» := hns
      kind := hkind.elim id id
      name := hname.elim id id
      labels := fun p hp hv => (constrains_iff hk).mpr (Labels.mem_of_get (hlabels p hp) hv) }

theorem subject_of_anyCoherentLive {sao : Option SAO} (h : Clank.anyCoherentLive [ref] sao = true) :
    ref.subject ≠ "" := by
  intro hs
  cases sao <;> simp [Clank.anyCoherentLive, Clank.coherentSubject, hs] at h

/-- Searches of one namespace that are alike are stamped with one subject.  Evidence that clears
the gate is claimed by a rule that declares nothing beyond the namespace and what the query
constrains, and by the namespace alone if the query constrains nothing. -/
theorem traces_subject {text : TracesText} {args args' : String} {input input' : TracesInput}
    (hd : text.decodeArgs args = .ok input) (hd' : text.decodeArgs args' = .ok input')
    (hns : input.namespace = input'.namespace) (x : SubjectIndex) :
    (∀ q q' ref ref', TracesTool.Sends ⟨x⟩ text args q ref →
      TracesTool.Sends ⟨x⟩ text args' q' ref' → q.Alike q' → ref.subject = ref'.subject) ∧
    ∀ q ref sao, TracesTool.Sends ⟨x⟩ text args q ref →
      Clank.anyCoherentLive [ref] sao = true →
        ∃ rule ∈ x, rule.subject = ref.subject ∧
          rule.Claims text.isPrint input.namespace q.traceQL ∧
          (Unconstrained text.isPrint q.traceQL → ∀ p ∈ rule.labels.entries, p.2 = "") := by
  constructor
  · intro q q' ref ref' hs hs' hq
    obtain ⟨i, lb, now, found, hi, hk, -, rfl, href⟩ := TracesTool.sends_iff.mp hs
    obtain ⟨i', lb', now', found', hi', hk', -, rfl, href'⟩ := TracesTool.sends_iff.mp hs'
    cases hd.symm.trans hi
    cases hd'.symm.trans hi'
    rw [TracesInput.subject_answered href, TracesInput.subject_answered href']
    have hlabels := buildTraceQL_inj hk hk' hq.1
    exact x.for_congr ⟨hns, rfl, rfl, fun k => congrArg (Labels.get · k) hlabels⟩
  · intro q ref sao hs hg
    obtain ⟨i, lb, now, found, hi, hk, -, rfl, href⟩ := TracesTool.sends_iff.mp hs
    cases hd.symm.trans hi
    have hsubject := TracesInput.subject_answered href
    have hne := subject_of_anyCoherentLive hg
    rw [hsubject] at hne
    obtain ⟨rule, hrule, hm, hrs⟩ := SubjectIndex.exists_rule hne
    have hclaims : rule.Claims text.isPrint input.namespace
        (buildTraceQL text.isPrint input.labels input.errorsOnly) :=
      TracesInput.claims_of_matches hk hm
    exact ⟨rule, hrule, hrs.trans hsubject.symm, hclaims, hclaims.labels_empty⟩

def demoRules : SubjectIndex :=
  [{ subject := "cart", «namespace» := "otel-demo"
     labels := .single "resource.service.name" "cart" }]

/-- The standard library, on the arguments of a table. -/
def textOf (table : List (String × TracesInput)) : TracesText where
  decodeArgs := decodeIn table
  parseDuration := Lib.GoDuration.tryParse
  isPrint _ := true

/-- Arguments that search for the traces of the cart. -/
def cartArgs (limit : String) : String :=
  "\x7b\"namespace\":\"otel-demo\",\"labels\":\x7b\"resource.service.name\":\"cart\"\x7d" ++
    limit ++ "\x7d"

def cartInput (limit : Int) : TracesInput where
  «namespace» := "otel-demo"
  labels := .single "resource.service.name" "cart"
  limit := limit

/-- Searches for the cart, with a limit that is left out or set. -/
def cartText : TracesText :=
  textOf [(cartArgs "", cartInput 0), (cartArgs ",\"limit\":50", cartInput 50)]

def namespaceArgs («namespace» : String) : String :=
  "\x7b\"namespace\":\"" ++ «namespace» ++ "\"\x7d"

def namespaceText : TracesText :=
  textOf [(namespaceArgs "ceph", { «namespace» := "ceph" }),
    (namespaceArgs "otel-demo", { «namespace» := "otel-demo" })]

/-- A node for each of two namespaces. -/
def namespaceRules : SubjectIndex :=
  [{ subject := "rgw", «namespace» := "ceph" }, { subject := "cart", «namespace» := "otel-demo" }]

theorem sends_found (x : SubjectIndex) (text : TracesText) (args : String) {input : TracesInput}
    (hd : text.decodeArgs args = .ok input) (hk : input.labels.TraceKeys)
    (hl : input.duration text = .ok lb) :
    ∃ ref, TracesTool.Sends ⟨x⟩ text args (input.search text lb 0) ref ∧ ref.live = true ∧
      ref.subject = x.for input.coordinates :=
  ⟨_, TracesTool.sends_iff.mpr ⟨input, lb, 0, .ok [{}], hd, hk, hl, rfl, rfl⟩, rfl, rfl⟩

section

variable {table : List (String × TracesInput)} {a b : String} {input input' : TracesInput}

theorem textOf_first : (textOf [(a, input), (b, input')]).decodeArgs a = .ok input := decodeIn_head

theorem textOf_second (h : (b == a) = false) :
    (textOf [(a, input), (b, input')]).decodeArgs b = .ok input' := decodeIn_next h

theorem lookback_default (h : input.lookback = "") :
    input.duration (textOf table) = .ok 900000000000 := by
  rw [TracesInput.duration, if_pos h]
  exact (by decide +kernel : Lib.GoDuration.tryParse "15m" = .ok 900000000000)

end

theorem grounds_of_live {s : String} (hl : ref.live = true) (hs : ref.subject = s) (hne : s ≠ "") :
    Clank.anyCoherentLive [ref] (some { signal := { originService := s } }) = true := by
  simp [Clank.anyCoherentLive, Clank.coherentSubject, hl, hs, hne]

/-- Searches for the cart with two limits are stamped with the cart, by its rule. -/
theorem cart_one_subject : ∃ q q' ref ref',
    TracesTool.Sends ⟨demoRules⟩ cartText (cartArgs "") q ref ∧
      TracesTool.Sends ⟨demoRules⟩ cartText (cartArgs ",\"limit\":50") q' ref' ∧ q.Alike q' ∧
      ref.subject = ref'.subject ∧ ∃ rule ∈ demoRules, rule.subject = ref.subject ∧
        rule.Claims cartText.isPrint "otel-demo" q.traceQL := by
  have hd : cartText.decodeArgs (cartArgs "") = .ok (cartInput 0) :=
    textOf_first
  have hd' : cartText.decodeArgs (cartArgs ",\"limit\":50") = .ok (cartInput 50) :=
    textOf_second (by decide +kernel)
  obtain ⟨ref, hs, hlive, href⟩ := sends_found demoRules cartText _ hd (by decide +kernel)
    (lookback_default rfl)
  obtain ⟨ref', hs', -, -⟩ := sends_found demoRules cartText _ hd' (by decide +kernel)
    (lookback_default rfl)
  have hcart : ref.subject = "cart" := href.trans (by decide +kernel)
  obtain ⟨hone, hclaims⟩ := traces_subject hd hd' rfl demoRules
  obtain ⟨rule, hrule, hsubject, hrule', -⟩ :=
    hclaims _ ref _ hs (grounds_of_live hlive hcart (by decide))
  exact ⟨_, _, ref, ref', hs, hs', ⟨rfl, rfl, rfl⟩, hone _ _ ref ref' hs hs' ⟨rfl, rfl, rfl⟩,
    rule, hrule, hsubject, hrule'⟩

/-- One search without a matcher, stamped with the nodes of two namespaces.  Either stamp clears
the gate. -/
theorem unconstrained_stamped_twice : ∃ q ref ref',
    TracesTool.Sends ⟨namespaceRules⟩ namespaceText (namespaceArgs "ceph") q ref ∧
      TracesTool.Sends ⟨namespaceRules⟩ namespaceText (namespaceArgs "otel-demo") q ref' ∧
      q.traceQL = "\x7b\x7d" ∧ Unconstrained namespaceText.isPrint q.traceQL ∧
      ref.subject = "rgw" ∧ ref'.subject = "cart" ∧
      Clank.anyCoherentLive [ref] (some { signal := { originService := "rgw" } }) = true ∧
      Clank.anyCoherentLive [ref'] (some { signal := { originService := "cart" } }) = true := by
  have hd : namespaceText.decodeArgs (namespaceArgs "ceph") = .ok { «namespace» := "ceph" } :=
    textOf_first
  have hd' : namespaceText.decodeArgs (namespaceArgs "otel-demo") =
      .ok { «namespace» := "otel-demo" } :=
    textOf_second (by decide +kernel)
  obtain ⟨ref, hs, hlive, href⟩ := sends_found namespaceRules namespaceText _ hd (by decide)
    (lookback_default rfl)
  obtain ⟨ref', hs', hlive', href'⟩ := sends_found namespaceRules namespaceText _ hd' (by decide)
    (lookback_default rfl)
  have hrgw : ref.subject = "rgw" := href.trans (by decide +kernel)
  have hcart : ref'.subject = "cart" := href'.trans (by decide +kernel)
  refine ⟨_, ref, ref', hs, hs', rfl, ?_, hrgw, hcart,
    grounds_of_live hlive hrgw (by decide), grounds_of_live hlive' hcart (by decide)⟩
  intro p hp
  have hempty : Labels.TraceKeys {} := nofun
  have hp : Constrains namespaceText.isPrint (buildTraceQL namespaceText.isPrint {} false) p := hp
  exact not_mem_nil ((constrains_iff hempty).mp hp)

end Beats.Evidence
