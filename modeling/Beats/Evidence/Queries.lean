import Beats.Lib.GoDuration
import Beats.Lib.Prog
import Beats.Lib.Quote
import Beats.Api.Proposal
import Beats.Evidence.Subjects

/-!
# The kube and loki tools

`KubeTool` and `LokiTool` of `internal/evidence`.  The model chooses a namespace and labels.  The
tool sends a query that it renders from them, and stamps the result with the subject that its index
has for them.  The decoders of the arguments and of a duration are parameters, as is the table of
printable characters.

The kube tool renders the labels as `labels.Set.String` does: pairs `key=value` in the order of
their keys, with commas between them and nothing escaped.  The loki tool quotes the values and
leaves the keys as they are.  So a key or a value can look like another label
(`queries_stamped_twice`), and where they cannot the query determines the subject
(`stamps_unique_iff`).
-/

namespace Beats.Evidence

open Lib Proposal List Prog

/-- `key=value`. -/
def pairText (p : String × String) : String := p.1 ++ "=" ++ p.2

/-- `labels.Set.String`. -/
def Labels.text (l : Labels) : String := ",".intercalate (l.entries.map pairText)

/-! ## The kube tool -/

/-- `corev1.ContainerStatus`, as far as the tool reads it: the reason of the last termination and
of waiting, where there is one. -/
structure ContainerStatus where
  restartCount : Int32 := 0
  terminated : Option String := none
  waiting : Option String := none
  ready : Bool := false

/-- `corev1.Pod`, as far as the tool reads it. -/
structure Pod where
  name : String := ""
  phase : String := ""
  containerStatuses : List ContainerStatus := []

/-- The first reason that says something. -/
def firstReason (reasons : List (Option String)) : String :=
  ((reasons.filterMap id).find? (· ≠ "")).getD ""

def podDigest (p : Pod) : String :=
  let restarts := (p.containerStatuses.map ContainerStatus.restartCount).foldl (· + ·) 0
  let lastReason := firstReason (p.containerStatuses.map ContainerStatus.terminated)
  let waitingReason := firstReason (p.containerStatuses.map ContainerStatus.waiting)
  let hasNotReady := p.containerStatuses.any fun cs => !cs.ready
  let clauses := [p.phase] ++
    (if restarts > 0 then ["restarts=" ++ toString restarts] else []) ++
    (if lastReason ≠ "" then ["last: " ++ lastReason] else []) ++
    (if waitingReason ≠ "" then ["waiting: " ++ waitingReason] else []) ++
    (if hasNotReady ∧ p.phase = "Running" ∧ waitingReason = "" then ["notReady"] else [])
  p.name ++ " (" ++ ", ".intercalate clauses ++ ")"

structure KubeInput where
  resource : String := ""
  «namespace» : String := ""
  selector : Labels := {}

def KubeInput.coordinates (input : KubeInput) : Coordinates where
  «namespace» := input.namespace
  labels := input.selector

structure KubeTool where
  subjects : SubjectIndex := []

namespace Kube

/-- The request of the tool. -/
inductive Call where
  /-- `Pods(namespace).List` with a label selector. -/
  | list («namespace» labelSelector : String)

def iface : Iface where
  Call := Call
  Answer
    | .list _ _ => Except String (List Pod)

end Kube

/-- What the tool makes of the answer. -/
def KubeInput.listed (input : KubeInput) (args subject : String) :
    Except String (List Pod) → EvidenceRef
  | .error err =>
    { tool := "kube", query := args, summary := "failed to list pods: " ++ err
      subject := subject }
  | .ok [] => { tool := "kube", query := args, summary := "no pods found", subject := subject }
  | .ok pods =>
    { tool := "kube", query := args, summary := ", ".intercalate (pods.map podDigest)
      ref := "kube://" ++ input.namespace ++ "/" ++ input.resource
      live := true, subject := subject }

/-- The pods are listed, and the evidence names their subject. -/
def KubeTool.run (k : KubeTool) (decode : String → Except String KubeInput) (args : String) :
    Prog Kube.iface String EvidenceRef := do
  let input ← Prog.orFail (fun err => "decode kube args: " ++ err) (decode args)
  let subject := k.subjects.for input.coordinates
  if input.resource = "pods" then
    let list ← @Prog.ask Kube.iface String (.list input.namespace input.selector.text)
    return input.listed args subject list
  else
    return { tool := "kube", query := args
             summary := "unsupported resource: " ++ input.resource, subject := subject }

/-! ## The loki tool -/

structure LokiInput where
  «namespace» : String := ""
  labels : Labels := .empty
  query : String := ""
  limit : Int := 0
  lookback : String := ""

/-- What the arguments say of the subject. -/
def LokiInput.coordinates (input : LokiInput) : Coordinates where
  «namespace» := input.namespace
  labels := input.labels

structure LokiTool where
  subjects : SubjectIndex := []

/-- What the tool takes from the standard library. -/
structure LokiText where
  decodeArgs : String → Except String LokiInput
  parseDuration : String → Except String Duration
  isPrint : Char → Bool

def LokiInput.duration (input : LokiInput) (text : LokiText) : Except String Duration :=
  text.parseDuration (if input.lookback = "" then "15m" else input.lookback)

/-- `strconv.Quote`. -/
def quote (isPrint : Char → Bool) (s : String) : String :=
  String.ofList (Quote.quote isPrint s.toList)

def buildLogQL (isPrint : Char → Bool) («namespace» : String) (labels : Labels) (query : String) :
    String :=
  let matchers := ("namespace=" ++ quote isPrint «namespace») ::
    labels.entries.map fun (k, v) => k ++ "=" ++ quote isPrint v
  let logQL := "\x7b" ++ ", ".intercalate matchers ++ "\x7d"
  if query ≠ "" then logQL ++ (" |= " ++ quote isPrint query) else logQL

def lokiRef («namespace» : String) (labels : Labels) : String :=
  if labels.entries.isEmpty then "loki://" ++ «namespace»
  else "loki://" ++ «namespace» ++ "/" ++ labels.text

/-- The first `n` bytes of a text.  Each byte of a character that is cut reads as a replacement
character. -/
def firstBytes : Nat → List Char → List Char
  | _, [] => []
  | n, c :: cs =>
    if c.utf8Size ≤ n then c :: firstBytes (n - c.utf8Size) cs else List.replicate n '�'

def truncateLine (s : String) (n : Nat) : String :=
  if s.utf8ByteSize ≤ n then s else String.ofList (firstBytes n s.toList) ++ "…"

namespace Loki

/-- How a query fails. -/
inductive Failure where
  | url (err : String)
  | newRequest (err : String)
  | request (err : String)
  | status (status : String)
  | decode (err : String)

/-- The requests of the tool.  A stream is answered by its values. -/
inductive Call where
  | now
  | queryRange (logQL : String) (start «end» : Time) (limit : Int)

def iface : Iface where
  Call := Call
  Answer
    | .now => Time
    | .queryRange _ _ _ _ => Except Failure (List (List (String × String)))

end Loki

def noLines (logQL subject summary : String) : EvidenceRef :=
  { tool := "loki", query := logQL, summary := summary, subject := subject }

/-- The evidence of an answer, or the error. -/
def LokiInput.answered (input : LokiInput) (logQL subject : String) :
    Except Loki.Failure (List (List (String × String))) → Except String EvidenceRef
  | .error (.url err) => .error ("parse url: " ++ err)
  | .error (.newRequest err) => .error ("new request: " ++ err)
  | .error (.request err) => .ok (noLines logQL subject ("loki request failed: " ++ err))
  | .error (.status status) => .ok (noLines logQL subject ("loki returned status: " ++ status))
  | .error (.decode err) => .ok (noLines logQL subject ("decode loki response: " ++ err))
  | .ok streams =>
    let lines := streams.flatten.map Prod.snd
    if lines.isEmpty then .ok (noLines logQL subject "no matching log lines")
    else
      let lastLine := lines.getLast?.getD ""
      let summary := toString lines.length ++ " log line(s)" ++
        (if lastLine ≠ "" then "; last: " ++ truncateLine lastLine 200 else "")
      .ok { tool := "loki", query := logQL, summary := summary
            ref := lokiRef input.namespace input.labels, live := true, subject := subject }

/-- The logs are read, and the evidence names their subject. -/
def LokiTool.run (l : LokiTool) (text : LokiText) (args : String) :
    Prog Loki.iface String EvidenceRef := do
  let input ← Prog.orFail (fun err => "decode loki args: " ++ err) (text.decodeArgs args)
  let logQL := buildLogQL text.isPrint input.namespace input.labels input.query
  let subject := l.subjects.for input.coordinates
  match input.duration text with
  | .error err => return noLines logQL subject ("invalid lookback: " ++ err)
  | .ok lb =>
    let limit := if input.limit ≤ 0 then 50 else input.limit
    let now : Time ← @Prog.ask Loki.iface String .now
    Prog.ofExcept (input.answered logQL subject
      (← @Prog.ask Loki.iface String (.queryRange logQL (now - lb) now limit)))

/-! ## Tools that render what they are asked -/

/-- A tool that renders its arguments to a request, where it sends one, and has coordinates for
them. -/
structure Renderer (Input Request : Type) where
  decode : String → Except String Input
  request? : Input → Option Request
  coordinates : Input → Coordinates

namespace Renderer

variable {Input Request : Type} {T : Renderer Input Request} {args args' : String}

/-- With the index `x` the arguments send the request and stamp the subject. -/
def Stamps (T : Renderer Input Request) (x : SubjectIndex) (args : String) (request : Request)
    (subject : String) : Prop :=
  ∃ input, T.decode args = .ok input ∧ T.request? input = some request ∧
    x.for (T.coordinates input) = subject

/-- Arguments that send one request have coordinates that read the same. -/
def Agree (T : Renderer Input Request) (args args' : String) : Prop :=
  ∀ i i' request, T.decode args = .ok i → T.decode args' = .ok i' →
    T.request? i = some request → T.request? i' = some request →
      (T.coordinates i).Same (T.coordinates i')

/-- The request determines the subject in every index exactly if it determines how the coordinates
read. -/
theorem unique_iff : (∀ x request s s', T.Stamps x args request s →
    T.Stamps x args' request s' → s = s') ↔ T.Agree args args' := by
  constructor
  · intro h i i' request hi hi' hr hr'
    refine SubjectIndex.for_eq_iff.mp fun x => ?_
    exact h x request _ _ ⟨i, hi, hr, rfl⟩ ⟨i', hi', hr', rfl⟩
  · rintro h x request s s' ⟨i, hi, hr, rfl⟩ ⟨i', hi', hr', rfl⟩
    exact x.for_congr (h i i' request hi hi' hr hr')

end Renderer

def KubeInput.request? (input : KubeInput) : Option (String × String) :=
  if input.resource = "pods" then some (input.namespace, input.selector.text) else none

/-- What the kube tool renders. -/
def kube (decode : String → Except String KubeInput) : Renderer KubeInput (String × String) where
  decode := decode
  request? := KubeInput.request?
  coordinates := KubeInput.coordinates

/-- A run that makes the request stamps the subject. -/
def KubeTool.Stamps (k : KubeTool) (decode : String → Except String KubeInput) (args : String)
    (request : String × String) (subject : String) : Prop :=
  ∃ t ref, (k.run decode args).Exits t (.ok ref) ∧
    (∃ pods, ⟨.list request.1 request.2, pods⟩ ∈ t) ∧
    ref.subject = subject

theorem KubeInput.subject_listed (input : KubeInput) (args subject : String)
    (pods : Except String (List Pod)) : (input.listed args subject pods).subject = subject := by
  unfold KubeInput.listed
  split <;> rfl

variable {err subject logQL : String} {l' : Labels}

namespace KubeTool

variable {k : KubeTool} {decode : String → Except String KubeInput} {args : String}
  {input : KubeInput}

theorem run_pods (hd : decode args = .ok input) (hp : input.resource = "pods") :
    k.run decode args = .call (.list input.namespace input.selector.text) fun list =>
      .ret (input.listed args (k.subjects.for input.coordinates) list) := by
  unfold run
  rw [hd]
  exact if_pos hp

theorem run_other (hd : decode args = .ok input) (hp : input.resource ≠ "pods") :
    k.run decode args = .ret
      { tool := "kube", query := args
        summary := "unsupported resource: " ++ input.resource
        subject := k.subjects.for input.coordinates } := by
  unfold run
  rw [hd]
  exact if_neg hp

theorem run_error (hd : decode args = .error err) :
    k.run decode args = .fail ("decode kube args: " ++ err) := by
  unfold run
  rw [hd]
  rfl

theorem stamps_iff {request : String × String} : k.Stamps decode args request subject ↔
      (kube decode).Stamps k.subjects args request subject := by
  constructor
  · obtain ⟨ns, selector⟩ := request
    rintro ⟨t, ref, h, ⟨pods, hm⟩, rfl⟩
    cases hd : decode args with
    | error err =>
      rw [run_error hd] at h
      cases (exits_fail.mp h).2
    | ok input =>
      by_cases hp : input.resource = "pods"
      · rw [run_pods hd hp] at h
        obtain ⟨list, u, rfl, hu⟩ := exits_call.mp h
        obtain ⟨rfl, href⟩ := exits_ret.mp hu
        cases mem_singleton.mp hm
        cases href
        exact ⟨input, hd, if_pos hp, (input.subject_listed args _ _).symm⟩
      · rw [run_other hd hp] at h
        obtain ⟨rfl, -⟩ := exits_ret.mp h
        cases hm
  · rintro ⟨input, hd, hr, rfl⟩
    have hp : input.resource = "pods" := by
      by_contra hp
      cases (if_neg hp).symm.trans hr
    cases (if_pos hp).symm.trans hr
    refine ⟨[⟨.list input.namespace input.selector.text, .ok []⟩], _, ?_,
      ⟨.ok [], mem_cons_self⟩, input.subject_listed args _ (.ok [])⟩
    have hrun : k.run decode args = _ := run_pods hd hp
    rw [hrun]
    exact exits_call.mpr ⟨_, [], rfl, exits_ret.mpr ⟨rfl, rfl⟩⟩

end KubeTool

/-- The request for an input.  One with a lookback that cannot be read sends none. -/
def LokiInput.request? (text : LokiText) (input : LokiInput) : Option String :=
  match input.duration text with
  | .error _ => none
  | .ok _ => some (buildLogQL text.isPrint input.namespace input.labels input.query)

theorem LokiInput.request?_eq_some {text : LokiText} {input : LokiInput} :
    input.request? text = some logQL ↔ (∃ lb, input.duration text = .ok lb) ∧
      buildLogQL text.isPrint input.namespace input.labels input.query = logQL := by
  unfold request?
  cases input.duration text <;> simp

/-- What the loki tool renders. -/
def loki (text : LokiText) : Renderer LokiInput String where
  decode := text.decodeArgs
  request? := LokiInput.request? text
  coordinates := LokiInput.coordinates

/-- A run that sends the query stamps the subject. -/
def LokiTool.Stamps (l : LokiTool) (text : LokiText) (args logQL subject : String) : Prop :=
  ∃ t ref, (l.run text args).Exits t (.ok ref) ∧
    (∃ start now limit streams,
      ⟨.queryRange logQL start now limit, streams⟩ ∈ t) ∧
    ref.subject = subject

theorem LokiInput.subject_answered {input : LokiInput} {ref : EvidenceRef}
    {streams : Except Loki.Failure (List (List (String × String)))}
    (h : input.answered logQL subject streams = .ok ref) : ref.subject = subject := by
  cases streams with
  | error e => cases e <;> cases h <;> rfl
  | ok streams =>
    simp only [answered] at h
    split at h <;> cases h <;> rfl

namespace LokiTool

variable {l : LokiTool} {text : LokiText} {args : String} {input : LokiInput}

theorem run_sent {lb : Duration} (hd : text.decodeArgs args = .ok input)
    (hl : input.duration text = .ok lb) :
    l.run text args = .call .now fun (now : Time) =>
      .call (.queryRange (buildLogQL text.isPrint input.namespace input.labels input.query)
          (now - lb) now (if input.limit ≤ 0 then 50 else input.limit)) fun streams =>
        ofExcept (input.answered
          (buildLogQL text.isPrint input.namespace input.labels input.query)
          (l.subjects.for input.coordinates) streams) := by
  unfold run
  rw [hd]
  simp only [orFail, ret_bind, hl]
  rfl

theorem exits_noLines {lb : Duration} (hd : text.decodeArgs args = .ok input)
    (hl : input.duration text = .ok lb) (now : Time) :
    (l.run text args).Exits [⟨.now, now⟩, ⟨.queryRange
        (buildLogQL text.isPrint input.namespace input.labels input.query)
        (now - lb) now (if input.limit ≤ 0 then 50 else input.limit), .ok []⟩]
      (.ok (noLines (buildLogQL text.isPrint input.namespace input.labels input.query)
        (l.subjects.for input.coordinates) "no matching log lines")) := by
  rw [run_sent hd hl]
  exact .call (.call .refl)

theorem run_unsent (hd : text.decodeArgs args = .ok input) (hl : input.duration text = .error err) :
    l.run text args = .ret (noLines
      (buildLogQL text.isPrint input.namespace input.labels input.query)
      (l.subjects.for input.coordinates) ("invalid lookback: " ++ err)) := by
  unfold run
  rw [hd]
  simp only [orFail, ret_bind, hl]
  rfl

theorem run_error (hd : text.decodeArgs args = .error err) :
    l.run text args = .fail ("decode loki args: " ++ err) := by
  unfold run
  rw [hd]
  rfl

theorem stamps_iff :
    l.Stamps text args logQL subject ↔ (loki text).Stamps l.subjects args logQL subject := by
  constructor
  · rintro ⟨t, ref, h, ⟨start, now, limit, streams, hm⟩, rfl⟩
    cases hd : text.decodeArgs args with
    | error err =>
      rw [run_error hd] at h
      cases (exits_fail.mp h).2
    | ok input =>
      cases hl : input.duration text with
      | error err =>
        rw [run_unsent hd hl] at h
        obtain ⟨rfl, -⟩ := exits_ret.mp h
        cases hm
      | ok lb =>
        rw [run_sent hd hl] at h
        obtain ⟨now', u, rfl, hu⟩ := exits_call.mp h
        obtain ⟨streams', v, rfl, hv⟩ := exits_call.mp hu
        obtain ⟨rfl, href⟩ := exits_ofExcept.mp hv
        rcases mem_cons.mp hm with hm | hm
        · cases hm
        · cases mem_singleton.mp hm
          exact ⟨input, hd, LokiInput.request?_eq_some.mpr ⟨⟨lb, hl⟩, rfl⟩,
            (LokiInput.subject_answered href.symm).symm⟩
  · rintro ⟨input, hd, hr, rfl⟩
    obtain ⟨⟨lb, hl⟩, rfl⟩ := LokiInput.request?_eq_some.mp hr
    exact ⟨_, _, exits_noLines hd hl 0, ⟨_, _, _, _, mem_cons_of_mem _ mem_cons_self⟩, rfl⟩

end LokiTool

/-! ## What a text says -/

def Labels.KeysClean (l : Labels) : Prop := ∀ p ∈ l.entries, '=' ∉ p.1.toList

/-- The values hold no comma. -/
def Labels.ValuesClean (l : Labels) : Prop := ∀ p ∈ l.entries, ',' ∉ p.2.toList

instance (l : Labels) : Decidable l.KeysClean :=
  inferInstanceAs (Decidable (∀ p ∈ l.entries, '=' ∉ p.1.toList))

instance (l : Labels) : Decidable l.ValuesClean :=
  inferInstanceAs (Decidable (∀ p ∈ l.entries, ',' ∉ p.2.toList))

theorem Labels.ext {l : Labels} (h : l.entries = l'.entries) : l = l' := by
  cases l
  cases l'
  cases h
  rfl

theorem toList_injective : Function.Injective String.toList := fun _ _ => String.toList_inj.mp

/-- A pair with a comma behind it. -/
def pairChars (p : String × String) : List Char := p.1.toList ++ ['='] ++ (p.2.toList ++ [','])

theorem delimited_pair :
    Delimited (fun p : String × String => '=' ∉ p.1.toList ∧ ',' ∉ p.2.toList) pairChars :=
  ((delimited_upTo '=').comp toList_injective).pair ((delimited_upTo ',').comp toList_injective)

theorem pairText_append (p : String × String) : (pairText p).toList ++ [','] = pairChars p := by
  simp [pairText, pairChars]

/-- A selector says which labels it is from, where no key holds a `=` and no value a comma. -/
theorem Labels.text_inj {l : Labels} (hk : l.KeysClean) (hv : l.ValuesClean) (hk' : l'.KeysClean)
    (hv' : l'.ValuesClean) (h : l.text = l'.text) : l = l' := by
  have hitem : Delimited (fun p : String × String => '=' ∉ p.1.toList ∧ ',' ∉ p.2.toList)
      fun p => (pairText p).toList ++ [','] := by
    simp only [pairText_append]
    exact delimited_pair
  refine Labels.ext (hitem.intercalate_inj ?_ (fun p hp => ⟨hk p hp, hv p hp⟩)
    (fun p hp => ⟨hk' p hp, hv' p hp⟩) ?_)
  · intro p _
    simp [pairText]
  · have htext := congrArg String.toList h
    simp only [text, String.toList_intercalate, map_map] at htext
    exact htext

/-- A matcher behind the first, on characters. -/
def matcherChars (isPrint : Char → Bool) (p : String × String) : List Char :=
  [',', ' '] ++ (p.1.toList ++ ['='] ++ Quote.quote isPrint p.2.toList)

theorem delimited_matcher (isPrint : Char → Bool) :
    Delimited (fun p : String × String => '=' ∉ p.1.toList ∧ True) (matcherChars isPrint) :=
  (((delimited_upTo '=').comp toList_injective).pair
    ((Quote.delimited_quote isPrint).comp toList_injective)).after [',', ' ']

theorem toList_buildLogQL (isPrint : Char → Bool) (ns : String) (l : Labels) (query : String) :
    ∃ rest, (buildLogQL isPrint ns l query).toList =
      ("\x7bnamespace=".toList ++ Quote.quote isPrint ns.toList) ++
        ((l.entries.flatMap (matcherChars isPrint) ++ ['\x7d']) ++ rest) := by
  have hjoin : (", ".intercalate (("namespace=" ++ quote isPrint ns) ::
      l.entries.map fun (k, v) => k ++ "=" ++ quote isPrint v)).toList =
      "namespace=".toList ++ Quote.quote isPrint ns.toList ++
        l.entries.flatMap (matcherChars isPrint) := by
    rw [String.toList_intercalate, map_cons, intercalate_cons, map_map, flatMap_map]
    refine congrArg₂ (· ++ ·) ?_ (flatMap_congr fun p _ => ?_)
    · simp [quote]
    · simp [quote, matcherChars]
  unfold buildLogQL
  split
  next =>
    refine ⟨(" |= " ++ quote isPrint query).toList, ?_⟩
    simp only [String.toList_append, hjoin, append_assoc]
    rfl
  next =>
    refine ⟨[], ?_⟩
    simp only [String.toList_append, hjoin, append_assoc]
    rfl

/-- A query says which namespace it is from, and which labels, where no key holds a `=`. -/
theorem buildLogQL_inj {isPrint : Char → Bool} {ns ns' : String} {l : Labels}
    {query query' : String} (h : buildLogQL isPrint ns l query = buildLogQL isPrint ns' l' query') :
    ns = ns' ∧ (l.KeysClean → l'.KeysClean → l = l') := by
  obtain ⟨rest, hrest⟩ := toList_buildLogQL isPrint ns l query
  obtain ⟨rest', hrest'⟩ := toList_buildLogQL isPrint ns' l' query'
  have hns := ((Quote.delimited_quote isPrint).comp toList_injective).after "\x7bnamespace=".toList
  obtain ⟨rfl, hmatchers⟩ := hns trivial trivial (hrest.symm.trans ((congrArg _ h).trans hrest'))
  refine ⟨rfl, fun hk hk' => Labels.ext ?_⟩
  have hitems := (delimited_matcher isPrint).items (q := '\x7d') fun p _ =>
    ⟨',', _, rfl, by decide⟩
  exact (hitems (fun p hp => ⟨hk p hp, trivial⟩) (fun p hp => ⟨hk' p hp, trivial⟩) hmatchers).1

/-! ## One subject for one query -/

/-- Runs of the kube tool over two arguments that send one request stamp one subject, whatever the
index is. -/
def KubeTool.OneSubject (decode : String → Except String KubeInput) (args args' : String) : Prop :=
  ∀ x request s s', KubeTool.Stamps ⟨x⟩ decode args request s →
    KubeTool.Stamps ⟨x⟩ decode args' request s' → s = s'

/-- Runs of the loki tool over two arguments that send one query stamp one subject, whatever the
index is. -/
def LokiTool.OneSubject (text : LokiText) (args args' : String) : Prop :=
  ∀ x logQL s s', LokiTool.Stamps ⟨x⟩ text args logQL s →
    LokiTool.Stamps ⟨x⟩ text args' logQL s' → s = s'

/-- Selectors that can be read back are those of one set of labels. -/
theorem kube_agree {decode : String → Except String KubeInput} {args args' : String}
    (h : ∀ i, decode args = .ok i ∨ decode args' = .ok i →
      i.selector.KeysClean ∧ i.selector.ValuesClean) : (kube decode).Agree args args' := by
  intro i i' request hi hi' hr hr'
  obtain ⟨hk, hv⟩ := h i (.inl hi)
  obtain ⟨hk', hv'⟩ := h i' (.inr hi')
  have hreq : i.request? = i'.request? := hr.trans hr'.symm
  have hp : i.resource = "pods" := by
    by_contra hp
    cases (if_neg hp).symm.trans hr
  have hp' : i'.resource = "pods" := by
    by_contra hp'
    cases (if_neg hp').symm.trans hr'
  rw [KubeInput.request?, KubeInput.request?, if_pos hp, if_pos hp', Option.some_inj,
    Prod.mk.injEq] at hreq
  have hl := Labels.text_inj hk hv hk' hv' hreq.2
  exact ⟨hreq.1, rfl, rfl, fun k => congrArg (Labels.get · k) hl⟩

/-- Queries that can be read back are those of one set of labels. -/
theorem loki_agree {text : LokiText} {args args' : String}
    (h : ∀ i, text.decodeArgs args = .ok i ∨ text.decodeArgs args' = .ok i →
      i.labels.KeysClean) : (loki text).Agree args args' := by
  intro i i' logQL hi hi' hr hr'
  obtain ⟨-, hq⟩ := LokiInput.request?_eq_some.mp hr
  obtain ⟨-, hq'⟩ := LokiInput.request?_eq_some.mp hr'
  obtain ⟨hns, hl⟩ := buildLogQL_inj (hq.trans hq'.symm)
  have hlabels := hl (h i (.inl hi)) (h i' (.inr hi'))
  exact ⟨hns, rfl, rfl, fun k => congrArg (Labels.get · k) hlabels⟩

/-- For each of the tools, what is sent determines the subject in every index exactly if it
determines how the coordinates read.  It does so for the kube tool where no key holds a `=` and no
value a comma, and for the loki tool where no key holds a `=`. -/
theorem stamps_unique_iff (decode : String → Except String KubeInput) (text : LokiText)
    (args args' : String) :
    (KubeTool.OneSubject decode args args' ↔ (kube decode).Agree args args') ∧
      ((∀ i, decode args = .ok i ∨ decode args' = .ok i →
        i.selector.KeysClean ∧ i.selector.ValuesClean) → KubeTool.OneSubject decode args args') ∧
      (LokiTool.OneSubject text args args' ↔ (loki text).Agree args args') ∧
      ((∀ i, text.decodeArgs args = .ok i ∨ text.decodeArgs args' = .ok i →
        i.labels.KeysClean) → LokiTool.OneSubject text args args') := by
  have hkube : KubeTool.OneSubject decode args args' ↔ (kube decode).Agree args args' := by
    simp only [KubeTool.OneSubject, KubeTool.stamps_iff]
    exact Renderer.unique_iff
  have hloki : LokiTool.OneSubject text args args' ↔ (loki text).Agree args args' := by
    simp only [LokiTool.OneSubject, LokiTool.stamps_iff]
    exact Renderer.unique_iff
  exact ⟨hkube, fun h => hkube.mpr (kube_agree h), hloki, fun h => hloki.mpr (loki_agree h)⟩

def gateways : SubjectIndex :=
  [{ subject := "rgw", labels := .single "app" "rgw" },
    { subject := "edge", labels := { entries := [("app", "rgw"), ("tier", "edge")] } }]

def plain : Labels := { entries := [("app", "rgw"), ("tier", "edge"), ("zone", "a")] }

/-- A value that looks like a further label. -/
def spliced : Labels := { entries := [("app", "rgw"), ("tier", "edge,zone=a")] }

/-- A key that looks like a matcher and a further key. -/
def splicedKey : Labels := { entries := [("app", "rgw"), ("tier=\"edge\", zone", "a")] }

def plainJSON : String := "\x7b\"app\":\"rgw\",\"tier\":\"edge\",\"zone\":\"a\"\x7d"

def splicedJSON : String := "\x7b\"app\":\"rgw\",\"tier\":\"edge,zone=a\"\x7d"

def splicedKeyJSON : String := "\x7b\"app\":\"rgw\",\"tier=\\\"edge\\\", zone\":\"a\"\x7d"

/-- `json.Unmarshal` on the texts of a table. -/
def decodeIn {α : Type} (table : List (String × α)) (args : String) : Except String α :=
  match table.lookup args with
  | some a => .ok a
  | none => .error "unexpected end of JSON input"

theorem decodeIn_head {α : Type} {a : String} {x : α} {table : List (String × α)} :
    decodeIn ((a, x) :: table) a = .ok x := by
  rw [decodeIn, lookup_cons_self]

theorem decodeIn_next {α : Type} {a b : String} {x y : α} (h : (b == a) = false) :
    decodeIn [(a, x), (b, y)] b = .ok y := by
  rw [decodeIn, lookup_cons, h]
  exact decodeIn_head

/-- The arguments of the kube tool. -/
def kubeArgs (selector : String) : String :=
  "\x7b\"resource\":\"pods\",\"namespace\":\"ceph\",\"selector\":" ++ selector ++ "\x7d"

/-- The arguments of the loki tool. -/
def lokiArgs (labels : String) : String :=
  "\x7b\"namespace\":\"ceph\",\"labels\":" ++ labels ++ "\x7d"

def podsOf (selector : Labels) : KubeInput where
  resource := "pods"
  «namespace» := "ceph"
  selector := selector

def logsOf (labels : Labels) : LokiInput where
  «namespace» := "ceph"
  labels := labels

def decodeKube : String → Except String KubeInput :=
  decodeIn [(kubeArgs plainJSON, podsOf plain), (kubeArgs splicedJSON, podsOf spliced)]

def decodeLoki : String → Except String LokiInput :=
  decodeIn [(lokiArgs plainJSON, logsOf plain), (lokiArgs splicedKeyJSON, logsOf splicedKey)]

def lokiText : LokiText where
  decodeArgs := decodeLoki
  parseDuration := GoDuration.tryParse
  isPrint _ := true

theorem decodeKube_plain : decodeKube (kubeArgs plainJSON) = .ok (podsOf plain) := decodeIn_head

theorem decodeKube_spliced : decodeKube (kubeArgs splicedJSON) = .ok (podsOf spliced) :=
  decodeIn_next (by decide +kernel)

theorem decodeLoki_plain : decodeLoki (lokiArgs plainJSON) = .ok (logsOf plain) := decodeIn_head

theorem decodeLoki_spliced : decodeLoki (lokiArgs splicedKeyJSON) = .ok (logsOf splicedKey) :=
  decodeIn_next (by decide +kernel)

/-- Labels that look like nothing else are safe. -/
theorem plain_one_subject :
    KubeTool.OneSubject decodeKube (kubeArgs plainJSON) (kubeArgs plainJSON) ∧
      LokiTool.OneSubject lokiText (lokiArgs plainJSON) (lokiArgs plainJSON) := by
  obtain ⟨-, hkube, -, -⟩ :=
    stamps_unique_iff decodeKube lokiText (kubeArgs plainJSON) (kubeArgs plainJSON)
  obtain ⟨-, -, -, hloki⟩ :=
    stamps_unique_iff decodeKube lokiText (lokiArgs plainJSON) (lokiArgs plainJSON)
  refine ⟨hkube fun i hi => ?_, hloki fun i hi => ?_⟩
  · rw [or_self] at hi
    cases decodeKube_plain.symm.trans hi
    decide +kernel
  · rw [or_self] at hi
    cases decodeLoki_plain.symm.trans hi
    decide +kernel

/-- One selector, and one query, stamped with two subjects.  The labels that look like others are
taken for the gateway, and the labels that they look like are those of its edge tier. -/
theorem queries_stamped_twice :
    (∃ request, KubeTool.Stamps ⟨gateways⟩ decodeKube (kubeArgs plainJSON) request "edge" ∧
      KubeTool.Stamps ⟨gateways⟩ decodeKube (kubeArgs splicedJSON) request "rgw") ∧
    ∃ logQL, LokiTool.Stamps ⟨gateways⟩ lokiText (lokiArgs plainJSON) logQL "edge" ∧
      LokiTool.Stamps ⟨gateways⟩ lokiText (lokiArgs splicedKeyJSON) logQL "rgw" := by
  refine ⟨⟨("ceph", "app=rgw,tier=edge,zone=a"), ?_, ?_⟩,
    ⟨buildLogQL lokiText.isPrint "ceph" plain "", ?_, ?_⟩⟩
  · exact KubeTool.stamps_iff.mpr ⟨_, decodeKube_plain, by decide +kernel, by decide +kernel⟩
  · exact KubeTool.stamps_iff.mpr ⟨_, decodeKube_spliced, by decide +kernel, by decide +kernel⟩
  · exact LokiTool.stamps_iff.mpr ⟨_, decodeLoki_plain, by decide +kernel, by decide +kernel⟩
  · exact LokiTool.stamps_iff.mpr ⟨_, decodeLoki_spliced, by decide +kernel, by decide +kernel⟩

end Beats.Evidence
