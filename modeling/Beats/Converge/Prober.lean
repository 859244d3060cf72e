import Beats.Evidence.Metrics
import Mathlib.Algebra.Order.Field.Rat
import Mathlib.Data.List.TakeWhile
import Mathlib.Tactic.Positivity

/-!
# Targets

`parseTarget` and `Prober.Converged` of `internal/converge`: a target is prose such as `p99 <
250ms`, and an action has converged if the live value of its metric meets it.

The comparison is found by a pattern that is not tied to the ends of the target: the leftmost
operator that has blanks and a run of digits and points behind it.  What stands before and behind is
not looked at (`failsClosed_iff`), and `1e-3` is read as `1` (`exponent_misread`).

A `float64` is a rational.  How a decimal is rounded to one, and which are out of range, is a
parameter.
-/

namespace Beats.Converge

open Lib Evidence List

/-! ## Numbers -/

/-- The value of digits with at most one point among them. -/
def parseDecimal (cs : List Char) : Option Rat :=
  let digits := cs.filter (· ≠ '.')
  let places := (cs.dropWhile (· ≠ '.')).length - 1
  if digits ≠ [] ∧ digits.all Char.isDigit ∧ cs.count '.' ≤ 1 then
    some ((Nat.ofDigitChars 10 digits 0 : Rat) / 10 ^ places)
  else none

/-- The rounding of a decimal to a `float64`, if it is in range. -/
structure Rounding where
  round : Rat → Option Rat
  nonneg : ∀ q f, 0 ≤ q → round q = some f → 0 ≤ f

/-- `strconv.ParseFloat`, of a text of digits and points. -/
def parseFloat (F : Rounding) (cs : List Char) : Except String Rat :=
  let failed (why : String) :=
    "strconv.ParseFloat: parsing " ++ Fmt.quote (String.ofList cs) ++ ": " ++ why
  match parseDecimal cs with
  | none => .error (failed "invalid syntax")
  | some q =>
    match F.round q with
    | none => .error (failed "value out of range")
    | some f => .ok f

/-! ## The pattern -/

/-- The operators that are authored. -/
inductive Op where
  | less
  | equal
deriving DecidableEq

def Op.text : Op → List Char
  | .less => ['<']
  | .equal => ['=', '=']

/-- `\s`. -/
def isSpace (c : Char) : Bool := c == '\t' || c == '\n' || c == '\x0c' || c == '\r' || c == ' '

/-- `[\d.]`. -/
def isNumeral (c : Char) : Bool := c.isDigit || c == '.'

/-- `(<|==)`, at the start of a text. -/
def opAt : List Char → Option (Op × List Char)
  | '<' :: l => some (.less, l)
  | '=' :: '=' :: l => some (.equal, l)
  | _ => none

/-- `comparisonRe`, at the start of a text.  No blank is a numeral, so there is one way to match. -/
def matchAt (l : List Char) : Option (Op × List Char) :=
  match opAt l with
  | none => none
  | some (op, l) =>
    let run := (l.dropWhile isSpace).takeWhile isNumeral
    if run = [] then none else some (op, run)

/-- `comparisonRe.FindStringSubmatch`: the leftmost match. -/
def findComparison : List Char → Option (Op × List Char)
  | [] => none
  | c :: l =>
    match matchAt (c :: l) with
    | some m => some m
    | none => findComparison l

/-- The comparison and the threshold of a target. -/
def parseTarget (F : Rounding) (target : String) : Except String (Op × Rat) :=
  if target = "HEALTH_OK" then .ok (.equal, 0)
  else
    match findComparison target.toList with
    | none => .error ("converge: cannot parse target " ++ Fmt.quote target)
    | some (op, run) =>
      match parseFloat F run with
      | .error err => .error ("converge: cannot parse target " ++ Fmt.quote target ++ ": " ++ err)
      | .ok f => .ok (op, f)

/-! ## The prober -/

/-- What `strconv.ParseFloat` makes of the text of a live value. -/
inductive Reading where
  | finite (value : Rat)
  | inf
  | nan

/-- What the prober reaches: the backend, and the decoders of a value. -/
structure Backend where
  instantQuery : String → Except InstantQueryError (List String)
  decodeValue : String → Except String String
  parseFloat : String → Except String Reading

/-- `Prober`: the queries by the name of their metric. -/
structure Prober where
  queries : List (String × String) := []

/-- The first value that the backend has, if any. -/
def Prober.query (b : Backend) (query : String) : Option Rat :=
  match b.instantQuery query with
  | .error _ => none
  | .ok [] => none
  | .ok (value :: _) =>
    match b.decodeValue value with
    | .error _ => none
    | .ok text =>
      match b.parseFloat text with
      | .error _ => none
      | .ok .nan => none
      | .ok .inf => none
      | .ok (.finite f) => some f

def Op.compare (op : Op) (value threshold : Rat) : Bool :=
  match op with
  | .less => value < threshold
  | .equal => value == threshold

/-- The metric is read and it meets the target. -/
def Prober.converged (F : Rounding) (p : Prober) (b : Backend) (metric target : String) : Bool :=
  match parseTarget F target with
  | .error _ => false
  | .ok (op, threshold) =>
    match p.queries.lookup metric with
    | none => false
    | some query =>
      match Prober.query b query with
      | none => false
      | some value => op.compare value threshold

/-! ## What a target says -/

/-- The characters of comparisons. -/
def isOperator (c : Char) : Bool := c == '<' || c == '>' || c == '=' || c == '!'

def isUnit (c : Char) : Bool := c.isAlpha || c == '%' || c == 'µ'

/-- A comparison that is all of a target: perhaps a name, an operator, a decimal, perhaps a
unit. -/
structure Clause where
  name : List Char := []
  op : Op
  spaces : List Char := []
  number : List Char
  value : Rat
  unit : List Char := []
  name_plain : ∀ c ∈ name, isOperator c = false
  spaces_blank : ∀ c ∈ spaces, isSpace c = true
  number_value : parseDecimal number = some value
  unit_letters : ∀ c ∈ unit, isUnit c = true

def Clause.text (c : Clause) : List Char :=
  c.name ++ (c.op.text ++ (c.spaces ++ (c.number ++ c.unit)))

def Written (l : List Char) : Prop := ∃ c : Clause, c.text = l

/-- The value meets the target, as the target reads. -/
def Meets (F : Rounding) (target : String) (value : Rat) : Prop :=
  target = "HEALTH_OK" ∧ value = 0 ∨
    ∃ c : Clause, c.text = target.toList ∧
      ∃ threshold, F.round c.value = some threshold ∧ c.op.compare value threshold = true

/-- Whatever the prober is bound to and reads, the target converges only on a live value that
meets it. -/
def FailsClosed (F : Rounding) (target : String) : Prop :=
  ∀ (p : Prober) (b : Backend) (metric : String), p.converged F b metric target = true →
    ∃ query value, p.queries.lookup metric = some query ∧ Prober.query b query = some value ∧
      Meets F target value

/-! ## What the pattern finds -/

/-- The text starts with an operator, blanks and a run of numerals that ends there. -/
def Reads (op : Op) (run l : List Char) : Prop :=
  ∃ spaces rest, l = op.text ++ (spaces ++ (run ++ rest)) ∧ (∀ c ∈ spaces, isSpace c = true) ∧
    run ≠ [] ∧ (∀ c ∈ run, isNumeral c = true) ∧ ∀ c ∈ rest.head?, isNumeral c = false

/-- The leftmost place of a text where a comparison can be read has this one. -/
inductive First (op : Op) (run : List Char) : List Char → Prop where
  | here {l : List Char} (h : Reads op run l) : First op run l
  | later {c : Char} {l : List Char} (hno : ∀ op' run', ¬ Reads op' run' (c :: l))
      (h : First op run l) : First op run (c :: l)

/-- The first comparison of a text has a number that is a `float64`. -/
def Readable (F : Rounding) (l : List Char) : Prop :=
  ∃ op run q f, First op run l ∧ parseDecimal run = some q ∧ F.round q = some f

variable {c : Char} {target : String} {F : Rounding} {f q : Rat} {cs : List Char}

theorem isSpace_of_isNumeral (h : isNumeral c = true) : isSpace c = false := by
  cases hs : isSpace c with
  | false => rfl
  | true =>
    simp only [isSpace, Bool.or_eq_true, beq_iff_eq] at hs
    rcases hs with (((rfl | rfl) | rfl) | rfl) | rfl <;> exact absurd h (by decide)

theorem isNumeral_of_isUnit (h : isUnit c = true) : isNumeral c = false := by
  cases hn : isNumeral c with
  | false => rfl
  | true =>
    simp only [isUnit, isNumeral, Bool.or_eq_true, beq_iff_eq] at h hn
    rcases hn with hdigit | rfl
    · rcases h with (halpha | rfl) | rfl
      · delta Char.isAlpha Char.isUpper Char.isLower at halpha
        delta Char.isDigit at hdigit
        grind
      · exact absurd hdigit (by decide)
      · exact absurd hdigit (by decide)
    · exact absurd h (by decide)

section

variable {p : Char → Bool} {body rest : List Char}

theorem dropWhile_run (hbody : ∀ c ∈ body, p c = true) (hrest : ∀ c ∈ rest.head?, p c = false) :
    (body ++ rest).dropWhile p = rest := by
  rw [dropWhile_append_of_pos hbody]
  cases rest with
  | nil => rfl
  | cons c rest => exact dropWhile_cons_of_neg (by simp [hrest c rfl])

theorem takeWhile_run (hbody : ∀ c ∈ body, p c = true) (hrest : ∀ c ∈ rest.head?, p c = false) :
    (body ++ rest).takeWhile p = body := by
  rw [takeWhile_append_of_pos hbody]
  cases rest with
  | nil => exact append_nil body
  | cons c rest => simp [hrest c rfl]

end

variable {l run : List Char} {op : Op}

theorem opAt_eq_some {rest : List Char} : opAt l = some (op, rest) ↔ l = op.text ++ rest := by
  constructor
  · intro h
    unfold opAt at h
    split at h
    · cases h
      rfl
    · cases h
      rfl
    · cases h
  · rintro rfl
    cases op with
    | less => rfl
    | equal => rfl

theorem head?_run {rest : List Char} (hrun : run ≠ []) (hnum : ∀ c ∈ run, isNumeral c = true) :
    ∀ c ∈ (run ++ rest).head?, isSpace c = false := by
  intro c hc
  rw [head?_append_of_ne_nil _ hrun] at hc
  exact isSpace_of_isNumeral (hnum c (mem_of_head? hc))

theorem run_eq_iff (hrun : run ≠ []) : (l.dropWhile isSpace).takeWhile isNumeral = run ↔
      ∃ spaces rest, l = spaces ++ (run ++ rest) ∧ (∀ c ∈ spaces, isSpace c = true) ∧
        (∀ c ∈ run, isNumeral c = true) ∧ ∀ c ∈ rest.head?, isNumeral c = false := by
  constructor
  · rintro rfl
    refine ⟨l.takeWhile isSpace, (l.dropWhile isSpace).dropWhile isNumeral, ?_, ?_, ?_, ?_⟩
    · rw [takeWhile_append_dropWhile, takeWhile_append_dropWhile]
    · exact fun c hc => mem_takeWhile_imp hc
    · exact fun c hc => mem_takeWhile_imp hc
    · intro c hc
      have hstop := head?_dropWhile_not isNumeral (l.dropWhile isSpace)
      rw [Option.mem_def.mp hc] at hstop
      exact hstop
  · rintro ⟨spaces, rest, rfl, hspaces, hnum, hrest⟩
    rw [dropWhile_run hspaces (head?_run hrun hnum), takeWhile_run hnum hrest]

theorem matchAt_eq_some : matchAt l = some (op, run) ↔ Reads op run l := by
  unfold matchAt
  constructor
  · intro h
    split at h
    · cases h
    · next op' rest hop =>
      simp only at h
      split at h
      · cases h
      · next hne =>
        cases h
        obtain ⟨spaces, tail, hrest, hspaces, hnum, htail⟩ := (run_eq_iff hne).mp rfl
        exact ⟨spaces, tail, hrest ▸ opAt_eq_some.mp hop, hspaces, hne, hnum, htail⟩
  · rintro ⟨spaces, rest, hl, hspaces, hne, hnum, hrest⟩
    have hrun := (run_eq_iff hne).mpr ⟨spaces, rest, rfl, hspaces, hnum, hrest⟩
    rw [opAt_eq_some.mpr hl]
    simp only [hrun, if_neg hne]

theorem findComparison_eq_some : findComparison l = some (op, run) ↔ First op run l := by
  induction l with
  | nil =>
    constructor
    · intro h
      cases h
    · intro h
      cases h with
      | here h => cases matchAt_eq_some.mpr h
  | cons c l ih =>
    rw [findComparison]
    cases hm : matchAt (c :: l) with
    | none =>
      have hno : ∀ op' run', ¬ Reads op' run' (c :: l) := by
        intro op' run' h
        cases hm.symm.trans (matchAt_eq_some.mpr h)
      constructor
      · exact fun h => .later hno (ih.mp h)
      · intro h
        cases h with
        | here h => exact absurd h (hno op run)
        | later _ h => exact ih.mpr h
    | some m =>
      constructor
      · intro h
        exact .here (matchAt_eq_some.mp (hm.trans h))
      · intro h
        cases h with
        | here h => exact hm.symm.trans (matchAt_eq_some.mpr h)
        | later hno _ => exact absurd (matchAt_eq_some.mp hm) (hno m.1 m.2)

theorem First.unique {op' : Op} {run' : List Char} (h : First op run l)
    (h' : First op' run' l) : op = op' ∧ run = run' := by
  have heq := (findComparison_eq_some.mpr h).symm.trans (findComparison_eq_some.mpr h')
  cases heq
  exact ⟨rfl, rfl⟩

theorem parseTarget_healthOK (F : Rounding) : parseTarget F "HEALTH_OK" = .ok (.equal, 0) := rfl

theorem parseTarget_eq_ok (hne : target ≠ "HEALTH_OK") : parseTarget F target = .ok (op, f) ↔
      ∃ run q, First op run target.toList ∧ parseDecimal run = some q ∧ F.round q = some f := by
  rw [parseTarget, if_neg hne]
  constructor
  · intro h
    split at h
    · cases h
    · next op' run hfind =>
      split at h
      · cases h
      · next f' hfloat =>
        cases h
        unfold parseFloat at hfloat
        split at hfloat
        · cases hfloat
        · next q hq =>
          split at hfloat
          · cases hfloat
          · next f' hround =>
            cases hfloat
            exact ⟨run, q, findComparison_eq_some.mp hfind, hq, hround⟩
  · rintro ⟨run, q, hfirst, hq, hround⟩
    have hfloat : parseFloat F run = .ok f := by simp only [parseFloat, hq, hround]
    simp only [findComparison_eq_some.mpr hfirst, hfloat]

/-! ## Clauses -/

theorem isNumeral_of_parseDecimal (h : parseDecimal cs = some q) :
    cs ≠ [] ∧ ∀ c ∈ cs, isNumeral c = true := by
  simp only [parseDecimal, Option.ite_none_right_eq_some] at h
  obtain ⟨⟨hne, hall, -⟩, -⟩ := h
  constructor
  · rintro rfl
    exact hne rfl
  · intro c hc
    by_cases hpoint : c = '.'
    · rw [hpoint]
      rfl
    · have hdigit := all_eq_true.mp hall c (mem_filter.mpr ⟨hc, by simpa using hpoint⟩)
      simp [isNumeral, hdigit]

theorem parseDecimal_nonneg (h : parseDecimal cs = some q) : 0 ≤ q := by
  simp only [parseDecimal, Option.ite_none_right_eq_some] at h
  obtain ⟨-, hq⟩ := h
  cases hq
  positivity

theorem not_reads_of_plain (hc : isOperator c = false) (op : Op) (run l : List Char) :
    ¬ Reads op run (c :: l) := by
  rintro ⟨spaces, rest, hl, -⟩
  cases op with
  | less =>
    obtain ⟨rfl, -⟩ := cons.inj hl
    exact absurd hc (by decide)
  | equal =>
    obtain ⟨rfl, -⟩ := cons.inj hl
    exact absurd hc (by decide)

theorem First.append_plain (h : First op run l) {name : List Char}
    (hname : ∀ c ∈ name, isOperator c = false) : First op run (name ++ l) := by
  induction name with
  | nil => exact h
  | cons c name ih =>
    refine .later ?_ (ih fun c' hc' => hname c' (mem_cons_of_mem _ hc'))
    intro op' run'
    exact not_reads_of_plain (hname c mem_cons_self) op' run' (name ++ l)

theorem Clause.unit_head (c : Clause) : ∀ x ∈ c.unit.head?, isNumeral x = false := by
  intro x hx
  exact isNumeral_of_isUnit (c.unit_letters x (mem_of_head? hx))

theorem Clause.first (c : Clause) : First c.op c.number c.text := by
  obtain ⟨hne, hnum⟩ := isNumeral_of_parseDecimal c.number_value
  have hreads : Reads c.op c.number (c.op.text ++ (c.spaces ++ (c.number ++ c.unit))) :=
    ⟨c.spaces, c.unit, rfl, c.spaces_blank, hne, hnum, c.unit_head⟩
  exact First.append_plain (.here hreads) c.name_plain

/-- The clause that a text is, read from its parts. -/
def isClause (l : List Char) : Bool :=
  match opAt (l.dropWhile fun c => !isOperator c) with
  | none => false
  | some (_, rest) =>
    let rest := rest.dropWhile isSpace
    (parseDecimal (rest.takeWhile isNumeral)).isSome && (rest.dropWhile isNumeral).all isUnit

theorem isClause_iff : isClause l = true ↔ Written l := by
  constructor
  · intro h
    unfold isClause at h
    split at h
    · cases h
    · next op rest hop =>
      simp only [Bool.and_eq_true, Option.isSome_iff_exists, all_eq_true] at h
      obtain ⟨⟨value, hvalue⟩, hunit⟩ := h
      let c : Clause :=
        { name := l.takeWhile fun c => !isOperator c
          op := op
          spaces := rest.takeWhile isSpace
          number := (rest.dropWhile isSpace).takeWhile isNumeral
          value := value
          unit := (rest.dropWhile isSpace).dropWhile isNumeral
          name_plain := fun x hx => by simpa using mem_takeWhile_imp hx
          spaces_blank := fun x hx => mem_takeWhile_imp hx
          number_value := hvalue
          unit_letters := hunit }
      refine ⟨c, ?_⟩
      rw [Clause.text, takeWhile_append_dropWhile, takeWhile_append_dropWhile,
        ← opAt_eq_some.mp hop, takeWhile_append_dropWhile]
  · rintro ⟨c, rfl⟩
    obtain ⟨hne, hnum⟩ := isNumeral_of_parseDecimal c.number_value
    have hop : ∀ x ∈ (c.op.text ++ (c.spaces ++ (c.number ++ c.unit))).head?,
        (!isOperator x) = false := by
      cases c.op with
      | less | equal => simp [Op.text, isOperator]
    have hname : ∀ x ∈ c.name, (!isOperator x) = true := fun x hx => by simp [c.name_plain x hx]
    simp only [isClause, Clause.text, dropWhile_run hname hop, opAt_eq_some.mpr rfl,
      dropWhile_run c.spaces_blank (head?_run hne hnum), takeWhile_run hnum c.unit_head,
      dropWhile_run hnum c.unit_head, c.number_value, Option.isSome_some, Bool.true_and,
      all_eq_true]
    exact c.unit_letters

instance (l : List Char) : Decidable (Written l) := decidable_of_iff _ isClause_iff

/-! ## Convergence -/

theorem converged_iff {p : Prober} {b : Backend} {metric : String} :
    p.converged F b metric target = true ↔ ∃ op f query value, parseTarget F target = .ok (op, f) ∧
        p.queries.lookup metric = some query ∧ Prober.query b query = some value ∧
        op.compare value f = true := by
  unfold Prober.converged
  cases parseTarget F target with
  | error err => simp
  | ok m =>
    obtain ⟨op, f⟩ := m
    cases p.queries.lookup metric with
    | none => simp
    | some query =>
      cases hv : Prober.query b query with
      | none | some _ => simp [hv]

/-- A prober that reads the value, whatever it is asked. -/
def readingOf (value : Rat) : Backend where
  instantQuery _ := .ok ["value"]
  decodeValue text := .ok text
  parseFloat _ := .ok (.finite value)

theorem exists_compare (op : Op) (hf : 0 ≤ f) : ∃ value, op.compare value f = true := by
  cases op with
  | less =>
    have hlt : (-1 : Rat) < f := lt_of_lt_of_le (by decide) hf
    exact ⟨-1, by simp [Op.compare, hlt]⟩
  | equal => exact ⟨f, by simp [Op.compare]⟩

/-- A target fails closed exactly if it is the special one or a clause, or if its first comparison
cannot be read. -/
theorem failsClosed_iff (F : Rounding) (target : String) : FailsClosed F target ↔
    target = "HEALTH_OK" ∨ Written target.toList ∨ ¬ Readable F target.toList := by
  by_cases hok : target = "HEALTH_OK"
  · refine ⟨fun _ => .inl hok, fun _ p b metric h => ?_⟩
    obtain ⟨op, f, query, value, hparse, hquery, hvalue, hcomp⟩ := converged_iff.mp h
    rw [hok, parseTarget_healthOK] at hparse
    cases hparse
    exact ⟨query, value, hquery, hvalue, .inl ⟨hok, by simpa [Op.compare] using hcomp⟩⟩
  · constructor
    · intro hclosed
      by_contra hno
      obtain ⟨-, hno⟩ := not_or.mp hno
      obtain ⟨hwritten, hread⟩ := not_or.mp hno
      obtain ⟨op, run, q, f, hfirst, hq, hround⟩ := not_not.mp hread
      -- The comparison that was found holds of a value, and the target says nothing of it.
      obtain ⟨value, hcomp⟩ := exists_compare op (F.nonneg q f (parseDecimal_nonneg hq) hround)
      have hconv : Prober.converged F { queries := [("metric", "query")] } (readingOf value)
          "metric" target = true :=
        converged_iff.mpr ⟨op, f, "query", value,
          (parseTarget_eq_ok hok).mpr ⟨run, q, hfirst, hq, hround⟩, rfl, rfl, hcomp⟩
      obtain ⟨-, value', -, -, hmeets⟩ := hclosed _ _ _ hconv
      rcases hmeets with ⟨h, -⟩ | ⟨c, hc, -⟩
      · exact hok h
      · exact hwritten ⟨c, hc⟩
    · rintro h p b metric hconv
      obtain ⟨op, f, query, value, hparse, hquery, hvalue, hcomp⟩ := converged_iff.mp hconv
      obtain ⟨run, q, hfirst, hq, hround⟩ := (parseTarget_eq_ok hok).mp hparse
      rcases h with h | ⟨c, hc⟩ | h
      · exact absurd h hok
      · obtain ⟨rfl, rfl⟩ := hfirst.unique (hc ▸ c.first)
        obtain rfl := Option.some.inj (c.number_value.symm.trans hq)
        exact ⟨query, value, hquery, hvalue, .inr ⟨c, hc, f, hround, hcomp⟩⟩
      · exact absurd ⟨op, run, q, f, hfirst, hq, hround⟩ h

def unrounded : Rounding where
  round q := some q
  nonneg := by
    rintro q f hq ⟨⟩
    exact hq

/-- Half of all requests fail, and the target has converged without being met. -/
def Misread (target : String) : Prop :=
  Prober.converged unrounded { queries := [("errors", "error_ratio")] } (readingOf (1 / 2))
      "errors" target = true ∧
    ¬ Meets unrounded target (1 / 2) ∧ ¬ FailsClosed unrounded target

theorem misread_of_not_written
    (hconv : Prober.converged unrounded { queries := [("errors", "error_ratio")] }
      (readingOf (1 / 2)) "errors" target = true)
    (hother : target ≠ "HEALTH_OK" ∧ ¬ Written target.toList) : Misread target := by
  have hmeets : ∀ value, ¬ Meets unrounded target value := by
    rintro value (⟨h, -⟩ | ⟨c, hc, -⟩)
    · exact hother.1 h
    · exact hother.2 ⟨c, hc⟩
  refine ⟨hconv, hmeets _, fun hclosed => ?_⟩
  obtain ⟨-, value, -, -, h⟩ := hclosed _ _ _ hconv
  exact hmeets value h

/-- Targets that allow one in a thousand, or ask for a second thing. -/
theorem exponent_misread :
    Misread "error_ratio < 1e-3" ∧ Misread "error_ratio < 1 && p99 < 250ms" :=
  ⟨misread_of_not_written (by decide +kernel) (by decide +kernel),
    misread_of_not_written (by decide +kernel) (by decide +kernel)⟩

end Beats.Converge
