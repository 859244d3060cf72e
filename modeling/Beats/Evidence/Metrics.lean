import Beats.Api.Proposal

/-!
# The metrics tool

`MetricsTool` of `internal/evidence`: the read-only tool `metrics`, which answers a query by
its authored name.  The backend and the JSON decoders are parameters.

Whatever the backend does, evidence names the tool it is from, with one exception.  A
response that does not decode gives the empty piece of evidence and no error
(`MetricsTool.run_tool`).
-/

namespace Beats.Evidence

open Proposal

/-- How `httpx.InstantQuery` fails. -/
inductive InstantQueryError where
  /-- `ErrBuildInstantQuery`. -/
  | build (err : String)
  /-- `ErrDecodeInstantResult`. -/
  | decode (err : String)
  /-- `StatusError`. -/
  | status (status : String)
  /-- The request failed. -/
  | request (err : String)
deriving DecidableEq

def InstantQueryError.text : InstantQueryError → String
  | .build err => "build instant query request: " ++ err
  | .decode err => "decode instant query result: " ++ err
  | .status s => "instant query: status " ++ s
  | .request err => err

/-- An authored query, and the node it is about. -/
structure EvidenceQuery where
  query : String := ""
  subject : String := ""
deriving DecidableEq

/-- `MetricsTool`: the authored queries by name. -/
structure MetricsTool where
  queries : List (String × EvidenceQuery) := []

/-- What the tool reaches: the decoder of its arguments, the backend, which answers a query
with the raw values of its samples, and the decoder of a value. -/
structure Prometheus where
  decodeArgs : String → Except String String
  instantQuery : String → Except InstantQueryError (List String)
  decodeValue : String → Except String String

/-- The query is looked up, asked and digested. -/
def MetricsTool.run (m : MetricsTool) (b : Prometheus) (args : String) :
    Except String EvidenceRef :=
  match b.decodeArgs args with
  | .error err => .error ("decode args: " ++ err)
  | .ok q =>
    match m.queries.lookup q with
    | none =>
      .ok { tool := "metrics", query := q, key := q
            summary := "no such evidence query: " ++ q }
    | some eq =>
      match b.instantQuery eq.query with
      | .error (.build err) =>
        .error ("build query: " ++ InstantQueryError.text (.build err))
      | .error (.decode _) => .ok {}
      | .error (.status status) =>
        .ok { tool := "metrics", query := q, key := q
              summary := "prometheus returned status: " ++ status, subject := eq.subject }
      | .error (.request err) =>
        .ok { tool := "metrics", query := q, key := q
              summary := "prometheus request failed: " ++ err, subject := eq.subject }
      | .ok [] =>
        .ok { tool := "metrics", query := q, key := q
              summary := "query returned no data", subject := eq.subject }
      | .ok (value :: _) =>
        match b.decodeValue value with
        | .error err => .error ("decode value string: " ++ err)
        | .ok v =>
          .ok { tool := "metrics", query := q, key := q
                summary := q ++ " = " ++ v, ref := "metrics://" ++ q
                live := true, subject := eq.subject }

variable {m : MetricsTool} {b : Prometheus} {args : String} {ref : EvidenceRef}

/-- What the tool returns: evidence that names the tool and has the name of the query for its key,
or the empty piece of evidence. -/
theorem MetricsTool.run_cases (h : m.run b args = .ok ref) :
    (ref.tool = "metrics" ∧ b.decodeArgs args = .ok ref.key) ∨
      ref = {} ∧ ∃ q eq err, b.decodeArgs args = .ok q ∧ m.queries.lookup q = some eq ∧
        b.instantQuery eq.query = .error (.decode err) := by
  unfold MetricsTool.run at h
  cases hq : b.decodeArgs args with
  | error err => simp only [hq] at h; cases h
  | ok q =>
    simp only [hq] at h
    cases heq : m.queries.lookup q with
    | none => simp only [heq] at h; cases h; exact .inl ⟨rfl, rfl⟩
    | some eq =>
      simp only [heq] at h
      cases hr : b.instantQuery eq.query with
      | error e =>
        simp only [hr] at h
        cases e with
        | build err => cases h
        | decode err => cases h; exact .inr ⟨rfl, q, eq, err, rfl, heq, hr⟩
        | status _ | request _ => cases h; exact .inl ⟨rfl, rfl⟩
      | ok values =>
        simp only [hr] at h
        cases values with
        | nil => cases h; exact .inl ⟨rfl, rfl⟩
        | cons value values =>
          cases hv : b.decodeValue value with
          | error err => simp only [hv] at h; cases h
          | ok v => simp only [hv] at h; cases h; exact .inl ⟨rfl, rfl⟩

/-- Evidence of the tool names it, or it is empty, which is what an undecodable response
gives. -/
theorem MetricsTool.run_tool (h : m.run b args = .ok ref) : ref.tool = "metrics" ∨
      ref = {} ∧ ∃ q eq err, b.decodeArgs args = .ok q ∧ m.queries.lookup q = some eq ∧
        b.instantQuery eq.query = .error (.decode err) :=
  (MetricsTool.run_cases h).imp_left And.left

end Beats.Evidence
