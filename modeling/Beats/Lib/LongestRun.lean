import Mathlib.Data.List.Induction

/-!
# The longest run of a list

One pass over a list finds the longest stretch of elements that satisfy a predicate, the first one
of several.  The pass holds the stretch that it is in and the best one so far.
-/

namespace Lib

open List

variable {α : Type} (p : α → Prop)

/-- The variables of the pass. -/
structure Scan (α : Type) where
  best : List α := []
  cur : List α := []

def Scan.add [DecidablePred p] (s : Scan α) (x : α) : Scan α :=
  if p x then
    { best := if s.best.length < (s.cur ++ [x]).length then s.cur ++ [x] else s.best
      cur := s.cur ++ [x] }
  else { s with cur := [] }

/-- Behind `pre` there is the first of the longest runs of `xs`. -/
structure FirstLongest (xs pre run : List α) : Prop where
  split : ∃ post, xs = pre ++ run ++ post
  all : ∀ x ∈ run, p x
  longest : ∀ pre' run' post', xs = pre' ++ run' ++ post' → (∀ x ∈ run', p x) →
    run'.length ≤ run.length ∧ (run'.length = run.length → pre.length ≤ pre'.length)

/-- The longest run at the end of `xs`. -/
structure LongestSuffix (xs pre run : List α) : Prop where
  split : xs = pre ++ run
  all : ∀ x ∈ run, p x
  longest : ∀ pre' run', xs = pre' ++ run' → (∀ x ∈ run', p x) → run'.length ≤ run.length

variable {p} {x : α} {xs pre run : List α}

theorem LongestSuffix.concat (h : LongestSuffix p xs pre run) (hx : p x) :
    LongestSuffix p (xs ++ [x]) pre (run ++ [x]) := by
  refine ⟨by rw [h.split, append_assoc], by simpa [or_imp, forall_and] using ⟨h.all, hx⟩, ?_⟩
  intro pre' run' he hall
  induction run' using reverseRecOn with
  | nil => exact Nat.zero_le _
  | append_singleton run'' y _ =>
    rw [← append_assoc] at he
    have hle := h.longest pre' run'' (append_inj' he rfl).1 fun z hz => hall z (by simp [hz])
    simpa using hle

theorem LongestSuffix.break (xs : List α) (hx : ¬p x) :
    LongestSuffix p (xs ++ [x]) (xs ++ [x]) [] := by
  refine ⟨(append_nil _).symm, by simp, fun pre' run' he hall => ?_⟩
  induction run' using reverseRecOn with
  | nil => exact Nat.le_refl _
  | append_singleton run'' y _ =>
    rw [← append_assoc] at he
    cases (append_inj' he rfl).2
    exact absurd (hall x (by simp)) hx

/-- A run that is longer than the best one is at the end of the longer list. -/
theorem FirstLongest.replace {pre₀ run₀ : List α} (h : FirstLongest p xs pre₀ run₀)
    (hs : LongestSuffix p (xs ++ [x]) pre run) (hlt : run₀.length < run.length) :
    FirstLongest p (xs ++ [x]) pre run := by
  refine ⟨⟨[], by rw [append_nil, ← hs.split]⟩, hs.all, fun pre' run' post he hall => ?_⟩
  induction post using reverseRecOn with
  | nil =>
    rw [append_nil] at he
    have hle := hs.longest pre' run' he hall
    have hlen := congrArg length (hs.split.symm.trans he)
    simp only [length_append] at hlen
    omega
  | append_singleton post' y _ =>
    rw [← append_assoc] at he
    have hle := (h.longest pre' run' post' (append_inj' he rfl).1 hall).1
    omega

/-- A run that nothing at the end of the longer list surpasses remains the first. -/
theorem FirstLongest.keep {pre₀ run₀ : List α} (h : FirstLongest p xs pre run)
    (hs : LongestSuffix p (xs ++ [x]) pre₀ run₀) (hle : run₀.length ≤ run.length) :
    FirstLongest p (xs ++ [x]) pre run := by
  obtain ⟨post₀, hsplit⟩ := h.split
  refine ⟨⟨post₀ ++ [x], by rw [hsplit, append_assoc]⟩, h.all, fun pre' run' post he hall => ?_⟩
  induction post using reverseRecOn with
  | nil =>
    rw [append_nil] at he
    have hle' := hs.longest pre' run' he hall
    have hlen := congrArg length he
    simp only [hsplit, length_append, length_singleton] at hlen
    omega
  | append_singleton post' y _ =>
    rw [← append_assoc] at he
    exact h.longest pre' run' post' (append_inj' he rfl).1 hall

/-- Where some element satisfies the predicate, the longest run has an element. -/
theorem FirstLongest.ne_nil (h : FirstLongest p xs pre run) (hx : x ∈ xs) (hp : p x) :
    run ≠ [] := by
  rintro rfl
  obtain ⟨pre', post, rfl⟩ := append_of_mem hx
  have hle := (h.longest pre' [x] post (by simp) (by simpa using hp)).1
  exact absurd hle (by simp)

/-- What the pass has found in `xs`. -/
def Scanned (p : α → Prop) (xs : List α) (s : Scan α) : Prop :=
  (∃ pre, FirstLongest p xs pre s.best) ∧ ∃ pre, LongestSuffix p xs pre s.cur

variable [DecidablePred p]

theorem Scanned.add {s : Scan α} (h : Scanned p xs s) (x : α) :
    Scanned p (xs ++ [x]) (s.add p x) := by
  obtain ⟨⟨pre, hbest⟩, pre₀, hcur⟩ := h
  unfold Scan.add
  split
  next hx =>
    have hcur' := hcur.concat hx
    refine ⟨?_, pre₀, hcur'⟩
    split
    next hlt => exact ⟨pre₀, hbest.replace hcur' hlt⟩
    next hle => exact ⟨pre, hbest.keep hcur' (Nat.le_of_not_lt hle)⟩
  next hx =>
    have hcur' := LongestSuffix.break xs hx
    exact ⟨⟨pre, hbest.keep hcur' (Nat.zero_le _)⟩, _, hcur'⟩

theorem scanned (xs : List α) : Scanned p xs (xs.foldl (Scan.add p) {}) := by
  induction xs using reverseRecOn with
  | nil =>
    refine ⟨⟨[], ⟨[], rfl⟩, by simp, fun pre' run' post he _ => ?_⟩, [], rfl, by simp, ?_⟩
    · obtain ⟨h, -⟩ := append_eq_nil_iff.mp he.symm
      simp [(append_eq_nil_iff.mp h).2]
    · intro pre' run' he _
      simp [(append_eq_nil_iff.mp he.symm).2]
  | append_singleton xs x ih =>
    rw [foldl_append]
    exact ih.add x

end Lib
