import Mathlib.Data.String.Basic

/-!
# Subjects

`SubjectIndex` of `internal/subjects`: the rules that say which node of the topology a query, or a
changed resource, is about.  A rule constrains the coordinates it declares, and a missing label
reads as an empty one.

The rules are gone through once, from the first to the last, and the answer does not depend on
that: the subject is what all most specific rules name (`SubjectIndex.resolves`).  An index can tell
two coordinates apart where they differ as strings, and where a label of one has another value, or
none, in the other (`for_eq_iff`).
-/

namespace Beats.Evidence

open List

/-! ## Labels -/

/-- A `map[string]string`, by its entries in the order of their keys. -/
structure Labels where
  entries : List (String × String) := []
  ascending : entries.Pairwise fun p q => p.1 < q.1 := by decide

namespace Labels

/-- What is read at a key. -/
def get (l : Labels) (k : String) : String := (l.entries.lookup k).getD ""

def empty : Labels := ⟨[], .nil⟩

def single (k v : String) : Labels := ⟨[(k, v)], pairwise_singleton _ _⟩

/-- Every key has the same value in both. -/
def Same (l l' : Labels) : Prop := ∀ k, l.get k = l'.get k

end Labels

/-! ## Rules -/

/-- `subjects.Coordinates`. -/
structure Coordinates where
  «namespace» : String := ""
  kind : String := ""
  name : String := ""
  labels : Labels := .empty

/-- `subjects.SubjectRule`.  Its plane is for the descriptions of the tools. -/
structure SubjectRule extends Coordinates where
  subject : String := ""

/-- The query has every label that is wanted. -/
def labelsCover (want query : Labels) : Bool := want.entries.all fun (k, v) => query.get k == v

namespace SubjectRule

/-- Whatever the rule names is so of the coordinates. -/
def «matches» (rule : SubjectRule) (c : Coordinates) : Bool :=
  if rule.namespace ≠ "" ∧ rule.namespace ≠ c.namespace then false
  else if rule.kind ≠ "" ∧ rule.kind ≠ c.kind then false
  else if rule.name ≠ "" ∧ rule.name ≠ c.name then false
  else labelsCover rule.labels c.labels

def constraints (rule : SubjectRule) : Nat :=
  rule.labels.entries.length + [rule.namespace, rule.kind, rule.name].countP (· ≠ "")

end SubjectRule

/-- `subjects.SubjectIndex`. -/
abbrev SubjectIndex := List SubjectRule

/-- The variables of the loop. -/
structure Best where
  subject : String := ""
  specificity : Int := -1
  ambiguous : Bool := false

/-- A rule that matches takes over, or makes the choice ambiguous. -/
def Best.next (c : Coordinates) (b : Best) (rule : SubjectRule) : Best :=
  if !rule.matches c then b
  else if rule.constraints > b.specificity then
    { subject := rule.subject, specificity := rule.constraints, ambiguous := false }
  else if rule.constraints = b.specificity ∧ rule.subject ≠ b.subject then
    { b with ambiguous := true }
  else b

/-- The subject of the most specific rule, if there is one. -/
def SubjectIndex.for (x : SubjectIndex) (c : Coordinates) : String :=
  let b := x.foldl (Best.next c) {}
  if b.ambiguous then "" else b.subject

/-! ## What an index can tell apart -/

/-- The coordinates differ at most in how labels are listed. -/
structure Coordinates.Same (c c' : Coordinates) : Prop where
  «namespace» : c.namespace = c'.namespace
  kind : c.kind = c'.kind
  name : c.name = c'.name
  labels : c.labels.Same c'.labels

namespace SubjectRule

variable {rule : SubjectRule} {c c' : Coordinates}

theorem matches_iff : rule.matches c = true ↔ (rule.namespace = "" ∨ rule.namespace = c.namespace) ∧
      (rule.kind = "" ∨ rule.kind = c.kind) ∧ (rule.name = "" ∨ rule.name = c.name) ∧
      ∀ p ∈ rule.labels.entries, c.labels.get p.1 = p.2 := by
  have hfield (want got : String) : ¬ (want ≠ "" ∧ want ≠ got) ↔ want = "" ∨ want = got := by
    rw [not_and_or, not_not, not_not]
  unfold «matches» labelsCover
  rw [← hfield, ← hfield, ← hfield]
  split
  next h => simp [h]
  next h =>
    split
    next h' => simp [h']
    next h' =>
      split
      next h'' => simp [h'']
      next h'' => simp [h, h', h'', all_eq_true]

theorem matches_congr (h : c.Same c') : rule.matches c = rule.matches c' := by
  rw [Bool.eq_iff_iff, matches_iff, matches_iff, h.namespace, h.kind, h.name]
  simp only [h.labels _]

theorem for_singleton :
    SubjectIndex.for [rule] c = if rule.matches c then rule.subject else "" := by
  unfold SubjectIndex.for
  cases h : rule.matches c with
  | false => simp [Best.next, h]
  | true =>
    have hpos : (rule.constraints : Int) > -1 := by omega
    simp [Best.next, h, hpos]

/-- The rule that the coordinates make with one of their labels. -/
def own (c : Coordinates) (k : String) : SubjectRule :=
  { c with labels := .single k (c.labels.get k), subject := "own" }

theorem own_matches (h : ∀ x : SubjectIndex, x.for c = x.for c') (k : String) :
    (own c k).matches c' = true := by
  have hown : (own c k).matches c = true := matches_iff.mpr (by simp [own, Labels.single])
  have hfor := h [own c k]
  rw [for_singleton, for_singleton, if_pos hown] at hfor
  by_contra hc'
  rw [if_neg hc'] at hfor
  have hne : "own" ≠ "" := by decide
  exact hne hfor

end SubjectRule

theorem SubjectIndex.for_congr {c c' : Coordinates} (x : SubjectIndex) (h : c.Same c') :
    x.for c = x.for c' := by
  have hnext : Best.next c = Best.next c' := by
    funext b rule
    simp only [Best.next, SubjectRule.matches_congr h]
  rw [SubjectIndex.for, SubjectIndex.for, hnext]

/-! ## The most specific rules -/

/-- The rule matches, and no rule that matches constrains more. -/
structure Top (x : SubjectIndex) (c : Coordinates) (rule : SubjectRule) : Prop where
  mem : rule ∈ x
  «matches» : rule.matches c = true
  most : ∀ rule' ∈ x, rule'.matches c = true → rule'.constraints ≤ rule.constraints

/-- What the loop knows of the rules it has seen. -/
structure Best.Tracks (seen : SubjectIndex) (c : Coordinates) (b : Best) : Prop where
  bound : ∀ rule ∈ seen, rule.matches c = true → (rule.constraints : Int) ≤ b.specificity
  attained : b.specificity = -1 ∧ b.subject = "" ∨
    ∃ rule ∈ seen, rule.matches c = true ∧ rule.constraints = b.specificity ∧
      rule.subject = b.subject
  agreed : b.ambiguous = false ↔ ∀ rule ∈ seen, rule.matches c = true →
    rule.constraints = b.specificity → rule.subject = b.subject

section

variable {x x' seen : SubjectIndex} {c : Coordinates} {b : Best} {rule : SubjectRule}

theorem Best.tracks_nil : Best.Tracks [] c {} where
  bound := by simp
  attained := .inl ⟨rfl, rfl⟩
  agreed := by simp

/-- A rule that does not match, or constrains less, or says the same, changes nothing. -/
theorem Best.Tracks.skip (h : b.Tracks seen c)
    (hrule : rule.matches c = true → (rule.constraints : Int) < b.specificity ∨
      rule.constraints = b.specificity ∧ rule.subject = b.subject) :
    b.Tracks (seen ++ [rule]) c where
  bound := by
    intro r hr hm
    rcases mem_append.mp hr with hr | hr
    · exact h.bound r hr hm
    · obtain rfl := mem_singleton.mp hr
      rcases hrule hm with hlt | ⟨heq, -⟩
      · exact hlt.le
      · exact heq.le
  attained := by
    refine h.attained.imp_right ?_
    rintro ⟨r, hr, hfound⟩
    exact ⟨r, mem_append_left _ hr, hfound⟩
  agreed := by
    rw [h.agreed]
    constructor
    · intro hall r hr hm hr'
      rcases mem_append.mp hr with hr | hr
      · exact hall r hr hm hr'
      · obtain rfl := mem_singleton.mp hr
        rcases hrule hm with hlt | ⟨-, heq⟩
        · omega
        · exact heq
    · exact fun hall r hr => hall r (mem_append_left _ hr)

theorem Best.Tracks.raise (h : b.Tracks seen c) (hm : rule.matches c = true)
    (hmore : (rule.constraints : Int) > b.specificity) :
    Best.Tracks (seen ++ [rule]) c
      { subject := rule.subject, specificity := rule.constraints, ambiguous := false } where
  bound := by
    intro r hr hr'
    rcases mem_append.mp hr with hr | hr
    · exact (h.bound r hr hr').trans hmore.le
    · exact (mem_singleton.mp hr) ▸ le_rfl
  attained := .inr ⟨rule, by simp, hm, rfl, rfl⟩
  agreed := by
    refine ⟨fun _ r hr hr' heq => ?_, fun _ => rfl⟩
    rcases mem_append.mp hr with hr | hr
    · have hle := h.bound r hr hr'
      simp only at heq
      omega
    · rw [mem_singleton.mp hr]

/-- A rule that constrains as much and says something else makes the subject ambiguous. -/
theorem Best.Tracks.disagree (h : b.Tracks seen c) (hm : rule.matches c = true)
    (heq : rule.constraints = b.specificity) (hne : rule.subject ≠ b.subject) :
    Best.Tracks (seen ++ [rule]) c { b with ambiguous := true } where
  bound := by
    intro r hr hr'
    rcases mem_append.mp hr with hr | hr
    · exact h.bound r hr hr'
    · obtain rfl := mem_singleton.mp hr
      exact heq.le
  attained := by
    refine h.attained.imp_right ?_
    rintro ⟨r, hr, hfound⟩
    exact ⟨r, mem_append_left _ hr, hfound⟩
  agreed := by
    constructor
    · intro hfalse
      cases hfalse
    · exact fun hall => absurd (hall rule (by simp) hm heq) hne

theorem Best.Tracks.next (h : b.Tracks seen c) (rule : SubjectRule) :
    (b.next c rule).Tracks (seen ++ [rule]) c := by
  unfold Best.next
  split
  next hm => exact h.skip fun hm' => by simp [hm'] at hm
  next hm =>
    have hm : rule.matches c = true := by simpa using hm
    split
    next hmore => exact h.raise hm hmore
    next hmore =>
      split
      next hdis => exact h.disagree hm hdis.1 hdis.2
      next hdis =>
        refine h.skip fun _ => ?_
        rcases lt_or_eq_of_le (not_lt.mp hmore) with hlt | heq
        · exact .inl hlt
        · exact .inr ⟨heq, not_not.mp fun hne => hdis ⟨heq, hne⟩⟩

theorem Best.Tracks.foldl (h : b.Tracks seen c) (x : SubjectIndex) :
    (x.foldl (Best.next c) b).Tracks (seen ++ x) c := by
  induction x generalizing seen b with
  | nil => simpa using h
  | cons rule x ih => simpa using ih (h.next rule)

theorem Best.tracks_foldl (x : SubjectIndex) (c : Coordinates) :
    (x.foldl (Best.next c) {}).Tracks x c :=
  Best.tracks_nil.foldl x

theorem Best.Tracks.top_iff (h : b.Tracks x c) :
    Top x c rule ↔ rule ∈ x ∧ rule.matches c = true ∧ rule.constraints = b.specificity := by
  constructor
  · intro ht
    refine ⟨ht.mem, ht.matches, le_antisymm (h.bound rule ht.mem ht.matches) ?_⟩
    rcases h.attained with ⟨hnone, -⟩ | ⟨r, hr, hm, heq, -⟩
    · omega
    · have := ht.most r hr hm
      omega
  · rintro ⟨hmem, hm, heq⟩
    refine ⟨hmem, hm, fun r hr hr' => ?_⟩
    have := h.bound r hr hr'
    omega

/-- The loop ends unambiguous on the subject of a most specific rule, or on none. -/
theorem Best.Tracks.exists_top (h : b.Tracks x c) (hm : ∃ r ∈ x, r.matches c = true) :
    ∃ r, Top x c r ∧ r.subject = b.subject := by
  obtain ⟨r, hr, hr'⟩ := hm
  rcases h.attained with ⟨hnone, -⟩ | ⟨t, ht, hm, heq, hsub⟩
  · have := h.bound r hr hr'
    omega
  · exact ⟨t, h.top_iff.mpr ⟨ht, hm, heq⟩, hsub⟩

theorem exists_top (hm : ∃ r ∈ x, r.matches c = true) : ∃ r, Top x c r := by
  obtain ⟨r, hr, -⟩ := (Best.tracks_foldl x c).exists_top hm
  exact ⟨r, hr⟩

theorem SubjectIndex.for_eq_iff_top {s : String} (hs : s ≠ "") : x.for c = s ↔
    (∃ r ∈ x, r.matches c = true) ∧ ∀ r, Top x c r → r.subject = s := by
  have h := Best.tracks_foldl x c
  have hagreed : (x.foldl (Best.next c) {}).ambiguous = false ↔
      ∀ r, Top x c r → r.subject = (x.foldl (Best.next c) {}).subject := by
    rw [h.agreed]
    constructor
    · intro hall r hr
      obtain ⟨hmem, hm, heq⟩ := h.top_iff.mp hr
      exact hall r hmem hm heq
    · exact fun hall r hr hm heq => hall r (h.top_iff.mpr ⟨hr, hm, heq⟩)
  unfold SubjectIndex.for
  constructor
  · intro hfor
    cases ha : (x.foldl (Best.next c) {}).ambiguous with
    | true =>
      simp only [ha, if_true] at hfor
      exact absurd hfor.symm hs
    | false =>
      simp only [ha, Bool.false_eq_true, if_false] at hfor
      rw [← hfor] at hs ⊢
      refine ⟨?_, hagreed.mp ha⟩
      rcases h.attained with ⟨-, hnone⟩ | ⟨r, hr, hm, -⟩
      · exact absurd hnone hs
      · exact ⟨r, hr, hm⟩
  · rintro ⟨hm, hall⟩
    obtain ⟨r, hr, hsub⟩ := h.exists_top hm
    have hs' : (x.foldl (Best.next c) {}).subject = s := hsub.symm.trans (hall r hr)
    have ha : (x.foldl (Best.next c) {}).ambiguous = false :=
      hagreed.mpr fun r hr => (hall r hr).trans hs'.symm
    simp [ha, hs']

theorem SubjectIndex.for_congr_top (htop : ∀ r, Top x c r ↔ Top x' c r) : x.for c = x'.for c := by
  have hsome (y : SubjectIndex) : (∃ r ∈ y, r.matches c = true) ↔ ∃ r, Top y c r :=
    ⟨exists_top, fun ⟨r, hr⟩ => ⟨r, hr.mem, hr.matches⟩⟩
  have hiff (s : String) (hs : s ≠ "") : x.for c = s ↔ x'.for c = s := by
    rw [for_eq_iff_top hs, for_eq_iff_top hs, hsome, hsome]
    simp only [htop]
  by_cases hx : x.for c = ""
  · by_cases hx' : x'.for c = ""
    · exact hx.trans hx'.symm
    · exact (hiff _ hx').mpr rfl
  · exact ((hiff _ hx).mp rfl).symm

theorem top_of_mem_iff (h : ∀ r, r ∈ x ↔ r ∈ x') : Top x c rule ↔ Top x' c rule := by
  constructor
  · exact fun ht => ⟨(h rule).mp ht.mem, ht.matches, fun r hr => ht.most r ((h r).mpr hr)⟩
  · exact fun ht => ⟨(h rule).mpr ht.mem, ht.matches, fun r hr => ht.most r ((h r).mp hr)⟩

/-- Rules that do not match or are outdone make no rule a most specific one, and unmake none. -/
theorem top_of_outdone (hsub : ∀ r ∈ x, r ∈ x') (hnew : ∀ r ∈ x', r ∉ x → r.matches c = false ∨
      ∃ r' ∈ x', r'.matches c = true ∧ r.constraints < r'.constraints) :
    Top x c rule ↔ Top x' c rule := by
  have hmem {r : SubjectRule} (ht : Top x' c r) : r ∈ x := by
    by_contra hr
    rcases hnew r ht.mem hr with hno | ⟨r', hr', hm, hlt⟩
    · exact absurd (ht.matches.symm.trans hno) (by decide)
    · exact absurd (ht.most r' hr' hm) (not_le.mpr hlt)
  constructor
  · intro ht
    refine ⟨hsub rule ht.mem, ht.matches, fun r hr hm => ?_⟩
    -- a most specific rule of the longer index is an old one
    obtain ⟨t, ht'⟩ := exists_top ⟨r, hr, hm⟩
    exact (ht'.most r hr hm).trans (ht.most t (hmem ht') ht'.matches)
  · exact fun ht => ⟨hmem ht, ht.matches, fun r hr => ht.most r (hsub r hr)⟩

end

/-- What an index says of coordinates, without the order of its rules. -/
structure SubjectIndex.Resolves (x : SubjectIndex) (c : Coordinates) : Prop where
  /-- The subject is what all most specific rules name, if there are any. -/
  named : ∀ s ≠ "", x.for c = s ↔
    (∃ r ∈ x, r.matches c = true) ∧ ∀ r, Top x c r → r.subject = s
  /-- Neither the order of the rules nor their repetition counts. -/
  members : ∀ x' : SubjectIndex, (∀ r, r ∈ x ↔ r ∈ x') → x'.for c = x.for c
  /-- Rules can be put in, anywhere, that do not match or are outdone by one that does. -/
  added : ∀ x' : SubjectIndex, (∀ r ∈ x, r ∈ x') →
    (∀ r ∈ x', r ∉ x → r.matches c = false ∨
      ∃ r' ∈ x', r'.matches c = true ∧ r.constraints < r'.constraints) → x'.for c = x.for c

/-- Every index resolves every coordinates. -/
theorem SubjectIndex.resolves (x : SubjectIndex) (c : Coordinates) : x.Resolves c where
  named _ hs := for_eq_iff_top hs
  members _ h := (for_congr_top fun _ => top_of_mem_iff h).symm
  added _ hsub hnew := (for_congr_top fun _ => top_of_outdone hsub hnew).symm

theorem SubjectIndex.exists_rule {x : SubjectIndex} {c : Coordinates} (h : x.for c ≠ "") :
    ∃ rule ∈ x, rule.matches c = true ∧ rule.subject = x.for c := by
  obtain ⟨hm, hall⟩ := (for_eq_iff_top h).mp rfl
  obtain ⟨r, hr⟩ := exists_top hm
  exact ⟨r, hr.mem, hr.matches, hall r hr⟩

/-! ## Coordinates that read the same -/

theorem SubjectIndex.for_eq_iff {c c' : Coordinates} :
    (∀ x : SubjectIndex, x.for c = x.for c') ↔ c.Same c' := by
  refine ⟨fun h => ?_, fun h x => x.for_congr h⟩
  -- each of the two matches the rules of the other
  have hown k := SubjectRule.matches_iff.mp (SubjectRule.own_matches h k)
  have hown' := SubjectRule.matches_iff.mp (SubjectRule.own_matches (fun x => (h x).symm) "")
  have hfield {a b : String} (hab : a = "" ∨ a = b) (hba : b = "" ∨ b = a) : a = b := by
    rcases hab with rfl | hab
    · exact (hba.elim id id).symm
    · exact hab
  exact
    { «namespace» := hfield (hown "").1 hown'.1
      kind := hfield (hown "").2.1 hown'.2.1
      name := hfield (hown "").2.2.1 hown'.2.2.1
      labels := fun k => ((hown k).2.2.2 (k, c.labels.get k) mem_cons_self).symm }

end Beats.Evidence
