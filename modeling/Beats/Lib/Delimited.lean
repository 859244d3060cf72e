import Mathlib.Data.List.Basic

/-!
# Delimited encodings

An encoding is *delimited* on `P` if the encoding of a value of `P` shows where it ends: two texts
that begin with encodings of such values and agree as texts agree in the value and in what follows.

An encoding with a decoder is delimited (`Delimited.of_decoder`), and so is text up to a mark that
it does not hold (`delimited_upTo`).  Delimited encodings can be put one after the other
(`Delimited.pair`), behind a fixed text (`Delimited.after`), and into lists, as long as what ends
the list is not taken for an item (`Delimited.flatMap`, `Delimited.items`), or with separators
between them (`Delimited.intercalate_inj`).
-/

namespace Lib

open List

variable {α β γ : Type}

/-- An encoded value of `P` is known, and so is what follows it. -/
def Delimited (P : α → Prop) (enc : α → List γ) : Prop :=
  ∀ ⦃a a' : α⦄ ⦃r r' : List γ⦄, P a → P a' → enc a ++ r = enc a' ++ r' → a = a' ∧ r = r'

variable {P : α → Prop} {Q : β → Prop} {enc : α → List γ} {enc' : β → List γ}

theorem Delimited.of_decoder {dec : List γ → Option (α × List γ)}
    (h : ∀ a r, P a → dec (enc a ++ r) = some (a, r)) : Delimited P enc := by
  intro a a' r r' ha ha' he
  have hdec := h a r ha
  rw [he, h a' r' ha'] at hdec
  cases hdec
  exact ⟨rfl, rfl⟩

/-- Text that does not hold the mark ends at the mark. -/
theorem delimited_upTo (q : γ) : Delimited (q ∉ ·) fun l : List γ => l ++ [q] := by
  intro a a' r r' ha ha' he
  induction a generalizing a' with
  | nil =>
    cases a' with
    | nil =>
      injection he with _ hr
      exact ⟨rfl, hr⟩
    | cons x a' =>
      injection he with hx _
      exact absurd (hx ▸ mem_cons_self) ha'
  | cons x a ih =>
    cases a' with
    | nil =>
      injection he with hx _
      exact absurd (hx ▸ mem_cons_self) ha
    | cons x' a' =>
      injection he with hx hr
      obtain ⟨rfl, rfl⟩ := ih (mt (mem_cons_of_mem x) ha) (mt (mem_cons_of_mem x') ha') hr
      exact ⟨by rw [hx], rfl⟩

variable {q : γ} {l a sep : List γ}

/-- Read from the end, text that does not hold the mark begins behind it. -/
theorem eq_of_append_cons {l' a' : List γ} (ha : q ∉ a) (ha' : q ∉ a')
    (h : l ++ q :: a = l' ++ q :: a') : l = l' ∧ a = a' := by
  have hrev := congrArg reverse h
  simp only [reverse_append, reverse_cons] at hrev
  obtain ⟨harev, hlrev⟩ := delimited_upTo q (mt mem_reverse.mp ha) (mt mem_reverse.mp ha') hrev
  exact ⟨reverse_injective hlrev, reverse_injective harev⟩

/-- What stands before the last mark. -/
def beforeLast [DecidableEq γ] (q : γ) : List γ → Option (List γ)
  | [] => none
  | x :: l =>
    match beforeLast q l with
    | some l' => some (x :: l')
    | none => if x = q then some [] else none

theorem beforeLast_eq_none [DecidableEq γ] (h : q ∉ l) : beforeLast q l = none := by
  induction l with
  | nil => rfl
  | cons x l ih =>
    obtain ⟨hx, hl⟩ := not_or.mp (mt mem_cons.mpr h)
    rw [beforeLast, ih hl, if_neg (Ne.symm hx)]

/-- Text that does not hold the mark is cut off with it. -/
theorem beforeLast_append [DecidableEq γ] (ha : q ∉ a) (l : List γ) :
    beforeLast q (l ++ q :: a) = some l := by
  induction l with
  | nil => rw [nil_append, beforeLast, beforeLast_eq_none ha, if_pos rfl]
  | cons x l ih => rw [cons_append, beforeLast, ih]

theorem Delimited.pair (h : Delimited P enc) (h' : Delimited Q enc') :
    Delimited (fun x : α × β => P x.1 ∧ Q x.2) fun x => enc x.1 ++ enc' x.2 := by
  rintro ⟨a, b⟩ ⟨a', b'⟩ r r' ⟨ha, hb⟩ ⟨ha', hb'⟩ he
  simp only [append_assoc] at he
  obtain ⟨rfl, hrest⟩ := h ha ha' he
  obtain ⟨rfl, rfl⟩ := h' hb hb' hrest
  exact ⟨rfl, rfl⟩

/-- Through a view of the values that tells them apart. -/
theorem Delimited.comp {f : β → α} (h : Delimited P enc) (hf : Function.Injective f) :
    Delimited (fun b => P (f b)) fun b => enc (f b) := by
  intro b b' r r' hb hb' he
  obtain ⟨hfb, hr⟩ := h hb hb' he
  exact ⟨hf hfb, hr⟩

/-- Behind a fixed text. -/
theorem Delimited.after (h : Delimited P enc) (l : List γ) : Delimited P fun a => l ++ enc a := by
  intro a a' r r' ha ha' he
  simp only [append_assoc, append_cancel_left_eq] at he
  exact h ha ha' he

/-- With a fixed text behind it. -/
theorem Delimited.followed (h : Delimited P enc) (l : List γ) :
    Delimited P fun a => enc a ++ l := by
  intro a a' r r' ha ha' he
  simp only [append_assoc] at he
  obtain ⟨rfl, hrest⟩ := h ha ha' he
  exact ⟨rfl, append_cancel_left hrest⟩

/-- A list of items is known, and so is what follows it, if what follows is never taken for an
item. -/
theorem Delimited.flatMap (h : Delimited P enc) {r r' : List γ}
    (hr : ∀ a s, P a → enc a ++ s ≠ r) (hr' : ∀ a s, P a → enc a ++ s ≠ r') :
    ∀ {l l' : List α}, (∀ a ∈ l, P a) → (∀ a ∈ l', P a) →
      l.flatMap enc ++ r = l'.flatMap enc ++ r' → l = l' ∧ r = r'
  | [], [], _, _, he => ⟨rfl, he⟩
  | [], a' :: l', _, hl', he => by
    rw [flatMap_cons, append_assoc] at he
    exact absurd he.symm (hr a' _ (hl' a' mem_cons_self))
  | a :: l, [], hl, _, he => by
    rw [flatMap_cons, append_assoc] at he
    exact absurd he (hr' a _ (hl a mem_cons_self))
  | a :: l, a' :: l', hl, hl', he => by
    rw [flatMap_cons, flatMap_cons, append_assoc, append_assoc] at he
    obtain ⟨rfl, hrest⟩ := h (hl a mem_cons_self) (hl' a' mem_cons_self) he
    obtain ⟨rfl, rfl⟩ := Delimited.flatMap h hr hr' (fun x hx => hl x (mem_cons_of_mem _ hx))
      (fun x hx => hl' x (mem_cons_of_mem _ hx)) hrest
    exact ⟨rfl, rfl⟩

/-- Items that begin with something else than the mark end at the mark. -/
theorem Delimited.items (h : Delimited P enc) (hq : ∀ a, P a → ∃ x s, enc a = x :: s ∧ x ≠ q) :
    Delimited (fun l : List α => ∀ a ∈ l, P a) fun l => l.flatMap enc ++ [q] := by
  have hne (r : List γ) : ∀ a s, P a → enc a ++ s ≠ q :: r := by
    intro a s ha he
    obtain ⟨x, u, hx, hxq⟩ := hq a ha
    rw [hx] at he
    injection he with he _
    exact hxq he
  intro l l' r r' hl hl' he
  simp only [append_assoc, singleton_append] at he
  obtain ⟨rfl, hrest⟩ := h.flatMap (hne r) (hne r') hl hl' he
  injection hrest with _ hr
  exact ⟨rfl, hr⟩

/-! ## Joined texts -/

/-- A separator stands before every item but the first. -/
theorem intercalate_cons (sep x : List γ) :
    ∀ l : List (List γ), sep.intercalate (x :: l) = x ++ l.flatMap (sep ++ ·) := by
  intro l
  induction l generalizing x with
  | nil => simp
  | cons y l ih =>
    rw [intercalate_cons_cons, ih, flatMap_cons, append_assoc, append_assoc]

/-- With one more separator at the end, one stands behind every item. -/
theorem intercalate_append {l : List (List γ)} (sep : List γ) (h : l ≠ []) :
    sep.intercalate l ++ sep = l.flatMap (· ++ sep) := by
  induction l with
  | nil => exact absurd rfl h
  | cons x l ih =>
    cases l with
    | nil => simp
    | cons y l =>
      rw [intercalate_cons_cons, append_assoc, ih (cons_ne_nil y l)]
      rfl

theorem intercalate_eq_nil_iff {l : List (List γ)} (h : ∀ x ∈ l, x ≠ []) :
    sep.intercalate l = [] ↔ l = [] := by
  cases l with
  | nil => simp
  | cons x l =>
    have hx := h x mem_cons_self
    simp [intercalate_cons, hx]

/-- A joined text says which items it is from, if the separator shows where an item ends. -/
theorem Delimited.intercalate_inj (h : Delimited P fun a => enc a ++ sep)
    (hne : ∀ a, P a → enc a ≠ []) {l l' : List α} (hl : ∀ a ∈ l, P a) (hl' : ∀ a ∈ l', P a)
    (he : sep.intercalate (l.map enc) = sep.intercalate (l'.map enc)) : l = l' := by
  have hnil {l : List α} (hl : ∀ a ∈ l, P a) : sep.intercalate (l.map enc) = [] ↔ l = [] := by
    refine (intercalate_eq_nil_iff ?_).trans map_eq_nil_iff
    intro x hx
    obtain ⟨a, ha, rfl⟩ := mem_map.mp hx
    exact hne a (hl a ha)
  by_cases hemp : l = []
  · rw [hemp, (hnil hl').mp (he ▸ (hnil hl).mpr hemp)]
  · have hemp' : l' ≠ [] := fun h' => hemp ((hnil hl).mp (he.trans ((hnil hl').mpr h')))
    have hend (a : α) (s : List γ) (ha : P a) : (enc a ++ sep) ++ s ≠ [] := by simp [hne a ha]
    have hjoin {l : List α} (hemp : l ≠ []) :
        sep.intercalate (l.map enc) ++ sep = l.flatMap fun a => enc a ++ sep := by
      rw [intercalate_append sep (mt map_eq_nil_iff.mp hemp), flatMap_map]
    have hitems : (l.flatMap fun a => enc a ++ sep) ++ [] =
        (l'.flatMap fun a => enc a ++ sep) ++ [] := by
      rw [← hjoin hemp, ← hjoin hemp', he]
    exact (h.flatMap hend hend hl hl' hitems).1

end Lib
