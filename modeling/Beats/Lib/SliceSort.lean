import Mathlib.Data.List.Sort

/-!
# Sorting a slice

A sort that is not stable gives some arrangement of a slice in which the keys do not fall.  Where
the keys are distinct there is one such arrangement only (`eq_of_ascending`).
-/

namespace Lib

open List

section

variable {α : Type} {key : α → Int}

/-- In a list of rising keys an element is known by its key. -/
theorem eq_of_key_eq {l : List α} (h : l.Pairwise fun a b => key a < key b) :
    ∀ a ∈ l, ∀ b ∈ l, key a = key b → a = b := by
  induction l with
  | nil =>
    intro a ha
    cases ha
  | cons c l ih =>
    intro a ha b hb hab
    obtain ⟨hc, hl⟩ := pairwise_cons.mp h
    rcases mem_cons.mp ha with rfl | ha' <;> rcases mem_cons.mp hb with rfl | hb'
    · rfl
    · exact absurd hab (Int.ne_of_lt (hc b hb'))
    · exact absurd hab.symm (Int.ne_of_lt (hc a ha'))
    · exact ih hl a ha' b hb' hab

/-- Elements of distinct keys have one order. -/
theorem eq_of_ascending {l l' : List α} (hperm : l.Perm l')
    (h : l.Pairwise fun a b => key a ≤ key b) (h' : l'.Pairwise fun a b => key a < key b) :
    l = l' := by
  refine hperm.eq_of_pairwise ?_ h (h'.imp Int.le_of_lt)
  intro a b ha hb hab hba
  exact eq_of_key_eq h' a (hperm.mem_iff.mp ha) b hb (Int.le_antisymm hab hba)

end

/-- A sort by key, in no promised order where keys are equal. -/
structure SliceSort {α : Type} (key : α → Int) where
  sort : List α → List α
  perm : ∀ l, (sort l).Perm l
  sorted : ∀ l, (sort l).Pairwise fun a b => key a ≤ key b

namespace SliceSort

variable {α : Type} (key : α → Int)

def insertion : SliceSort key where
  sort := List.insertionSort fun a b => key a ≤ key b
  perm := perm_insertionSort _
  sorted l :=
    have : Std.Total fun a b : α => key a ≤ key b := ⟨fun _ _ => Int.le_total _ _⟩
    have : IsTrans α fun a b => key a ≤ key b := ⟨fun _ _ _ => Int.le_trans⟩
    pairwise_insertionSort _ l

end SliceSort

end Lib
