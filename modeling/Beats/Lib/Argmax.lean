import Mathlib.Data.List.MinMax

/-!
# The first of the greatest

`List.argmax` under the operations on lists that a join and a merge are made of: what is
translated (`argmax_filterMap`) and what is appended (`eq_or_lt_of_mem_argmax_append`).
-/

namespace Lib

open List

variable {α β κ : Type} [LinearOrder κ] {f : α → κ} {l l' : List α} {a m : α}

theorem argmax_eq_some_of_forall_lt (ha : a ∈ l) (h : ∀ b ∈ l, b ≠ a → f b < f a) :
    l.argmax f = some a := by
  cases hm : l.argmax f with
  | none => exact absurd (argmax_eq_none.mp hm) (ne_nil_of_mem ha)
  | some m =>
    by_contra hne
    have hlt := h m (argmax_mem hm) fun he => hne (congrArg some he)
    exact absurd (le_of_mem_argmax ha hm) (not_le.mpr hlt)

/-- What is appended replaces the greatest by something greater, or not at all. -/
theorem eq_or_lt_of_mem_argmax_append (ha : a ∈ l.argmax f) :
    ∀ {l' : List α} {m : α}, m ∈ (l ++ l').argmax f → m = a ∨ f a < f m := by
  intro l'
  induction l' using reverseRecOn with
  | nil =>
    intro m hm
    rw [append_nil] at hm
    exact .inl (Option.mem_unique hm ha)
  | append_singleton l' b ih =>
    intro m hm
    rw [← append_assoc, argmax_concat] at hm
    cases hc : (l ++ l').argmax f with
    | none =>
      have hnil := append_eq_nil_iff.mp (argmax_eq_none.mp hc)
      rw [hnil.1] at ha
      cases ha
    | some c =>
      simp only [hc] at hm
      split at hm
      next hlt =>
        cases hm
        rcases ih hc with rfl | hac
        · exact .inr hlt
        · exact .inr (hac.trans hlt)
      next =>
        cases hm
        exact ih hc

/-- The greatest of what a list is translated to is the translation of its greatest. -/
theorem argmax_filterMap {g : α → Option β} {k : β → κ}
    (h : ∀ a ∈ l, ∃ b, g a = some b ∧ k b = f a) :
    (l.filterMap g).argmax k = (l.argmax f).bind g := by
  induction l using reverseRecOn with
  | nil => rfl
  | append_singleton l a ih =>
    obtain ⟨b, hb, hkey⟩ := h a (by simp)
    have ih := ih fun a' ha' => h a' (mem_append_left _ ha')
    rw [filterMap_append, filterMap_cons, hb, filterMap_nil, argmax_concat, argmax_concat, ih]
    cases hc : l.argmax f with
    | none => simp [hb]
    | some c =>
      obtain ⟨d, hd, hkey'⟩ := h c (mem_append_left _ (argmax_mem hc))
      simp only [Option.bind_some, hd, hkey, hkey']
      split <;> simp [hb, hd]

end Lib
