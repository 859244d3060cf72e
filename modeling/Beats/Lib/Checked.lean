import Mathlib.Data.List.Forall2

/-!
# Checks in sequence

What is known of a sequence of checks that passed: each of them did, and what it returned went to
the next one.
-/

namespace Lib

variable {ε α β : Type} {x : Except ε α} {a : α} {b : β}

variable {f : α → Except ε β}

theorem bind_eq_ok : (x >>= f) = .ok b ↔ ∃ a, x = .ok a ∧ f a = .ok b := by
  cases x with
  | error e => exact ⟨nofun, fun ⟨_, h, _⟩ => nomatch h⟩
  | ok a => exact ⟨fun h => ⟨a, rfl, h⟩, fun ⟨_, h, hf⟩ => by cases h; exact hf⟩

/-- A check of every element passes where the check of each one does. -/
theorem forall₂_of_mapM : ∀ {l : List α} {l' : List β},
    l.mapM f = .ok l' → List.Forall₂ (fun a b => f a = .ok b) l l'
  | [], _, h => by
    cases h
    exact .nil
  | a :: l, l', h => by
    rw [List.mapM_cons] at h
    obtain ⟨b, hb, h⟩ := bind_eq_ok.mp h
    obtain ⟨bs, hbs, h⟩ := bind_eq_ok.mp h
    cases h
    exact .cons hb (forall₂_of_mapM hbs)

end Lib
