import Mathlib.Logic.Basic

/-!
# Mailboxes

A mailbox keeps every message that was posted.  A message can be read again and again until
it is settled, which is what at-least-once delivery comes to.  Messages keep their places, so
a place names a message for good.

`Live box a` says that the message `a` can still be read.
-/

namespace Lib

open List

/-- A message, and whether it can still be delivered. -/
structure Mail (α : Type) where
  body : α
  live : Bool := true

/-- The messages, in the order they were posted in. -/
abbrev Mailbox (α : Type) := List (Mail α)

namespace Mailbox

variable {α : Type} {box : Mailbox α} {a b : α} {k : Nat}

def post (box : Mailbox α) (a : α) : Mailbox α := box ++ [{ body := a }]

/-- The message at a place, if it can still be delivered. -/
def read (box : Mailbox α) (k : Nat) : Option α :=
  match box[k]? with
  | some m => if m.live then some m.body else none
  | none => none

/-- The message at a place will not be delivered any more. -/
def settle (box : Mailbox α) (k : Nat) : Mailbox α :=
  box.modify k fun m => { m with live := false }

/-- The message can still be delivered. -/
def Live (box : Mailbox α) (a : α) : Prop := ∃ m ∈ box, m.live = true ∧ m.body = a

/-- Every message that can still be delivered has the property. -/
def allLive (box : Mailbox α) (p : α → Bool) : Bool := box.all fun m => !m.live || p m.body

theorem allLive_iff {p : α → Bool} : box.allLive p = true ↔ ∀ a, box.Live a → p a = true := by
  simp only [allLive, all_eq_true, Bool.or_eq_true, Bool.not_eq_true']
  constructor
  · rintro h a ⟨m, hm, hlive, rfl⟩
    rcases h m hm with hdead | hp
    · rw [hlive] at hdead
      cases hdead
    · exact hp
  · intro h m hm
    cases hlive : m.live with
    | false => exact .inl rfl
    | true => exact .inr (h m.body ⟨m, hm, hlive, rfl⟩)

theorem not_live_nil : ¬ Live ([] : Mailbox α) a := by
  rintro ⟨m, hm, -⟩
  cases hm

theorem live_post : (box.post b).Live a ↔ box.Live a ∨ a = b := by
  constructor
  · rintro ⟨m, hm, hlive, rfl⟩
    rcases mem_append.mp hm with hm | hm
    · exact .inl ⟨m, hm, hlive, rfl⟩
    · rw [mem_singleton.mp hm]
      exact .inr rfl
  · rintro (⟨m, hm, hlive, rfl⟩ | rfl)
    · exact ⟨m, mem_append_left _ hm, hlive, rfl⟩
    · exact ⟨{ body := a }, mem_append_right _ (mem_singleton_self _), rfl, rfl⟩

theorem live_of_read (h : box.read k = some a) : box.Live a := by
  unfold read at h
  cases hk : box[k]? with
  | none => rw [hk] at h; cases h
  | some m =>
    rw [hk] at h
    cases hlive : m.live with
    | false => simp [hlive] at h
    | true =>
      simp only [hlive, if_true, Option.some.injEq] at h
      exact ⟨m, mem_of_getElem? hk, hlive, h⟩

/-- A message that can be read after a posting could be before, or is the new one. -/
theorem read_post (h : (box.post b).read k = some a) :
    box.read k = some a ∨ (k = box.length ∧ a = b) := by
  unfold read post at h
  rcases Nat.lt_trichotomy k box.length with hk | rfl | hk
  · rw [getElem?_append_left hk] at h
    exact .inl h
  · simp at h
    exact .inr ⟨rfl, h.symm⟩
  · rw [getElem?_eq_none (by simp; omega)] at h
    cases h

theorem lt_of_read (h : box.read k = some a) : k < box.length := by
  unfold read at h
  cases hk : box[k]? with
  | none => rw [hk] at h; cases h
  | some m => exact (List.getElem?_eq_some_iff.mp hk).1

theorem length_post : (box.post a).length = box.length + 1 := by simp [post]

theorem length_settle : (box.settle k).length = box.length := by simp [settle]

/-- A message that can be read after another was settled could be before. -/
theorem read_of_settle {j : Nat} (h : (box.settle j).read k = some a) : box.read k = some a := by
  unfold read settle at h
  rw [getElem?_modify] at h
  unfold read
  cases hk : box[k]? with
  | none => rw [hk] at h; cases h
  | some m =>
    rw [hk] at h
    by_cases hj : j = k
    · simp [hj] at h
    · simpa [hj] using h

/-- What can be delivered after a message is settled could be before. -/
theorem live_of_settle (h : (box.settle k).Live a) : box.Live a := by
  obtain ⟨m, hm, hlive, rfl⟩ := h
  obtain ⟨j, hj⟩ := mem_iff_getElem?.mp hm
  rw [settle, getElem?_modify] at hj
  obtain ⟨m₀, hm₀, he⟩ := Option.map_eq_some_iff.mp hj
  by_cases hjk : k = j
  · simp only [hjk, if_true] at he
    rw [← he] at hlive
    cases hlive
  · simp only [hjk, if_false] at he
    exact ⟨m, mem_of_getElem? (he ▸ hm₀), hlive, rfl⟩

end Mailbox

end Lib
