import Mathlib.Data.List.Nodup

/-!
# The first of each key

A loop over a list that skips what has a key it has seen before keeps the first element of each
key.  Which one that is depends on the elements of the key alone (`mem_firstOf`), so what is
appended behind a list adds exactly what has a new key (`firstOf_append`).
-/

namespace Lib

open List

variable {α κ : Type} [DecidableEq κ] {key : α → κ} {a b : α} {l l' : List α}

/-- The first element of each key, in the order of the list. -/
def firstOf (key : α → κ) : List α → List α
  | [] => []
  | a :: l => a :: (firstOf key l).filter fun b => key b ≠ key a

@[simp] theorem firstOf_nil : firstOf key [] = [] := rfl

theorem firstOf_cons : firstOf key (a :: l) = a :: (firstOf key l).filter fun b => key b ≠ key a :=
  rfl

/-- An element is kept exactly if it is the first that is found with its key. -/
theorem mem_firstOf : a ∈ firstOf key l ↔ l.find? (fun b => key b = key a) = some a := by
  induction l with
  | nil => simp
  | cons b l ih =>
    rw [firstOf_cons, mem_cons, mem_filter, ih, find?_cons]
    by_cases hb : key b = key a
    · simp [hb, eq_comm]
    · have hne : a ≠ b := fun he => hb (by rw [he])
      simp [hb, hne, Ne.symm hb]

theorem firstOf_sublist (l : List α) : (firstOf key l).Sublist l := by
  induction l with
  | nil => exact .slnil
  | cons a l ih => exact (filter_sublist.trans ih).cons_cons a

theorem mem_of_mem_firstOf (h : a ∈ firstOf key l) : a ∈ l := (firstOf_sublist l).subset h

/-- No key is kept twice. -/
theorem nodup_map_firstOf (key : α → κ) (l : List α) : ((firstOf key l).map key).Nodup := by
  induction l with
  | nil => exact .nil
  | cons a l ih =>
    rw [firstOf_cons, map_cons, nodup_cons]
    constructor
    · intro hmem
      obtain ⟨b, hb, hkey⟩ := mem_map.mp hmem
      exact absurd hkey (by simpa using (mem_filter.mp hb).2)
    · exact ih.sublist (filter_sublist.map key)

/-- Where no key comes twice, nothing is skipped. -/
theorem firstOf_eq_self (h : (l.map key).Nodup) : firstOf key l = l := by
  induction l with
  | nil => rfl
  | cons a l ih =>
    obtain ⟨ha, hl⟩ := nodup_cons.mp h
    rw [firstOf_cons, ih hl, filter_eq_self.mpr]
    intro b hb
    have hne : key b ≠ key a := fun he => ha (he ▸ mem_map_of_mem hb)
    simpa using hne

/-- What is appended adds what has a new key. -/
theorem firstOf_append (l l' : List α) : firstOf key (l ++ l') =
      firstOf key l ++ (firstOf key l').filter fun b => key b ∉ l.map key := by
  induction l with
  | nil => simp
  | cons a l ih =>
    rw [cons_append, firstOf_cons, ih, firstOf_cons, filter_append, filter_filter, cons_append]
    simp [not_or]

/-- What has only keys that were seen adds nothing. -/
theorem firstOf_append_eq_left (h : ∀ b ∈ l', key b ∈ l.map key) :
    firstOf key (l ++ l') = firstOf key l := by
  rw [firstOf_append, filter_eq_nil_iff.mpr, append_nil]
  intro b hb
  simpa using h b (mem_of_mem_firstOf hb)

theorem firstOf_filter (key : α → κ) (p : κ → Bool) (l : List α) :
    firstOf key (l.filter fun a => p (key a)) = (firstOf key l).filter fun a => p (key a) := by
  induction l with
  | nil => rfl
  | cons a l ih =>
    rw [firstOf_cons]
    cases hp : p (key a) with
    | true =>
      rw [filter_cons_of_pos (by exact hp), filter_cons_of_pos (by exact hp),
        firstOf_cons, ih, filter_filter, filter_filter]
      simp only [Bool.and_comm]
    | false =>
      rw [filter_cons_of_neg (by simp [hp]), filter_cons_of_neg (by simp [hp]), ih, filter_filter]
      -- what has the key of `a` is left out either way
      refine filter_congr fun b _ => ?_
      by_cases hb : key b = key a
      · simp [hb, hp]
      · simp [hb]

/-- The library's removal of duplicates keeps the first of each. -/
theorem eraseDups_eq_firstOf [BEq κ] [LawfulBEq κ] : ∀ l : List κ, l.eraseDups = firstOf id l
  | [] => rfl
  | a :: l => by
    have : (l.filter fun b => !b == a).length < l.length + 1 :=
      Nat.lt_succ_of_le (length_filter_le _ _)
    have hfilter := firstOf_filter id (fun b => !b == a) l
    simp only [id_eq] at hfilter
    rw [eraseDups_cons, eraseDups_eq_firstOf, firstOf_cons, hfilter]
    refine congrArg (a :: ·) (filter_congr fun b _ => ?_)
    rw [Bool.eq_iff_iff]
    simp
termination_by l => l.length

theorem nodup_eraseDups [BEq κ] [LawfulBEq κ] (l : List κ) : l.eraseDups.Nodup := by
  have h := nodup_map_firstOf id l
  rwa [map_id, ← eraseDups_eq_firstOf] at h

end Lib
