import Mathlib.Logic.Function.Basic
import Mathlib.Data.List.Induction

/-!
# Folds by key

A stream of objects is folded into a table.  An object that has a key moves the value of that
key, and an object that has none moves nothing.

The value of a key is the fold over the objects of that key (`Keyed.table_eq`).  So the objects of
other keys have no part in it, and how they lie between has none.
-/

namespace Lib

open List

/-- How objects with keys are folded into values. -/
structure Keyed (O K V : Type) where
  /-- The key of an object, where it has one. -/
  key : O → Option K
  /-- The value that a key starts from. -/
  init : V
  /-- What an object makes of the value of its key. -/
  fold : V → O → V

namespace Keyed

variable {O K V : Type} (F : Keyed O K V)

/-- The value of objects of one key. -/
def value (os : List O) : Option V := if os.isEmpty then none else some (os.foldl F.fold F.init)

theorem value_concat (os : List O) (o : O) :
    F.value (os ++ [o]) = some (F.fold ((F.value os).getD F.init) o) := by
  cases os with
  | nil => rfl
  | cons o' os => simp [value, foldl_append]

/-- A part of the value that the last object to speak of it sets. -/
theorem get_foldl {B : Type} (get : V → B) (pick : O → Option B) {os : List O}
    (h : ∀ v, ∀ o ∈ os, get (F.fold v o) = (pick o).getD (get v)) (v : V) :
    get (os.foldl F.fold v) = (os.filterMap pick).getLast?.getD (get v) := by
  induction os using reverseRecOn with
  | nil => rfl
  | append_singleton os o ih =>
    rw [foldl_append, filterMap_append]
    change get (F.fold (os.foldl F.fold v) o) = _
    rw [h _ o (mem_append_right _ (mem_singleton_self o)),
      ih fun v o' ho' => h v o' (mem_append_left _ ho')]
    cases ho : pick o <;> simp [ho]

variable [DecidableEq K]

/-- The table after one object more. -/
def apply (t : K → Option V) (o : O) : K → Option V :=
  match F.key o with
  | none => t
  | some k => Function.update t k (some (F.fold ((t k).getD F.init) o))

def table (os : List O) : K → Option V := os.foldl F.apply fun _ => none

/-- The objects of a key, in the order of the stream. -/
def at' (k : K) (os : List O) : List O := os.filter fun o => F.key o = some k

variable {F} {t : K → Option V} {o : O} {k : K} {os : List O}

theorem apply_self (h : F.key o = some k) :
    F.apply t o k = some (F.fold ((t k).getD F.init) o) := by
  simp [apply, h]

/-- An object of another key, or of none, leaves the value. -/
theorem apply_of_ne (h : F.key o ≠ some k) : F.apply t o k = t k := by
  unfold apply
  cases ho : F.key o with
  | none => rfl
  | some k' =>
    have hk : k ≠ k' := fun he => h (by rw [ho, he])
    exact Function.update_of_ne hk ..

theorem table_concat : F.table (os ++ [o]) = F.apply (F.table os) o := by simp [table, foldl_append]

theorem mem_at : o ∈ F.at' k os ↔ o ∈ os ∧ F.key o = some k := by simp [at']

theorem at_append (k : K) (os os' : List O) : F.at' k (os ++ os') = F.at' k os ++ F.at' k os' :=
  filter_append os os'

theorem at_singleton_self (h : F.key o = some k) : F.at' k [o] = [o] := by simp [at', h]

theorem at_singleton_of_ne (h : F.key o ≠ some k) : F.at' k [o] = [] := by simp [at', h]

theorem at_eq_nil (h : ∀ o ∈ os, F.key o ≠ some k) : F.at' k os = [] :=
  filter_eq_nil_iff.mpr fun o ho => by simpa using h o ho

/-- The value of a key is the fold over its objects. -/
theorem table_eq (os : List O) (k : K) : F.table os k = F.value (F.at' k os) := by
  induction os using reverseRecOn with
  | nil => rfl
  | append_singleton os o ih =>
    rw [table_concat, at_append]
    by_cases ho : F.key o = some k
    · rw [apply_self ho, at_singleton_self ho, value_concat, ih]
    · rw [apply_of_ne ho, at_singleton_of_ne ho, append_nil, ih]

end Keyed

end Lib
