import Mathlib.Data.List.Induction
import Mathlib.Algebra.Order.Ring.Nat

/-!
# Counting by key

A loop that keeps a map, which is a list of entries: an object changes the value of its key.  The
entries have distinct keys, what they count adds up over the objects, and where the changes commute
the order of the objects does not matter.
-/

namespace Lib

open List

variable {O K V : Type} [DecidableEq K] {zero : V} {k k' : K} {f : V → V} {m : List (K × V)}

/-- The map with the value of a key changed, which is `zero` where the map has none. -/
def bump (zero : V) (k : K) (f : V → V) : List (K × V) → List (K × V)
  | [] => [(k, f zero)]
  | (k', v) :: m => if k' = k then (k, f v) :: m else (k', v) :: bump zero k f m

def valueAt (k : K) (m : List (K × V)) : Option V := (m.find? fun e => e.1 = k).map Prod.snd

theorem valueAt_bump : valueAt k' (bump zero k f m) =
      if k = k' then some (f ((valueAt k m).getD zero)) else valueAt k' m := by
  induction m with
  | nil => by_cases hk : k = k' <;> simp [bump, valueAt, hk]
  | cons e m ih =>
    unfold valueAt at ih ⊢
    by_cases he : e.1 = k <;> by_cases hk : k = k' <;> grind [bump]

theorem mem_keys_bump : k' ∈ (bump zero k f m).map Prod.fst ↔ k' = k ∨ k' ∈ m.map Prod.fst := by
  induction m with
  | nil => simp [bump]
  | cons e m ih => grind [bump]

theorem nodup_bump (h : (m.map Prod.fst).Nodup) : ((bump zero k f m).map Prod.fst).Nodup := by
  induction m with
  | nil => simp [bump]
  | cons e m ih =>
    rw [map_cons, nodup_cons] at h
    unfold bump
    split
    next he => simpa [he] using h
    next he => exact nodup_cons.mpr ⟨fun hmem => (mem_keys_bump.mp hmem).elim he h.1, ih h.2⟩

theorem sum_bump {w : V → Nat} {d : Nat} (hzero : w zero = 0) (hf : ∀ v, w (f v) = w v + d) :
    ((bump zero k f m).map fun e => w e.2).sum = (m.map fun e => w e.2).sum + d := by
  induction m with
  | nil => simp [bump, hf, hzero]
  | cons e m ih =>
    unfold bump
    split
    · simp only [map_cons, sum_cons, hf]
      omega
    · simp only [map_cons, sum_cons, ih]
      omega

/-- The map that a loop over objects fills. -/
def bumps (zero : V) (key : O → K) (f : O → V → V) (os : List O) : List (K × V) :=
  os.foldl (fun m o => bump zero (key o) (f o) m) []

variable {key : O → K} {f : O → V → V} {os os' : List O}

theorem bumps_concat (os : List O) (o : O) :
    bumps zero key f (os ++ [o]) = bump zero (key o) (f o) (bumps zero key f os) :=
  foldl_append

theorem nodup_bumps : ((bumps zero key f os).map Prod.fst).Nodup := by
  induction os using reverseRecOn with
  | nil => exact nodup_nil
  | append_singleton os o ih =>
    rw [bumps_concat]
    exact nodup_bump ih

/-- What the values count adds up to the objects that are counted. -/
theorem sum_bumps {w : V → Nat} {p : O → Bool} (hzero : w zero = 0)
    (hf : ∀ o v, w (f o v) = w v + if p o then 1 else 0) :
    ((bumps zero key f os).map fun e => w e.2).sum = os.countP p := by
  induction os using reverseRecOn with
  | nil => rfl
  | append_singleton os o ih => rw [bumps_concat, sum_bump hzero (hf o), ih, countP_append,
      countP_singleton]

theorem sum_bumps_length {w : V → Nat} (hzero : w zero = 0) (hf : ∀ o v, w (f o v) = w v + 1) :
    ((bumps zero key f os).map fun e => w e.2).sum = os.length := by
  rw [sum_bumps (p := fun _ => true) hzero hf, countP_true]

/-- The value of a key is the fold over the objects of the key. -/
theorem valueAt_bumps : valueAt k (bumps zero key f os) =
    (os.filter fun o => key o = k).foldl (fun v o => some (f o (v.getD zero))) none := by
  induction os using reverseRecOn with
  | nil => rfl
  | append_singleton os o ih =>
    rw [bumps_concat, valueAt_bump, filter_append, foldl_append]
    by_cases hk : key o = k
    · subst hk
      simp [ih]
    · simp [hk, ih]

theorem valueAt_bumps_perm (hf : ∀ o o' v, f o (f o' v) = f o' (f o v)) (h : os.Perm os') :
    valueAt k (bumps zero key f os) = valueAt k (bumps zero key f os') := by
  rw [valueAt_bumps, valueAt_bumps]
  exact (h.filter _).foldl_eq' (fun o _ o' _ v => by simp [hf o o']) none

end Lib
