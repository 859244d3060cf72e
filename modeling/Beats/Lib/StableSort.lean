import Mathlib.Data.List.Pairwise
import Mathlib.Data.List.Sort

/-!
# Stable sorting by a key

An arrangement of a list by a key is *stable* if the keys do not fall and the elements of each key
stay in their order.  There is one such arrangement (`StableBy.unique`), and insertion sort finds
it (`stableBy_insertionSort`).

An arrangement that is stable by one key may be so by another.  It is exactly if the two keys swap
the same pairs: of any two elements, the later has the smaller key under the one exactly if it has
under the other (`stableBy_insertionSort_iff`).
-/

namespace Lib

open List

section

variable {α κ κ' : Type} [LinearOrder κ] [LinearOrder κ']

/-- `s` is the list `l` arranged by the key, with elements of one key in their order. -/
structure StableBy (key : α → κ) (l s : List α) : Prop where
  perm : s.Perm l
  sorted : s.Pairwise fun a b => key a ≤ key b
  stable : ∀ k, s.filter (fun a => key a = k) = l.filter (fun a => key a = k)

variable {key : α → κ} {key' : α → κ'} {l s s' : List α}

/-- Two sorted lists with the same elements of each key are one. -/
theorem eq_of_filter_key (h : s.Pairwise fun a b => key a ≤ key b)
    (h' : s'.Pairwise fun a b => key a ≤ key b)
    (hkey : ∀ k, s.filter (fun a => key a = k) = s'.filter (fun a => key a = k)) : s = s' := by
  induction s generalizing s' with
  | nil =>
    cases s' with
    | nil => rfl
    | cons b s' => simpa using hkey (key b)
  | cons a s ih =>
    cases s' with
    | nil => simpa using hkey (key a)
    | cons b s' =>
      obtain ⟨ha, hs⟩ := pairwise_cons.mp h
      obtain ⟨hb, hs'⟩ := pairwise_cons.mp h'
      -- Each head is in the other list, so neither key is the smaller.
      have hab : key a = key b := by
        have hmem : a ∈ b :: s' := by
          have : a ∈ (b :: s').filter (fun c => key c = key a) := by simp [← hkey]
          exact mem_of_mem_filter this
        have hmem' : b ∈ a :: s := by
          have : b ∈ (a :: s).filter (fun c => key c = key b) := by simp [hkey]
          exact mem_of_mem_filter this
        refine le_antisymm ?_ ?_
        · rcases mem_cons.mp hmem' with rfl | hm
          · exact le_rfl
          · exact ha b hm
        · rcases mem_cons.mp hmem with rfl | hm
          · exact le_rfl
          · exact hb a hm
      have hhead := hkey (key a)
      rw [filter_cons, filter_cons, if_pos (by simp), if_pos (by simp [hab])] at hhead
      obtain rfl := (cons.inj hhead).1
      refine congrArg (a :: ·) (ih hs hs' fun k => ?_)
      have hk := hkey k
      by_cases hak : key a = k
      · simpa [hak] using hk
      · simpa [hak] using hk

/-- There is one stable arrangement. -/
theorem StableBy.unique (h : StableBy key l s) (h' : StableBy key l s') : s = s' :=
  eq_of_filter_key h.sorted h'.sorted fun k => (h.stable k).trans (h'.stable k).symm

theorem stableBy_insertionSort (key : α → κ) (l : List α) :
    StableBy key l (l.insertionSort fun a b => key a ≤ key b) := by
  refine ⟨perm_insertionSort _ l, pairwise_insertionSort _ l, fun k => ?_⟩
  -- The elements of one key are sorted as they are, so they are a sublist of the sorted list.
  have hone : (l.filter fun a => key a = k).Pairwise fun a b => key a ≤ key b := by
    refine pairwise_of_forall_mem_list fun a ha b hb => ?_
    have hka : key a = k := by simpa using (mem_filter.mp ha).2
    have hkb : key b = k := by simpa using (mem_filter.mp hb).2
    exact (hka.trans hkb.symm).le
  have hsub := (sublist_insertionSort hone filter_sublist).filter fun a => key a = k
  rw [filter_filter] at hsub
  simp only [Bool.and_self] at hsub
  exact (hsub.eq_of_length (((perm_insertionSort _ l).filter _).length_eq).symm).symm

/-- In a list that is sorted by two keys, what is smaller by the one is not larger by the other. -/
theorem key_le_of_key_lt (h : s.Pairwise fun a b => key a ≤ key b)
    (h' : s.Pairwise fun a b => key' a ≤ key' b) :
    ∀ a ∈ s, ∀ b ∈ s, (key a < key b → key' a ≤ key' b) ∧ (key b < key a → key' b ≤ key' a) := by
  have : Std.Symm fun a b : α =>
      (key a < key b → key' a ≤ key' b) ∧ (key b < key a → key' b ≤ key' a) := ⟨fun _ _ => And.symm⟩
  refine Pairwise.forall_of_forall (fun _ _ => ⟨fun _ => le_rfl, fun _ => le_rfl⟩) ?_
  exact (h.and h').imp fun hab => ⟨fun _ => hab.2, fun hlt => absurd hab.1 (not_le.mpr hlt)⟩

/-- Where an arrangement is stable by two keys, what the one swaps the other swaps. -/
theorem StableBy.swaps (h : StableBy key l s) (h' : StableBy key' l s) :
    l.Pairwise fun a b => key b < key a → key' b < key' a := by
  rw [pairwise_iff_forall_sublist]
  intro a b hab hlt
  have hmem {c : α} (hc : c ∈ [a, b]) : c ∈ s := h.perm.mem_iff.mpr (hab.subset hc)
  have hle := (key_le_of_key_lt h.sorted h'.sorted b (hmem (by simp)) a (hmem (by simp))).1 hlt
  refine lt_of_le_of_ne hle fun heq => ?_
  -- With one key the two keep their order, which the other key does not allow.
  have hkept : [a, b].Sublist s := by
    have hone := hab.filter fun c => key' c = key' a
    rw [← h'.stable] at hone
    have hself : [a, b].filter (fun c => key' c = key' a) = [a, b] := by simp [heq]
    exact (hself ▸ hone).trans filter_sublist
  have hle' : key a ≤ key b := (pairwise_iff_forall_sublist.mp h.sorted) hkept
  exact absurd hlt (not_lt.mpr hle')

theorem orderedInsert_congr {r r' : α → α → Prop} [DecidableRel r] [DecidableRel r'] {a : α}
    (h : ∀ b ∈ l, r a b ↔ r' a b) : l.orderedInsert r a = l.orderedInsert r' a := by
  induction l with
  | nil => rfl
  | cons b l ih =>
    rw [orderedInsert_cons, orderedInsert_cons]
    simp only [h b mem_cons_self, ih fun c hc => h c (mem_cons_of_mem _ hc)]

/-- Keys that swap the same pairs of a list sort it alike. -/
theorem insertionSort_congr (h : l.Pairwise fun a b => key b < key a ↔ key' b < key' a) :
    (l.insertionSort fun a b => key a ≤ key b) = l.insertionSort fun a b => key' a ≤ key' b := by
  induction l with
  | nil => rfl
  | cons a l ih =>
    obtain ⟨ha, hl⟩ := pairwise_cons.mp h
    rw [insertionSort_cons, insertionSort_cons, ih hl]
    refine orderedInsert_congr fun b hb => ?_
    rw [← not_lt, ← not_lt, ha b ((mem_insertionSort _).mp hb)]

/-- Sorting by one key is stable by another exactly if the keys swap the same pairs. -/
theorem stableBy_insertionSort_iff :
    StableBy key' l (l.insertionSort fun a b => key a ≤ key b) ↔
      l.Pairwise fun a b => key b < key a ↔ key' b < key' a := by
  have hkey := stableBy_insertionSort key l
  constructor
  · intro h
    exact ((hkey.swaps h).and (h.swaps hkey)).imp fun hab => ⟨hab.1, hab.2⟩
  · intro h
    rw [insertionSort_congr h]
    exact stableBy_insertionSort key' l

end

end Lib
