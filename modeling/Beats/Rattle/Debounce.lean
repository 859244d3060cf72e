import Mathlib.Data.List.Basic
import Mathlib.Logic.Function.Basic
import Beats.Api.Proposal

/-!
# The debouncer

`Debouncer` of `internal/rattle`.  A call that is allowed stamps its fingerprint, and one that is
held stamps nothing.  So what a debouncer knows after some calls is when it last allowed each
fingerprint (`last_after`), and two signals of one fingerprint are at least `hold` apart
(`spaced_of_mem`).
-/

namespace Beats.Rattle

open List

/-- `rattle.Debouncer`. -/
@[ext]
structure Debouncer where
  hold : Duration := 0
  last : String → Option Time := fun _ => none

namespace Debouncer

/-- The last signal of the fingerprint is less than `hold` ago. -/
def holds (d : Debouncer) (fingerprint : String) (now : Time) : Bool :=
  match d.last fingerprint with
  | none => false
  | some last => decide (now - last < d.hold)

def stamp (d : Debouncer) (fingerprint : String) (now : Time) : Debouncer :=
  { d with last := Function.update d.last fingerprint (some now) }

/-- The answer, and the debouncer after it. -/
def allow (d : Debouncer) (fingerprint : String) (now : Time) : Bool × Debouncer :=
  if d.holds fingerprint now then (false, d) else (true, d.stamp fingerprint now)

def after (d : Debouncer) : List (String × Time) → Debouncer
  | [] => d
  | (f, now) :: calls => (d.allow f now).2.after calls

def answers (d : Debouncer) : List (String × Time) → List Bool
  | [] => []
  | (f, now) :: calls => (d.allow f now).1 :: (d.allow f now).2.answers calls

def allowed (d : Debouncer) (calls : List (String × Time)) : List (String × Time) :=
  ((calls.zip (d.answers calls)).filter Prod.snd).map Prod.fst

def lastAllowed (d : Debouncer) (calls : List (String × Time)) (f : String) : Option Time :=
  (d.allowed calls).reverse.lookup f

variable {d : Debouncer} {calls : List (String × Time)} {f g : String} {now l s : Time}

theorem holds_eq_false_iff : d.holds f now = false ↔ ∀ l, d.last f = some l → d.hold ≤ now - l := by
  unfold holds
  cases d.last f with
  | none => simp
  | some l => simp

theorem allow_held (h : d.holds f now = true) : d.allow f now = (false, d) := if_pos h

theorem allow_free (h : d.holds f now = false) : d.allow f now = (true, d.stamp f now) :=
  if_neg (by simp [h])

theorem allow_fst_iff : (d.allow f now).1 = true ↔ ∀ l, d.last f = some l → d.hold ≤ now - l := by
  rw [← holds_eq_false_iff]
  cases h : d.holds f now with
  | false => simp [allow_free h]
  | true => simp [allow_held h]

@[simp] theorem hold_stamp : (d.stamp f now).hold = d.hold := rfl

@[simp] theorem last_stamp : (d.stamp f now).last g = if g = f then some now else d.last g :=
  Function.update_apply ..

/-! ## Runs -/

theorem allowed_held (h : d.holds f now = true) :
    d.allowed ((f, now) :: calls) = d.allowed calls := by
  simp [allowed, answers, allow_held h]

theorem allowed_free (h : d.holds f now = false) :
    d.allowed ((f, now) :: calls) = (f, now) :: (d.stamp f now).allowed calls := by
  simp [allowed, answers, allow_free h]

theorem after_held (h : d.holds f now = true) : d.after ((f, now) :: calls) = d.after calls := by
  rw [after, allow_held h]

theorem after_free (h : d.holds f now = false) :
    d.after ((f, now) :: calls) = (d.stamp f now).after calls := by
  rw [after, allow_free h]

theorem lastAllowed_held (h : d.holds f now = true) :
    d.lastAllowed ((f, now) :: calls) = d.lastAllowed calls := by
  funext g
  rw [lastAllowed, allowed_held h, lastAllowed]

theorem lastAllowed_free (h : d.holds f now = false) : d.lastAllowed ((f, now) :: calls) g =
      ((d.stamp f now).lastAllowed calls g).or (if g = f then some now else none) := by
  rw [lastAllowed, allowed_free h, reverse_cons, lookup_append, lastAllowed]
  congr 1
  by_cases hg : g = f
  · rw [hg, if_pos rfl, lookup_cons_self]
  · rw [if_neg hg, lookup_cons, beq_false_of_ne hg]
    rfl

theorem allowed_eq_nil_iff : d.allowed calls = [] ↔ ∀ q ∈ calls, d.holds q.1 q.2 = true := by
  induction calls with
  | nil => exact iff_of_true rfl nofun
  | cons c calls ih =>
    obtain ⟨f, now⟩ := c
    rw [forall_mem_cons]
    cases h : d.holds f now with
    | true => simp [allowed_held h, ih]
    | false => simp [allowed_free h]

theorem hold_after (d : Debouncer) (calls : List (String × Time)) :
    (d.after calls).hold = d.hold := by
  induction calls generalizing d with
  | nil => rfl
  | cons c calls ih =>
    obtain ⟨f, now⟩ := c
    cases h : d.holds f now with
    | true => rw [after_held h, ih]
    | false => rw [after_free h, ih, hold_stamp]

theorem last_after (d : Debouncer) (calls : List (String × Time)) (g : String) :
    (d.after calls).last g = (d.lastAllowed calls g).or (d.last g) := by
  induction calls generalizing d with
  | nil => rfl
  | cons c calls ih =>
    obtain ⟨f, now⟩ := c
    cases h : d.holds f now with
    | true => rw [after_held h, lastAllowed_held h, ih]
    | false =>
      rw [after_free h, lastAllowed_free h, ih, last_stamp, Option.or_assoc]
      congr 1
      split <;> rfl

theorem spaced_of_mem (hm : (g, s) ∈ d.allowed calls) (hl : d.last g = some l) (hd : 0 ≤ d.hold) :
    l + d.hold ≤ s := by
  induction calls generalizing d l with
  | nil => cases hm
  | cons c calls ih =>
    obtain ⟨f, now⟩ := c
    cases h : d.holds f now with
    | true =>
      rw [allowed_held h] at hm
      exact ih hm hl hd
    | false =>
      have hnow (hg : g = f) : l + d.hold ≤ now := by
        subst hg
        exact Int.add_le_of_le_sub_left (holds_eq_false_iff.mp h l hl)
      rw [allowed_free h] at hm
      rcases mem_cons.mp hm with heq | hm
      · cases heq
        exact hnow rfl
      · by_cases hg : g = f
        · have hlast : (d.stamp f now).last g = some now := by rw [last_stamp, if_pos hg]
          calc l + d.hold ≤ now := hnow hg
            _ ≤ now + d.hold := Int.le_add_of_nonneg_right hd
            _ ≤ s := ih (d := d.stamp f now) hm hlast hd
        · exact ih (d := d.stamp f now) hm (by rw [last_stamp, if_neg hg, hl]) hd

theorem exists_lastAllowed (h : d.allowed calls ≠ []) : ∃ g s, d.lastAllowed calls g = some s := by
  obtain ⟨x, xs, hx⟩ := exists_cons_of_ne_nil (mt reverse_eq_nil_iff.mp h)
  refine ⟨x.1, x.2, ?_⟩
  rw [lastAllowed, hx]
  exact lookup_cons_self

theorem mem_of_lastAllowed (h : d.lastAllowed calls g = some s) : (g, s) ∈ d.allowed calls := by
  obtain ⟨l₁, l₂, hl, -⟩ := lookup_eq_some_iff.mp h
  exact mem_reverse.mp (hl ▸ mem_append_right _ mem_cons_self)

theorem mem_asks_of_lastAllowed (h : d.lastAllowed calls g = some s) : (g, s) ∈ calls := by
  obtain ⟨x, hx, hxs⟩ := mem_map.mp (mem_of_lastAllowed h)
  exact hxs ▸ (of_mem_zip (mem_of_mem_filter hx)).1

/-- The calls leave the debouncer as it was where each stamp they set was there already. -/
theorem after_eq_iff :
    d.after calls = d ↔ ∀ g s, d.lastAllowed calls g = some s → d.last g = some s := by
  constructor
  · intro h g s hs
    rw [← h, last_after, hs]
    rfl
  · intro h
    refine Debouncer.ext (hold_after d calls) (funext fun g => ?_)
    rw [last_after]
    cases hs : d.lastAllowed calls g with
    | none => rfl
    | some s => exact (h g s hs).symm

theorem after_eq_iff_of_pos (hd : 0 < d.hold) : d.after calls = d ↔ d.allowed calls = [] := by
  rw [after_eq_iff]
  constructor
  · intro h
    by_contra hne
    obtain ⟨g, s, hs⟩ := exists_lastAllowed hne
    have hle := spaced_of_mem (mem_of_lastAllowed hs) (h g s hs) (Int.le_of_lt hd)
    exact Int.not_lt.mpr hle (Int.lt_add_of_pos_right s hd)
  · intro h g s hs
    have hm := mem_of_lastAllowed hs
    rw [h] at hm
    cases hm

theorem allow_after_iff (hs : d.lastAllowed calls g = some s) :
    ((d.after calls).allow g now).1 = true ↔ d.hold ≤ now - s := by
  rw [allow_fst_iff, last_after, hs, hold_after]
  simp

/-! ## Histories -/

def own (f : String) (calls : List (String × Time)) : List (String × Time) :=
  calls.filter fun c => c.1 = f

/-- What is allowed of a fingerprint is spaced by the hold, what is suppressed is within the hold of
what was allowed last, the first call is allowed, and other fingerprints do not matter. -/
structure Spaced (d : Debouncer) (calls : List (String × Time)) : Prop where
  apart : ∀ f, (own f (d.allowed calls)).Pairwise fun a b => d.hold ≤ b.2 - a.2
  held : ∀ pre f now post, calls = pre ++ (f, now) :: post →
    ((d.after pre).allow f now).1 = false →
      ∃ s, d.lastAllowed pre f = some s ∧ s ≤ now ∧ now - s < d.hold
  first : ∀ pre f now post, calls = pre ++ (f, now) :: post → own f pre = [] →
    ((d.after pre).allow f now).1 = true
  alone : ∀ f, d.answers (own f calls) =
    ((calls.zip (d.answers calls)).filter fun c => c.1.1 = f).map Prod.snd

theorem allowed_apart (hd : 0 ≤ d.hold) :
    (own g (d.allowed calls)).Pairwise fun a b => d.hold ≤ b.2 - a.2 := by
  induction calls generalizing d with
  | nil => exact .nil
  | cons c calls ih =>
    obtain ⟨f, now⟩ := c
    cases h : d.holds f now with
    | true =>
      rw [allowed_held h]
      exact ih hd
    | false =>
      have hrest := ih (d := d.stamp f now) hd
      rw [allowed_free h]
      by_cases hf : f = g
      · subst hf
        rw [own, filter_cons_of_pos (by simp)]
        refine pairwise_cons.mpr ⟨fun b hb => ?_, hrest⟩
        obtain ⟨hb, hbf⟩ := mem_filter.mp hb
        obtain rfl : b.1 = f := of_decide_eq_true hbf
        have hlast : (d.stamp b.1 now).last b.1 = some now := by rw [last_stamp, if_pos rfl]
        exact Int.le_sub_left_of_add_le (spaced_of_mem (d := d.stamp b.1 now) hb hlast hd)
      · rw [own, filter_cons_of_neg (by simpa using hf)]
        exact hrest

/-- Calls of other fingerprints leave the answers to those of `g` as they are. -/
theorem answers_own {d' : Debouncer} (hhold : d'.hold = d.hold) (hlast : d'.last g = d.last g) :
    d'.answers (own g calls) =
      ((calls.zip (d.answers calls)).filter fun c => c.1.1 = g).map Prod.snd := by
  induction calls generalizing d d' with
  | nil => rfl
  | cons c calls ih =>
    obtain ⟨f, now⟩ := c
    by_cases hf : f = g
    · subst hf
      have hholds : d'.holds f now = d.holds f now := by rw [holds, holds, hlast, hhold]
      cases h : d.holds f now with
      | true =>
        simpa [own, answers, allow_held h, allow_held (hholds.trans h)] using ih hhold hlast
      | false =>
        simpa [own, answers, allow_free h, allow_free (hholds.trans h)] using
          @ih (d.stamp f now) (d'.stamp f now) hhold (by simp)
    · have hkept : (d.allow f now).2.hold = d.hold ∧ (d.allow f now).2.last g = d.last g := by
        cases h : d.holds f now with
        | true => simp [allow_held h]
        | false => simp [allow_free h, Ne.symm hf]
      simpa [own, answers, hf] using ih (hhold.trans hkept.1.symm) (hlast.trans hkept.2.symm)

/-- Every history of a new debouncer is spaced. -/
theorem debounce_spaced {hold : Duration} (hpos : 0 < hold)
    (hcalls : calls.Pairwise fun a b => a.2 ≤ b.2) :
    Spaced { hold } calls where
  apart _ := allowed_apart (Int.le_of_lt hpos)
  held := by
    rintro pre f now post rfl hfalse
    have hnot := mt allow_fst_iff.mpr (ne_true_of_eq_false hfalse)
    rw [last_after, hold_after, Option.or_none] at hnot
    simp only [not_forall] at hnot
    obtain ⟨s, hs, hlt⟩ := hnot
    have hle := (pairwise_append.mp hcalls).2.2 _ (mem_asks_of_lastAllowed hs) _
      mem_cons_self
    exact ⟨s, hs, hle, Int.not_le.mp hlt⟩
  first := by
    rintro pre f now post - hnone
    refine allow_fst_iff.mpr fun l hl => ?_
    rw [last_after, Option.or_none] at hl
    exact absurd (mem_asks_of_lastAllowed hl)
      (fun hm => filter_eq_nil_iff.mp hnone _ hm (decide_eq_true rfl))
  alone _ := answers_own rfl rfl

theorem checkout_spaced :
    Spaced { hold := 10 } [("checkout", 0), ("cart", 3), ("checkout", 9), ("checkout", 10)] :=
  debounce_spaced (by decide) (by decide)

end Debouncer

end Beats.Rattle
