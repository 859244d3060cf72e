import Mathlib.Logic.Function.Basic

/-!
# Admission within a window

Clients are admitted one after another, and no two of those that start within one window of each
other may both be admitted.  A client that starts takes a reading of the clock and checks that no
admission is younger than a window before it.  Its work takes time, so it checks once more before it
is admitted, against a second reading.  Between the second check and the admission it is *inside*.

The two checks suffice if only one client is inside at a time and if the second reading of a client
is less than a window after its first.  `Step` is the machine with both conditions built in,
`Spaced` its invariant, and `Spaced.starts_apart` what the invariant is for.
-/

namespace Lib

/-- What is known of a client: the reading it started with, whether it is inside, and when
it was admitted. -/
structure Client where
  started : Option Int := none
  inside : Bool := false
  admittedAt : Option Int := none

structure Admission (ι : Type) where
  clock : Int
  clients : ι → Client

namespace Admission

variable {ι : Type} [DecidableEq ι]

def set (s : Admission ι) (i : ι) (c : Client) : Admission ι :=
  { s with clients := Function.update s.clients i c }

inductive Step (W : Int) (s : Admission ι) : Admission ι → Prop where
  /-- Time passes. -/
  | tick (c : Int) (h : s.clock ≤ c) : Step W s { s with clock := c }
  /-- A client passes its first check with the reading `b`. -/
  | start (i : ι) (b : Int) (fresh : (s.clients i).started = none) (read : b ≤ s.clock)
      (clear : ∀ j a, (s.clients j).admittedAt = some a → a + W ≤ b) :
      Step W s (s.set i { s.clients i with started := some b })
  /-- A client passes its second check with the reading `g`, and nobody is inside. -/
  | enter (i : ι) (b g : Int) (begun : (s.clients i).started = some b) (soon : g < b + W)
      (clear : ∀ j a, (s.clients j).admittedAt = some a → a + W ≤ g)
      (alone : ∀ j, (s.clients j).inside = false) :
      Step W s (s.set i { s.clients i with inside := true })
  /-- A client that is inside is admitted. -/
  | admission (i : ι) (h : (s.clients i).inside = true) :
      Step W s (s.set i { s.clients i with inside := false, admittedAt := some s.clock })
  /-- A client goes away. -/
  | leave (i : ι) : Step W s (s.set i { s.clients i with inside := false })

/-- The invariant of an admission with the window `W`. -/
structure Spaced (W : Int) (s : Admission ι) : Prop where
  /-- Nothing has happened after now. -/
  started_le : ∀ i b, (s.clients i).started = some b → b ≤ s.clock
  admitted_le : ∀ i a, (s.clients i).admittedAt = some a → a ≤ s.clock
  /-- Who is inside or admitted has started. -/
  inside_started : ∀ i, (s.clients i).inside = true → ∃ b, (s.clients i).started = some b
  admitted_started : ∀ i a, (s.clients i).admittedAt = some a →
    ∃ b, (s.clients i).started = some b ∧ b ≤ a
  /-- At most one client is inside. -/
  alone : ∀ i j, (s.clients i).inside = true → (s.clients j).inside = true → i = j
  /-- An admission is a window before the start of a client, or after that start. -/
  apart : ∀ i j a b, (s.clients i).admittedAt = some a → (s.clients j).started = some b →
    a + W ≤ b ∨ b ≤ a
  /-- For a client that is inside it is a window before. -/
  apart_inside : ∀ i j a b, (s.clients i).admittedAt = some a → (s.clients j).inside = true →
    (s.clients j).started = some b → a + W ≤ b
  /-- Of two admitted clients, one was admitted a window before the other started. -/
  pair : ∀ i j a b c d, i ≠ j →
    (s.clients i).admittedAt = some a → (s.clients i).started = some b →
    (s.clients j).admittedAt = some c → (s.clients j).started = some d → a + W ≤ d ∨ c + W ≤ b

section

variable {W : Int} {s s' : Admission ι} {i j : ι} {c : Client}

theorem clock_set : (s.set i c).clock = s.clock := rfl

theorem clients_set_self : (s.set i c).clients i = c := by simp [set]

theorem clients_set_of_ne (h : j ≠ i) : (s.set i c).clients j = s.clients j := by simp [set, h]

theorem set_self : s.set i (s.clients i) = s := by simp [set]

theorem started_set (h : c.started = (s.clients i).started) :
    ((s.set i c).clients j).started = (s.clients j).started := by
  by_cases hj : j = i
  · subst hj
    rw [clients_set_self, h]
  · rw [clients_set_of_ne hj]

theorem inside_set (h : c.inside = (s.clients i).inside) :
    ((s.set i c).clients j).inside = (s.clients j).inside := by
  by_cases hj : j = i
  · subst hj
    rw [clients_set_self, h]
  · rw [clients_set_of_ne hj]

theorem admittedAt_set (h : c.admittedAt = (s.clients i).admittedAt) :
    ((s.set i c).clients j).admittedAt = (s.clients j).admittedAt := by
  by_cases hj : j = i
  · subst hj
    rw [clients_set_self, h]
  · rw [clients_set_of_ne hj]

omit [DecidableEq ι] in
/-- Two admitted clients started a window apart. -/
theorem Spaced.starts_apart (h : s.Spaced W) {a b c d : Int} (hne : i ≠ j)
    (hi : (s.clients i).admittedAt = some a) (hbi : (s.clients i).started = some b)
    (hj : (s.clients j).admittedAt = some c) (hdj : (s.clients j).started = some d) :
    b + W ≤ d ∨ d + W ≤ b := by
  obtain ⟨b', hb', hba⟩ := h.admitted_started i a hi
  obtain ⟨d', hd', hdc⟩ := h.admitted_started j c hj
  rw [hbi, Option.some.injEq] at hb'
  rw [hdj, Option.some.injEq] at hd'
  rcases h.pair i j a b c d hne hi hbi hj hdj with h | h
  · left
    omega
  · right
    omega

omit [DecidableEq ι] in
/-- Before anybody has come. -/
theorem spaced_of_no_clients (h : ∀ i, s.clients i = {}) : s.Spaced W := by
  refine ⟨?_, ?_, ?_, ?_, ?_, ?_, ?_, ?_⟩ <;> simp [h]

omit [DecidableEq ι] in
theorem Spaced.tick (h : s.Spaced W) {t : Int} (ht : s.clock ≤ t) :
    ({ s with clock := t } : Admission ι).Spaced W :=
  { h with
    started_le i b hb := Int.le_trans (h.started_le i b hb) ht
    admitted_le i a ha := Int.le_trans (h.admitted_le i a ha) ht }

/-- A client that starts was not inside and not admitted, so only `apart` says anything new
about it, and that is its first check. -/
theorem Spaced.start (h : s.Spaced W) {b : Int} (hfresh : (s.clients i).started = none)
    (hread : b ≤ s.clock) (hclear : ∀ j a, (s.clients j).admittedAt = some a → a + W ≤ b) :
    (s.set i { s.clients i with started := some b }).Spaced W := by
  have hadm {j : ι} : ((s.set i { s.clients i with started := some b }).clients j).admittedAt =
      (s.clients j).admittedAt := admittedAt_set rfl
  have hins {j : ι} : ((s.set i { s.clients i with started := some b }).clients j).inside =
      (s.clients j).inside := inside_set rfl
  have hold {j : ι} {d : Int} (hd : (s.clients j).started = some d) :
      ((s.set i { s.clients i with started := some b }).clients j).started = some d := by
    have hj : j ≠ i := by
      rintro rfl
      rw [hfresh] at hd
      cases hd
    rw [clients_set_of_ne hj, hd]
  have hcases {j : ι} {d : Int}
      (hd : ((s.set i { s.clients i with started := some b }).clients j).started = some d) :
      d = b ∨ (s.clients j).started = some d := by
    by_cases hj : j = i
    · subst hj
      rw [clients_set_self, Option.some.injEq] at hd
      exact .inl hd.symm
    · rw [clients_set_of_ne hj] at hd
      exact .inr hd
  have hback {j : ι} {d d' : Int} (hd : (s.clients j).started = some d)
      (hd' : ((s.set i { s.clients i with started := some b }).clients j).started = some d') :
      (s.clients j).started = some d' := by
    rw [hold hd] at hd'
    rw [hd, hd']
  refine ⟨?_, ?_, ?_, ?_, ?_, ?_, ?_, ?_⟩
  · intro j d hd
    rcases hcases hd with rfl | hd
    · exact hread
    · exact h.started_le j d hd
  · intro j a ha
    rw [hadm] at ha
    exact h.admitted_le j a ha
  · intro j hj
    rw [hins] at hj
    obtain ⟨d, hd⟩ := h.inside_started j hj
    exact ⟨d, hold hd⟩
  · intro j a ha
    rw [hadm] at ha
    obtain ⟨d, hd, hle⟩ := h.admitted_started j a ha
    exact ⟨d, hold hd, hle⟩
  · intro j k hj hk
    rw [hins] at hj hk
    exact h.alone j k hj hk
  · intro j k a d ha hd
    rw [hadm] at ha
    rcases hcases hd with rfl | hd
    · exact .inl (hclear j a ha)
    · exact h.apart j k a d ha hd
  · intro j k a d ha hk hd
    rw [hadm] at ha
    rw [hins] at hk
    obtain ⟨d', hd'⟩ := h.inside_started k hk
    exact h.apart_inside j k a d ha hk (hback hd' hd)
  · intro j k a d a' d' hne ha hd ha' hd'
    rw [hadm] at ha ha'
    obtain ⟨x, hx, -⟩ := h.admitted_started j a ha
    obtain ⟨y, hy, -⟩ := h.admitted_started k a' ha'
    exact h.pair j k a d a' d' hne ha (hback hx hd) ha' (hback hy hd')

/-- A client enters after its second check: an admission it did not see is a window before
its second reading, so it is before its start, and by its first check a window before. -/
theorem Spaced.enter (h : s.Spaced W) {b g : Int} (hbegun : (s.clients i).started = some b)
    (hsoon : g < b + W) (hclear : ∀ j a, (s.clients j).admittedAt = some a → a + W ≤ g)
    (halone : ∀ j, (s.clients j).inside = false) :
    (s.set i { s.clients i with inside := true }).Spaced W := by
  have hadm {j : ι} : ((s.set i { s.clients i with inside := true }).clients j).admittedAt =
      (s.clients j).admittedAt := admittedAt_set rfl
  have hst {j : ι} : ((s.set i { s.clients i with inside := true }).clients j).started =
      (s.clients j).started := started_set rfl
  have honly {j : ι}
      (hj : ((s.set i { s.clients i with inside := true }).clients j).inside = true) : j = i := by
    by_contra hne
    rw [clients_set_of_ne hne, halone j] at hj
    cases hj
  refine ⟨?_, ?_, ?_, ?_, ?_, ?_, ?_, ?_⟩
  · simpa only [hst, clock_set] using h.started_le
  · simpa only [hadm, clock_set] using h.admitted_le
  · intro j hj
    rw [hst, honly hj]
    exact ⟨b, hbegun⟩
  · simpa only [hst, hadm] using h.admitted_started
  · intro j k hj hk
    rw [honly hj, honly hk]
  · simpa only [hst, hadm] using h.apart
  · intro j k a d ha hk hd
    rw [hadm] at ha
    rw [hst, honly hk, hbegun, Option.some.injEq] at hd
    have hlate := hclear j a ha
    rcases h.apart j i a b ha hbegun with h | h
    · omega
    · omega
  · simpa only [hst, hadm] using h.pair

theorem Spaced.leave (h : s.Spaced W) (i : ι) :
    (s.set i { s.clients i with inside := false }).Spaced W := by
  have hadm {j : ι} : ((s.set i { s.clients i with inside := false }).clients j).admittedAt =
      (s.clients j).admittedAt := admittedAt_set rfl
  have hst {j : ι} : ((s.set i { s.clients i with inside := false }).clients j).started =
      (s.clients j).started := started_set rfl
  have hins {j : ι}
      (hj : ((s.set i { s.clients i with inside := false }).clients j).inside = true) :
      (s.clients j).inside = true := by
    by_cases hji : j = i
    · subst hji
      rw [clients_set_self] at hj
      cases hj
    · rwa [clients_set_of_ne hji] at hj
  refine ⟨?_, ?_, ?_, ?_, ?_, ?_, ?_, ?_⟩
  · simpa only [hst, clock_set] using h.started_le
  · simpa only [hadm, clock_set] using h.admitted_le
  · intro j hj
    rw [hst]
    exact h.inside_started j (hins hj)
  · simpa only [hst, hadm] using h.admitted_started
  · intro j k hj hk
    exact h.alone j k (hins hj) (hins hk)
  · simpa only [hst, hadm] using h.apart
  · intro j k a d ha hk hd
    rw [hadm] at ha
    rw [hst] at hd
    exact h.apart_inside j k a d ha (hins hk) hd
  · simpa only [hst, hadm] using h.pair

/-- Who is admitted was inside, so every earlier admission is a window before its start. -/
theorem Spaced.admission (h : s.Spaced W) (hi : (s.clients i).inside = true) :
    (s.set i { s.clients i with inside := false, admittedAt := some s.clock }).Spaced W := by
  obtain ⟨b, hb⟩ := h.inside_started i hi
  generalize hs' : s.set i { s.clients i with inside := false, admittedAt := some s.clock } = s'
  have hclock : s'.clock = s.clock := by rw [← hs']; rfl
  have hst {j : ι} : (s'.clients j).started = (s.clients j).started := by
    rw [← hs']
    exact started_set rfl
  have hnobody {j : ι} (hj : (s'.clients j).inside = true) : False := by
    by_cases hji : j = i
    · subst hji
      rw [← hs', clients_set_self] at hj
      cases hj
    · rw [← hs', clients_set_of_ne hji] at hj
      exact hji (h.alone j i hj hi)
  have hadm {j : ι} {a : Int} (ha : (s'.clients j).admittedAt = some a) :
      (j = i ∧ a = s.clock) ∨ (s.clients j).admittedAt = some a := by
    by_cases hji : j = i
    · subst hji
      rw [← hs', clients_set_self, Option.some.injEq] at ha
      exact .inl ⟨rfl, ha.symm⟩
    · rw [← hs', clients_set_of_ne hji] at ha
      exact .inr ha
  refine ⟨?_, ?_, ?_, ?_, ?_, ?_, ?_, ?_⟩
  · simpa only [hst, hclock] using h.started_le
  · intro j a ha
    rw [hclock]
    rcases hadm ha with ⟨-, rfl⟩ | ha
    · exact Int.le_refl _
    · exact h.admitted_le j a ha
  · intro j hj
    exact (hnobody hj).elim
  · intro j a ha
    rw [hst]
    rcases hadm ha with ⟨rfl, rfl⟩ | ha
    · exact ⟨b, hb, h.started_le j b hb⟩
    · exact h.admitted_started j a ha
  · intro j k hj
    exact (hnobody hj).elim
  · intro j k a d ha hd
    rw [hst] at hd
    rcases hadm ha with ⟨-, rfl⟩ | ha
    · exact .inr (h.started_le k d hd)
    · exact h.apart j k a d ha hd
  · intro j k a d _ hk
    exact (hnobody hk).elim
  · intro j k a d a' d' hne ha hd ha' hd'
    rw [hst] at hd hd'
    rcases hadm ha with ⟨rfl, -⟩ | ha <;> rcases hadm ha' with ⟨rfl, -⟩ | ha'
    · exact (hne rfl).elim
    · exact .inr (h.apart_inside k j a' d ha' hi hd)
    · exact .inl (h.apart_inside j k a d' ha hi hd')
    · exact h.pair j k a d a' d' hne ha hd ha' hd'

/-- Nothing happens. -/
theorem Step.refl : Step W s s := .tick s.clock (Int.le_refl _)

/-- Every step keeps the invariant. -/
theorem Step.spaced (hs : Step W s s') (h : s.Spaced W) : s'.Spaced W := by
  cases hs with
  | tick t ht => exact h.tick ht
  | start i b hfresh hread hclear => exact h.start hfresh hread hclear
  | enter i b g hbegun hsoon hclear halone => exact h.enter hbegun hsoon hclear halone
  | admission i hi => exact h.admission hi
  | leave i => exact h.leave i

end

end Admission

end Lib
