import Mathlib.Data.List.AList

/-!
# A disk that can lose what was not synced

A directory of names over numbered files.  A file is known to its writers by its number, so a
name can be moved or removed under an open file.  Writes go to the end of a file, and a sync
makes all of it durable.  A crash keeps of each file at least what was durable and at most what
was written.  Names are durable at once.

A disk is well formed when a file has one name at most (`Wf`), and every operation keeps that.
-/

namespace Lib

open Function AList

/-- A directory over files of symbols `β`. -/
structure Disk (ν β : Type) [DecidableEq ν] where
  dir : AList fun _ : ν => Nat := ∅
  bytes : Nat → List β := fun _ => []
  /-- How much of each file is durable. -/
  synced : Nat → Nat := fun _ => 0
  /-- The number of the next file. -/
  next : Nat := 0

namespace Disk

variable {ν β : Type} [DecidableEq ν]

def file (d : Disk ν β) (n : ν) : Option Nat := d.dir.lookup n

def content (d : Disk ν β) (n : ν) : List β :=
  match d.file n with
  | some k => d.bytes k
  | none => []

def names (d : Disk ν β) : List ν := d.dir.keys

/-- Open a name for writing.  A file that is there is emptied, otherwise there is a new one. -/
def create (d : Disk ν β) (n : ν) : Nat × Disk ν β :=
  match d.file n with
  | some k =>
    (k, { d with bytes := update d.bytes k [], synced := update d.synced k 0 })
  | none =>
    (d.next,
      { dir := d.dir.insert n d.next
        bytes := update d.bytes d.next []
        synced := update d.synced d.next 0
        next := d.next + 1 })

/-- Write to the end of a file. -/
def write (d : Disk ν β) (k : Nat) (bs : List β) : Disk ν β :=
  { d with bytes := update d.bytes k (d.bytes k ++ bs) }

/-- Make all of a file durable. -/
def sync (d : Disk ν β) (k : Nat) : Disk ν β :=
  { d with synced := update d.synced k (d.bytes k).length }

/-- Move a file from one name to another. -/
def rename (d : Disk ν β) (k : Nat) (src dst : ν) : Disk ν β :=
  { d with dir := (d.dir.erase src).insert dst k }

def remove (d : Disk ν β) (n : ν) : Disk ν β := { d with dir := d.dir.erase n }

/-- A crash that keeps `keep` symbols of each file, or what was durable. -/
def crash (d : Disk ν β) (keep : Nat → Nat) : Disk ν β :=
  { d with
    bytes := fun k => (d.bytes k).take (max (d.synced k) (keep k))
    synced := fun k => ((d.bytes k).take (max (d.synced k) (keep k))).length }

variable {d : Disk ν β} {k k' : Nat} {n n' src dst : ν} {bs : List β}

/-! ## Names -/

theorem mem_names : n ∈ d.names ↔ ∃ k, d.file n = some k := by
  rw [names, ← mem_keys, ← lookup_isSome, Option.isSome_iff_exists]
  rfl

@[simp] theorem file_write : (d.write k bs).file n = d.file n := rfl

@[simp] theorem file_sync : (d.sync k).file n = d.file n := rfl

@[simp] theorem file_remove_self : (d.remove n).file n = none := lookup_erase n d.dir

theorem file_remove_of_ne (h : n' ≠ n) : (d.remove n).file n' = d.file n' := lookup_erase_ne h

@[simp] theorem file_rename_self : (d.rename k src dst).file dst = some k := lookup_insert _

theorem file_rename_of_ne (h : n ≠ dst) (h' : n ≠ src) :
    (d.rename k src dst).file n = d.file n := by
  rw [file, rename, lookup_insert_ne h, lookup_erase_ne h']
  rfl

theorem file_rename_src (h : src ≠ dst) : (d.rename k src dst).file src = none := by
  rw [file, rename, lookup_insert_ne h, lookup_erase]

/-! ## Creation -/

/-- The file of a name that is created. -/
theorem create_of_none (h : d.file n = none) :
    d.create n =
      (d.next,
        { dir := d.dir.insert n d.next
          bytes := update d.bytes d.next []
          synced := update d.synced d.next 0
          next := d.next + 1 }) := by
  rw [create, h]

theorem create_of_some (h : d.file n = some k) : d.create n =
      (k, { d with
        bytes := update d.bytes k []
        synced := update d.synced k 0 }) := by
  rw [create, h]

@[simp] theorem file_create_self : (d.create n).2.file n = some (d.create n).1 := by
  cases h : d.file n with
  | some k =>
    rw [create_of_some h]
    exact h
  | none =>
    rw [create_of_none h]
    exact lookup_insert _

theorem file_create_of_ne (hne : n' ≠ n) : (d.create n).2.file n' = d.file n' := by
  cases h : d.file n with
  | some k => rw [create_of_some h]; rfl
  | none =>
    rw [create_of_none h]
    exact lookup_insert_ne hne

@[simp] theorem bytes_create_self : (d.create n).2.bytes (d.create n).1 = [] := by
  cases h : d.file n with
  | some k => rw [create_of_some h]; exact update_self ..
  | none => rw [create_of_none h]; exact update_self ..

theorem bytes_create_of_ne (hne : k ≠ (d.create n).1) : (d.create n).2.bytes k = d.bytes k := by
  cases h : d.file n with
  | some k' =>
    rw [create_of_some h] at hne ⊢
    exact update_of_ne hne ..
  | none =>
    rw [create_of_none h] at hne ⊢
    exact update_of_ne hne ..

/-- The file of a name that is created has the name already, or it is new. -/
theorem create_cases : d.file n = some (d.create n).1 ∨ (d.create n).1 = d.next := by
  cases h : d.file n with
  | some k => rw [create_of_some h]; exact .inl rfl
  | none => rw [create_of_none h]; exact .inr rfl

/-- It is none of the other files. -/
theorem ne_create (hk : d.file n ≠ some k) (hlt : k < d.next) : k ≠ (d.create n).1 := by
  rintro rfl
  rcases create_cases (n := n) with hfile | hnext
  · exact hk hfile
  · omega

theorem next_le_create : d.next ≤ (d.create n).2.next := by
  cases h : d.file n with
  | some k => rw [create_of_some h]
  | none => rw [create_of_none h]; exact Nat.le_succ _

/-! ## Well-formed disks -/

/-- A file has one name at most, and its number was given out. -/
structure Wf (d : Disk ν β) : Prop where
  below : ∀ {n k}, d.file n = some k → k < d.next
  inj : ∀ {n n' k}, d.file n = some k → d.file n' = some k → n = n'

theorem wf_empty : Wf ({} : Disk ν β) where
  below h := by simp [file] at h
  inj h := by simp [file] at h

theorem Wf.create_lt (hw : d.Wf) : (d.create n).1 < (d.create n).2.next := by
  cases h : d.file n with
  | some k => rw [create_of_some h]; exact hw.below h
  | none => rw [create_of_none h]; exact Nat.lt_succ_self _

/-- A new file is none of those that have a name. -/
theorem Wf.create_ne (hw : d.Wf) (hne : n' ≠ n) (h' : d.file n' = some k) : k ≠ (d.create n).1 := by
  cases h : d.file n with
  | some k' =>
    rw [create_of_some h]
    rintro rfl
    exact hne (hw.inj h' h)
  | none =>
    rw [create_of_none h]
    exact Nat.ne_of_lt (hw.below h')

theorem Wf.create (hw : d.Wf) (n : ν) : (d.create n).2.Wf where
  below {n' k} h' := by
    by_cases hne : n' = n
    · subst hne
      rw [file_create_self, Option.some.injEq] at h'
      exact h' ▸ hw.create_lt
    · rw [file_create_of_ne hne] at h'
      exact Nat.lt_of_lt_of_le (hw.below h') next_le_create
  inj {n₁ n₂ k} h₁ h₂ := by
    by_cases hn₁ : n₁ = n <;> by_cases hn₂ : n₂ = n
    · rw [hn₁, hn₂]
    · subst hn₁
      rw [file_create_self, Option.some.injEq] at h₁
      rw [file_create_of_ne hn₂] at h₂
      exact absurd h₁.symm (hw.create_ne hn₂ h₂)
    · subst hn₂
      rw [file_create_self, Option.some.injEq] at h₂
      rw [file_create_of_ne hn₁] at h₁
      exact absurd h₂.symm (hw.create_ne hn₁ h₁)
    · rw [file_create_of_ne hn₁] at h₁
      rw [file_create_of_ne hn₂] at h₂
      exact hw.inj h₁ h₂

theorem Wf.write (hw : d.Wf) (k : Nat) (bs : List β) : (d.write k bs).Wf := ⟨hw.below, hw.inj⟩

theorem Wf.sync (hw : d.Wf) (k : Nat) : (d.sync k).Wf := ⟨hw.below, hw.inj⟩

theorem Wf.crash (hw : d.Wf) (keep : Nat → Nat) : (d.crash keep).Wf := ⟨hw.below, hw.inj⟩

theorem file_of_remove (h : (d.remove n).file n' = some k) : d.file n' = some k := by
  by_cases hne : n' = n
  · subst hne
    rw [file_remove_self] at h
    cases h
  · rwa [file_remove_of_ne hne] at h

theorem Wf.remove (hw : d.Wf) (n : ν) : (d.remove n).Wf where
  below h := hw.below (file_of_remove h)
  inj h h' := hw.inj (file_of_remove h) (file_of_remove h')

/-- A name after a file was moved is the new one, or it was there before. -/
theorem file_of_rename (h : (d.rename k src dst).file n = some k') :
    n = dst ∧ k' = k ∨ n ≠ dst ∧ n ≠ src ∧ d.file n = some k' := by
  by_cases hd : n = dst
  · subst hd
    rw [file_rename_self, Option.some.injEq] at h
    exact .inl ⟨rfl, h.symm⟩
  · by_cases hs : n = src
    · subst hs
      rw [file_rename_src hd] at h
      cases h
    · rw [file_rename_of_ne hd hs] at h
      exact .inr ⟨hd, hs, h⟩

theorem Wf.rename (hw : d.Wf) (hs : d.file src = some k) (dst : ν) : (d.rename k src dst).Wf where
  below h := by
    rcases file_of_rename h with ⟨-, rfl⟩ | ⟨-, -, h⟩
    · exact hw.below hs
    · exact hw.below h
  inj h₁ h₂ := by
    rcases file_of_rename h₁ with ⟨hd₁, hk₁⟩ | ⟨-, hs₁, h₁⟩ <;>
      rcases file_of_rename h₂ with ⟨hd₂, hk₂⟩ | ⟨-, hs₂, h₂⟩
    · rw [hd₁, hd₂]
    · rw [hk₁] at h₂
      exact absurd (hw.inj h₂ hs) hs₂
    · rw [hk₂] at h₁
      exact absurd (hw.inj h₁ hs) hs₁
    · exact hw.inj h₁ h₂

/-! ## Contents -/

@[simp] theorem bytes_write_self : (d.write k bs).bytes k = d.bytes k ++ bs := update_self ..

theorem bytes_write_of_ne (h : k' ≠ k) : (d.write k bs).bytes k' = d.bytes k' := update_of_ne h ..

@[simp] theorem write_nil : d.write k [] = d := by rw [write, List.append_nil, update_eq_self]

/-- A file that was made durable is kept. -/
theorem bytes_crash_of_synced {keep : Nat → Nat} (h : (d.bytes k).length ≤ d.synced k) :
    (d.crash keep).bytes k = d.bytes k :=
  List.take_of_length_le (Nat.le_trans h (Nat.le_max_left _ _))

theorem content_of_some (h : d.file n = some k) : d.content n = d.bytes k := by rw [content, h]

theorem content_of_none (h : d.file n = none) : d.content n = [] := by rw [content, h]

/-- A name whose file has neither changed nor been written has what it had. -/
theorem content_congr {d' : Disk ν β} (hfile : d'.file n = d.file n)
    (hbytes : ∀ k, d.file n = some k → d'.bytes k = d.bytes k) : d'.content n = d.content n := by
  cases h : d.file n with
  | none => rw [content_of_none h, content_of_none (hfile.trans h)]
  | some k => rw [content_of_some h, content_of_some (hfile.trans h), hbytes k h]

@[simp] theorem content_create_self : (d.create n).2.content n = [] := by
  rw [content_of_some file_create_self, bytes_create_self]

theorem content_create_of_ne (hw : d.Wf) (hne : n' ≠ n) :
    (d.create n).2.content n' = d.content n' :=
  content_congr (file_create_of_ne hne) fun _ hk => bytes_create_of_ne (hw.create_ne hne hk)

theorem content_write_self (h : d.file n = some k) :
    (d.write k bs).content n = d.content n ++ bs := by
  rw [content_of_some (d := d.write k bs) h, bytes_write_self, content_of_some h]

theorem content_write_of_ne (hw : d.Wf) (h : d.file n = some k) (hne : n' ≠ n) :
    (d.write k bs).content n' = d.content n' := by
  refine content_congr file_write fun k' hk' => bytes_write_of_ne ?_
  rintro rfl
  exact hne (hw.inj hk' h)

theorem content_rename_self (h : d.file src = some k) :
    (d.rename k src dst).content dst = d.content src := by
  rw [content_of_some file_rename_self, content_of_some h]
  rfl

theorem content_rename_of_ne (h : n ≠ dst) (h' : n ≠ src) :
    (d.rename k src dst).content n = d.content n :=
  content_congr (file_rename_of_ne h h') fun _ _ => rfl

theorem content_remove_of_ne (h : n' ≠ n) : (d.remove n).content n' = d.content n' :=
  content_congr (file_remove_of_ne h) fun _ _ => rfl

theorem names_nodup (d : Disk ν β) : d.names.Nodup := d.dir.keys_nodup

end Disk

end Lib
