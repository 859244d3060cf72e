import Mathlib.Data.List.DropRight
import Mathlib.Data.List.Basic

/-!
# Lines

A file of lines is a list of symbols in which every line ends with the separator.  A line has no
separator of its own, so the lines of a file are determined by it (`texts_encode`).

A file that was cut short is a file of lines with a tail that is not a line.  Cutting it again
leaves such a file (`Torn.take`), and dropping the tail leaves its lines (`Torn.complete_eq`).
Symbols that stop where a line ends are kept whatever follows them (`Ended.complete_append`), and
the lines of a file are lines of every longer one (`texts_le_append`).
-/

namespace Lib

open List

variable {β : Type} {sep : β}

/-- A line: symbols without the separator. -/
structure Line (sep : β) where
  text : List β
  single : sep ∉ text

/-- The symbols of a line with its separator. -/
def Line.encode (l : Line sep) : List β := l.text ++ [sep]

def encode (ls : List (Line sep)) : List β := ls.flatMap Line.encode

@[simp] theorem encode_nil : encode ([] : List (Line sep)) = [] := rfl

@[simp] theorem encode_cons (l : Line sep) (ls : List (Line sep)) :
    encode (l :: ls) = l.encode ++ encode ls := rfl

@[simp] theorem encode_append (ls ls' : List (Line sep)) :
    encode (ls ++ ls') = encode ls ++ encode ls' := by
  simp [encode]

/-- A file of the lines `ls`, cut somewhere in the line after them. -/
def Torn (ls : List (Line sep)) (bs : List β) : Prop :=
  ∃ tail, sep ∉ tail ∧ bs = encode ls ++ tail

theorem torn_encode (ls : List (Line sep)) : Torn ls (encode ls) :=
  ⟨[], not_mem_nil, (append_nil _).symm⟩

variable {ls : List (Line sep)}

/-- A torn file that is cut is torn, after some of its lines. -/
theorem Torn.take {bs : List β} (h : Torn ls bs) (n : Nat) :
    ∃ ls', ls' <+: ls ∧ Torn ls' (bs.take n) := by
  obtain ⟨tail, htail, rfl⟩ := h
  induction ls generalizing n with
  | nil =>
    exact ⟨[], nil_prefix, tail.take n, fun hm => htail (mem_of_mem_take hm), rfl⟩
  | cons l ls ih =>
    by_cases hn : n ≤ l.text.length
    · -- The cut is inside the first line.
      refine ⟨[], nil_prefix, l.text.take n, fun hm => l.single (mem_of_mem_take hm), ?_⟩
      simp [Line.encode, take_append_of_le_length hn]
    · obtain ⟨ls', hpre, tail', htail', htake⟩ := ih (n - (l.text.length + 1))
      refine ⟨l :: ls', cons_prefix_cons.mpr ⟨rfl, hpre⟩, tail', htail', ?_⟩
      have hlen : l.encode.length = l.text.length + 1 := by simp [Line.encode]
      rw [encode_cons, append_assoc, take_append, hlen, htake,
        take_of_length_le (by omega), encode_cons, append_assoc]

section

variable [DecidableEq β]

variable {bs : List β}

/-- The part of a file up to its last separator. -/
def complete (sep : β) (bs : List β) : List β := bs.rdropWhile (· ≠ sep)

theorem complete_append_of_notMem {tail : List β} (h : sep ∉ tail) :
    complete sep (bs ++ tail) = complete sep bs := by
  induction tail using reverseRecOn with
  | nil => rw [append_nil]
  | append_singleton tail b ih =>
    have hb : b ≠ sep := fun he => h (by simp [he])
    have hpos : decide (b ≠ sep) = true := decide_eq_true hb
    rw [complete, ← append_assoc, rdropWhile_concat, if_pos hpos]
    exact ih fun hm => h (mem_append_left _ hm)

theorem complete_encode (ls : List (Line sep)) : complete sep (encode ls) = encode ls := by
  induction ls using reverseRecOn with
  | nil => rfl
  | append_singleton ls l ih =>
    rw [complete, encode_append, encode_cons, encode_nil, append_nil, Line.encode,
      ← append_assoc, rdropWhile_concat]
    simp

/-- A file with a separator has a line. -/
theorem mem_complete (h : sep ∈ bs) : sep ∈ complete sep bs := by
  induction bs using reverseRecOn with
  | nil => exact h
  | append_singleton bs b ih =>
    rw [complete, rdropWhile_concat]
    split
    next hb =>
      have hne : b ≠ sep := of_decide_eq_true hb
      exact ih ((mem_append.mp h).resolve_right fun hm =>
        hne (mem_singleton.mp hm).symm)
    next => exact h

/-- The symbols stop where a line ends. -/
def Ended (sep : β) (bs : List β) : Prop := complete sep bs = bs

instance (sep : β) (bs : List β) : Decidable (Ended sep bs) :=
  inferInstanceAs (Decidable (complete sep bs = bs))

theorem ended_nil (sep : β) : Ended sep [] := rfl

theorem ended_encode (ls : List (Line sep)) : Ended sep (encode ls) := complete_encode ls

theorem Line.ended_encode (l : Line sep) : Ended sep l.encode := by
  have h := Lib.ended_encode [l]
  rwa [encode_cons, encode_nil, append_nil] at h

/-- What stops where a line ends is kept, whatever follows it. -/
theorem Ended.complete_append (h : Ended sep bs) (rest : List β) :
    complete sep (bs ++ rest) = bs ++ complete sep rest := by
  induction rest using reverseRecOn with
  | nil =>
    rw [append_nil, h]
    exact (append_nil bs).symm
  | append_singleton rest b ih =>
    rw [complete, complete, ← append_assoc, rdropWhile_concat, rdropWhile_concat]
    split
    · exact ih
    · rw [append_assoc]

theorem Ended.append {bs' : List β} (h : Ended sep bs) (h' : Ended sep bs') :
    Ended sep (bs ++ bs') := by
  rw [Ended, h.complete_append, h']

/-- Dropping the tail of a torn file leaves its lines. -/
theorem Torn.complete_eq (h : Torn ls bs) : complete sep bs = encode ls := by
  obtain ⟨tail, htail, rfl⟩ := h
  rw [complete_append_of_notMem htail, complete_encode]

/-- The texts of the lines of a file, the first of which has begun with `line`. -/
def textsFrom (sep : β) (line : List β) : List β → List (List β)
  | [] => []
  | b :: bs => if b = sep then line :: textsFrom sep [] bs else textsFrom sep (line ++ [b]) bs

/-- The texts of the lines of a file. -/
def texts (sep : β) (bs : List β) : List (List β) := textsFrom sep [] bs

theorem textsFrom_append {text : List β} (h : sep ∉ text) (line bs : List β) :
    textsFrom sep line (text ++ bs) = textsFrom sep (line ++ text) bs := by
  induction text generalizing line with
  | nil => rw [nil_append, append_nil]
  | cons b text ih =>
    have hb : b ≠ sep := fun he => h (by simp [he])
    rw [cons_append, textsFrom, if_neg hb, ih fun hm => h (mem_cons_of_mem _ hm), append_assoc]
    rfl

/-- A file has lines exactly if it has a separator. -/
theorem textsFrom_ne_nil_iff (line : List β) : textsFrom sep line bs ≠ [] ↔ sep ∈ bs := by
  induction bs generalizing line with
  | nil => simp [textsFrom]
  | cons b bs ih =>
    rw [textsFrom]
    split
    next hb => simp [hb]
    next hb => rw [ih, mem_cons, or_iff_right (Ne.symm hb)]

theorem texts_ne_nil_iff : texts sep bs ≠ [] ↔ sep ∈ bs := textsFrom_ne_nil_iff []

/-- The lines that a file begins with are read first. -/
theorem texts_encode_append (ls : List (Line sep)) (bs : List β) :
    texts sep (encode ls ++ bs) = ls.map Line.text ++ texts sep bs := by
  induction ls with
  | nil => rfl
  | cons l ls ih =>
    rw [texts, encode_cons, Line.encode, append_assoc, append_assoc,
      textsFrom_append l.single, nil_append, singleton_append, textsFrom, if_pos rfl,
      map_cons]
    exact congrArg _ ih

/-- The lines of a file are determined by it. -/
@[simp] theorem texts_encode (ls : List (Line sep)) : texts sep (encode ls) = ls.map Line.text := by
  have h := texts_encode_append ls []
  rw [append_nil] at h
  exact h.trans (append_nil _)

theorem splitOn_encode_append (ls : List (Line sep)) {bs : List β} (h : sep ∉ bs) :
    splitOn sep (encode ls ++ bs) = ls.map Line.text ++ [bs] := by
  induction ls with
  | nil =>
    have hbs : ∀ l ∈ [bs], sep ∉ l := by simpa
    simpa using splitOn_intercalate sep hbs (cons_ne_nil _ _)
  | cons l ls ih =>
    rw [encode_cons, Line.encode, append_assoc, append_assoc, singleton_append,
      splitOn_append_cons_self_of_not_mem l.single, ih]
    rfl

/-- Every file is one of lines with a tail. -/
theorem exists_torn (sep : β) (bs : List β) : ∃ ls : List (Line sep), Torn ls bs := by
  induction bs using reverseRecOn with
  | nil => exact ⟨[], torn_encode []⟩
  | append_singleton bs b ih =>
    obtain ⟨ls, tail, htail, rfl⟩ := ih
    by_cases hb : b = sep
    · subst hb
      refine ⟨ls ++ [⟨tail, htail⟩], [], not_mem_nil, ?_⟩
      simp [Line.encode]
    · refine ⟨ls, tail ++ [b], ?_, (append_assoc _ _ _)⟩
      simp [htail, Ne.symm hb]

theorem Torn.texts_eq (h : Torn ls bs) : texts sep bs = ls.map Line.text := by
  obtain ⟨tail, htail, rfl⟩ := h
  have hnil : texts sep tail = [] := by
    by_contra hne
    exact htail (texts_ne_nil_iff.mp hne)
  rw [texts_encode_append, hnil, append_nil]

/-- The tail of a file is not read. -/
theorem texts_complete (sep : β) (bs : List β) : texts sep (complete sep bs) = texts sep bs := by
  obtain ⟨ls, h⟩ := exists_torn sep bs
  rw [h.complete_eq, texts_encode, h.texts_eq]

/-- What is read of a file is read of every longer one. -/
theorem texts_le_append (sep : β) (bs rest : List β) : texts sep bs <+: texts sep (bs ++ rest) := by
  obtain ⟨ls, h⟩ := exists_torn sep bs
  rw [h.texts_eq]
  obtain ⟨tail, -, rfl⟩ := h
  rw [append_assoc, texts_encode_append]
  exact prefix_append _ _

/-- What follows the end of a line is read by itself. -/
theorem Ended.texts_append (h : Ended sep bs) (rest : List β) :
    texts sep (bs ++ rest) = texts sep bs ++ texts sep rest := by
  obtain ⟨ls, ht⟩ := exists_torn sep bs
  have hbs : bs = encode ls := h.symm.trans ht.complete_eq
  rw [hbs, texts_encode_append, texts_encode]

end

end Lib
