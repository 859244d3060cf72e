import Mathlib.Algebra.Group.Int.Defs
import Mathlib.Algebra.Group.Nat.Defs
import Mathlib.Data.Char
import Mathlib.Data.List.Lex

/-!
# Decimal numerals

Numbers as texts: `%d`, `%0kd` and their parser.  What is printed parses to what was printed
(`parseNat_padded`, `parseInt_decimal`), and among numerals that are padded to one width the order
of the texts is the order of the numbers, whatever follows them (`padded_lt`).
-/

namespace Lib.Digits

open List

variable {c : Char} {cs : List Char} {n k : Nat}

/-- The decimal digits of a number. -/
def digits (n : Nat) : List Char := Nat.toDigits 10 n

/-- `%0kd` of a number that is not negative. -/
def padded (k n : Nat) : List Char := List.replicate (k - (digits n).length) '0' ++ digits n

/-- `%d`. -/
def decimal : Int → List Char
  | .ofNat n => digits n
  | .negSucc n => '-' :: digits (n + 1)

/-- The number that a non-empty list of digits stands for. -/
def parseNat (cs : List Char) : Option Nat :=
  if cs ≠ [] ∧ cs.all Char.isDigit then some (Nat.ofDigitChars 10 cs 0) else none

/-- `strconv.ParseInt` in base ten, of any size. -/
def parseInt : List Char → Option Int
  | '-' :: cs => (parseNat cs).map fun n => -(n : Int)
  | '+' :: cs => (parseNat cs).map Int.ofNat
  | cs => (parseNat cs).map Int.ofNat

/-- The numbers of the type `int64`. -/
def InInt64 (z : Int) : Prop := -2 ^ 63 ≤ z ∧ z < 2 ^ 63

instance (z : Int) : Decidable (InInt64 z) := inferInstanceAs (Decidable (_ ∧ _))

/-- `strconv.ParseInt` in base ten and 64 bits. -/
def parseInt64 (cs : List Char) : Option Int := (parseInt cs).filter fun z => decide (InInt64 z)

theorem parseInt64_eq_some {z : Int} :
    parseInt64 cs = some z ↔ parseInt cs = some z ∧ InInt64 z := by
  rw [parseInt64, Option.filter_eq_some_iff, decide_eq_true_eq]

theorem inInt64_bmod (z : Int) : InInt64 (z.bmod (2 ^ 64)) := by
  have hlow := Int.le_bmod (x := z) (m := 2 ^ 64) (by decide)
  have hhigh := Int.bmod_lt (x := z) (m := 2 ^ 64) (by decide)
  exact ⟨by omega, by omega⟩

theorem bmod_of_inInt64 {z : Int} (h : InInt64 z) : z.bmod (2 ^ 64) = z :=
  Int.bmod_eq_of_le h.1 h.2

theorem isDigit_of_mem_digits (h : c ∈ digits n) : c.isDigit = true :=
  Nat.isDigit_of_mem_toDigits (by decide) (by decide) h

theorem isDigit_of_mem_padded (h : c ∈ padded k n) : c.isDigit = true := by
  rcases mem_append.mp h with h | h
  · rw [eq_of_mem_replicate h]
    decide
  · exact isDigit_of_mem_digits h

theorem digits_ne_nil (n : Nat) : digits n ≠ [] := Nat.toDigits_ne_nil

theorem padded_ne_nil (k n : Nat) : padded k n ≠ [] := by simp [padded, digits_ne_nil]

theorem ofDigitChars_padded (k n : Nat) : Nat.ofDigitChars 10 (padded k n) 0 = n := by
  rw [padded, Nat.ofDigitChars_append, Nat.ofDigitChars_replicate_zero, Nat.mul_zero]
  exact Nat.ofDigitChars_ten_toDigits

/-- A padded numeral parses to its number. -/
@[simp] theorem parseNat_padded (k n : Nat) : parseNat (padded k n) = some n := by
  rw [parseNat, if_pos, ofDigitChars_padded]
  exact ⟨padded_ne_nil k n, all_eq_true.mpr fun _ => isDigit_of_mem_padded⟩

@[simp] theorem padded_zero (n : Nat) : padded 0 n = digits n := by simp [padded]

theorem parseNat_digits (n : Nat) : parseNat (digits n) = some n := by
  rw [← padded_zero, parseNat_padded]

/-- Digits without a sign. -/
theorem parseInt_of_isDigit (h : ∀ c ∈ cs, c.isDigit = true) :
    parseInt cs = (parseNat cs).map Int.ofNat := by
  match cs with
  | [] => rfl
  | c :: cs =>
    have hc := h c mem_cons_self
    have hminus : c ≠ '-' := by
      rintro rfl
      exact absurd hc (by decide)
    have hplus : c ≠ '+' := by
      rintro rfl
      exact absurd hc (by decide)
    rw [parseInt]
    · rintro cs' he
      exact hminus (cons.inj he).1
    · rintro cs' he
      exact hplus (cons.inj he).1

@[simp] theorem parseInt_padded (k n : Nat) : parseInt (padded k n) = some (n : Int) := by
  rw [parseInt_of_isDigit fun _ => isDigit_of_mem_padded, parseNat_padded]
  rfl

/-- A numeral parses to its number. -/
theorem parseInt64_padded (k n : Nat) :
    parseInt64 (padded k n) = if n < 2 ^ 63 then some (n : Int) else none := by
  have hfits : InInt64 n ↔ n < 2 ^ 63 := by rw [InInt64]; omega
  rw [parseInt64, parseInt_padded, Option.filter_some]
  simp only [hfits, decide_eq_true_eq]

@[simp] theorem parseInt_decimal (z : Int) : parseInt (decimal z) = some z := by
  cases z with
  | ofNat n =>
    rw [decimal, parseInt_of_isDigit fun _ => isDigit_of_mem_digits, parseNat_digits]
    rfl
  | negSucc n =>
    rw [decimal, parseInt, parseNat_digits]
    rfl

/-- The text of a number is its numeral. -/
@[simp] theorem toList_toString (z : Int) : (toString z).toList = decimal z := by
  cases z with
  | ofNat n => exact String.toList_ofList
  | negSucc n =>
    change ("-" ++ String.ofList (Nat.toDigits 10 (n + 1))).toList = _
    rw [String.toList_append]
    exact congrArg ('-' :: ·) String.toList_ofList

@[simp] theorem toList_toString_nat (n : Nat) : (toString n).toList = digits n :=
  String.toList_ofList

theorem decimal_injective : Function.Injective decimal := by
  intro z z' h
  have hparse := congrArg parseInt h
  rw [parseInt_decimal, parseInt_decimal] at hparse
  exact Option.some.inj hparse

theorem mem_decimal {z : Int} (h : c ∈ decimal z) : c = '-' ∨ c.isDigit = true := by
  cases z with
  | ofNat n => exact .inr (isDigit_of_mem_digits h)
  | negSucc n => exact (mem_cons.mp h).imp_right isDigit_of_mem_digits

/-- What parses is made of digits behind a sign. -/
theorem isDigit_of_parseInt {z : Int} (h : parseInt cs = some z)
    (hc : c ∈ cs) : c = '-' ∨ c = '+' ∨ c.isDigit = true := by
  have hnat {ds : List Char} {n : Nat} (hn : parseNat ds = some n) (hd : c ∈ ds) :
      c.isDigit = true := by
    unfold parseNat at hn
    split at hn
    next hall => exact all_eq_true.mp hall.2 c hd
    next => cases hn
  unfold parseInt at h
  split at h
  next ds =>
    cases hn : parseNat ds with
    | none => simp [hn] at h
    | some n => exact (mem_cons.mp hc).imp_right fun hd => .inr (hnat hn hd)
  next ds =>
    obtain ⟨n, hn, -⟩ := Option.map_eq_some_iff.mp h
    exact .inr ((mem_cons.mp hc).imp_right (hnat hn))
  next =>
    obtain ⟨n, hn, -⟩ := Option.map_eq_some_iff.mp h
    exact .inr (.inr (hnat hn hc))

/-! ## Order -/

theorem length_padded (hk : 0 < k) (hn : n < 10 ^ k) : (padded k n).length = k := by
  have hlen : (digits n).length ≤ k := (Nat.length_toDigits_le_iff (by decide) hk).mpr hn
  simp [padded]
  omega

/-- The value of a numeral is below the power of ten of its length. -/
theorem ofDigitChars_lt (h : ∀ c ∈ cs, c.isDigit = true) :
    Nat.ofDigitChars 10 cs 0 < 10 ^ cs.length := by
  induction cs with
  | nil => simp
  | cons c cs ih =>
    have hc := Char.isDigit_iff_toNat.mp (h c mem_cons_self)
    have ih := ih fun c' hc' => h c' (mem_cons_of_mem _ hc')
    have hdigit : c.toNat - '0'.toNat ≤ 9 := by
      have h9 : '9'.toNat = '0'.toNat + 9 := by decide
      omega
    rw [Nat.ofDigitChars_cons, Nat.ofDigitChars_eq_ofDigitChars_zero, length_cons, Nat.pow_succ]
    have hmul : 10 ^ cs.length * (10 * 0 + (c.toNat - '0'.toNat)) ≤ 10 ^ cs.length * 9 :=
      Nat.mul_le_mul_left _ (by omega)
    omega

/-- Of two numerals of one length the smaller number has the smaller text. -/
theorem lt_of_ofDigitChars_lt {cs' : List Char} (hlen : cs.length = cs'.length)
    (h : ∀ c ∈ cs, c.isDigit = true) (h' : ∀ c ∈ cs', c.isDigit = true)
    (hlt : Nat.ofDigitChars 10 cs 0 < Nat.ofDigitChars 10 cs' 0) (rest rest' : List Char) :
    cs ++ rest < cs' ++ rest' := by
  induction cs generalizing cs' with
  | nil =>
    obtain rfl : cs' = [] := length_eq_zero_iff.mp hlen.symm
    exact absurd hlt (lt_irrefl _)
  | cons c cs ih =>
    obtain ⟨c', cs', rfl⟩ : ∃ c' cs'', cs' = c' :: cs'' := by
      cases cs' with
      | nil => simp at hlen
      | cons c' cs'' => exact ⟨c', cs'', rfl⟩
    have hlen' : cs.length = cs'.length := by simpa using hlen
    have hcs : ∀ c ∈ cs, c.isDigit = true := fun x hx => h x (mem_cons_of_mem _ hx)
    have hcs' : ∀ c ∈ cs', c.isDigit = true := fun x hx => h' x (mem_cons_of_mem _ hx)
    have hc' := Char.isDigit_iff_toNat.mp (h' c' mem_cons_self)
    rw [cons_append, cons_append, cons_lt_cons_iff]
    rw [Nat.ofDigitChars_cons, Nat.ofDigitChars_eq_ofDigitChars_zero, Nat.ofDigitChars_cons,
      Nat.ofDigitChars_eq_ofDigitChars_zero (l := cs'), hlen'] at hlt
    rcases Nat.lt_trichotomy c.toNat c'.toNat with hlt' | heq | hgt
    · exact .inl hlt'
    · obtain rfl : c = c' := Char.toNat_inj.mp heq
      exact .inr ⟨rfl, ih hlen' hcs hcs' (by omega)⟩
    · -- A larger leading digit cannot be made up for.
      have hbound := ofDigitChars_lt hcs'
      have hle : 10 ^ cs'.length * (10 * 0 + (c'.toNat - '0'.toNat)) + 10 ^ cs'.length ≤
          10 ^ cs'.length * (10 * 0 + (c.toNat - '0'.toNat)) := by
        rw [← Nat.mul_succ]
        exact Nat.mul_le_mul_left _ (by omega)
      omega

/-- Among padded numerals the order of the texts is the order of the numbers. -/
theorem padded_lt {a b : Nat} (hk : 0 < k) (hab : a < b) (hb : b < 10 ^ k)
    (rest rest' : List Char) : padded k a ++ rest < padded k b ++ rest' := by
  refine lt_of_ofDigitChars_lt ?_ (fun _ => isDigit_of_mem_padded) (fun _ => isDigit_of_mem_padded)
    ?_ rest rest'
  · rw [length_padded hk (hab.trans hb), length_padded hk hb]
  · rwa [ofDigitChars_padded, ofDigitChars_padded]

end Lib.Digits
