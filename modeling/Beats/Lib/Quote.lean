import Mathlib.Algebra.Ring.Nat
import Beats.Lib.Delimited

/-!
# Quoted strings

`strconv.Quote`.  Which characters are printable is a table of Unicode, and it is a parameter: a
quoted string shows where it ends whatever the table is (`delimited_quote`).
-/

namespace Lib.Quote

/-! ## Hexadecimal digits -/

/-- `lowerhex`. -/
def hexDigit (n : Nat) : Char :=
  ['0', '1', '2', '3', '4', '5', '6', '7', '8', '9', 'a', 'b', 'c', 'd', 'e', 'f'].getD (n % 16) '0'

/-- The last `w` hexadecimal digits of a number. -/
def hex : Nat → Nat → List Char
  | 0, _ => []
  | w + 1, n => hexDigit (n / 16 ^ w) :: hex w n

def digitValue (c : Char) : Nat := if c.toNat < 58 then c.toNat - 48 else c.toNat - 87

theorem digitValue_hexDigit (n : Nat) : digitValue (hexDigit n) = n % 16 := by
  have h : ∀ k < 16, digitValue (hexDigit k) = k := by decide
  rw [show hexDigit n = hexDigit (n % 16) by simp [hexDigit], h _ (Nat.mod_lt n (by decide))]

/-- A number of `w` hexadecimal digits, and the rest. -/
def readHex : Nat → List Char → Option (Nat × List Char)
  | 0, r => some (0, r)
  | _ + 1, [] => none
  | w + 1, c :: r => (readHex w r).map fun (n, r) => (digitValue c * 16 ^ w + n, r)

theorem readHex_hex (w n : Nat) (r : List Char) :
    readHex w (hex w n ++ r) = some (n % 16 ^ w, r) := by
  induction w with
  | zero => simp [hex, readHex, Nat.mod_one]
  | succ w ih =>
    rw [hex, List.cons_append, readHex, ih, Option.map_some, digitValue_hexDigit, Nat.pow_succ,
      Nat.mod_mul, Nat.mul_comm, Nat.add_comm]

/-! ## Quoting -/

variable (isPrint : Char → Bool)

/-- The control characters that have a letter. -/
def letters : List (Char × Char) :=
  [('\x07', 'a'), ('\x08', 'b'), ('\x0c', 'f'), ('\n', 'n'), ('\r', 'r'), ('\t', 't'),
    ('\x0b', 'v')]

/-- `appendEscapedRune`, for a double quote. -/
def escape (c : Char) : List Char :=
  if c = '"' ∨ c = '\\' then ['\\', c]
  else if isPrint c then [c]
  else
    match letters.lookup c with
    | some l => ['\\', l]
    | none =>
      if c < ' ' ∨ c = '\x7f' then '\\' :: 'x' :: hex 2 c.toNat
      else if c.toNat < 0x10000 then '\\' :: 'u' :: hex 4 c.toNat
      else '\\' :: 'U' :: hex 8 c.toNat

/-- `strconv.Quote`, on characters. -/
def quote (s : List Char) : List Char := '"' :: (s.flatMap (escape isPrint) ++ ['"'])

/-- Read a character of `w` digits. -/
def readChar (w : Nat) (r : List Char) : Option (Char × List Char) :=
  (readHex w r).map (Prod.map Char.ofNat id)

/-- Read one escaped character. -/
def unescape : List Char → Option (Char × List Char)
  | [] => none
  | ['\\'] => none
  | c :: d :: r =>
    if c ≠ '\\' then some (c, d :: r)
    else if d = 'x' then readChar 2 r
    else if d = 'u' then readChar 4 r
    else if d = 'U' then readChar 8 r
    else some (((letters.find? (·.2 = d)).map Prod.fst).getD d, r)
  | c :: r => some (c, r)

theorem readChar_hex {w : Nat} {c : Char} (h : c.toNat < 16 ^ w) (r : List Char) :
    readChar w (hex w c.toNat ++ r) = some (c, r) := by
  rw [readChar, readHex_hex, Nat.mod_eq_of_lt h]
  simp

theorem unescape_letters : ∀ p ∈ letters, ∀ r, unescape ('\\' :: p.2 :: r) = some (p.1, r) := by
  intro p hp r
  simp only [letters, List.mem_cons, List.not_mem_nil, or_false] at hp
  rcases hp with rfl | rfl | rfl | rfl | rfl | rfl | rfl <;> rfl

theorem mem_of_lookup {c l : Char} (h : letters.lookup c = some l) : (c, l) ∈ letters := by
  obtain ⟨l₁, l₂, hl, -⟩ := List.lookup_eq_some_iff.mp h
  exact hl ▸ List.mem_append_right _ List.mem_cons_self

theorem unescape_escape (c : Char) (r : List Char) :
    unescape (escape isPrint c ++ r) = some (c, r) := by
  unfold escape
  split
  next h => rcases h with rfl | rfl <;> rfl
  next hq =>
    obtain ⟨-, hc⟩ := not_or.mp hq
    split
    next => cases r <;> simp [unescape, hc]
    next =>
      split
      next l hl => exact unescape_letters (c, l) (mem_of_lookup hl) r
      next =>
        split
        next h =>
          have hlt : c.toNat < 16 ^ 2 := by
            rcases h with h | rfl
            · exact Nat.lt_trans h (by decide)
            · decide
          exact readChar_hex hlt r
        next =>
          split
          next h => exact readChar_hex (w := 4) h r
          next => exact readChar_hex (w := 8) c.val.toNat_lt r

theorem delimited_escape : Delimited (fun _ => True) (escape isPrint) :=
  Delimited.of_decoder fun c r _ => unescape_escape isPrint c r

theorem escape_head (c : Char) : ∃ x s, escape isPrint c = x :: s ∧ x ≠ '"' := by
  unfold escape
  split
  next => exact ⟨_, _, rfl, by decide⟩
  next hq =>
    split
    next => exact ⟨c, [], rfl, (not_or.mp hq).1⟩
    next => split <;> (try split) <;> (try split) <;> exact ⟨_, _, rfl, by decide⟩

/-- A quoted string shows where it ends. -/
theorem delimited_quote : Delimited (fun _ => True) (quote isPrint) := by
  intro s s' r r' _ _ he
  have hitems := ((delimited_escape isPrint).items fun c _ => escape_head isPrint c).after ['"']
  exact hitems (fun _ _ => trivial) (fun _ _ => trivial) he

end Lib.Quote
