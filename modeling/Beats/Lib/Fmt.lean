import Mathlib.Algebra.Group.Nat.Defs

/-!
# The formatting verbs

What the `fmt` verbs print for the values of this development: quoted strings (`%q`),
fixed-point decimals (`%.Nf`), padded strings (`%-Ns`), durations and durations rounded to
the second.  A decimal is rounded half to even from the exact value, a duration half away
from zero.
-/

namespace Lib.Fmt

open List

/-! ## Quoted strings -/

def hexDigit (n : Nat) : Char := (Nat.toDigits 16 (n % 16)).headD '0'

/-- A character inside a quoted string.  Printable characters stand for themselves. -/
def escape (c : Char) : String :=
  match c.toNat with
  | 7 => "\\a"
  | 8 => "\\b"
  | 9 => "\\t"
  | 10 => "\\n"
  | 11 => "\\v"
  | 12 => "\\f"
  | 13 => "\\r"
  | 34 => "\\\""
  | 92 => "\\\\"
  | n =>
    if n < 32 ∨ n = 127 then String.ofList ['\\', 'x', hexDigit (n / 16), hexDigit n]
    else String.ofList [c]

/-- `%q`. -/
def quote (s : String) : String :=
  "\"" ++ String.join (s.toList.map escape) ++ "\""

/-! ## Decimals -/

/-- `n / d` rounded to the nearest number, half to even. -/
def roundHalfEven (n d : Nat) : Nat :=
  if 2 * (n % d) < d then n / d
  else if d < 2 * (n % d) then n / d + 1
  else n / d + n / d % 2

/-- The last `k` decimal digits of `n`. -/
def digits (k n : Nat) : String :=
  let ds := Nat.toDigits 10 n
  String.ofList (List.replicate (k - ds.length) '0' ++ ds)

/-- `%.kf`. -/
def fixed (k : Nat) (x : Rat) : String :=
  let n := roundHalfEven (x.num.natAbs * 10 ^ k) x.den
  (if x < 0 then "-" else "") ++ toString (n / 10 ^ k) ++
    (if k = 0 then "" else "." ++ digits k (n % 10 ^ k))

/-! ## Padding and durations -/

/-- `%-ks`. -/
def padRight (k : Nat) (s : String) : String :=
  s ++ String.ofList (List.replicate (k - s.length) ' ')

/-- Nanoseconds rounded to whole seconds, half away from zero. -/
def roundSeconds (d : Int) : Int :=
  if d < 0 then -((-d + 500000000) / 1000000000) else (d + 500000000) / 1000000000

/-- A duration of whole seconds, in the notation of `Duration.String`. -/
def seconds (s : Int) : String :=
  let n := s.natAbs
  (if s < 0 then "-" else "") ++
    (if n < 60 then toString n ++ "s"
    else if n < 3600 then toString (n / 60) ++ "m" ++ toString (n % 60) ++ "s"
    else toString (n / 3600) ++ "h" ++ toString (n / 60 % 60) ++ "m" ++ toString (n % 60) ++ "s")

/-- The decimals of `n / 10 ^ k`, without trailing zeros, and without the point where none are
left. -/
def fraction (k n : Nat) : String :=
  let ds := ((digits k n).toList.reverse.dropWhile (· == '0')).reverse
  if ds = [] then "" else "." ++ String.ofList ds

/-- `Duration.String`, of nanoseconds. -/
def duration (d : Int) : String :=
  let n := d.natAbs
  let s := n / 1000000000
  let secs := toString (s % 60) ++ fraction 9 (n % 1000000000) ++ "s"
  (if d < 0 then "-" else "") ++
    (if n = 0 then "0s"
    else if n < 1000 then toString n ++ "ns"
    else if n < 1000000 then toString (n / 1000) ++ fraction 3 (n % 1000) ++ "µs"
    else if n < 1000000000 then toString (n / 1000000) ++ fraction 6 (n % 1000000) ++ "ms"
    else if s < 60 then secs
    else if s < 3600 then toString (s / 60) ++ "m" ++ secs
    else toString (s / 3600) ++ "h" ++ toString (s / 60 % 60) ++ "m" ++ secs)

example : duration 5400000000000 = "1h30m0s" := by decide +kernel

/-! ## Leading text -/

/-- `strings.HasPrefix`. -/
def leads (p s : String) : Bool := p.toList.isPrefixOf s.toList

theorem leads_append (p s : String) : leads p (p ++ s) = true := by
  rw [leads, isPrefixOf_iff_prefix, String.toList_append]
  exact prefix_append _ _

/-- What leads a text leads its head, or is led by it. -/
theorem leads_or_leads {p q s : String} (h : leads p (q ++ s) = true) :
    leads p q = true ∨ leads q p = true := by
  simp only [leads, isPrefixOf_iff_prefix, String.toList_append] at h ⊢
  exact prefix_or_prefix_of_prefix h (prefix_append _ _)

end Lib.Fmt
