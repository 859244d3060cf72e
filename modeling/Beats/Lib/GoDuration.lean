import Beats.Lib.Digits

/-!
# Durations in text

The duration that a text denotes in the syntax of Go: an optional sign, and then a sequence of
decimal numbers, each with an optional fraction and a unit, such as `300ms`, `-1.5h` or `2h45m`.
The unit is one of `ns`, `us` (or `µs`), `ms`, `s`, `m` and `h`.  A duration is a 64-bit number of
nanoseconds, and a fraction of one is cut off.
-/

namespace Lib.GoDuration

def unit (u : String) : Option Nat :=
  match u with
  | "ns" => some 1
  | "us" => some 1000
  | "µs" => some 1000
  | "μs" => some 1000
  | "ms" => some 1000000
  | "s" => some 1000000000
  | "m" => some 60000000000
  | "h" => some 3600000000000
  | _ => none

/-- The number that digits spell. -/
def value (ds : List Char) : Nat := Nat.ofDigitChars 10 ds 0

/-- The digits that a text starts with. -/
def leadingDigits (cs : List Char) : List Char := cs.takeWhile Char.isDigit

/-- The digits after a point, where the text starts with one, and the text after them. -/
def fraction : List Char → List Char × List Char
  | '.' :: cs => (leadingDigits cs, cs.dropWhile Char.isDigit)
  | cs => ([], cs)

/-- The character is part of a unit. -/
def inUnit (c : Char) : Bool := c != '.' && !c.isDigit

/-- The nanoseconds of a text without a sign.  The fuel is the length of the text: each number
takes some of it. -/
def nanoseconds : Nat → List Char → Option Nat
  | _, [] => some 0
  | 0, _ => none
  | fuel + 1, cs =>
    let whole := leadingDigits cs
    let (frac, rest) := fraction (cs.dropWhile Char.isDigit)
    if whole = [] ∧ frac = [] then none
    else match unit (String.ofList (rest.takeWhile inUnit)) with
      | none => none
      | some n =>
        (nanoseconds fuel (rest.dropWhile inUnit)).map fun v =>
          value whole * n + value frac * n / 10 ^ frac.length + v

/-- The nanoseconds of a text that is not empty.  A zero needs no unit. -/
def magnitude (cs : List Char) : Option Nat :=
  if cs = [] then none else if cs = ['0'] then some 0 else nanoseconds cs.length cs

/-- `time.ParseDuration`, without its error texts. -/
def parse (s : String) : Option Int :=
  match s.toList with
  | '-' :: cs => (magnitude cs).bind fun d => if d ≤ 2 ^ 63 then some (-(d : Int)) else none
  | '+' :: cs => (magnitude cs).bind fun d => if d < 2 ^ 63 then some (d : Int) else none
  | cs => (magnitude cs).bind fun d => if d < 2 ^ 63 then some (d : Int) else none

/-- `time.ParseDuration`, with one text for all its errors. -/
def tryParse (s : String) : Except String Int :=
  match parse s with
  | some d => .ok d
  | none => .error "time: invalid duration"

example : parse "1h30m" = some 5400000000000 := by decide +kernel

example : parse "-1.5ms" = some (-1500000) := by decide +kernel

example : parse "4-6m" = none := by decide +kernel

end Lib.GoDuration
