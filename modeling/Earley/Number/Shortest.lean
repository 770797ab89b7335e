import Earley.Number.Binary

/-!
# Number/Shortest — the fewest decimal digits that stand for a number

Every floating-point number stands for the real numbers that are nearer to it than to its
neighbours.  Among the decimal numbers of this interval one with the fewest digits is chosen, and of
these the one nearest to the number itself.  The two multiples of a power of ten around the number
are tried, for larger powers first; an interval that holds any multiple of the power holds one of
these two.
-/

namespace Earley.Number

/-- The interval of the numbers that are read as `significand * 2 ^ exponent`, in units of
`2 ^ (exponent - 2)`.  Below a power of two the neighbour is only half as far away.  The ends belong
to the interval if the significand is even. -/
structure Interval where
  low : Nat
  value : Nat
  high : Nat
  exponent : Int
  closed : Bool

/-- The interval of a number. -/
def Interval.ofParts (significand : Nat) (exponent : Int) : Interval where
  low := 4 * significand - if significand = Nat.pow 2 52 && -1074 < exponent then 1 else 2
  value := 4 * significand
  high := 4 * significand + 2
  exponent := exponent - 2
  closed := significand % 2 = 0

namespace Interval

/-- Compares a multiple of a power of ten with a number of units. -/
def compareTo (i : Interval) (units digits : Nat) (power : Int) : Ordering :=
  let (num, den) := fraction units i.exponent
  if 0 ≤ power then compare (digits * Nat.pow 10 power.toNat * den) num
  else compare (digits * den) (num * Nat.pow 10 (-power).toNat)

/-- Whether the interval holds a multiple of a power of ten. -/
def holds (i : Interval) (digits : Nat) (power : Int) : Bool :=
  match i.compareTo i.low digits power, i.compareTo i.high digits power with
  | .gt, .lt => true
  | .eq, _ => i.closed
  | _, .eq => i.closed
  | _, _ => false

/-- The largest multiple of a power of ten that is not above the number. -/
def below (i : Interval) (power : Int) : Nat :=
  let (num, den) := fraction i.value i.exponent
  if 0 ≤ power then num / (den * Nat.pow 10 power.toNat) else num * Nat.pow 10 (-power).toNat / den

/-- Whether the upper of two neighbouring multiples is taken: it is nearer, or as near as the
other. -/
def upperNearer (i : Interval) (digits : Nat) (power : Int) : Bool :=
  i.compareTo (2 * i.value) (2 * digits + 1) power != .gt

/-- The multiple of a power of ten that stands for the number, if there is one. -/
def multiple? (i : Interval) (power : Int) : Option Nat :=
  let lower := i.below power
  match i.holds lower power, i.holds (lower + 1) power with
  | true, true => some (if i.upperNearer lower power then lower + 1 else lower)
  | true, false => some lower
  | false, true => some (lower + 1)
  | false, false => none

/-- The number of digits before the point, or less than one for the zeros behind it. -/
def magnitude (i : Interval) : Int :=
  let (num, den) := fraction i.value i.exponent
  if den ≤ num then (Nat.toDigits 10 (num / den)).length
  else
    match (List.range 400).find? fun shift => den ≤ num * Nat.pow 10 (shift + 1) with
    | some shift => -(shift : Int)
    | none => 0

/-- **The shortest digits** of the number with the power of ten behind them.  Seventeen digits are
always enough. -/
def shortest (i : Interval) : Nat × Int :=
  let powers := (List.range 18).map fun count => i.magnitude - Int.ofNat count
  let hit := powers.findSome? fun power => (i.multiple? power).bind fun digits =>
    if digits = 0 then none else some (digits, power)
  hit.getD (i.value, 0)

end Interval

/-- Digits with a power of ten behind them, written out with a point where one is needed. -/
def positional (digits : Nat) (power : Int) : List Char :=
  let shown := Nat.toDigits 10 digits
  if 0 ≤ power then shown ++ List.replicate power.toNat '0'
  else
    let places := (-power).toNat
    let padded := List.replicate (places + 1 - shown.length) '0' ++ shown
    let whole := padded.take (padded.length - places)
    let decimals := ((padded.drop (padded.length - places)).reverse.dropWhile (· == '0')).reverse
    if decimals.isEmpty then whole else whole ++ '.' :: decimals

/-- **The text of a number**: its shortest digits without an exponent, and no point behind a whole
number.  Zero keeps its sign. -/
def text (x : Float) : String :=
  match Parts.ofFloat x with
  | .nan => "NaN"
  | .infinite negative => if negative then "-inf" else "inf"
  | .finite negative significand exponent =>
    let size :=
      if significand = 0 then ['0']
      else
        let (digits, power) := (Interval.ofParts significand exponent).shortest
        positional digits power
    String.ofList (if negative then '-' :: size else size)

end Earley.Number
