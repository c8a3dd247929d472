/-
Exact decimal text of binary numbers. A positive finite binary number is `m · 2^q`; its shortest
text is the shortest decimal inside the interval of reals that round to it, and of two such
decimals the nearer one. A fixed number of places is the exact value rounded once, a half going
to the even neighbour.
-/
import StrategyLab.Number.Scalar

namespace StrategyLab

/-- The decimal `significand · 10^power`. -/
structure Decimal where
  /-- The digits as one whole number. -/
  significand : Nat
  /-- The power of ten of the last digit. -/
  power : Int
  deriving Repr, DecidableEq, Inhabited

namespace Decimal

/-! ## Digits -/

/-- The decimal digits of a whole number, most significant first. -/
def digits (n : Nat) : List Char := Nat.toDigits 10 n

/-- How many decimal digits a whole number has. -/
def width (n : Nat) : Nat := (digits n).length

/-- The text of a whole number. -/
def natText (n : Nat) : String := String.ofList (digits n)

/-- The quotient rounded to the nearest whole number, a half to the even one. -/
def roundQuotient (num den : Nat) : Nat :=
  let low := num / den
  let twice := 2 * (num % den)
  if twice < den then low
  else if den < twice then low + 1
  else if low % 2 = 0 then low else low + 1

/-! ## The shortest decimal -/

/-- The reals that round to one binary number, all over a common denominator. -/
structure Interval where
  /-- Numerator of the lower end. -/
  low : Nat
  /-- Numerator of the number itself. -/
  mid : Nat
  /-- Numerator of the upper end. -/
  high : Nat
  /-- The common denominator. -/
  den : Nat
  /-- Whether the ends round to the number too. -/
  closed : Bool

/-- The interval of `m · 2^q`. Below a power of two the neighbour is half as far away. -/
def Interval.around (m : Nat) (q : Int) (narrowBelow : Bool) : Interval :=
  let scale (n : Nat) : Nat := if 2 ≤ q then n * Nat.pow 2 (q - 2).toNat else n
  { low := scale (4 * m - (if narrowBelow then 1 else 2))
    mid := scale (4 * m)
    high := scale (4 * m + 2)
    den := if 2 ≤ q then 1 else Nat.pow 2 (2 - q).toNat
    closed := m % 2 = 0 }

/-- The power of ten of the first digit of `num / den`, both positive. -/
def leadingPower (num den : Nat) : Int :=
  let gap : Int := Int.ofNat (width num) - Int.ofNat (width den)
  let reached : Bool :=
    if 0 ≤ gap then den * Nat.pow 10 gap.toNat ≤ num else den ≤ num * Nat.pow 10 (-gap).toNat
  if reached then gap else gap - 1

/-- Of the multiples of `10^power` next to the middle of the interval, the nearest one that lies
inside; of two equally near ones the even one. -/
def nearestWithin? (r : Interval) (power : Int) : Option Nat :=
  let up : Nat := if 0 ≤ power then Nat.pow 10 power.toNat else 1
  let down : Nat := if 0 ≤ power then 1 else Nat.pow 10 (-power).toNat
  let unit := up * r.den
  let below := (r.mid * down) / unit
  let inside (c : Nat) : Bool :=
    if r.closed then r.low * down ≤ c * unit ∧ c * unit ≤ r.high * down
    else r.low * down < c * unit ∧ c * unit < r.high * down
  if inside below then
    if inside (below + 1) then
      let left := r.mid * down - below * unit
      let right := (below + 1) * unit - r.mid * down
      if left < right ∨ (left = right ∧ below % 2 = 0) then some below else some (below + 1)
    else some below
  else if inside (below + 1) then some (below + 1)
  else none

/-- The first grid, from `power` down to finer ones, that has a point inside the interval. -/
def searchShortest (r : Interval) : (grids : Nat) → (power : Int) → Decimal
  | 0, power => ⟨(nearestWithin? r power).getD 0, power⟩
  | grids + 1, power =>
    match nearestWithin? r power with
    | some c => ⟨c, power⟩
    | none => searchShortest r grids (power - 1)

/-- The shortest decimal that reads back as the positive number `m · 2^q`. Seventeen significant
digits always suffice. -/
def shortest (m : Nat) (q : Int) (narrowBelow : Bool) : Decimal :=
  let r := Interval.around m q narrowBelow
  searchShortest r 17 (leadingPower r.mid r.den)

/-! ## Text -/

/-- The significant digits without trailing zeros, and the power of ten of the first. -/
def scientific (d : Decimal) : List Char × Int :=
  let ds := digits d.significand
  let trimmed := (ds.reverse.dropWhile (· == '0')).reverse
  (if trimmed.isEmpty then ['0'] else trimmed, d.power + Int.ofNat ds.length - 1)

/-- Digits with the point after the first `whole` ones, zeros filled in on either side. -/
def positional (ds : List Char) (leading : Int) : List Char :=
  if leading < 0 then
    '0' :: '.' :: (List.replicate (-leading - 1).toNat '0' ++ ds)
  else
    let whole := leading.toNat + 1
    let padded := ds ++ List.replicate (whole - ds.length) '0'
    let fraction := padded.drop whole
    padded.take whole ++ '.' :: (if fraction.isEmpty then ['0'] else fraction)

/-- A power of ten as an exponent: signed, at least two digits. -/
def exponentText (e : Int) : List Char :=
  let ds := digits e.natAbs
  (if e < 0 then '-' else '+') :: (if ds.length < 2 then '0' :: ds else ds)

/-- Positional from `0.0001` to below `10^16`, with at least one digit on either side of the
point; outside of it one digit, a fraction if there is one, and the exponent. -/
def text (d : Decimal) : String :=
  let (ds, leading) := scientific d
  String.ofList <|
    if -4 ≤ leading ∧ leading < 16 then positional ds leading
    else
      let mantissa := match ds with
        | [] => ['0']
        | [c] => [c]
        | c :: rest => c :: '.' :: rest
      mantissa ++ 'e' :: exponentText leading

/-- The quotient `num / den` with a fixed number of digits after the point. -/
def fixedText (places num den : Nat) : String :=
  let scaled := roundQuotient (num * Nat.pow 10 places) den
  if places = 0 then natText scaled
  else
    let ds := digits scaled
    let padded := List.replicate (places + 1 - ds.length) '0' ++ ds
    let cut := padded.length - places
    String.ofList (padded.take cut ++ '.' :: padded.drop cut)

end Decimal

end StrategyLab

namespace StrategyLab.Scalar

variable {α : Type} [Scalar α]

/-- The magnitude with so many digits after the point; the word for infinite and undefined ones. -/
def fixedMagnitude (places : Nat) (x : α) : String :=
  match rational? x with
  | some q => Decimal.fixedText places q.num.natAbs q.den
  | none => if isUndefined x then "nan" else "inf"

/-- A scalar with so many digits after the point. -/
def fixed (places : Nat) (x : α) : String :=
  (if isSigned x && !isUndefined x then "-" else "") ++ fixedMagnitude places x

/-- A scalar with so many digits after the point and always a sign. -/
def signedFixed (places : Nat) (x : α) : String :=
  (if isSigned x && !isUndefined x then "-" else "+") ++ fixedMagnitude places x

/-- A share in percent with so many digits after the point. -/
def percent (places : Nat) (x : α) : String := fixed places (x * 100.0) ++ "%"

end StrategyLab.Scalar
