/-
Binary floating point of 64 bits as a scalar: its exact value and its shortest decimal text are
read off the bit pattern.
-/
import StrategyLab.Number.Decimal
import StrategyLab.Number.Scalar

namespace StrategyLab.Double

/-! ## The bit pattern -/

/-- The eleven exponent bits. -/
def biasedExponent (x : Float) : Nat := ((x.toBits >>> 52) &&& 0x7FF).toNat

/-- The fifty-two fraction bits. -/
def fraction (x : Float) : Nat := (x.toBits &&& 0xFFFFFFFFFFFFF).toNat

/-- The sign bit. -/
def signBit (x : Float) : Bool := (x.toBits >>> 63) != 0

/-- The magnitude `m · 2^q` of a finite double, as the pair of `m` and `q`. -/
def parts (x : Float) : Nat × Int :=
  let e := biasedExponent x
  if e = 0 then (fraction x, -1074) else (Nat.pow 2 52 + fraction x, Int.ofNat e - 1075)

/-- The exact value of a finite double. -/
def rational? (x : Float) : Option Rat :=
  if biasedExponent x = 0x7FF then none
  else
    let (m, q) := parts x
    let n : Int := if signBit x then -Int.ofNat m else Int.ofNat m
    some (if 0 ≤ q then mkRat (n * Int.pow 2 q.toNat) 1 else mkRat n (Nat.pow 2 (-q).toNat))

/-- Whole numbers up to this magnitude round to a finite double. -/
def wholeLimit : Nat := Nat.pow 2 1024 - Nat.pow 2 970

/-- The nearest double, none when the number would round to an infinity. -/
def ofInt? (n : Int) : Option Float :=
  if n.natAbs < wholeLimit then some (Float.ofInt n) else none

/-- The next double above a positive one. -/
def successor (x : Float) : Float := Float.ofBits (x.toBits + 1)

/-! ## Text -/

/-- The shortest text that reads back as the same double. -/
def text (x : Float) : String :=
  if biasedExponent x = 0x7FF then
    if fraction x ≠ 0 then "nan" else if signBit x then "-inf" else "inf"
  else
    let sign := if signBit x then "-" else ""
    let (m, q) := parts x
    if m = 0 then sign ++ "0.0"
    else sign ++ (Decimal.shortest m q (fraction x = 0 ∧ 1 < biasedExponent x)).text

end StrategyLab.Double

namespace StrategyLab

instance : Scalar Float where
  decideLt := inferInstance
  decideLe := inferInstance
  ofInt? := Double.ofInt?
  rational? := Double.rational?
  isFinite := Float.isFinite
  isSigned := Double.signBit
  infinity := 1.0 / 0.0
  undefined := 0.0 / 0.0
  sqrt := Float.sqrt
  successor := Double.successor
  text := Double.text

end StrategyLab
