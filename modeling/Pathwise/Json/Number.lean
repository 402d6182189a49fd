import Pathwise.Decimal

namespace Pathwise.Json

/-- The sign and the digits after `e`. -/
structure Exponent where
  negative : Bool := false
  digits : List Char
  deriving DecidableEq, Repr

structure Number where
  negative : Bool := false
  /-- The digits before the point. -/
  whole : List Char
  /-- The digits after the point, none if there is no point. -/
  fraction : List Char := []
  exponent? : Option Exponent := none
  deriving DecidableEq, Repr

/-- The number that decimal digits stand for. -/
def digitsValue (cs : List Char) : Nat := cs.foldl (fun n c => 10 * n + (c.toNat - '0'.toNat)) 0

namespace Number

def ofNat (n : Nat) : Number := { whole := Nat.toDigits 10 n }

def ofInt (i : Int) : Number := { negative := i < 0, whole := Nat.toDigits 10 i.natAbs }

def render (n : Number) : List Char :=
  (if n.negative then ['-'] else []) ++ n.whole ++
    (if n.fraction.isEmpty then [] else '.' :: n.fraction) ++
    match n.exponent? with
    | some e => 'e' :: (if e.negative then '-' else '+') :: e.digits
    | none => []

def isWhole (n : Number) : Bool := n.fraction.isEmpty && n.exponent?.isNone

/-- The integer that the number is, if it is written as one. Minus zero is none. -/
def toInt? (n : Number) : Option Int :=
  let m := digitsValue n.whole
  if n.isWhole then
    if n.negative then if m = 0 then none else some (-m) else some m
  else none

def toUInt64? (n : Number) : Option UInt64 := do
  let i ← n.toInt?
  if 0 ≤ i ∧ i.toNat < UInt64.size then some (UInt64.ofNat i.toNat) else none

def toInt64? (n : Number) : Option Int64 := do
  let i ← n.toInt?
  if Int64.minValue.toInt ≤ i ∧ i ≤ Int64.maxValue.toInt then some (Int64.ofInt i) else none

/-- Leading digits, as many as fit 64 bits, and the power of ten that they lack. -/
structure Significand where
  value : Nat := 0
  exponent : Int := 0

def Significand.fits (s : Significand) (digit : Nat) : Bool := s.value * 10 + digit < UInt64.size

/-- Digits before the point: once one does not fit, all others count as places. -/
def Significand.addWhole (s : Significand) : List Char → Significand
  | [] => s
  | c :: cs =>
    let digit := c.toNat - '0'.toNat
    if s.fits digit then addWhole { s with value := s.value * 10 + digit } cs
    else { s with exponent := s.exponent + (cs.length + 1) }

/-- Digits after the point: once one does not fit, all others are left out. -/
def Significand.addFraction (s : Significand) : List Char → Significand
  | [] => s
  | c :: cs =>
    let digit := c.toNat - '0'.toNat
    if s.fits digit then addFraction ⟨s.value * 10 + digit, s.exponent - 1⟩ cs else s

/-- The largest power of ten that is a double. -/
def maxPower : Nat := 308

def power (n : Nat) : Float := Float.ofScientific 1 false n

/-- `x · 10 ^ e`, by one multiplication or as many divisions as it takes, if it is not too large. -/
def scale (x : Float) (e : Int) : Nat → Option Float
  | 0 => some x
  | fuel + 1 =>
    if e.natAbs ≤ maxPower then
      if e < 0 then some (x / power e.natAbs)
      else
        let y := x * power e.natAbs
        if y.isInf then none else some y
    else if x == 0 then some x
    else if e < 0 then scale (x / power maxPower) (e + maxPower) fuel
    else none

/-- The double that the number stands for, if it is not too large. -/
def toFloat? (n : Number) : Option Float := do
  let s := (({} : Significand).addWhole n.whole).addFraction n.fraction
  let shift : Int :=
    match n.exponent? with
    | some e => if e.negative then -(digitsValue e.digits : Int) else digitsValue e.digits
    | none => 0
  let e := s.exponent + shift
  let x ← scale s.value.toUInt64.toFloat e (e.natAbs / maxPower + 1)
  return if n.negative then -x else x

/-- The shortest form that reads back: without an exponent from `1e-5` up to `1e16`, and with a
digit after the point there. Ties go to the even digit. -/
def ofFloat (x : Float) : Number :=
  let (negative, bits) := signAndBits x
  if bits = 0 then { negative, whole := ['0'], fraction := ['0'] }
  else
    let d := Decimal.shortest .toEven bits
    let e := d.leadingExponent
    if -5 ≤ e && e < 16 then
      let (whole, fraction) := d.positional
      { negative, whole, fraction := if fraction.isEmpty then ['0'] else fraction }
    else
      { negative
        whole := d.digitChars.take 1
        fraction := d.digitChars.drop 1
        exponent? := some ⟨e < 0, Nat.toDigits 10 e.natAbs⟩ }

end Number

end Pathwise.Json
