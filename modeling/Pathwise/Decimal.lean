namespace Pathwise

/-- `digits · 10 ^ exponent`. -/
structure Decimal where
  digits : Nat
  exponent : Int
  deriving DecidableEq, Repr

namespace Decimal

/-- Which of two equally near decimals to take. -/
inductive Tie where
  | toEven
  | up
  deriving DecidableEq, Repr

/-- Whether a tie between the digits `d` and `d + 1` goes to `d`. -/
def Tie.takesLower (tie : Tie) (d : Nat) : Bool :=
  match tie with
  | toEven => d % 2 == 0
  | up => false

/-- A positive number `mantissa · 2 ^ exponent`, and whether the one below it is only half as far
away as the one above. -/
structure Binary where
  mantissa : Nat
  exponent : Int
  closeBelow : Bool
  deriving DecidableEq, Repr

/-- Reads the bits of a finite, positive double. -/
def Binary.ofBits (bits : Nat) : Binary :=
  let fraction := bits % 1 <<< 52
  let biased : Nat := bits / 1 <<< 52 % 1 <<< 11
  if biased = 0 then ⟨fraction, -1074, false⟩
  else ⟨1 <<< 52 + fraction, (biased : Int) - 1075, fraction == 0 && biased > 1⟩

structure Ratio where
  num : Nat
  den : Nat

namespace Ratio

/-- `n · base ^ e`. -/
def scaled (n base : Nat) (e : Int) : Ratio :=
  if e < 0 then ⟨n, base.pow e.natAbs⟩ else ⟨n * base.pow e.natAbs, 1⟩

def le (a b : Ratio) : Bool := a.num * b.den ≤ b.num * a.den

def lt (a b : Ratio) : Bool := a.num * b.den < b.num * a.den

/-- The quotient divided by `10 ^ k`, without its fraction. -/
def floorAt (a : Ratio) (k : Int) : Nat :=
  if k < 0 then a.num * Nat.pow 10 k.natAbs / a.den else a.num / (a.den * Nat.pow 10 k.natAbs)

end Ratio

namespace Binary

/-- Four times the number, in units of the exponent less two. The borders of the interval that
rounds to the number are whole in these units. -/
def value (b : Binary) : Ratio := .scaled (4 * b.mantissa) 2 (b.exponent - 2)

def upper (b : Binary) : Ratio := .scaled (4 * b.mantissa + 2) 2 (b.exponent - 2)

def lower (b : Binary) : Ratio :=
  .scaled (4 * b.mantissa - if b.closeBelow then 1 else 2) 2 (b.exponent - 2)

/-- Whether a quotient rounds to the number. The borders do if the mantissa is even. -/
def rounds (b : Binary) (a : Ratio) : Bool :=
  if b.mantissa % 2 = 0 then b.lower.le a && a.le b.upper else b.lower.lt a && a.lt b.upper

/-- Of the two multiples of `10 ^ k` next to the number, the one nearest to it that rounds to it. -/
def nearest? (b : Binary) (tie : Tie) (k : Int) : Option Decimal :=
  let d := b.value.floorAt k
  let below := Ratio.scaled d 10 k
  let above := Ratio.scaled (d + 1) 10 k
  match b.rounds below && d != 0, b.rounds above with
  | true, true =>
    -- twice the number against the sum of its neighbours
    let sum := Ratio.scaled (2 * d + 1) 10 k
    let twice : Ratio := ⟨2 * b.value.num, b.value.den⟩
    let first := twice.lt sum || (!sum.lt twice && tie.takesLower d)
    some ⟨if first then d else d + 1, k⟩
  | true, false => some ⟨d, k⟩
  | false, true => some ⟨d + 1, k⟩
  | false, false => none

/-- The largest power of ten not above the number, looking downwards from `k`. -/
def magnitude (b : Binary) (k : Int) : Nat → Int
  | 0 => k
  | fuel + 1 => if (Ratio.scaled 1 10 k).le b.value then k else magnitude b (k - 1) fuel

end Binary

/-- Drops zeros at the end of the digits. -/
def stripZeros (d : Decimal) : Nat → Decimal
  | 0 => d
  | fuel + 1 =>
    if d.digits % 10 = 0 && d.digits != 0 then stripZeros ⟨d.digits / 10, d.exponent + 1⟩ fuel
    else d

/-- The shortest decimal that reads back as a finite, positive double, given by its bits. Seventeen
digits are always enough. -/
def shortest (tie : Tie) (bits : Nat) : Decimal :=
  let b := Binary.ofBits bits
  let top := b.magnitude 309 650
  let found? := (List.range 17).findSome? fun n : Nat => b.nearest? tie (top - n)
  (found?.getD ⟨0, 0⟩).stripZeros 18

def digitChars (d : Decimal) : List Char := Nat.toDigits 10 d.digits

def leadingExponent (d : Decimal) : Int := d.exponent + (d.digitChars.length - 1 : Int)

/-- The digits before and after the point when no exponent is written. -/
def positional (d : Decimal) : List Char × List Char :=
  let ds := d.digitChars
  if d.exponent ≥ 0 then (ds ++ List.replicate d.exponent.natAbs '0', [])
  else
    let places := d.exponent.natAbs
    if places < ds.length then (ds.take (ds.length - places), ds.drop (ds.length - places))
    else (['0'], List.replicate (places - ds.length) '0' ++ ds)

end Decimal

def signAndBits (x : Float) : Bool × Nat :=
  let bits := x.toBits.toNat
  (bits ≥ 1 <<< 63, bits % 1 <<< 63)

/-- Digits without an exponent, and without a point if nothing follows it. Ties go up. -/
def plainFloatText (x : Float) : String :=
  let (negative, bits) := signAndBits x
  let (whole, fraction) := if bits = 0 then (['0'], []) else (Decimal.shortest .up bits).positional
  String.ofList ((if negative then ['-'] else []) ++ whole ++
    if fraction.isEmpty then [] else '.' :: fraction)

end Pathwise
