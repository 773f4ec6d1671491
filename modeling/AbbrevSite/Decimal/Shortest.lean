/-! The shortest decimal of a binary floating-point number: of the decimals that round to the number,
one with the fewest digits, and of those the nearest. All comparisons are exact. -/
namespace AbbrevSite

/-- The number `digits · 10 ^ exponent`. -/
structure Decimal where
  digits : Nat
  exponent : Int
deriving DecidableEq, Repr

/-- The bits of a number of 64-bit floating-point arithmetic. -/
structure Double where
  bits : UInt64
deriving DecidableEq, Repr

namespace Double

def isNegative (x : Double) : Bool := x.bits >>> 63 != 0

def exponentBits (x : Double) : Nat := ((x.bits >>> 52) &&& 0x7FF).toNat

def fractionBits (x : Double) : Nat := (x.bits &&& 0xFFFFFFFFFFFFF).toNat

def isNaN (x : Double) : Bool := x.exponentBits == 0x7FF && x.fractionBits != 0

def isInfinite (x : Double) : Bool := x.exponentBits == 0x7FF && x.fractionBits == 0

def isZero (x : Double) : Bool := x.exponentBits == 0 && x.fractionBits == 0

def infinity : Double := ⟨0x7FF0000000000000⟩

def nan : Double := ⟨0x7FF8000000000000⟩

def negate (x : Double) : Double := ⟨x.bits ^^^ 0x8000000000000000⟩

/-- The bits of the number nearest to `n / d`, a tie going to the even one. With `q` the exponent of the
last place, `q + 1074` units of `2 ^ 52` and the rounded significand add up to them, also when rounding
carries into the exponent. -/
def nearestBits (n d : Nat) : Nat :=
  let q : Int := max (-1074) ((n.log2 : Int) - d.log2 - 52)
  let q :=
    if -1074 < q ∧ n * Nat.pow 2 (-q).toNat < Nat.pow 2 52 * (d * Nat.pow 2 q.toNat) then q - 1 else q
  let numerator := n * Nat.pow 2 (-q).toNat
  let denominator := d * Nat.pow 2 q.toNat
  let m := numerator / denominator
  let r := numerator % denominator
  let up := denominator < 2 * r || (denominator == 2 * r && m % 2 == 1)
  (q + 1074).toNat * Nat.pow 2 52 + (if up then m + 1 else m)

/-- The number nearest to a decimal. A decimal of at least `10 ^ 401` is beyond the range of the format,
and so is one below `2 ^ -1199`, for which `10 ^ e ≤ 2 ^ (3 * e)` is the bound if `e` is negative. -/
def ofDecimal (d : Decimal) : Double :=
  if d.digits = 0 then ⟨0⟩
  else
    if 400 < d.exponent then infinity
    else if d.digits.log2 + 3 * d.exponent < -1200 then ⟨0⟩
    else
      let bits := nearestBits (d.digits * Nat.pow 10 d.exponent.toNat)
        (Nat.pow 10 (-d.exponent).toNat)
      if 0x7FF0000000000000 ≤ bits then infinity else ⟨bits.toUInt64⟩

/-- The significand `m` and the exponent `q` of the absolute value `m · 2 ^ q` of a finite number. -/
def significand (x : Double) : Nat × Int :=
  if x.exponentBits == 0 then (x.fractionBits, -1074)
  else (Nat.pow 2 52 + x.fractionBits, (x.exponentBits : Int) - 1075)

/-- Whether the next smaller number is half as far away as the next larger one. -/
def hasNarrowGap (x : Double) : Bool := x.fractionBits == 0 && 1 < x.exponentBits

/-- How `d` compares with `n · 2 ^ q`. -/
def compareScaled (d : Decimal) (n : Nat) (q : Int) : Ordering :=
  compare (d.digits * Nat.pow 10 d.exponent.toNat * Nat.pow 2 (-q).toNat)
    (n * Nat.pow 2 q.toNat * Nat.pow 10 (-d.exponent).toNat)

/-- Whether a decimal rounds to the absolute value of the number. The ends of the interval, halfway to
its neighbours, belong to it when the significand is even. -/
def rounds (x : Double) (d : Decimal) : Bool :=
  let (m, q) := x.significand
  let low := compareScaled d (if x.hasNarrowGap then 4 * m - 1 else 4 * m - 2) (q - 2)
  let high := compareScaled d (4 * m + 2) (q - 2)
  let even := m % 2 == 0
  (low == .gt || (even && low == .eq)) && (high == .lt || (even && high == .eq))

/-- The least `k` from `k₀` on, tried `fuel` times, with the absolute value below `10 ^ k`. -/
def magnitudeFrom (x : Double) (k : Int) : Nat → Int
  | 0 => k
  | fuel + 1 =>
    let (m, q) := x.significand
    if compareScaled ⟨1, k⟩ m q == .gt then k else magnitudeFrom x (k + 1) fuel

/-- The least `k` with the absolute value below `10 ^ k`. -/
def magnitude (x : Double) : Int := x.magnitudeFrom (-324) 640

/-- The largest multiple of `10 ^ e` that is not above the absolute value, as a decimal. -/
def floorAt (x : Double) (e : Int) : Decimal :=
  let (m, q) := x.significand
  ⟨m * Nat.pow 2 q.toNat * Nat.pow 10 (-e).toNat / (Nat.pow 2 (-q).toNat * Nat.pow 10 e.toNat), e⟩

/-- The decimal of `n` digits that rounds to the number and is nearest to it, a tie going up. -/
def nearestOfLength? (x : Double) (n : Nat) : Option Decimal :=
  let below := x.floorAt (x.magnitude - n)
  let above : Decimal := ⟨below.digits + 1, below.exponent⟩
  let (m, q) := x.significand
  match x.rounds below, x.rounds above with
  | true, true =>
    some (if compareScaled ⟨2 * below.digits + 1, below.exponent⟩ (2 * m) q == .gt
      then below else above)
  | true, false => some below
  | false, true => some above
  | false, false => none

/-- Takes the zeros at the end of the digits into the exponent. -/
def strip (d : Decimal) : Nat → Decimal
  | 0 => d
  | fuel + 1 =>
    if d.digits % 10 = 0 ∧ d.digits ≠ 0 then strip ⟨d.digits / 10, d.exponent + 1⟩ fuel else d

/-- The shortest decimal of the absolute value of a finite number. -/
def shortest (x : Double) : Decimal :=
  if x.isZero then ⟨0, 0⟩
  else
    let found := (List.range 17).findSome? fun n => x.nearestOfLength? (n + 1)
    strip (found.getD (x.floorAt (-1074))) 400

end Double
end AbbrevSite
