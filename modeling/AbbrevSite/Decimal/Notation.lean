import AbbrevSite.Decimal.Shortest

/-! The written forms of a decimal: positional, or with an exponent of ten. -/
namespace AbbrevSite.Decimal

def digitChars (d : Decimal) : List Char := Nat.toDigits 10 d.digits

/-- All digits around the point, at least one on each side of it. -/
def positional (d : Decimal) : List Char :=
  let digits := d.digitChars
  match d.exponent with
  | .ofNat n => digits ++ List.replicate n '0' ++ ['.', '0']
  | .negSucc n =>
    let places := n + 1
    if digits.length ≤ places then
      ['0', '.'] ++ List.replicate (places - digits.length) '0' ++ digits
    else digits.take (digits.length - places) ++ '.' :: digits.drop (digits.length - places)

/-- One digit before the point, the rest after it, and the exponent that goes with them. -/
def scientific (d : Decimal) : List Char :=
  let digits := d.digitChars
  let exponent := d.exponent + (digits.length - 1 : Nat)
  let rest := digits.drop 1
  digits.take 1 ++ (if rest.isEmpty then [] else '.' :: rest) ++ 'e' :: (toString exponent).toList

end AbbrevSite.Decimal

namespace AbbrevSite.Double

def signed (x : Double) (text : List Char) : String :=
  String.ofList (if x.isNegative then '-' :: text else text)

/-- Positional from a ten-thousandth up to, but not including, ten to the sixteenth; otherwise with an
exponent. A whole number keeps one zero after its point. -/
def display (x : Double) : String :=
  if x.isNaN then "NaN"
  else if x.isInfinite then x.signed ['i', 'n', 'f']
  else if x.isZero then x.signed ['0', '.', '0']
  else
    let d := x.shortest
    x.signed (if -4 < x.magnitude ∧ x.magnitude ≤ 16 then d.positional else d.scientific)

def displayPositional (x : Double) : String :=
  if x.isNaN then "nan"
  else if x.isInfinite then x.signed ['i', 'n', 'f']
  else if x.isZero then x.signed ['0', '.', '0']
  else x.signed x.shortest.positional

end AbbrevSite.Double
