/-! The number a row of digits stands for in a base. -/
namespace AbbrevSite.Digits

def ofChar (c : Char) : Nat :=
  if '0' ≤ c && c ≤ '9' then c.toNat - '0'.toNat
  else if 'a' ≤ c && c ≤ 'f' then c.toNat - 'a'.toNat + 10
  else c.toNat - 'A'.toNat + 10

/-- Digits joined two by two, of each pair the lower one first: digits in the squared base. -/
def joinPairs (base : Nat) : List Nat → List Nat
  | low :: high :: rest => (low + base * high) :: joinPairs base rest
  | digits => digits

theorem length_joinPairs_le (base : Nat) (digits : List Nat) :
    (joinPairs base digits).length ≤ digits.length := by
  fun_induction joinPairs base digits with
  | case1 low high rest ih => simp only [List.length_cons]; omega
  | case2 => simp

/-- The value of digits given lowest first. Pairs are joined until one digit is left, which takes few
multiplications of long numbers. -/
def valueOfLowest (base : Nat) : List Nat → Nat
  | [] => 0
  | [digit] => digit
  | low :: high :: rest =>
    valueOfLowest (base * base) ((low + base * high) :: joinPairs base rest)
termination_by digits => digits.length
decreasing_by
  have := length_joinPairs_le base rest
  simp only [List.length_cons]; omega

def value (base : Nat) (digits : List Char) : Nat := valueOfLowest base (digits.map ofChar).reverse

end AbbrevSite.Digits
