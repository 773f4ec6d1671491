import AbbrevSite.Text.Alphabetic
import AbbrevSite.Text.Number
import AbbrevSite.Text.Unprintable

/-! Character classes over all of Unicode. ASCII is decided by comparison; only the rest is looked
up in the range tables. -/
namespace AbbrevSite

/-- Whether a code point lies in one of the ranges. -/
def CharRanges.covers (ranges : List (Nat × Nat)) (n : Nat) : Bool :=
  ranges.any fun r => r.1 ≤ n && n ≤ r.2

namespace CharClass

def isAscii (c : Char) : Bool := c.toNat < 128

def isAsciiLetter (c : Char) : Bool :=
  ('a' ≤ c && c ≤ 'z') || ('A' ≤ c && c ≤ 'Z')

def isAsciiDigit (c : Char) : Bool := '0' ≤ c && c ≤ '9'

def isHexDigit (c : Char) : Bool :=
  isAsciiDigit c || ('a' ≤ c && c ≤ 'f') || ('A' ≤ c && c ≤ 'F')

def isAlphabetic (c : Char) : Bool :=
  if isAscii c then isAsciiLetter c else CharRanges.covers CharRanges.alphabetic c.toNat

def isNumber (c : Char) : Bool :=
  if isAscii c then isAsciiDigit c else CharRanges.covers CharRanges.number c.toNat

def isDecimalDigit (c : Char) : Bool :=
  if isAscii c then isAsciiDigit c else CharRanges.covers CharRanges.decimalDigit c.toNat

def isAlphanumeric (c : Char) : Bool := isAlphabetic c || isNumber c

/-- The Unicode property White_Space. -/
def isBlank (c : Char) : Bool :=
  let n := c.toNat
  n == 0x20 || (0x9 ≤ n && n ≤ 0xD) || n == 0x85 || n == 0xA0 || n == 0x1680 ||
    (0x2000 ≤ n && n ≤ 0x200A) || n == 0x2028 || n == 0x2029 || n == 0x202F || n == 0x205F ||
    n == 0x3000

def isShown (c : Char) : Bool :=
  if isAscii c then 0x20 ≤ c.toNat && c.toNat < 0x7F
  else !CharRanges.covers CharRanges.graphemeExtend c.toNat
    && !CharRanges.covers CharRanges.unprintable c.toNat

end CharClass
end AbbrevSite
