import AbbrevSite.Decimal.Digits
import AbbrevSite.Text.CharClass
import AbbrevSite.Toml.Value

/-! The unquoted values of a settings file: booleans, numbers, dates and times. -/
namespace AbbrevSite.Toml

open CharClass (isAsciiDigit isHexDigit)

def isScalarChar (c : Char) : Bool :=
  CharClass.isAsciiLetter c || isAsciiDigit c || c == '_' || c == '-' || c == '+' || c == '.'
    || c == ':'

/-- The digits of a number without the underscores between them. None for no digit and for an underscore
that is not between two digits. -/
def digits? (isDigit : Char → Bool) (cs : List Char) : Option (List Char) :=
  let rec go (previous : Bool) : List Char → Option (List Char)
    | [] => if previous then some [] else none
    | c :: rest =>
      if isDigit c then (go true rest).map (c :: ·)
      else if c = '_' ∧ previous then go false rest
      else none
  go false cs

/-- The integers a file may hold. -/
def fits (n : Int) : Bool := decide (-0x8000000000000000 ≤ n) && decide (n < 0x8000000000000000)

def signed : List Char → Bool × List Char
  | '-' :: rest => (true, rest)
  | '+' :: rest => (false, rest)
  | cs => (false, cs)

/-- The digits of a whole decimal number, which starts with 0 only if it is 0. -/
def wholeDigits? (cs : List Char) : Option (List Char) := do
  let digits ← digits? isAsciiDigit cs
  match digits with
  | '0' :: _ :: _ => none
  | digits => some digits

def integer? (cs : List Char) : Option Int :=
  let inBase (base : Nat) (isDigit : Char → Bool) (rest : List Char) : Option Int := do
    let n : Int := Digits.value base (← digits? isDigit rest)
    if fits n then some n else none
  match cs with
  | '0' :: 'x' :: rest => inBase 16 isHexDigit rest
  | '0' :: 'o' :: rest => inBase 8 (fun c => '0' ≤ c && c ≤ '7') rest
  | '0' :: 'b' :: rest => inBase 2 (fun c => c == '0' || c == '1') rest
  | cs => do
    let (negative, rest) := signed cs
    let n : Int := Digits.value 10 (← wholeDigits? rest)
    let n := if negative then -n else n
    if fits n then some n else none

def exponent? (cs : List Char) : Option Int := do
  let (negative, rest) := signed cs
  let n : Int := Digits.value 10 (← digits? isAsciiDigit rest)
  some (if negative then -n else n)

def isExponentMark (c : Char) : Bool := c == 'e' || c == 'E'

/-- A number with a fraction, an exponent or both. One too large for the format is refused, unless it is
negative. -/
def number? (cs : List Char) : Option Double := do
  let (negative, rest) := signed cs
  let mantissa := rest.takeWhile fun c => !isExponentMark c
  let after := rest.dropWhile fun c => !isExponentMark c
  let exponent ← match after with
    | [] => some 0
    | _ :: after => exponent? after
  let whole ← wholeDigits? (mantissa.takeWhile (· != '.'))
  let fraction ← match mantissa.dropWhile (· != '.') with
    | [] => if after.isEmpty then none else some []
    | _ :: fraction => digits? isAsciiDigit fraction
  let x := Double.ofDecimal ⟨Digits.value 10 (whole ++ fraction), exponent - fraction.length⟩
  if negative then some x.negate else if x = .infinity then none else some x

def specialNumber? (cs : List Char) : Option Double := do
  let (negative, rest) := signed cs
  let x ← match rest with
    | ['i', 'n', 'f'] => some Double.infinity
    | ['n', 'a', 'n'] => some Double.nan
    | _ => none
  some (if negative then x.negate else x)

/-- A number of exactly `n` digits and the rest. -/
def fixedDigits? (n : Nat) (cs : List Char) : Option (Nat × List Char) :=
  let digits := cs.take n
  if digits.length = n ∧ digits.all isAsciiDigit then some (Digits.value 10 digits, cs.drop n)
  else none

def expect? (c : Char) : List Char → Option (List Char)
  | d :: rest => if d = c then some rest else none
  | [] => none

def date? (cs : List Char) : Option (Date × List Char) := do
  let (year, cs) ← fixedDigits? 4 cs
  let (month, cs) ← fixedDigits? 2 (← expect? '-' cs)
  let (day, cs) ← fixedDigits? 2 (← expect? '-' cs)
  if 1 ≤ month ∧ month ≤ 12 ∧ 1 ≤ day ∧ day ≤ daysInMonth year month then
    some (⟨year, month, day⟩, cs)
  else none

/-- Of the fraction of a second nine digits count. -/
def time? (cs : List Char) : Option (Time × List Char) := do
  let (hour, cs) ← fixedDigits? 2 cs
  let (minute, cs) ← fixedDigits? 2 (← expect? ':' cs)
  let (second, cs) ← fixedDigits? 2 (← expect? ':' cs)
  if 23 < hour ∨ 59 < minute ∨ 60 < second then none
  else
    match cs with
    | '.' :: rest =>
      let digits := rest.takeWhile isAsciiDigit
      if digits.isEmpty then none
      else
        let nine := (digits ++ List.replicate 9 '0').take 9
        some (⟨hour, minute, second, Digits.value 10 nine⟩, rest.dropWhile isAsciiDigit)
    | cs => some (⟨hour, minute, second, 0⟩, cs)

def offset? (cs : List Char) : Option Offset :=
  match cs with
  | ['Z'] | ['z'] => some .utc
  | c :: rest =>
    if c = '+' ∨ c = '-' then do
      let (hour, rest) ← fixedDigits? 2 rest
      let (minute, rest) ← fixedDigits? 2 (← expect? ':' rest)
      if rest.isEmpty ∧ hour ≤ 23 ∧ minute ≤ 59 then
        let n : Int := (60 * hour + minute : Nat)
        some (.minutes (if c = '-' then -n else n))
      else none
    else none
  | [] => none

/-- A time with the offset after it, if there is one, that make up all of a text. -/
def timeAndOffset? (cs : List Char) : Option (Time × Option Offset) := do
  let (time, rest) ← time? cs
  if rest.isEmpty then some (time, none) else (offset? rest).map fun o => (time, some o)

def datetime? (cs : List Char) : Option Datetime :=
  match date? cs with
  | some (date, []) => some ⟨some date, none, none⟩
  | some (date, c :: rest) =>
    if c = 'T' ∨ c = 't' then
      (timeAndOffset? rest).map fun (time, offset) => ⟨some date, some time, offset⟩
    else none
  | none =>
    match time? cs with
    | some (time, []) => some ⟨none, some time, none⟩
    | _ => none

/-- A date, a time of day or both, which may also stand with a space between them. -/
def spacedDatetime? (cs : List Char) : Option Datetime :=
  match date? cs with
  | some (date, ' ' :: rest) =>
    (timeAndOffset? rest).map fun (time, offset) => ⟨some date, some time, offset⟩
  | _ => datetime? cs

def scalarOf? (cs : List Char) : Option Value :=
  if cs = ['t', 'r', 'u', 'e'] then some (.boolean true)
  else if cs = ['f', 'a', 'l', 's', 'e'] then some (.boolean false)
  else
    (((datetime? cs).map .datetime).or ((number? cs).map .float)).or
      (((integer? cs).map .integer).or ((specialNumber? cs).map .float))

/-- An unquoted value and the rest. A time may follow its date after a space. -/
def scalar? (cs : List Char) : Option (Value × List Char) :=
  let word := cs.takeWhile isScalarChar
  let rest := cs.dropWhile isScalarChar
  let alone := (scalarOf? word).map (·, rest)
  match date? word, rest with
  | some (date, []), ' ' :: more =>
    match timeAndOffset? (more.takeWhile isScalarChar) with
    | some (time, offset) =>
      some (.datetime ⟨some date, some time, offset⟩, more.dropWhile isScalarChar)
    | none => alone
  | _, _ => alone

end AbbrevSite.Toml
