import AbbrevSite.Settings.Basic

/-! Expanding stylesheet abbreviations: a property with a value, a colour or the important mark. -/
namespace AbbrevSite.Abbreviation.Sheet

def properties : List (String × String) :=
  [("m", "margin"), ("mt", "margin-top"), ("mr", "margin-right"), ("mb", "margin-bottom"),
    ("ml", "margin-left"), ("p", "padding"), ("pt", "padding-top"), ("pr", "padding-right"),
    ("pb", "padding-bottom"), ("pl", "padding-left"), ("w", "width"), ("h", "height"),
    ("maw", "max-width"), ("mah", "max-height"), ("c", "color"), ("bg", "background"),
    ("bgc", "background-color"), ("d", "display"), ("pos", "position"), ("t", "top"),
    ("r", "right"), ("b", "bottom"), ("l", "left"), ("z", "z-index"), ("fz", "font-size"),
    ("fw", "font-weight"), ("ff", "font-family"), ("lh", "line-height"), ("ta", "text-align"),
    ("bd", "border"), ("bdrs", "border-radius"), ("op", "opacity"), ("ov", "overflow"),
    ("cur", "cursor"), ("fl", "float")]

def keywords : List (String × String) :=
  [("n", "none"), ("b", "block"), ("i", "inline"), ("ib", "inline-block"), ("f", "flex"),
    ("g", "grid"), ("a", "auto"), ("h", "hidden"), ("s", "static"), ("r", "relative"),
    ("abs", "absolute"), ("fx", "fixed"), ("c", "center"), ("l", "left"), ("p", "pointer")]

def preference (o : ExpandOptions) (key standard : String) : String :=
  ((o.preferences.get? key).bind (·.string?)).getD standard

/-- The number at the start of a text and what follows it: a sign, digits, and digits after a point. A
number ends in a digit. -/
def number? (cs : List Char) : Option (List Char × List Char) :=
  let (sign, rest) := match cs with
    | '-' :: rest => (['-'], rest)
    | rest => ([], rest)
  let whole := rest.takeWhile CharClass.isDecimalDigit
  match rest.dropWhile CharClass.isDecimalDigit with
  | '.' :: rest' =>
    let fraction := rest'.takeWhile CharClass.isDecimalDigit
    if fraction.isEmpty then none
    else some (sign ++ whole ++ '.' :: fraction, rest'.dropWhile CharClass.isDecimalDigit)
  | rest' => if whole.isEmpty then none else some (sign ++ whole, rest')

/-- The unit a number gets from the letters after it. -/
def unit (o : ExpandOptions) (number letters : List Char) : String :=
  match letters with
  | [] =>
    if number = ['0'] then ""
    else if number.contains '.' then preference o "css.floatUnit" "em"
    else preference o "css.intUnit" "px"
  | ['p'] => "%"
  | ['e'] => "em"
  | ['x'] => "ex"
  | ['r'] => "rem"
  | letters => String.ofList letters

def isUnitChar (c : Char) : Bool := CharClass.isAsciiLetter c || c == '%'

/-- The colour of hexadecimal digits: no digit means black, one or two repeat. -/
def colour? (digits : List Char) : Option String :=
  if digits.all CharClass.isHexDigit then
    match digits with
    | [] => some "#000"
    | [a] => some (String.ofList ['#', a, a, a, a, a, a])
    | [a, b] => some (String.ofList ['#', a, b, a, b, a, b])
    | digits => some (String.ofList ('#' :: digits))
  else none

/-- The declaration of a name and a value with a colon between them. -/
def pair? (terminator : String) (name value : String) : Option String :=
  if name.isEmpty then none
  else
    some ((properties.lookup name).getD name ++ ": " ++ (keywords.lookup value).getD value
      ++ terminator)

/-- The declaration of a short name with a number and a unit, or with a place for a value. -/
def measure? (o : ExpandOptions) (terminator : String) (cs : List Char) : Option String := do
  let name := cs.takeWhile CharClass.isAsciiLetter
  let rest := cs.dropWhile CharClass.isAsciiLetter
  let property ← properties.lookup (String.ofList name)
  match rest with
  | [] => some (property ++ ": $\x7b1\x7d" ++ terminator)
  | rest =>
    let (number, letters) ← number? rest
    guard (letters.all isUnitChar)
    some (property ++ ": " ++ String.ofList number ++ unit o number letters ++ terminator)

def expand? (abbreviation : String) (dialect : Dialect) (o : ExpandOptions) : Option String :=
  let terminator := if dialect.hasTerminators then ";" else ""
  let cs := abbreviation.toList
  match cs with
  | ['!'] => some "!important"
  | '#' :: digits => colour? digits
  | cs =>
    match cs.dropWhile (· != ':') with
    | _ :: value => pair? terminator (String.ofList (cs.takeWhile (· != ':'))) (String.ofList value)
    | [] => measure? o terminator cs

end AbbrevSite.Abbreviation.Sheet
