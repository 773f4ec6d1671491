import AbbrevSite.Dialect
import AbbrevSite.Text.CharClass

/-! Which texts are worth expanding as abbreviations. -/
namespace AbbrevSite.Abbreviation

def startsSheet (c : Char) : Bool := CharClass.isAsciiLetter c || c == '!' || c == '@' || c == '#'

def startsMarkup (c : Char) : Bool :=
  CharClass.isAsciiLetter c || ['!', '(', '[', '#', '.', '{'].contains c

def markupSigns : List Char :=
  ['!', '#', '$', '%', '(', ')', '*', '+', '-', '.', '/', ':', '=', '@', '[', ']', '^', '_', '{',
    '}', '|', '>']

def isMarkupChar (c : Char) : Bool :=
  CharClass.isAsciiLetter c || CharClass.isAsciiDigit c || markupSigns.contains c

def isValidSheet : List Char → Bool
  | [] => false
  | '-' :: c :: _ => startsSheet c
  | c :: _ => startsSheet c

/-- Bangs stand alone. Parentheses without an operator are prose, not a group. -/
def isValidMarkup (cs : List Char) : Bool :=
  if cs.head? = some '!' then cs.all (· == '!')
  else if cs.any (fun c => c == '(' || c == ')')
      && !cs.any (fun c => ['>', '+', '*', '^'].contains c) then false
  else cs.head?.any startsMarkup && cs.all isMarkupChar

def isValid (dialect : Dialect) (abbreviation : String) : Bool :=
  if dialect.isStylesheet then isValidSheet abbreviation.toList
  else isValidMarkup abbreviation.toList

end AbbrevSite.Abbreviation
