import AbbrevSite.Text.CharClass
import AbbrevSite.Text.Document

/-! Finding the abbreviation that ends at a position: the longest run of abbreviation characters before
it on its line. -/
namespace AbbrevSite.Abbreviation

/-- An abbreviation and where it stands. -/
structure Extracted where
  text : String
  span : Span
deriving DecidableEq, Repr

/-- The signs that may stand in an abbreviation beside letters and numbers. -/
def signs : List Char :=
  ['!', '#', '$', '%', '(', ')', '*', '+', '-', '.', '/', ':', '=', '@', '[', ']', '^', '_', '{',
    '}', '|', '>']

def isAbbreviationChar (c : Char) : Bool := CharClass.isAlphanumeric c || signs.contains c

def isOpening (c : Char) : Bool := c == '[' || c == '{' || c == '('

def isClosing (c : Char) : Bool := c == ']' || c == '}' || c == ')'

/-- The longest run of abbreviation characters at the end of a text. -/
def lastRun (before : List Char) : List Char :=
  (before.reverse.takeWhile isAbbreviationChar).reverse

/-- What follows the first `>` of a run, or the run if it has none. -/
def afterTag (run : List Char) : List Char :=
  match run.dropWhile (· != '>') with
  | [] => run
  | _ :: rest => rest

/-- The end of the text before a position that may be an abbreviation. A run that continues a tag starts
after the end of the tag. -/
def tail (before : List Char) : List Char :=
  let run := lastRun before
  if (before.take (before.length - run.length)).getLast? = some '<' then afterTag run else run

/-- At most `n` closing brackets at the start of a text. -/
def closings : (n : Nat) → List Char → List Char
  | 0, _ => []
  | _, [] => []
  | n + 1, c :: rest => if isClosing c then c :: closings n rest else []

/-- The abbreviation that ends at a position. With `lookahead`, the brackets after the position that
close those open in the abbreviation belong to it. -/
def extract? (d : Document) (p : Position) (lookahead : Bool) : Option Extracted :=
  let line := (d.line p.line).toList
  let cursor := min p.column line.length
  let abbreviation := tail (line.take cursor)
  let pending := abbreviation.countP isOpening - abbreviation.countP isClosing
  let closing := if lookahead then closings pending (line.drop cursor) else []
  let text := abbreviation ++ closing
  if text.isEmpty then none
  else
    some ⟨String.ofList text,
      .between ⟨p.line, cursor - abbreviation.length⟩ ⟨p.line, cursor + closing.length⟩⟩

end AbbrevSite.Abbreviation
