import AbbrevSite.Dialect
import AbbrevSite.Text.CharClass

/-! Language modes: which editor languages abbreviations are offered in, which characters trigger an
offer there, and which dialect a language is written in. -/
namespace AbbrevSite.Modes

def digits : List Char := ['0', '1', '2', '3', '4', '5', '6', '7', '8', '9']

def markupTriggers : List Char := ['!', '.', '}', ':', '*', '$', ']'] ++ digits

def xmlTriggers : List Char := ['.', '}', '*', '$', ']'] ++ digits

def jsxTriggers : List Char := ['!', '.', '}', '*', '$', ']'] ++ digits

def sheetTriggers : List Char := [':', '-'] ++ digits

def indentedSheetTriggers : List Char := ':' :: digits

/-- The languages with offers, each with its trigger characters. -/
def all : List (String × List Char) :=
  [("html", markupTriggers), ("jade", markupTriggers), ("slim", markupTriggers),
    ("haml", markupTriggers), ("xml", xmlTriggers), ("xsl", jsxTriggers), ("css", sheetTriggers),
    ("scss", sheetTriggers), ("sass", indentedSheetTriggers), ("less", sheetTriggers),
    ("stylus", indentedSheetTriggers), ("javascriptreact", jsxTriggers),
    ("typescriptreact", jsxTriggers)]

def triggers? (language : String) : Option (List Char) := all.lookup language

def isMode (language : String) : Bool := (triggers? language).isSome

/-- Languages treated as another one unless the settings say otherwise. -/
def included : List (String × String) := [("handlebars", "html"), ("php", "html")]

def isWordChar (c : Char) : Bool := CharClass.isAlphanumeric c || c == '_' || c == '-'

/-- The words of a text: the pieces between characters that belong to no word. -/
def words (cs : List Char) : List (List Char) :=
  cs.foldr
    (fun c ws =>
      if isWordChar c then
        match ws with
        | [] => [[c]]
        | w :: rest => (c :: w) :: rest
      else [] :: ws)
    [[]]

/-- The words that make a language one of script files with markup in them. -/
def jsxWords : List (List Char) :=
  ["typescriptreact".toList, "javascriptreact".toList, "jsx-tags".toList]

/-- The dialect of a language. None for no language, an excluded one and one without offers. -/
def dialect? (language : String) (excluded : List String) : Option Dialect :=
  if language = "" ∨ excluded.contains language then none
  else if (words language.toList).any (jsxWords.contains ·) then some .jsx
  else match language with
    | "sass-indented" => some .sass
    | "jade" => some .pug
    | "wxss" => none
    | other => Dialect.ofName? other

end AbbrevSite.Modes
