import AbbrevSite.Failure
import AbbrevSite.Settings.Basic
import AbbrevSite.Toml.Format

/-! Settings as a settings file. -/
namespace AbbrevSite

open Toml (Table Value)

def Behaviour.entries (b : Behaviour) : List (String × Value) :=
  [("IncludeLanguages", .table (b.includeLanguages.map fun e => (e.1, .string e.2))),
    ("ExcludeLanguages", .array (b.excludeLanguages.map .string)),
    ("ShowExpandedAbbreviation", .string b.showExpanded.name),
    ("ShowAbbreviationSuggestions", .boolean b.showSuggestions),
    ("ShowSuggestionsAsSnippets", .boolean b.showAsSnippets),
    ("OptimizeStylesheetParsing", .boolean b.optimizeParsing),
    ("SyntaxProfiles", .table b.profiles),
    ("Preferences", .table b.preferences),
    ("Variables", .table b.snippetVariables)]
    ++ (b.extensionsPath.map fun path => ("ExtensionsPath", Value.string path)).toList

def Limits.entries (l : Limits) : List (String × Value) :=
  [("PartialParseLineThreshold", .integer l.partialParseLines),
    ("MaxLookbackLines", .integer l.lookbackLines),
    ("MaxLookbackChars", .integer l.lookbackChars),
    ("MaxBacktrackChars", .integer l.backtrackChars)]

def Settings.table (s : Settings) : Table Value :=
  [("emmet", .table s.behaviour.entries), ("limits", .table s.limits.entries)]

/-- The text of the settings in a format, or why there is none. -/
def Settings.print (format : Toml.Format) (s : Settings) : Except Failure String :=
  match format.write? s.table with
  | some text => .ok text
  | none => .error (.settings "cannot be written")

/-- The text of the settings in a settings file. -/
def Settings.text (s : Settings) : String := Toml.write s.table

@[simp] theorem Settings.print_plain (s : Settings) : s.print .plain = .ok s.text := rfl

/-- The text of the file a user starts from: the standard settings, every key spelled out. -/
def Settings.template : String := "\n".intercalate
  ["[emmet]",
    "IncludeLanguages           = \x7b\x7d",
    "ExcludeLanguages           = [\"markdown\"]",
    "ShowExpandedAbbreviation   = \"always\"",
    "ShowAbbreviationSuggestions = true",
    "ShowSuggestionsAsSnippets  = false",
    "OptimizeStylesheetParsing  = true",
    "SyntaxProfiles             = \x7b\x7d",
    "Preferences                = \x7b\x7d",
    "Variables                  = \x7b\x7d",
    "",
    "[limits]",
    "PartialParseLineThreshold = 1000",
    "MaxLookbackLines          = 100",
    "MaxLookbackChars          = 5000",
    "MaxBacktrackChars         = 500",
    ""]

end AbbrevSite
