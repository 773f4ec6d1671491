import AbbrevSite.Settings.Limits
import AbbrevSite.Settings.Modes
import AbbrevSite.Toml.Value

/-! The settings: where abbreviations are offered, what the expansion of one is told, and the bounds
on looking around. -/
namespace AbbrevSite

open Toml (Table Value)

/-- When expanded abbreviations are offered. -/
inductive ShowExpanded where
  | always | never | inMarkupAndStylesheetFilesOnly
deriving DecidableEq, Repr

namespace ShowExpanded

def name : ShowExpanded → String
  | always => "always"
  | never => "never"
  | inMarkupAndStylesheetFilesOnly => "inMarkupAndStylesheetFilesOnly"

def ofName? (s : String) : Option ShowExpanded :=
  [always, never, inMarkupAndStylesheetFilesOnly].find? fun x => x.name == s

theorem ofName?_name (x : ShowExpanded) : ofName? x.name = some x := by cases x <;> decide

end ShowExpanded

/-- What the user can switch. -/
structure Behaviour where
  /-- Languages to be treated as another one. -/
  includeLanguages : Table String
  /-- Languages without offers. -/
  excludeLanguages : List String
  showExpanded : ShowExpanded
  showSuggestions : Bool
  /-- Whether offers are marked as snippets. -/
  showAsSnippets : Bool
  /-- Whether only a region of a large stylesheet is read. -/
  optimizeParsing : Bool
  /-- Output profiles by dialect. -/
  profiles : Table Value
  preferences : Table Value
  /-- Values for the variables of snippets. -/
  snippetVariables : Table Value
  /-- The directory of the user's own snippets. -/
  extensionsPath : Option String

def Behaviour.standard : Behaviour where
  includeLanguages := []
  excludeLanguages := ["markdown"]
  showExpanded := .always
  showSuggestions := true
  showAsSnippets := false
  optimizeParsing := true
  profiles := []
  preferences := []
  snippetVariables := []
  extensionsPath := none

/-- The behaviour with another laid over it: the maps are extended, an extensions path stays unless there
is another, and everything else is taken from the other. -/
def Behaviour.merge (b other : Behaviour) : Behaviour where
  includeLanguages := b.includeLanguages.extend other.includeLanguages
  excludeLanguages := other.excludeLanguages
  showExpanded := other.showExpanded
  showSuggestions := other.showSuggestions
  showAsSnippets := other.showAsSnippets
  optimizeParsing := other.optimizeParsing
  profiles := b.profiles.extend other.profiles
  preferences := b.preferences.extend other.preferences
  snippetVariables := b.snippetVariables.extend other.snippetVariables
  extensionsPath := other.extensionsPath.or b.extensionsPath

structure Settings where
  behaviour : Behaviour
  limits : Limits

def Settings.standard : Settings := ⟨.standard, .standard⟩

/-- The settings with others laid over them; the limits are those of the others. -/
def Settings.merge (s other : Settings) : Settings :=
  ⟨s.behaviour.merge other.behaviour, other.limits⟩

def Settings.isStandard (s : Settings) : Bool :=
  let b := s.behaviour
  b.includeLanguages.isEmpty && b.excludeLanguages == Behaviour.standard.excludeLanguages
    && b.showExpanded == .always && b.showSuggestions && !b.showAsSnippets && b.optimizeParsing
    && b.profiles.isEmpty && b.preferences.isEmpty && b.snippetVariables.isEmpty
    && b.extensionsPath.isNone && s.limits == .standard

namespace Behaviour

def isExcluded (b : Behaviour) (language : String) : Bool := b.excludeLanguages.contains language

def languageMapping (b : Behaviour) : Table String :=
  (Table.extend Modes.included b.includeLanguages).filter fun e => Modes.isMode e.2

def dialectOf? (b : Behaviour) (language : String) : Option Dialect :=
  Modes.dialect? ((b.languageMapping.get? language).getD language) b.excludeLanguages

/-- The dialect of a language, else that of the language around it. An excluded language has none. -/
def dialectWithin? (b : Behaviour) (language : String) (parent : Option String) : Option Dialect :=
  if b.isExcluded language then none
  else (b.dialectOf? language).or (parent.bind b.dialectOf?)

end Behaviour

/-- What the expansion of an abbreviation is told. -/
structure ExpandOptions where
  preferences : Table Value
  showExpanded : ShowExpanded
  showSuggestions : Bool
  profiles : Table Value
  snippetVariables : Table Value
  excludeLanguages : List String
  showAsSnippets : Bool

/-- How the profile of a dialect wants an element without content closed. -/
def ExpandOptions.selfClosingStyle? (o : ExpandOptions) (d : Dialect) : Option String :=
  ((o.profiles.get? d.name).bind (·.get? "selfClosingStyle")).bind (·.string?)

/-- The dialects whose elements close themselves as in XML unless the profile says otherwise. -/
def Dialect.closesAsXml : Dialect → Bool
  | jsx | xml | xsl => true
  | _ => false

/-- A profile that says how elements close themselves: as in XML unless it says so itself. -/
def closingAsXml : Value → Value
  | .table entries =>
    if Table.contains entries "self_closing_tag" || Table.contains entries "selfClosingStyle" then
      .table entries
    else .table (Table.set entries "selfClosingStyle" (.string "xml"))
  | v => v

def Behaviour.expandOptions (b : Behaviour) (d : Dialect) : ExpandOptions where
  preferences := b.preferences
  showExpanded := b.showExpanded
  showSuggestions := b.showSuggestions
  profiles :=
    if d.closesAsXml then
      b.profiles.set d.name (closingAsXml ((b.profiles.get? d.name).getD (.table [])))
    else b.profiles
  snippetVariables := b.snippetVariables
  excludeLanguages := b.excludeLanguages
  showAsSnippets := b.showAsSnippets

end AbbrevSite
