import AbbrevSite.Failure
import AbbrevSite.Settings.Basic
import AbbrevSite.Toml.Format

/-! Settings from a settings file. What a file leaves out is as in the standard settings, and keys
without a meaning are passed over. -/
namespace AbbrevSite

open Toml (Table Value)

namespace Toml.Value

/-- The key that tells a date from a table: a date that is taken for a table has it as its only key, and
a table that has it as its first key is taken for a date. -/
def dateKey : String := "$__toml_private_datetime"

def entries? : Value → Option (Table Value)
  | table entries => some entries
  | datetime d => some [(dateKey, string d.render)]
  | _ => none

/-- Whether a value can stand for a record: a table by its keys, an array by its places. -/
def isRecord : Value → Bool
  | array _ => true
  | v => v.entries?.isSome

def member? (v : Value) (place : Nat) (key : String) : Option Value :=
  match v with
  | array items => items[place]?
  | v => v.entries?.bind fun t => t.get? key

/-- A member as `read` reads it, or what it is when the record lacks it. -/
def memberOr {α : Type} (v : Value) (place : Nat) (key : String) (absent : α)
    (read : Value → Option α) : Option α :=
  match v.member? place key with
  | some m => read m
  | none => some absent

def boolean? : Value → Option Bool
  | boolean b => some b
  | _ => none

def natural? : Value → Option Nat
  | integer (.ofNat n) => some n
  | _ => none

def strings? : Value → Option (List String)
  | array items => items.mapM string?
  | _ => none

def stringEntries? (v : Value) : Option (Table String) :=
  v.entries?.bind fun t =>
    (t.mapM fun ((key, v) : String × Value) => v.string?.map fun s => (key, s)).map Table.sorted

mutual

/-- A value of any kind, as settings hold it: tables in the order of their keys, and dates for the tables
taken for one. None if such a table holds no date. -/
def settled? : Value → Option Value
  | array items => (settledItems? items).map array
  | table entries =>
    match entries with
    | [] => some (table [])
    | (key, v) :: rest =>
      if key = dateKey then
        (v.string?.bind fun s => Toml.spacedDatetime? s.toList).map datetime
      else do
        let v ← settled? v
        let rest ← settledEntries? rest
        some (table (Table.sorted ((key, v) :: rest)))
  | v => some v

def settledItems? : List Value → Option (List Value)
  | [] => some []
  | v :: rest => do
    let v ← settled? v
    let rest ← settledItems? rest
    some (v :: rest)

def settledEntries? : List (String × Value) → Option (List (String × Value))
  | [] => some []
  | (key, v) :: rest => do
    let v ← settled? v
    let rest ← settledEntries? rest
    some ((key, v) :: rest)

end

def valueEntries? (v : Value) : Option (Table Value) :=
  v.entries?.bind fun t => (settledEntries? t).map Table.sorted

def isEmptyCollection : Value → Bool
  | array [] | table [] => true
  | _ => false

end Toml.Value

/-- A choice is a string, or a table with the choice as its only key and nothing under it. -/
def ShowExpanded.ofValue? : Value → Option ShowExpanded
  | .string s => ofName? s
  | .table [(key, v)] => if v.isEmptyCollection then ofName? key else none
  | _ => none

def Behaviour.ofValue? (v : Value) : Option Behaviour :=
  if v.isRecord then do
    let d := standard
    some {
      includeLanguages := ← v.memberOr 0 "IncludeLanguages" d.includeLanguages (·.stringEntries?)
      excludeLanguages := ← v.memberOr 1 "ExcludeLanguages" d.excludeLanguages (·.strings?)
      showExpanded := ← v.memberOr 2 "ShowExpandedAbbreviation" d.showExpanded ShowExpanded.ofValue?
      showSuggestions := ← v.memberOr 3 "ShowAbbreviationSuggestions" d.showSuggestions (·.boolean?)
      showAsSnippets := ← v.memberOr 4 "ShowSuggestionsAsSnippets" d.showAsSnippets (·.boolean?)
      optimizeParsing := ← v.memberOr 5 "OptimizeStylesheetParsing" d.optimizeParsing (·.boolean?)
      profiles := ← v.memberOr 6 "SyntaxProfiles" d.profiles (·.valueEntries?)
      preferences := ← v.memberOr 7 "Preferences" d.preferences (·.valueEntries?)
      snippetVariables := ← v.memberOr 8 "Variables" d.snippetVariables (·.valueEntries?)
      extensionsPath :=
        ← v.memberOr 9 "ExtensionsPath" d.extensionsPath fun m => m.string?.map some }
  else none

def Limits.ofValue? (v : Value) : Option Limits :=
  if v.isRecord then do
    let d := standard
    some {
      partialParseLines :=
        ← v.memberOr 0 "PartialParseLineThreshold" d.partialParseLines (·.natural?)
      lookbackLines := ← v.memberOr 1 "MaxLookbackLines" d.lookbackLines (·.natural?)
      lookbackChars := ← v.memberOr 2 "MaxLookbackChars" d.lookbackChars (·.natural?)
      backtrackChars := ← v.memberOr 3 "MaxBacktrackChars" d.backtrackChars (·.natural?) }
  else none

def Settings.ofTable? (t : Table Value) : Option Settings := do
  let root := Value.table t
  some {
    behaviour := ← root.memberOr 0 "emmet" .standard Behaviour.ofValue?
    limits := ← root.memberOr 1 "limits" .standard Limits.ofValue? }

def Settings.parseWith (format : Toml.Format) (text : String) : Except Failure Settings :=
  match (format.read? text).bind ofTable? with
  | some s => .ok s
  | none => .error (.settings "not a settings file")

def Settings.parse (text : String) : Except Failure Settings := parseWith .plain text

end AbbrevSite
