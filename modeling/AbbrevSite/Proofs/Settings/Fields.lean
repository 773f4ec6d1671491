import AbbrevSite.Proofs.Toml.Tables
import AbbrevSite.Settings.Decode

/-! The settings of a file one by one: each is read from the member of its section that has its key or its place, and is
standard where there is none. -/
namespace AbbrevSite

open Toml (Table Value)

def Taken {α : Type} (member : Option Value) (read : Value → Option α) (absent now : α) : Prop :=
  match member with
  | some v => read v = some now
  | none => now = absent

namespace Toml.Value

variable {α : Type} {v : Value} {place : Nat} {key : String} {absent now : α} {read : Value → Option α}

lemma memberOr_eq_some_iff :
    v.memberOr place key absent read = some now ↔ Taken (v.member? place key) read absent now := by
  unfold memberOr Taken
  cases v.member? place key with
  | some m => rfl
  | none => exact ⟨fun h => (Option.some.inj h).symm, fun h => congrArg some h.symm⟩

lemma ascending_of_stringEntries? {t : Table String} (h : v.stringEntries? = some t) : t.Ascending := by
  obtain ⟨entries, -, h⟩ := Option.bind_eq_some_iff.1 h
  obtain ⟨read, -, rfl⟩ := Option.map_eq_some_iff.1 h
  exact Table.ascending_sorted read

lemma ascending_of_valueEntries? {t : Table Value} (h : v.valueEntries? = some t) : t.Ascending := by
  obtain ⟨entries, -, h⟩ := Option.bind_eq_some_iff.1 h
  obtain ⟨settled, -, rfl⟩ := Option.map_eq_some_iff.1 h
  exact Table.ascending_sorted settled

end Toml.Value

def readPath? (v : Value) : Option (Option String) := v.string?.map some

/-- A behaviour as the members of a section say it. -/
structure Behaviour.ReadFrom (member : Nat → String → Option Value) (b : Behaviour) : Prop where
  includeLanguages : Taken (member 0 "IncludeLanguages") Value.stringEntries? standard.includeLanguages b.includeLanguages
  excludeLanguages : Taken (member 1 "ExcludeLanguages") Value.strings? standard.excludeLanguages b.excludeLanguages
  showExpanded : Taken (member 2 "ShowExpandedAbbreviation") ShowExpanded.ofValue? standard.showExpanded b.showExpanded
  showSuggestions :
    Taken (member 3 "ShowAbbreviationSuggestions") Value.boolean? standard.showSuggestions b.showSuggestions
  showAsSnippets : Taken (member 4 "ShowSuggestionsAsSnippets") Value.boolean? standard.showAsSnippets b.showAsSnippets
  optimizeParsing :
    Taken (member 5 "OptimizeStylesheetParsing") Value.boolean? standard.optimizeParsing b.optimizeParsing
  profiles : Taken (member 6 "SyntaxProfiles") Value.valueEntries? standard.profiles b.profiles
  preferences : Taken (member 7 "Preferences") Value.valueEntries? standard.preferences b.preferences
  snippetVariables : Taken (member 8 "Variables") Value.valueEntries? standard.snippetVariables b.snippetVariables
  extensionsPath : Taken (member 9 "ExtensionsPath") readPath? standard.extensionsPath b.extensionsPath

/-- Limits as the members of a section say them. -/
structure Limits.ReadFrom (member : Nat → String → Option Value) (l : Limits) : Prop where
  partialParseLines :
    Taken (member 0 "PartialParseLineThreshold") Value.natural? standard.partialParseLines l.partialParseLines
  lookbackLines : Taken (member 1 "MaxLookbackLines") Value.natural? standard.lookbackLines l.lookbackLines
  lookbackChars : Taken (member 2 "MaxLookbackChars") Value.natural? standard.lookbackChars l.lookbackChars
  backtrackChars : Taken (member 3 "MaxBacktrackChars") Value.natural? standard.backtrackChars l.backtrackChars

lemma Behaviour.readFrom_standard : standard.ReadFrom fun _ _ => none := ⟨rfl, rfl, rfl, rfl, rfl, rfl, rfl, rfl, rfl, rfl⟩

lemma Limits.readFrom_standard : standard.ReadFrom fun _ _ => none := ⟨rfl, rfl, rfl, rfl⟩

lemma Behaviour.ofValue?_eq_some_iff {v : Value} {b : Behaviour} :
    ofValue? v = some b ↔ v.isRecord = true ∧ b.ReadFrom v.member? := by
  rw [ofValue?]
  split_ifs with hv
  · simp only [Option.bind_eq_bind, Option.bind_eq_some_iff, Value.memberOr_eq_some_iff, hv, true_and]
    constructor
    · rintro ⟨_, h0, _, h1, _, h2, _, h3, _, h4, _, h5, _, h6, _, h7, _, h8, _, h9, hb⟩
      cases hb
      exact ⟨h0, h1, h2, h3, h4, h5, h6, h7, h8, h9⟩
    · rintro ⟨h0, h1, h2, h3, h4, h5, h6, h7, h8, h9⟩
      exact ⟨_, h0, _, h1, _, h2, _, h3, _, h4, _, h5, _, h6, _, h7, _, h8, _, h9, rfl⟩
  · simp [hv]

lemma Limits.ofValue?_eq_some_iff {v : Value} {l : Limits} :
    ofValue? v = some l ↔ v.isRecord = true ∧ l.ReadFrom v.member? := by
  rw [ofValue?]
  split_ifs with hv
  · simp only [Option.bind_eq_bind, Option.bind_eq_some_iff, Value.memberOr_eq_some_iff, hv, true_and]
    constructor
    · rintro ⟨_, h0, _, h1, _, h2, _, h3, hl⟩
      cases hl
      exact ⟨h0, h1, h2, h3⟩
    · rintro ⟨h0, h1, h2, h3⟩
      exact ⟨_, h0, _, h1, _, h2, _, h3, rfl⟩
  · simp [hv]

namespace Settings

/-- What a file gives for a setting: the member of a section with the key of the setting, or with its place if the
section is an array. -/
def given (root : Table Value) (title : String) (place : Nat) (key : String) : Option Value :=
  (Table.get? root title).bind fun v => v.member? place key

variable {format : Toml.Format} {root : Table Value} {s : Settings} {text : String}

lemma ofTable?_eq_some_iff : ofTable? root = some s ↔
    Taken (Table.get? root "emmet") Behaviour.ofValue? .standard s.behaviour ∧
      Taken (Table.get? root "limits") Limits.ofValue? .standard s.limits := by
  have hmember : ∀ place key, (Value.table root).member? place key = Table.get? root key := fun _ _ => rfl
  rw [ofTable?]
  simp only [Option.bind_eq_bind, Option.bind_eq_some_iff, Value.memberOr_eq_some_iff, hmember]
  constructor
  · rintro ⟨_, hb, _, hl, hs⟩
    cases hs
    exact ⟨hb, hl⟩
  · rintro ⟨hb, hl⟩
    exact ⟨_, hb, _, hl, rfl⟩

lemma of_section {β : Type} {P : (Nat → String → Option Value) → β → Prop} {title : String}
    {read : Value → Option β} {absent now : β} (h : Taken (Table.get? root title) read absent now)
    (hread : ∀ v, read v = some now → P v.member? now) (habsent : P (fun _ _ => none) absent) :
    P (given root title) now := by
  unfold given
  cases hsection : Table.get? root title with
  | some v =>
    rw [hsection] at h
    exact hread v h
  | none =>
    rw [hsection] at h
    exact h ▸ habsent

lemma readFrom_of_ofTable? (h : ofTable? root = some s) :
    s.behaviour.ReadFrom (given root "emmet") ∧ s.limits.ReadFrom (given root "limits") := by
  obtain ⟨hb, hl⟩ := ofTable?_eq_some_iff.1 h
  exact ⟨of_section (P := fun member b => Behaviour.ReadFrom member b) hb
      (fun _ hv => (Behaviour.ofValue?_eq_some_iff.1 hv).2) Behaviour.readFrom_standard,
    of_section (P := fun member l => Limits.ReadFrom member l) hl
      (fun _ hv => (Limits.ofValue?_eq_some_iff.1 hv).2) Limits.readFrom_standard⟩

lemma parseWith_eq_ok_iff :
    parseWith format text = .ok s ↔ ∃ root, format.read? text = some root ∧ ofTable? root = some s := by
  rw [← Option.bind_eq_some_iff, parseWith]
  cases (format.read? text).bind ofTable? <;> simp

end Settings
end AbbrevSite
