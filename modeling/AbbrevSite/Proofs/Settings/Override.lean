import AbbrevSite.Proofs.Settings.Fields
import AbbrevSite.Proofs.Toml.Values

/-! Settings with an override laid over them. The override has been filled up with the standard settings before, so that
what it does not give is not kept but standard again, the maps and the extensions path apart. -/
namespace AbbrevSite

open Toml (Table Value)

/-- A map after an override: the keys that the override gives have its values, all others are kept. -/
def Extended {α : Type} (member : Option Value) (read : Value → Option (Table α)) (base now : Table α) : Prop :=
  match member with
  | some v => ∃ t, read v = some t ∧ ∀ key, now.get? key = (t.get? key).or (base.get? key)
  | none => now = base

namespace Settings

/-- The settings `now` are those of `base` after an override was laid over them. A setting that the override does not give
is as in `otherwise`; a map keeps the keys, and the extensions path stays, that the override does not give. -/
structure Overridden (root : Table Value) (base otherwise now : Settings) : Prop where
  includeLanguages : Extended (given root "emmet" 0 "IncludeLanguages") Value.stringEntries?
    base.behaviour.includeLanguages now.behaviour.includeLanguages
  excludeLanguages : Taken (given root "emmet" 1 "ExcludeLanguages") Value.strings?
    otherwise.behaviour.excludeLanguages now.behaviour.excludeLanguages
  showExpanded : Taken (given root "emmet" 2 "ShowExpandedAbbreviation") ShowExpanded.ofValue?
    otherwise.behaviour.showExpanded now.behaviour.showExpanded
  showSuggestions : Taken (given root "emmet" 3 "ShowAbbreviationSuggestions") Value.boolean?
    otherwise.behaviour.showSuggestions now.behaviour.showSuggestions
  showAsSnippets : Taken (given root "emmet" 4 "ShowSuggestionsAsSnippets") Value.boolean?
    otherwise.behaviour.showAsSnippets now.behaviour.showAsSnippets
  optimizeParsing : Taken (given root "emmet" 5 "OptimizeStylesheetParsing") Value.boolean?
    otherwise.behaviour.optimizeParsing now.behaviour.optimizeParsing
  profiles : Extended (given root "emmet" 6 "SyntaxProfiles") Value.valueEntries?
    base.behaviour.profiles now.behaviour.profiles
  preferences : Extended (given root "emmet" 7 "Preferences") Value.valueEntries?
    base.behaviour.preferences now.behaviour.preferences
  snippetVariables : Extended (given root "emmet" 8 "Variables") Value.valueEntries?
    base.behaviour.snippetVariables now.behaviour.snippetVariables
  extensionsPath : Taken (given root "emmet" 9 "ExtensionsPath") readPath?
    base.behaviour.extensionsPath now.behaviour.extensionsPath
  partialParseLines : Taken (given root "limits" 0 "PartialParseLineThreshold") Value.natural?
    otherwise.limits.partialParseLines now.limits.partialParseLines
  lookbackLines : Taken (given root "limits" 1 "MaxLookbackLines") Value.natural?
    otherwise.limits.lookbackLines now.limits.lookbackLines
  lookbackChars : Taken (given root "limits" 2 "MaxLookbackChars") Value.natural?
    otherwise.limits.lookbackChars now.limits.lookbackChars
  backtrackChars : Taken (given root "limits" 3 "MaxBacktrackChars") Value.natural?
    otherwise.limits.backtrackChars now.limits.backtrackChars

/-- The settings with all but the maps and the extensions path standard again. -/
def reset (s : Settings) : Settings where
  behaviour := { Behaviour.standard with
    includeLanguages := s.behaviour.includeLanguages
    profiles := s.behaviour.profiles
    preferences := s.behaviour.preferences
    snippetVariables := s.behaviour.snippetVariables
    extensionsPath := s.behaviour.extensionsPath }
  limits := .standard

section Merge

variable {α : Type} {format : Toml.Format} {member : Option Value} {root : Table Value} {base other now : Settings}
  {text : String}

lemma extended_of_taken {read : Value → Option (Table α)} (hread : ∀ v t, read v = some t → t.Ascending)
    {t : Table α} (h : Taken member read [] t) (base : Table α) : Extended member read base (base.extend t) := by
  cases member with
  | some v => exact ⟨t, h, fun key => Table.get?_extend base (hread v t h).distinct key⟩
  | none => exact h ▸ rfl

lemma taken_or {path : Option String} (h : Taken member readPath? none path) (base : Option String) :
    Taken member readPath? base (path.or base) := by
  cases member with
  | some v =>
    obtain ⟨s, hs, rfl⟩ := Option.map_eq_some_iff.1 h
    exact h
  | none => exact h ▸ rfl

lemma overridden_of_ofTable? (h : ofTable? root = some other) (base : Settings) :
    Overridden root base .standard (base.merge other) := by
  obtain ⟨hb, hl⟩ := readFrom_of_ofTable? h
  exact {
    includeLanguages := extended_of_taken (fun _ _ => Value.ascending_of_stringEntries?) hb.includeLanguages _
    excludeLanguages := hb.excludeLanguages
    showExpanded := hb.showExpanded
    showSuggestions := hb.showSuggestions
    showAsSnippets := hb.showAsSnippets
    optimizeParsing := hb.optimizeParsing
    profiles := extended_of_taken (fun _ _ => Value.ascending_of_valueEntries?) hb.profiles _
    preferences := extended_of_taken (fun _ _ => Value.ascending_of_valueEntries?) hb.preferences _
    snippetVariables := extended_of_taken (fun _ _ => Value.ascending_of_valueEntries?) hb.snippetVariables _
    extensionsPath := taken_or hb.extensionsPath _
    partialParseLines := hl.partialParseLines
    lookbackLines := hl.lookbackLines
    lookbackChars := hl.lookbackChars
    backtrackChars := hl.backtrackChars }

lemma Overridden.eq_reset (h : Overridden root base .standard now)
    (hroot : ∀ title place key, given root title place key = none) : now = base.reset := by
  obtain ⟨h0, h1, h2, h3, h4, h5, h6, h7, h8, h9, l0, l1, l2, l3⟩ := h
  simp only [hroot, Taken, Extended] at h0 h1 h2 h3 h4 h5 h6 h7 h8 h9 l0 l1 l2 l3
  obtain ⟨⟨_, _, _, _, _, _, _, _, _, _⟩, ⟨_, _, _, _⟩⟩ := now
  subst_vars
  rfl

/-- What becomes of settings when the text of an override is read and merged into them, whatever the reader. What the text
does not give is standard afterwards, apart from the keys of the maps and the extensions path, which are kept. A text that
gives nothing resets all the rest. -/
theorem overridden_merge (h : parseWith format text = .ok other) (base : Settings) :
    ∃ root, format.read? text = some root ∧ Overridden root base .standard (base.merge other) ∧
      ((∀ title place key, given root title place key = none) → base.merge other = base.reset) := by
  obtain ⟨root, hread, htable⟩ := parseWith_eq_ok_iff.1 h
  have hover := overridden_of_ofTable? htable base
  exact ⟨root, hread, hover, hover.eq_reset⟩

/-- An override with one setting, laid over settings of which none is standard. -/
theorem overridden_merge_never :
    let base : Settings := ⟨⟨[("vue", "html")], [], .inMarkupAndStylesheetFilesOnly, false, true, false, [], [], [],
      some "snippets"⟩, ⟨1, 2, 3, 4⟩⟩
    let other := { standard with behaviour := { Behaviour.standard with showExpanded := .never } }
    parseWith .plain "[emmet]\nShowExpandedAbbreviation = \"never\"\n" = .ok other ∧
      ∃ root, Toml.Format.plain.read? "[emmet]\nShowExpandedAbbreviation = \"never\"\n" = some root ∧
        Overridden root base .standard (base.merge other) ∧
        ((∀ title place key, given root title place key = none) → base.merge other = base.reset) := by
  intro base other
  have hparse : parseWith .plain "[emmet]\nShowExpandedAbbreviation = \"never\"\n" = .ok other :=
    parseWith_eq_ok_iff.2 ⟨[("emmet", .table [("ShowExpandedAbbreviation", .string "never")])], by decide +kernel, rfl⟩
  exact ⟨hparse, overridden_merge hparse base⟩

/-- Settings are not kept by an override that does not give them: the empty text undoes each of these. -/
theorem not_overridden_empty :
    let base : Settings := ⟨⟨[], [], .never, false, true, false, [], [], [], none⟩, ⟨1, 2, 3, 4⟩⟩
    let now := base.merge .standard
    Toml.Format.plain.read? "" = some [] ∧ parseWith .plain "" = .ok .standard ∧ ¬ Overridden [] base base now ∧ now ≠ base ∧
      now.behaviour.excludeLanguages ≠ base.behaviour.excludeLanguages ∧
      now.behaviour.showExpanded ≠ base.behaviour.showExpanded ∧
      now.behaviour.showSuggestions ≠ base.behaviour.showSuggestions ∧
      now.behaviour.showAsSnippets ≠ base.behaviour.showAsSnippets ∧
      now.behaviour.optimizeParsing ≠ base.behaviour.optimizeParsing ∧
      now.limits.partialParseLines ≠ base.limits.partialParseLines ∧
      now.limits.lookbackLines ≠ base.limits.lookbackLines ∧
      now.limits.lookbackChars ≠ base.limits.lookbackChars ∧
      now.limits.backtrackChars ≠ base.limits.backtrackChars := by
  intro base now
  have hread : Toml.Format.plain.read? "" = some [] := by decide +kernel
  have hshown : now.behaviour.showExpanded ≠ base.behaviour.showExpanded := by decide
  exact ⟨hread, parseWith_eq_ok_iff.2 ⟨[], hread, rfl⟩, fun h => hshown h.showExpanded,
    fun h => hshown (congrArg (fun s => s.behaviour.showExpanded) h), by decide, hshown, by decide, by decide, by decide,
    by decide, by decide, by decide, by decide⟩

end Merge

end Settings
end AbbrevSite
