import AbbrevSite.Abbreviation.Element
import AbbrevSite.Markup.Element
import AbbrevSite.Proofs.Markup.Source
import Mathlib

/-! Abbreviations to be written out: levels of elements with a name, an id, classes and a number of repetitions. The
levels are read back from what is written for them. -/
namespace AbbrevSite.Abbreviation

def isPlainChar (c : Char) : Bool := CharClass.isAsciiLetter c || CharClass.isAsciiDigit c || c == '-' || c == '_'

/-- An element to be written, with the digits of its number of repetitions. -/
structure SourceElement where
  name : List Char
  id : Option (List Char)
  classes : List (List Char)
  digits : Option (List Char)
deriving DecidableEq, Repr

namespace SourceElement

def print (e : SourceElement) : List Char :=
  e.name ++ (e.id.elim [] ('#' :: ·) ++ (e.classes.flatMap ('.' :: ·) ++ e.digits.elim [] ('*' :: ·)))

def element (e : SourceElement) : Element :=
  ⟨e.name, e.id, e.classes, [], none, e.digits.elim 0 (Digits.value 10)⟩

/-- A name of letters, which only an element with an id or a class can do without, words, and at least one digit. -/
structure WellFormed (e : SourceElement) : Prop where
  name : ∀ c ∈ e.name, CharClass.isAsciiLetter c = true
  notRaw : ¬ Markup.IsRaw e.name
  named : e.name ≠ [] ∨ e.id ≠ none ∨ e.classes ≠ []
  id : ∀ w ∈ e.id, ∀ c ∈ w, isPlainChar c = true
  classes : ∀ w ∈ e.classes, ∀ c ∈ w, isPlainChar c = true
  digits : ∀ ds ∈ e.digits, ds ≠ [] ∧ ∀ c ∈ ds, CharClass.isAsciiDigit c = true

instance : DecidablePred WellFormed := fun e =>
  decidable_of_iff (e.name.all CharClass.isAsciiLetter = true ∧ ¬ Markup.IsRaw e.name ∧
      (e.name ≠ [] ∨ e.id ≠ none ∨ e.classes ≠ []) ∧ (∀ w ∈ e.id, w.all isPlainChar = true) ∧
      (∀ w ∈ e.classes, w.all isPlainChar = true) ∧ ∀ ds ∈ e.digits, ds ≠ [] ∧ ds.all CharClass.isAsciiDigit = true)
    (by
      simp only [List.all_eq_true]
      exact ⟨fun ⟨hname, hraw, hnamed, hid, hclasses, hdigits⟩ => ⟨hname, hraw, hnamed, hid, hclasses, hdigits⟩,
        fun h => ⟨h.name, h.notRaw, h.named, h.id, h.classes, h.digits⟩⟩)

end SourceElement

def printLevels (levels : List (List SourceElement)) : List Char :=
  ['>'].intercalate (levels.map fun level => ['+'].intercalate (level.map SourceElement.print))

/-- At least one level, and in each level at least one element. Only the last level may end in a void element. -/
structure WellFormedLevels (levels : List (List SourceElement)) : Prop where
  ne_nil : levels ≠ []
  level : ∀ level ∈ levels, level ≠ []
  element : ∀ level ∈ levels, ∀ e ∈ level, e.WellFormed
  holds : ∀ level ∈ levels.dropLast, ∀ e ∈ level.getLast?, ¬ Markup.IsVoid e.name

instance : DecidablePred WellFormedLevels := fun levels =>
  decidable_of_iff (levels ≠ [] ∧ (∀ level ∈ levels, level ≠ []) ∧
      (∀ level ∈ levels, ∀ e ∈ level, e.WellFormed) ∧
      ∀ level ∈ levels.dropLast, ∀ e ∈ level.getLast?, ¬ Markup.IsVoid e.name)
    ⟨fun ⟨hne, hlevel, helement, hholds⟩ => ⟨hne, hlevel, helement, hholds⟩,
      fun h => ⟨h.ne_nil, h.level, h.element, h.holds⟩⟩

section Split

variable {separator : Char} {cs w ds : List Char}

def isBracket (c : Char) : Bool := c == '[' || c == '{' || c == ']' || c == '}'

lemma splitTop_eq_splitOn (h : ∀ c ∈ cs, isBracket c = false) : splitTop separator 0 cs = cs.splitOn separator := by
  induction cs with
  | nil => rfl
  | cons c cs ih =>
    obtain ⟨hc, hcs⟩ := List.forall_mem_cons.1 h
    simp only [isBracket, Bool.or_eq_false_iff, beq_eq_false_iff_ne] at hc
    have hopen : ¬ (c = '[' ∨ c = '{') := by tauto
    have hclose : ¬ (c = ']' ∨ c = '}') := by tauto
    unfold splitTop
    dsimp only
    rw [if_neg hopen, if_neg hclose, ih hcs, List.splitOn_cons_eq_if_modifyHead]
    by_cases hseparator : c = separator
    · rw [if_pos ⟨hseparator, rfl⟩, if_pos (beq_iff_eq.2 hseparator)]
    · rw [if_neg fun hand => hseparator hand.1, if_neg (by simpa using hseparator)]
      obtain ⟨piece, pieces, hpieces⟩ := List.exists_cons_of_ne_nil (List.splitOn_ne_nil separator cs)
      rw [hpieces, List.modifyHead_cons]

lemma mem_intercalate {c : Char} {pieces : List (List Char)} (h : c ∈ [separator].intercalate pieces) :
    c = separator ∨ ∃ piece ∈ pieces, c ∈ piece := by
  induction pieces with
  | nil => cases h
  | cons piece pieces ih =>
    cases pieces with
    | nil => exact .inr ⟨piece, List.mem_cons_self, by simpa using h⟩
    | cons piece' pieces =>
      rw [List.intercalate_cons_cons, List.mem_append, List.mem_append, List.mem_singleton] at h
      rcases h with (h | h) | h
      · exact .inr ⟨piece, List.mem_cons_self, h⟩
      · exact .inl h
      · exact (ih h).imp_right fun ⟨p, hp, hc⟩ => ⟨p, List.mem_cons_of_mem _ hp, hc⟩

def PlainWith (signs cs : List Char) : Prop := ∀ c ∈ cs, isPlainChar c = true ∨ c ∈ signs

namespace PlainWith

variable {signs : List Char} {pieces : List (List Char)}

lemma notMem {c : Char} (h : PlainWith signs cs) (hc : isPlainChar c = false) (hsign : c ∉ signs) : c ∉ cs := by
  intro hmem
  rcases h c hmem with hplain | hmem
  · rw [hc] at hplain
    cases hplain
  · exact hsign hmem

lemma not_isBracket (h : PlainWith signs cs) (hsigns : signs.any isBracket = false) (c : Char)
    (hc : c ∈ cs) : isBracket c = false := by
  rcases h c hc with hplain | hmem
  · rw [Bool.eq_false_iff]
    intro hbracket
    simp only [isBracket, Bool.or_eq_true, beq_iff_eq] at hbracket
    rcases hbracket with ((rfl | rfl) | rfl) | rfl <;> exact absurd hplain (by decide)
  · exact Bool.eq_false_iff.2 (List.any_eq_false.1 hsigns c hmem)

lemma intercalate (h : ∀ piece ∈ pieces, PlainWith signs piece) :
    PlainWith (separator :: signs) ([separator].intercalate pieces) := by
  intro c hc
  rcases mem_intercalate hc with rfl | ⟨piece, hpiece, hmem⟩
  · exact .inr List.mem_cons_self
  · exact (h piece hpiece c hmem).imp_right (List.mem_cons_of_mem _)

lemma splitTop_intercalate (h : ∀ piece ∈ pieces, PlainWith signs piece) (hne : pieces ≠ [])
    (hbrackets : (separator :: signs).any isBracket = false) (hplain : isPlainChar separator = false)
    (hsign : separator ∉ signs) : splitTop separator 0 ([separator].intercalate pieces) = pieces := by
  rw [splitTop_eq_splitOn ((intercalate h).not_isBracket hbrackets),
    List.splitOn_intercalate separator (fun piece hpiece => (h piece hpiece).notMem hplain hsign) hne]

end PlainWith

lemma mapM_map_eq_some {α β γ : Type} {f : β → Option γ} {g : α → β} {r : α → γ} {xs : List α}
    (h : ∀ x ∈ xs, f (g x) = some (r x)) : (xs.map g).mapM f = some (xs.map r) := by
  induction xs with
  | nil => rfl
  | cons x xs ih =>
    rw [List.map_cons, List.mapM_cons, h x List.mem_cons_self, ih fun y hy => h y (List.mem_cons_of_mem _ hy)]
    rfl

lemma takeWhile_dropWhile_word {p : Char → Bool} (hw : ∀ c ∈ w, p c = true) (hds : ∀ c ∈ ds.head?, p c = false) :
    (w ++ ds).takeWhile p = w ∧ (w ++ ds).dropWhile p = ds := by
  rw [List.takeWhile_append_of_pos hw, List.dropWhile_append_of_pos hw]
  cases ds with
  | nil => exact ⟨List.append_nil w, rfl⟩
  | cons c ds =>
    have hc : ¬ p c = true := Bool.eq_false_iff.1 (hds c rfl)
    rw [List.takeWhile_cons_of_neg hc, List.dropWhile_cons_of_neg hc, List.append_nil]
    exact ⟨rfl, rfl⟩

end Split

section Characters

variable {c : Char}

lemma isAlphabetic_of_isAsciiLetter (h : CharClass.isAsciiLetter c = true) : CharClass.isAlphabetic c = true := by
  have hascii : CharClass.isAscii c = true := by
    simp only [CharClass.isAsciiLetter, Bool.or_eq_true, Bool.and_eq_true, decide_eq_true_eq, Char.le_def,
      UInt32.le_iff_toNat_le] at h
    simp only [CharClass.isAscii, decide_eq_true_eq]
    have ha : 'a'.val.toNat = 97 := rfl
    have hz : 'z'.val.toNat = 122 := rfl
    have hA : 'A'.val.toNat = 65 := rfl
    have hZ : 'Z'.val.toNat = 90 := rfl
    have hn : c.toNat = c.val.toNat := rfl
    omega
  rwa [CharClass.isAlphabetic, if_pos hascii]

lemma isNumber_of_isAsciiDigit (h : CharClass.isAsciiDigit c = true) : CharClass.isNumber c = true := by
  have hascii : CharClass.isAscii c = true := by
    simp only [CharClass.isAsciiDigit, Bool.and_eq_true, decide_eq_true_eq, Char.le_def, UInt32.le_iff_toNat_le] at h
    simp only [CharClass.isAscii, decide_eq_true_eq]
    have h9 : '9'.val.toNat = 57 := rfl
    have hn : c.toNat = c.val.toNat := rfl
    omega
  rwa [CharClass.isNumber, if_pos hascii]

lemma isPlainChar_of_isAsciiLetter (h : CharClass.isAsciiLetter c = true) : isPlainChar c = true := by
  simp [isPlainChar, h]

lemma isPlainChar_of_isAsciiDigit (h : CharClass.isAsciiDigit c = true) : isPlainChar c = true := by
  simp [isPlainChar, h]

lemma isWordChar_of_isPlainChar (h : isPlainChar c = true) : isWordChar c = true := by
  simp only [isPlainChar, Bool.or_eq_true] at h
  simp only [isWordChar, CharClass.isAlphanumeric, Bool.or_eq_true]
  rcases h with ((h | h) | h) | h
  · simp [isAlphabetic_of_isAsciiLetter h]
  · simp [isNumber_of_isAsciiDigit h]
  · simp [h]
  · simp [h]

end Characters

section Element

variable {e : SourceElement} {x : Element} {w ds cs : List Char} {c : Char}

def EndsWord (cs : List Char) : Prop := ∀ c ∈ cs.head?, isWordChar c = false

lemma endsWord_nil : EndsWord [] := nofun

lemma endsWord_cons (hc : isWordChar c = false) : EndsWord (c :: cs) := by
  intro c' h
  cases h
  exact hc

lemma endsWord_elim {part : Option (List Char)} (hc : isWordChar c = false) (hds : EndsWord ds) :
    EndsWord (part.elim [] (c :: ·) ++ ds) := by
  cases part with
  | none => exact hds
  | some w => exact endsWord_cons hc

lemma endsWord_flatMap {parts : List (List Char)} (hc : isWordChar c = false) (hds : EndsWord ds) :
    EndsWord (parts.flatMap (c :: ·) ++ ds) := by
  cases parts with
  | nil => exact hds
  | cons w parts => exact endsWord_cons hc

lemma takeWhile_dropWhile_plain (hw : ∀ c ∈ w, isPlainChar c = true) (hds : EndsWord ds) :
    (w ++ ds).takeWhile isWordChar = w ∧ (w ++ ds).dropWhile isWordChar = ds :=
  takeWhile_dropWhile_word (fun c hc => isWordChar_of_isPlainChar (hw c hc)) hds

lemma suffixes?_id {id : Option (List Char)} (hid : ∀ w ∈ id, ∀ c ∈ w, isPlainChar c = true) (hx : x.id = none)
    (hds : EndsWord ds) : suffixes? x (id.elim [] ('#' :: ·) ++ ds) = suffixes? { x with id } ds := by
  cases id with
  | none =>
    rw [Option.elim_none, List.nil_append, ← hx]
  | some w =>
    obtain ⟨htake, hdrop⟩ := takeWhile_dropWhile_plain (hid w rfl) hds
    rw [Option.elim_some, List.cons_append, suffixes?, htake, hdrop]

lemma suffixes?_classes {classes : List (List Char)} (hclasses : ∀ w ∈ classes, ∀ c ∈ w, isPlainChar c = true)
    (hds : EndsWord ds) : suffixes? x (classes.flatMap ('.' :: ·) ++ ds) =
      suffixes? { x with classes := classes.reverse ++ x.classes } ds := by
  induction classes generalizing x with
  | nil => rfl
  | cons w classes ih =>
    obtain ⟨hw, hrest⟩ := List.forall_mem_cons.1 hclasses
    have hends : EndsWord (classes.flatMap ('.' :: ·) ++ ds) := endsWord_flatMap rfl hds
    obtain ⟨htake, hdrop⟩ := takeWhile_dropWhile_plain hw hends
    rw [List.flatMap_cons, List.append_assoc, List.cons_append, suffixes?, htake, hdrop, ih hrest,
      List.reverse_cons, List.append_assoc]
    rfl

lemma countOf?_digits (hne : ds ≠ []) (h : Digits.value 10 ds < 2 ^ 64) : countOf? ds = some (Digits.value 10 ds) := by
  rw [countOf?, if_neg (by simpa using hne)]
  exact if_pos h

lemma suffixes?_digits {digits : Option (List Char)}
    (hdigits : ∀ ds ∈ digits, ds ≠ [] ∧ ∀ c ∈ ds, CharClass.isAsciiDigit c = true)
    (hcount : digits.elim 0 (Digits.value 10) < 2 ^ 64) (hx : x.count = 0) :
    suffixes? x (digits.elim [] ('*' :: ·)) = some { x with
      classes := x.classes.reverse, attributes := x.attributes.reverse, count := digits.elim 0 (Digits.value 10) } := by
  cases digits with
  | none => rw [Option.elim_none, Option.elim_none, suffixes?, ← hx]
  | some ds =>
    obtain ⟨hne, hds⟩ := hdigits ds rfl
    have hnil : ∀ c ∈ ([] : List Char).head?, CharClass.isAsciiDigit c = false := by simp
    obtain ⟨htake, hdrop⟩ := takeWhile_dropWhile_word hds hnil
    rw [List.append_nil] at htake hdrop
    rw [Option.elim_some, suffixes?, htake, hdrop, countOf?_digits hne hcount]
    dsimp only
    rw [suffixes?]
    rfl

namespace SourceElement

/-- An element is read back from what is written for it. -/
theorem WellFormed.element?_print (h : e.WellFormed) (hcount : e.element.count < 2 ^ 64) :
    element? e.print = some e.element := by
  have hdigits : EndsWord (e.digits.elim [] ('*' :: ·)) := by
    have hends : EndsWord (e.digits.elim [] ('*' :: ·) ++ []) := endsWord_elim rfl endsWord_nil
    rwa [List.append_nil] at hends
  have hclasses : EndsWord (e.classes.flatMap ('.' :: ·) ++ e.digits.elim [] ('*' :: ·)) := endsWord_flatMap rfl hdigits
  have hid : EndsWord (e.id.elim [] ('#' :: ·) ++ (e.classes.flatMap ('.' :: ·) ++ e.digits.elim [] ('*' :: ·))) :=
    endsWord_elim rfl hclasses
  obtain ⟨htake, hdrop⟩ := takeWhile_dropWhile_plain (fun c hc => isPlainChar_of_isAsciiLetter (h.name c hc)) hid
  have hread : suffixes? (.named e.name) (e.id.elim [] ('#' :: ·) ++ (e.classes.flatMap ('.' :: ·) ++
      e.digits.elim [] ('*' :: ·))) = some e.element := by
    rw [suffixes?_id h.id rfl hclasses, suffixes?_classes h.classes hdigits, suffixes?_digits h.digits hcount rfl]
    simp [Element.named, element]
  have hempty : e.element.isEmpty = false := by
    rcases h.named with h | h | h <;> simp [Element.isEmpty, element, h]
  rw [element?, print, htake, hdrop, hread, Option.bind_eq_bind, Option.bind_some, hempty]
  rfl

lemma WellFormed.plainWith_print (h : e.WellFormed) : PlainWith ['#', '.', '*'] e.print := by
  intro c hc
  simp only [print, List.mem_append] at hc
  rcases hc with hc | hc | hc | hc
  · exact .inl (isPlainChar_of_isAsciiLetter (h.name c hc))
  · cases hid : e.id with
    | none => simp [hid] at hc
    | some w =>
      rw [hid, Option.elim_some, List.mem_cons] at hc
      rcases hc with rfl | hmem
      · exact .inr (by decide)
      · exact .inl (h.id w hid c hmem)
  · obtain ⟨w, hw, hmem⟩ := List.mem_flatMap.1 hc
    rcases List.mem_cons.1 hmem with rfl | hmem
    · exact .inr (by decide)
    · exact .inl (h.classes w hw c hmem)
  · cases hdigits : e.digits with
    | none => simp [hdigits] at hc
    | some ds =>
      rw [hdigits, Option.elim_some, List.mem_cons] at hc
      rcases hc with rfl | hmem
      · exact .inr (by decide)
      · exact .inl (isPlainChar_of_isAsciiDigit ((h.digits ds hdigits).2 c hmem))

end SourceElement

end Element

section Levels

variable {levels : List (List SourceElement)}

lemma plainWith_elements {level : List SourceElement} (h : ∀ e ∈ level, e.WellFormed) :
    ∀ piece ∈ level.map SourceElement.print, PlainWith ['#', '.', '*'] piece := by
  intro piece hpiece
  obtain ⟨e, he, rfl⟩ := List.mem_map.1 hpiece
  exact (h e he).plainWith_print

namespace WellFormedLevels

lemma plainWith_levels (h : WellFormedLevels levels) :
    ∀ piece ∈ levels.map fun level => ['+'].intercalate (level.map SourceElement.print),
      PlainWith ['+', '#', '.', '*'] piece := by
  intro piece hpiece
  obtain ⟨level, hlevel, rfl⟩ := List.mem_map.1 hpiece
  exact .intercalate (plainWith_elements (h.element level hlevel))

lemma plainWith_printLevels (h : WellFormedLevels levels) :
    PlainWith ['>', '+', '#', '.', '*'] (printLevels levels) := .intercalate h.plainWith_levels

/-- The levels are read back from what is written for them. -/
theorem levels?_printLevels (h : WellFormedLevels levels)
    (hcount : ∀ level ∈ levels, ∀ e ∈ level, e.element.count < 2 ^ 64) :
    levels? (printLevels levels) = some (levels.map (·.map SourceElement.element)) := by
  have hlevel (level : List SourceElement) (hmem : level ∈ levels) :
      (splitTop '+' 0 (['+'].intercalate (level.map SourceElement.print))).mapM element? =
        some (level.map SourceElement.element) := by
    have hne : level.map SourceElement.print ≠ [] := by simpa using h.level level hmem
    have hsplit : splitTop '+' 0 (['+'].intercalate (level.map SourceElement.print)) = _ :=
      PlainWith.splitTop_intercalate (plainWith_elements (h.element level hmem)) hne rfl rfl (by decide)
    rw [hsplit]
    exact mapM_map_eq_some fun e he => (h.element level hmem e he).element?_print (hcount level hmem e he)
  have hne : (levels.map fun level => ['+'].intercalate (level.map SourceElement.print)) ≠ [] := by
    simpa using h.ne_nil
  have hsplit : splitTop '>' 0 (printLevels levels) = _ :=
    PlainWith.splitTop_intercalate h.plainWith_levels hne rfl rfl (by decide)
  rw [levels?, hsplit]
  exact mapM_map_eq_some hlevel

end WellFormedLevels

end Levels

end AbbrevSite.Abbreviation
