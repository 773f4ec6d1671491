import AbbrevSite.Proofs.Abbreviation.Grove
import AbbrevSite.Proofs.Markup.Elements
import Mathlib

/-! What is written for a grove is read as the elements of the grove: each element on a line of its own, with the
lines of those in it between its tags. -/
namespace AbbrevSite.Abbreviation

open Markup

namespace Tag

/-- The id and the classes as they stand in the opening tag. -/
def sourceAttributes (t : Tag) : List SourceAttribute :=
  (t.id.map fun id => ⟨"id".toList, some id.toList⟩).toList ++
    if t.classes.isEmpty then [] else [⟨"class".toList, some (String.intercalate " " t.classes).toList⟩]

/-- An element of a name, with an id and classes that can stand in quotes, and nothing else. -/
structure Plain (t : Tag) : Prop where
  name : IsName t.name.toList
  notRaw : ¬ IsRaw t.name.toList
  noAttributes : t.attributes = []
  noText : t.text = none
  wellFormed : ∀ a ∈ t.sourceAttributes, a.WellFormed
  noReturn : ∀ a ∈ t.sourceAttributes, '\r' ∉ a.print

lemma isVoid_iff {t : Tag} : t.isVoid = true ↔ IsVoid t.name.toList := by
  simp [isVoid, IsVoid]

end Tag

namespace Grove

/-- A grove of plain elements, of which the void ones hold nothing. -/
def Plain : Grove → Prop
  | nil => True
  | cons tag inner next => tag.Plain ∧ (tag.isVoid = true → inner = nil) ∧ inner.Plain ∧ next.Plain

def elements : Grove → Elements
  | nil => .nil
  | cons tag inner next =>
    .cons tag.name (tag.sourceAttributes.map SourceAttribute.pair) (!tag.isVoid) inner.elements next.elements

end Grove

namespace Draft

variable {d d' d'' : Draft} {E F : Elements} {cs : List Char}

def Adds (d d' : Draft) (cs : List Char) : Prop := d'.text.toList = d.text.toList ++ cs

lemma adds_add (d : Draft) (s : String) : d.Adds (d.add s) s.toList := String.toList_append

lemma Adds.trans {ds : List Char} (h : d.Adds d' cs) (h' : d'.Adds d'' ds) : d.Adds d'' (cs ++ ds) := by
  unfold Adds at *
  rw [h', h, List.append_assoc]

def placeText (n : Nat) : List Char := '$' :: '{' :: (Nat.toDigits 10 n ++ ['}'])

lemma adds_addPlace (d : Draft) : d.Adds d.addPlace (placeText (d.places + 1)) := by
  unfold Adds addPlace placeText
  simp only [String.toList_append, List.append_assoc, Nat.toString_eq_repr, Nat.toList_repr]
  rfl

lemma readsAs_placeText (n : Nat) : ReadsAs (placeText n) .nil := by
  have hdigits {c : Char} (hc : c.isDigit = false) : c ∉ Nat.toDigits 10 n := by
    intro hmem
    rw [Nat.isDigit_of_mem_toDigits (by omega) (by omega) hmem] at hc
    cases hc
  apply ReadsAs.text
  · simp [placeText, hdigits]
  · simp [placeText, hdigits]

lemma adds_addAttribute (d : Draft) (name value : String) :
    d.Adds (d.addAttribute name (some value)) (SourceAttribute.print ⟨name.toList, some value.toList⟩) := by
  unfold Adds addAttribute add SourceAttribute.print SourceAttribute.printValue
  simp [String.toList_append]

lemma openOnto_eq (t : Tag) (dialect : Dialect) (depth : Nat) (d : Draft) : t.openOnto dialect depth d =
    let opened := d.add (indentation depth ++ "<" ++ t.name)
    let named := t.id.elim opened fun id => opened.addAttribute "id" (some id)
    let classed := if t.classes.isEmpty then named
      else named.addAttribute (if dialect = .jsx then "className" else "class")
        (some (String.intercalate " " t.classes))
    t.attributes.foldl (fun d a => d.addAttribute a.1 a.2) classed := by
  unfold Tag.openOnto
  cases t.id <;> rfl

lemma openOnto_html {t : Tag} (ht : t.attributes = []) (depth : Nat) (d : Draft) : t.openOnto .html depth d =
    let opened := d.add (indentation depth ++ "<" ++ t.name)
    let named := t.id.elim opened fun id => opened.addAttribute "id" (some id)
    if t.classes.isEmpty then named else named.addAttribute "class" (some (String.intercalate " " t.classes)) := by
  rw [openOnto_eq, ht]
  rfl

/-- An opening tag up to its end, behind its indentation. -/
lemma adds_openOnto {t : Tag} (ht : t.attributes = []) (depth : Nat) (d : Draft) :
    d.Adds (t.openOnto .html depth d)
      (List.replicate depth '\t' ++ openTagWith t.name.toList t.sourceAttributes []) := by
  have hname : d.Adds (d.add (indentation depth ++ "<" ++ t.name))
      (List.replicate depth '\t' ++ '<' :: t.name.toList) := by
    unfold Adds add indentation
    simp
  have hid (d : Draft) : d.Adds (t.id.elim d fun id => d.addAttribute "id" (some id))
      ((t.id.map fun id => (⟨"id".toList, some id.toList⟩ : SourceAttribute)).toList.flatMap
        SourceAttribute.print) := by
    cases t.id with
    | none => exact (List.append_nil _).symm
    | some id =>
      simp only [Option.map_some, Option.toList_some, List.flatMap_cons, List.flatMap_nil, List.append_nil]
      exact adds_addAttribute d "id" id
  have hclasses (d : Draft) : d.Adds
      (if t.classes.isEmpty then d else d.addAttribute "class" (some (String.intercalate " " t.classes)))
      ((if t.classes.isEmpty then [] else
        [(⟨"class".toList, some (String.intercalate " " t.classes).toList⟩ : SourceAttribute)]).flatMap
          SourceAttribute.print) := by
    split_ifs
    · exact (List.append_nil _).symm
    · simp only [List.flatMap_cons, List.flatMap_nil, List.append_nil]
      exact adds_addAttribute d "class" _
  have hopen := (hname.trans (hid _)).trans (hclasses _)
  rw [List.append_assoc, List.append_assoc, List.cons_append, ← List.flatMap_append] at hopen
  unfold openTagWith
  rw [openOnto_html ht, List.append_nil]
  exact hopen

/-- Lines that have been added to a draft, read as a row of elements. -/
def AddsLines (d d' : Draft) (E : Elements) : Prop :=
  ∃ cs, d.Adds d' (cs ++ ['\n']) ∧ ReadsAs cs E ∧ cs.getLast? = some '>'

lemma AddsLines.trans (h : d.AddsLines d' E) (h' : d'.AddsLines d'' F) : d.AddsLines d'' (E ++ F) := by
  obtain ⟨cs, hcs, hE, -⟩ := h
  obtain ⟨ds, hds, hF, hlast⟩ := h'
  refine ⟨cs ++ (['\n'] ++ ds), ?_, hE.append ((ReadsAs.text (by decide) (by decide)).append hF), ?_⟩
  · simpa using hcs.trans hds
  · rw [List.getLast?_append, List.getLast?_append, hlast]
    rfl

section Element

variable {t : Tag} {depth : Nat} {name ending : List Char} {attributes : List SourceAttribute} {slash : Bool}

lemma readsAs_tabs (depth : Nat) : ReadsAs (List.replicate depth '\t') .nil :=
  .text (by simp) (by simp)

lemma openTagWith_append (ds : List Char) :
    openTagWith name attributes ending ++ ds = openTagWith name attributes (ending ++ ds) := by
  simp [openTagWith]

lemma getLast?_openTagWith (he : TagEnding ending slash) :
    (openTagWith name attributes ending).getLast? = some '>' := by
  have hlast : ending.getLast? = some '>' := by cases he <;> rfl
  have hsplit : openTagWith name attributes ending =
      ('<' :: (name ++ attributes.flatMap SourceAttribute.print)) ++ ending := by
    simp [openTagWith]
  rw [hsplit, List.getLast?_append, hlast]
  rfl

lemma getLast?_closeTag : (closeTag name).getLast? = some '>' := by
  have hsplit : closeTag name = ('<' :: '/' :: name) ++ ['>'] := rfl
  rw [hsplit, List.getLast?_append]
  rfl

lemma exists_tagEnding_selfClosing (style : Option String) : ∃ slash, TagEnding (selfClosing style).toList slash := by
  unfold selfClosing
  split
  · exact ⟨true, .slash⟩
  · exact ⟨true, .spaced⟩
  · exact ⟨false, .plain⟩

lemma addsLines_void (ht : t.Plain) (hvoid : t.isVoid = true) (style : Option String) (depth : Nat) (d : Draft) :
    d.AddsLines ((t.openOnto .html depth d).add (selfClosing style ++ "\n"))
      (.cons t.name (t.sourceAttributes.map SourceAttribute.pair) false .nil .nil) := by
  obtain ⟨slash, he⟩ := exists_tagEnding_selfClosing style
  have hreads := ReadsAs.empty ht.name ht.wellFormed ht.noReturn he (.inr (Tag.isVoid_iff.1 hvoid))
  rw [String.ofList_toList] at hreads
  refine ⟨_, ?_, (readsAs_tabs depth).append hreads, ?_⟩
  · have hadds := (adds_openOnto ht.noAttributes depth d).trans (adds_add _ (selfClosing style ++ "\n"))
    rwa [String.toList_append, List.append_assoc, ← List.append_assoc (openTagWith _ _ _), openTagWith_append,
      ← List.append_assoc] at hadds
  · rw [List.getLast?_append, getLast?_openTagWith he]
    rfl

lemma addsLines_element (ht : t.Plain) (hvoid : t.isVoid = false) {d₁ d₂ : Draft} (hE : ReadsAs cs E)
    (hcontent : ((t.openOnto .html depth d).add ">").Adds d₁ cs)
    (hclose : d₁.Adds d₂ (closeTag t.name.toList ++ ['\n'])) :
    d.AddsLines d₂ (.cons t.name (t.sourceAttributes.map SourceAttribute.pair) true E .nil) := by
  have hnot : ¬ IsVoid t.name.toList := by
    rw [← Tag.isVoid_iff, hvoid]
    exact Bool.false_ne_true
  have hreads := ReadsAs.element ht.name ht.wellFormed ht.noReturn hnot ht.notRaw hE
  rw [String.ofList_toList] at hreads
  refine ⟨_, ?_, (readsAs_tabs depth).append hreads, ?_⟩
  · have hbracket : openTagWith t.name.toList t.sourceAttributes [] ++ ">".toList =
        openTag t.name.toList t.sourceAttributes false := by
      simp [openTagWith, openTag, tagEnd]
    have hopen := (adds_openOnto ht.noAttributes depth d).trans (adds_add _ ">")
    rw [List.append_assoc, hbracket] at hopen
    simpa only [List.append_assoc] using (hopen.trans hcontent).trans hclose
  · rw [List.getLast?_append, List.getLast?_append, List.getLast?_append, getLast?_closeTag]
    rfl

end Element

end Draft

/-- What is written for a grove of plain elements is read as these. -/
theorem Grove.addsLines_writeOnto {g : Grove} (hg : g.Plain) (hne : g ≠ nil) (style : Option String) (depth : Nat)
    (d : Draft) : d.AddsLines (g.writeOnto .html style depth d) g.elements := by
  induction g generalizing depth d with
  | nil => exact absurd rfl hne
  | cons tag inner next ih ih' =>
    obtain ⟨htag, hempty, hinner, hnext⟩ := hg
    obtain ⟨d', hwrite, hfirst⟩ : ∃ d', (cons tag inner next).writeOnto .html style depth d =
        next.writeOnto .html style depth d' ∧ d.AddsLines d'
          (.cons tag.name (tag.sourceAttributes.map SourceAttribute.pair) (!tag.isVoid) inner.elements .nil) := by
      cases inner with
      | nil =>
        refine ⟨_, by rw [writeOnto], ?_⟩
        simp only [htag.noText, Option.isNone_none, Bool.and_true]
        cases hvoid : tag.isVoid with
        | true => exact Draft.addsLines_void htag hvoid style depth d
        | false =>
          rw [if_neg Bool.false_ne_true]
          have hplace := ((tag.openOnto .html depth d).add ">").adds_addPlace
          have hclose := ((tag.openOnto .html depth d).add ">").addPlace.adds_add ("</" ++ tag.name ++ ">\n")
          exact Draft.addsLines_element htag hvoid (Draft.readsAs_placeText _) hplace (by simpa [closeTag] using hclose)
      | cons t i n =>
        refine ⟨_, by rw [writeOnto], ?_⟩
        have hvoid : tag.isVoid = false := by
          rw [Bool.eq_false_iff]
          intro h
          cases hempty h
        rw [hvoid]
        have hline := ((tag.openOnto .html depth d).add ">").adds_add (tag.text.getD "" ++ "\n")
        generalize ((tag.openOnto .html depth d).add ">").add (tag.text.getD "" ++ "\n") = d₁ at *
        obtain ⟨cs, hcs, hreads, -⟩ := ih hinner (by simp) (depth + 1) d₁
        generalize (cons t i n).writeOnto .html style (depth + 1) d₁ = d₂ at *
        have hcontent := (hline.trans hcs).trans (d₂.adds_add (indentation depth))
        have hclose : (d₂.add (indentation depth)).Adds (d₂.add (indentation depth ++ "</" ++ tag.name ++ ">\n"))
            (closeTag tag.name.toList ++ ['\n']) := by
          simp [Draft.Adds, Draft.add, closeTag]
        refine Draft.addsLines_element htag hvoid ?_ hcontent hclose
        have hbreak : ReadsAs ['\n'] .nil := .text (by decide) (by decide)
        have hinside := (hbreak.append (hreads.append (hbreak.append (Draft.readsAs_tabs depth))))
        simpa [htag.noText, indentation] using hinside
    rw [hwrite]
    cases next with
    | nil => exact hfirst
    | cons t i n => exact hfirst.trans (ih' hnext (by simp) depth d')

end AbbrevSite.Abbreviation
