import AbbrevSite.Completion
import AbbrevSite.Proofs.Abbreviation.Budget
import Mathlib.Data.List.DropRight
import Mathlib.Data.Option.Basic

/-! What expansions start with: those of markup abbreviations with the bracket of a tag, those of stylesheet
abbreviations neither with that nor with a numbered place. A preview starts as the expansion does, so the family of
an expansion can be told from its preview. -/
namespace AbbrevSite

lemma Family.ofExpansion?_eq_markup_iff {text : String} :
    Family.ofExpansion? text = some .markup ↔ text.toList.head? = some '<' := by
  unfold Family.ofExpansion?
  dsimp only
  split_ifs with hhead <;> simp [hhead]

namespace Abbreviation

variable {cs : List Char} {c : Char} {text snippet : String} {dialect : Dialect} {o : ExpandOptions}

lemma previewOnto_place {acc shown rest : List Char} (h : place? cs = some (shown, rest)) :
    previewOnto acc cs = previewOnto (shown.reverse ++ acc) rest := by
  rw [previewOnto]
  split
  · rename_i heq
    cases h.symm.trans heq
    rfl
  · rename_i heq
    cases h.symm.trans heq

lemma previewOnto_char {acc rest : List Char} (h : place? (c :: rest) = none) :
    previewOnto acc (c :: rest) = previewOnto (c :: acc) rest := by
  rw [previewOnto]
  split
  · rename_i heq
    cases h.symm.trans heq
  · rfl

lemma previewOnto_append (xs acc cs : List Char) :
    previewOnto (xs ++ acc) cs = acc.reverse ++ previewOnto xs cs := by
  fun_induction previewOnto xs cs with
  | case1 xs cs shown rest h ih => rw [previewOnto_place h, ← List.append_assoc, ih]
  | case2 xs h =>
    rw [previewOnto]
    simp [place?]
  | case3 xs c rest h ih => rw [previewOnto_char h, ← List.cons_append, ih]

lemma preview_head (h : snippet.toList.head? = some c) (hc : c ≠ '$') : (preview snippet).toList.head? = some c := by
  obtain ⟨rest, hrest⟩ := List.head?_eq_some_iff.1 h
  have hplace : place? (c :: rest) = none := by
    unfold place?
    split
    · rename_i heq
      exact absurd (List.cons.inj heq).1 hc
    · rfl
  rw [preview, String.toList_ofList, hrest, previewOnto_char hplace, ← List.nil_append [c], previewOnto_append]
  rfl

namespace Draft

def StartsWith (d : Draft) (cs : List Char) : Prop := cs <+: d.text.toList

variable {d : Draft}

namespace StartsWith

lemma add (h : d.StartsWith cs) (s : String) : (d.add s).StartsWith cs := by
  unfold StartsWith Draft.add
  rw [String.toList_append]
  exact h.trans (List.prefix_append _ _)

lemma addPlace (h : d.StartsWith cs) : d.addPlace.StartsWith cs := by
  unfold StartsWith Draft.addPlace
  simp only [String.toList_append, List.append_assoc]
  exact h.trans (List.prefix_append _ _)

lemma addAttribute (h : d.StartsWith cs) (name : String) (value : Option String) :
    (d.addAttribute name value).StartsWith cs := by
  cases value with
  | none => exact ((h.add _).addPlace).add _
  | some v => exact ((h.add _).add v).add _

lemma openOnto {t : Tag} {depth : Nat} (h : (d.add (indentation depth ++ "<" ++ t.name)).StartsWith cs) :
    (t.openOnto dialect depth d).StartsWith cs := by
  have hattributes (attributes : List (String × Option String)) {d : Draft} (h : d.StartsWith cs) :
      (attributes.foldl (fun d a => d.addAttribute a.1 a.2) d).StartsWith cs := by
    induction attributes generalizing d with
    | nil => exact h
    | cons a attributes ih => exact ih (h.addAttribute _ _)
  have hclasses {d : Draft} (h : d.StartsWith cs) (name : String) (value : Option String) :
      (if t.classes.isEmpty then d else d.addAttribute name value).StartsWith cs := by
    split_ifs
    · exact h
    · exact h.addAttribute _ _
  unfold Tag.openOnto
  refine hattributes _ (hclasses ?_ _ _)
  cases t.id with
  | none => exact h
  | some id => exact h.addAttribute _ _

lemma writeOnto_cons {tag : Tag} {inner next : Grove} {style : Option String} {depth : Nat}
    (hinner : ∀ {depth d}, d.StartsWith cs → (inner.writeOnto dialect style depth d).StartsWith cs)
    (hnext : ∀ {depth d}, d.StartsWith cs → (next.writeOnto dialect style depth d).StartsWith cs)
    (hopen : (tag.openOnto dialect depth d).StartsWith cs) :
    ((Grove.cons tag inner next).writeOnto dialect style depth d).StartsWith cs := by
  cases inner with
  | nil =>
    unfold Grove.writeOnto
    refine hnext ?_
    dsimp only
    split_ifs
    · exact hopen.add _
    · refine add ?_ _
      split
      · exact (hopen.add _).add _
      · exact (hopen.add _).addPlace
  | cons t i n =>
    unfold Grove.writeOnto
    exact hnext ((hinner ((hopen.add _).add _)).add _)

lemma writeOnto {g : Grove} {style : Option String} {depth : Nat} (h : d.StartsWith cs) :
    (g.writeOnto dialect style depth d).StartsWith cs := by
  induction g generalizing depth d with
  | nil => exact h
  | cons tag inner next ih ih' => exact writeOnto_cons ih ih' (h.add _).openOnto

end StartsWith
end Draft

lemma Grove.startsWith_writeOnto {g : Grove} (hg : g ≠ nil) (style : Option String) :
    (g.writeOnto dialect style 0 ⟨"", 0⟩).StartsWith ['<'] := by
  cases g with
  | nil => exact absurd rfl hg
  | cons tag inner next =>
    have hbracket : ((⟨"", 0⟩ : Draft).add (indentation 0 ++ "<" ++ tag.name)).StartsWith ['<'] := by
      unfold Draft.StartsWith Draft.add indentation
      simp
    exact .writeOnto_cons .writeOnto .writeOnto hbracket.openOnto

lemma page_head (o : ExpandOptions) : (page o).toList.head? = some '<' := by
  unfold page
  simp only [String.toList_append, List.append_assoc]
  rfl

lemma toList_trimNewlines (s : String) : (trimNewlines s).toList = s.toList.rdropWhile (· == '\n') :=
  String.toList_ofList

lemma trimNewlines_head {s : String} (h : ['<'] <+: s.toList) : (trimNewlines s).toList.head? = some '<' := by
  obtain ⟨rest, hrest⟩ := h
  have hprefix := List.rdropWhile_prefix (l := s.toList) (· == '\n')
  rw [← toList_trimNewlines] at hprefix
  cases hs : (trimNewlines s).toList with
  | nil =>
    rw [toList_trimNewlines, List.rdropWhile_eq_nil_iff, ← hrest] at hs
    exact absurd (hs '<' (by simp)) (by decide)
  | cons c cs =>
    rw [hs, ← hrest] at hprefix
    rw [List.head?_cons, (List.cons_prefix_cons.1 hprefix).1]

/-- The expansion of a markup abbreviation starts with a bracket. -/
theorem expandMarkup?_head (h : expandMarkup? text dialect o = some snippet) : snippet.toList.head? = some '<' := by
  rw [expandMarkup?_eq] at h
  by_cases hbang : text = "!"
  · rw [if_pos hbang] at h
    rw [← Option.some_inj.1 h]
    exact page_head o
  · rw [if_neg hbang] at h
    split at h
    · cases h
    · rename_i levels hlevels
      rw [Option.ite_none_right_eq_some] at h
      rw [← Option.some_inj.1 h.2]
      obtain ⟨hne, hlevel⟩ := (levels?_eq_some_iff.1 hlevels).ne_nil
      obtain ⟨level, rest, rfl⟩ := List.exists_cons_of_ne_nil hne
      have hgrove : Grove.ofLevels none (level :: rest) ≠ .nil :=
        Grove.ofLevels_ne_nil none (hlevel level List.mem_cons_self)
      exact trimNewlines_head (Grove.startsWith_writeOnto hgrove _)

lemma isValidSheet_iff : isValidSheet cs = true ↔
    ∃ sign c rest, (sign = [] ∨ sign = ['-']) ∧ startsSheet c = true ∧ cs = sign ++ c :: rest := by
  constructor
  · intro h
    fun_cases isValidSheet cs with
    | case1 => cases h
    | case2 c rest => exact ⟨['-'], c, rest, .inr rfl, h, rfl⟩
    | case3 c rest hsign =>
      rw [isValidSheet.eq_3 c rest hsign] at h
      exact ⟨[], c, rest, .inl rfl, h, rfl⟩
  · rintro ⟨_, c, rest, rfl | rfl, hc, rfl⟩
    · rw [List.nil_append, isValidSheet]
      · exact hc
      · rintro d rest' rfl
        exact absurd hc (by decide)
    · exact hc

lemma isValidSheet_append (h : isValidSheet cs = true) (ds : List Char) : isValidSheet (cs ++ ds) = true := by
  obtain ⟨sign, c, rest, hsign, hc, rfl⟩ := isValidSheet_iff.1 h
  exact isValidSheet_iff.2 ⟨sign, c, rest ++ ds, hsign, hc, by simp⟩

lemma isValidSheet_takeWhile (h : isValidSheet cs = true) : isValidSheet (cs.takeWhile (· != ':')) = true := by
  obtain ⟨sign, c, rest, hsign, hc, rfl⟩ := isValidSheet_iff.1 h
  have hcolon : (c != ':') = true := by
    rw [bne_iff_ne]
    rintro rfl
    exact absurd hc (by decide)
  refine isValidSheet_iff.2 ⟨sign, c, rest.takeWhile (· != ':'), hsign, hc, ?_⟩
  rcases hsign with rfl | rfl <;> simp [hcolon]

lemma isValidSheet_property {name property : String} (h : Sheet.properties.lookup name = some property) :
    isValidSheet property.toList = true := by
  have hall : ∀ e ∈ Sheet.properties, isValidSheet e.2.toList = true := by decide
  obtain ⟨before, behind, hsplit, -⟩ := List.lookup_eq_some_iff.1 h
  exact hall (name, property) (by simp [hsplit])

lemma Sheet.colour?_head {digits : List Char} (h : Sheet.colour? digits = some snippet) :
    snippet.toList.head? = some '#' := by
  unfold Sheet.colour? at h
  split_ifs at h
  split at h <;> cases h <;> simp

lemma Sheet.colour?_valid {digits : List Char} (h : Sheet.colour? digits = some snippet) :
    isValidSheet snippet.toList = true := by
  obtain ⟨rest, hrest⟩ := List.head?_eq_some_iff.1 (colour?_head h)
  exact isValidSheet_iff.2 ⟨[], '#', rest, .inl rfl, rfl, hrest⟩

lemma Sheet.pair?_valid {terminator value : String} (hv : isValidSheet text.toList = true)
    (h : Sheet.pair? terminator (String.ofList (text.toList.takeWhile (· != ':'))) value = some snippet) :
    isValidSheet snippet.toList = true := by
  unfold Sheet.pair? at h
  rw [Option.ite_none_left_eq_some] at h
  rw [← Option.some_inj.1 h.2]
  simp only [String.toList_append, List.append_assoc]
  refine isValidSheet_append ?_ _
  cases hname : Sheet.properties.lookup (String.ofList (text.toList.takeWhile (· != ':'))) with
  | none =>
    rw [Option.getD_none, String.toList_ofList]
    exact isValidSheet_takeWhile hv
  | some property => exact isValidSheet_property hname

lemma Sheet.measure?_valid {terminator : String} (h : Sheet.measure? o terminator cs = some snippet) :
    isValidSheet snippet.toList = true := by
  unfold Sheet.measure? at h
  simp only [Option.bind_eq_bind, Option.bind_eq_some_iff] at h
  obtain ⟨property, hname, h⟩ := h
  have hproperty := isValidSheet_append (isValidSheet_property hname)
  split at h
  · rw [← Option.some_inj.1 h]
    simpa only [String.toList_append, List.append_assoc] using hproperty _
  · simp only [Option.bind_eq_some_iff] at h
    obtain ⟨number, -, -, -, h⟩ := h
    rw [← Option.some_inj.1 h]
    simpa only [String.toList_append, List.append_assoc] using hproperty _

/-- The expansion of a valid stylesheet abbreviation starts as such an abbreviation does. -/
theorem Sheet.expand?_valid (hv : isValidSheet text.toList = true) (h : Sheet.expand? text dialect o = some snippet) :
    isValidSheet snippet.toList = true := by
  unfold Sheet.expand? at h
  dsimp only at h
  split at h
  · rw [← Option.some_inj.1 h]
    decide
  · exact colour?_valid h
  · split at h
    · exact pair?_valid hv h
    · exact measure?_valid h

lemma isValidSheet_head (h : isValidSheet cs = true) : ∃ c, cs.head? = some c ∧ c ≠ '<' ∧ c ≠ '$' := by
  obtain ⟨sign, c, rest, rfl | rfl, hc, rfl⟩ := isValidSheet_iff.1 h
  · refine ⟨c, rfl, ?_, ?_⟩ <;>
    · rintro rfl
      exact absurd hc (by decide)
  · exact ⟨'-', rfl, by decide, by decide⟩

/-- The preview of an expansion shows whether its dialect is one of markup. -/
theorem ofExpansion?_preview_iff (hv : isValid dialect text = true) (h : expand? text dialect o = some snippet) :
    Family.ofExpansion? (preview snippet) = some .markup ↔ dialect.isMarkup = true := by
  rw [Family.ofExpansion?_eq_markup_iff, Dialect.isMarkup, Bool.not_eq_true']
  unfold isValid at hv
  unfold expand? at h
  cases hs : dialect.isStylesheet with
  | false =>
    rw [hs, if_neg Bool.false_ne_true] at h
    exact iff_of_true (preview_head (expandMarkup?_head h) (by decide)) rfl
  | true =>
    rw [hs, if_pos rfl] at h hv
    obtain ⟨c, hhead, hbracket, hdollar⟩ := isValidSheet_head (Sheet.expand?_valid hv h)
    rw [preview_head hhead hdollar]
    exact iff_of_false (fun h => hbracket (Option.some_inj.1 h)) Bool.false_ne_true.symm

end Abbreviation
end AbbrevSite
