import AbbrevSite.Abbreviation.Expand
import AbbrevSite.Proofs.Abbreviation.Expansion
import AbbrevSite.Proofs.Abbreviation.Source
import AbbrevSite.Proofs.Abbreviation.Writing
import Mathlib

/-! The elements that levels denote. What the levels expand to is read as just these. -/
namespace AbbrevSite.Abbreviation

open Markup

namespace SourceElement

/-- How often the element stands in its level; a number of 0 stands for 1. -/
def times (e : SourceElement) : Nat := e.digits.elim 1 fun ds => max (Digits.value 10 ds) 1

def nameIn (e : SourceElement) (parent : Option String) : String :=
  if e.name = [] then implicitName parent else .ofList e.name

/-- The id, then the classes with spaces between them. -/
def attributes (e : SourceElement) : List (String × Option String) :=
  (e.id.map fun id => ("id", some (String.ofList id))).toList ++
    if e.classes = [] then [] else [("class", some (String.ofList ([' '].intercalate e.classes)))]

/-- The element in all its repetitions in a parent, each around the same elements. Unless it is void it is closed. -/
def repeated (e : SourceElement) (parent : Option String) (inner : Elements) : Elements :=
  .times e.times (.cons (e.nameIn parent) e.attributes (!decide (IsVoid e.name)) inner .nil)

end SourceElement

/-- The elements of a level in a parent, of which the last one is around others. -/
def denoteLevel (parent : Option String) (inner : String → Elements) : List SourceElement → Elements
  | [] => .nil
  | [e] => e.repeated parent (inner (e.nameIn parent))
  | e :: e' :: level => e.repeated parent .nil ++ denoteLevel parent inner (e' :: level)

/-- The elements that levels stand for in a parent: each level in every repetition of the last element before it. -/
def denote (parent : Option String) : List (List SourceElement) → Elements
  | [] => .nil
  | level :: rest => denoteLevel parent (fun name => denote (some name) rest) level

variable {e : SourceElement} {level : List SourceElement} {levels rest : List (List SourceElement)}
  {parent : Option String} {inner : String → Elements}

section Size

lemma times_element : e.element.times = e.times := by
  unfold SourceElement.element SourceElement.times Element.times
  cases e.digits <;> rfl

lemma size_repeated (E : Elements) : (e.repeated parent E).size = e.times * (E.size + 1) := by
  rw [SourceElement.repeated, Elements.size_times, Elements.size, Elements.size, Nat.add_zero]

lemma size_denoteLevel {n : Nat} (hn : ∀ name, (inner name).size = n) : (denoteLevel parent inner level).size =
    (level.dropLast.map SourceElement.times).sum + (level.getLast?.map SourceElement.times).getD 0 * (1 + n) := by
  fun_induction denoteLevel parent inner level with
  | case1 => simp [Elements.size]
  | case2 e => simp [size_repeated, hn, Nat.add_comm]
  | case3 e e' level ih =>
    rw [Elements.size_append, size_repeated, ih, List.dropLast_cons_cons, List.map_cons, List.sum_cons,
      List.getLast?_cons_cons, Elements.size]
    omega

lemma size_denote (parent : Option String) (levels : List (List SourceElement)) :
    (denote parent levels).size = total (levels.map (·.map SourceElement.element)) := by
  induction levels generalizing parent with
  | nil => rfl
  | cons level rest ih =>
    have htimes : Element.times ∘ SourceElement.element = SourceElement.times := funext fun _ => times_element
    have htotal (row : List Element) (below : List (List Element)) : total (row :: below) =
        (row.dropLast.map Element.times).sum + (row.getLast?.map Element.times).getD 0 * (1 + total below) := rfl
    rw [denote, size_denoteLevel fun name => ih (some name), List.map_cons, htotal, ← List.map_dropLast, List.map_map,
      List.getLast?_map, Option.map_map, htimes]

lemma times_le_size_denoteLevel (h : e ∈ level) : e.times ≤ (denoteLevel parent inner level).size := by
  fun_induction denoteLevel parent inner level with
  | case1 => cases h
  | case2 e' =>
    rw [List.mem_singleton.1 h, size_repeated]
    exact Nat.le_mul_of_pos_right _ (Nat.succ_pos _)
  | case3 e' e'' level ih =>
    rw [Elements.size_append, size_repeated]
    rcases List.mem_cons.1 h with rfl | h
    · rw [Elements.size]
      omega
    · exact (ih h).trans (Nat.le_add_left _ _)

lemma one_le_times : 1 ≤ e.times := by
  unfold SourceElement.times
  cases e.digits with
  | none => exact le_rfl
  | some ds => exact le_max_right _ _

lemma size_inner_le (hne : level ≠ []) {n : Nat} (hn : ∀ name, (inner name).size = n) :
    n ≤ (denoteLevel parent inner level).size := by
  have hlast := List.getLast?_eq_some_getLast hne
  have hpos : 1 ≤ (level.getLast hne).times := one_le_times
  rw [size_denoteLevel hn, hlast]
  have hmul : 1 * (1 + n) ≤ (level.getLast hne).times * (1 + n) := Nat.mul_le_mul_right _ hpos
  simp only [Option.map_some, Option.getD_some]
  omega

lemma times_le_size_denote (hne : ∀ level ∈ levels, level ≠ []) (hlevel : level ∈ levels) (he : e ∈ level) :
    e.times ≤ (denote parent levels).size := by
  induction levels generalizing parent with
  | nil => cases hlevel
  | cons first rest ih =>
    obtain ⟨hfirst, hrest⟩ := List.forall_mem_cons.1 hne
    rcases List.mem_cons.1 hlevel with rfl | hlevel
    · exact times_le_size_denoteLevel he
    · have hle : e.times ≤ (denote none rest).size := ih hrest hlevel
      refine hle.trans (size_inner_le hfirst fun name => ?_)
      rw [size_denote, size_denote]

lemma count_le_times : e.element.count ≤ e.times := by
  rw [← times_element]
  exact le_max_left _ _

end Size

namespace Grove

variable {g g' : Grove} {E E' : Elements} {tag : Tag}

/-- A grove of plain elements, and which these are. -/
structure StandsFor (g : Grove) (E : Elements) : Prop where
  plain : g.Plain
  elements : g.elements = E

lemma standsFor_nil : nil.StandsFor .nil := ⟨trivial, rfl⟩

lemma StandsFor.append (h : g.StandsFor E) (h' : g'.StandsFor E') : (g ++ g').StandsFor (E ++ E') := by
  obtain ⟨hg, rfl⟩ := h
  induction g with
  | nil => exact h'
  | cons tag inner next _ ih =>
    obtain ⟨htag, hempty, hinner, hnext⟩ := hg
    obtain ⟨hplain, helements⟩ := ih hnext
    rw [cons_append, Grove.elements, Elements.cons_append, ← helements]
    exact ⟨⟨htag, hempty, hinner, hplain⟩, rfl⟩

lemma StandsFor.replicate (h : g.StandsFor E) (htag : tag.Plain) (hempty : tag.isVoid = true → g = nil) (n : Nat) :
    (ofList (List.replicate n (tag, g))).StandsFor
      (.times n (.cons tag.name (tag.sourceAttributes.map SourceAttribute.pair) (!tag.isVoid) E .nil)) := by
  induction n with
  | zero => exact standsFor_nil
  | succ n ih =>
    refine ⟨⟨htag, hempty, h.plain, ih.plain⟩, ?_⟩
    rw [List.replicate_succ, Elements.times, Elements.cons_append, Elements.nil_append, ← ih.elements, ← h.elements]
    rfl

end Grove

section Repetition

lemma numbered_eq {cs : List Char} (h : '$' ∉ cs) (n : Nat) : numbered n 0 cs = cs := by
  induction cs with
  | nil => rfl
  | cons c cs ih =>
    rw [List.mem_cons, not_or] at h
    rw [numbered, if_neg (Ne.symm h.1), ih h.2]
    rfl

lemma number_eq {cs : List Char} (h : ∀ c ∈ cs, isPlainChar c = true) (n : Nat) : number n cs = .ofList cs := by
  rw [number, numbered_eq fun hmem => absurd (h _ hmem) (by decide)]

def SourceElement.tag (e : SourceElement) (parent : Option String) : Tag :=
  ⟨e.nameIn parent, e.id.map .ofList, e.classes.map .ofList, [], none⟩

lemma SourceElement.WellFormed.repetition_element (h : e.WellFormed) (n : Nat) (parent : Option String) :
    e.element.repetition n parent = e.tag parent := by
  have hname : (if e.name.isEmpty then implicitName parent else number n e.name) = e.nameIn parent := by
    rw [number_eq (fun c hc => isPlainChar_of_isAsciiLetter (h.name c hc)) n]
    simp [SourceElement.nameIn]
  have hid : e.id.map (number n) = e.id.map .ofList := Option.map_congr fun w hw => number_eq (h.id w hw) n
  have hclasses : e.classes.map (number n) = e.classes.map .ofList :=
    List.map_congr_left fun w hw => number_eq (h.classes w hw) n
  unfold Element.repetition SourceElement.element SourceElement.tag
  simp only [hname, hid, hclasses, List.map_nil, Option.map_none]

lemma implicitName_mem (parent : Option String) : implicitName parent ∈ ["li", "tr", "td", "option", "div"] := by
  unfold implicitName
  split <;> decide

lemma implicitName_plain (parent : Option String) : IsName (implicitName parent).toList ∧
    ¬ IsRaw (implicitName parent).toList ∧ ¬ IsVoid (implicitName parent).toList := by
  have hall : ∀ name ∈ ["li", "tr", "td", "option", "div"], IsName name.toList ∧
      ¬ IsRaw name.toList ∧ ¬ IsVoid name.toList := by decide +kernel
  exact hall _ (implicitName_mem parent)

namespace SourceElement

lemma toList_nameIn (parent : Option String) :
    (e.nameIn parent).toList = if e.name = [] then (implicitName parent).toList else e.name := by
  unfold nameIn
  split_ifs
  · rfl
  · exact String.toList_ofList

lemma isVoid_tag : (e.tag parent).isVoid = decide (IsVoid e.name) := by
  rw [Bool.eq_iff_iff, Tag.isVoid_iff, decide_eq_true_iff, tag, toList_nameIn]
  split_ifs with hname
  · rw [hname]
    exact iff_of_false (implicitName_plain parent).2.2 (by decide +kernel)
  · rfl

lemma sourceAttributes_tag : (e.tag parent).sourceAttributes =
    (e.id.map fun id => (⟨['i', 'd'], some id⟩ : SourceAttribute)).toList ++
      if e.classes = [] then [] else [⟨['c', 'l', 'a', 's', 's'], some ([' '].intercalate e.classes)⟩] := by
  unfold Tag.sourceAttributes tag
  congr 1
  · cases e.id <;> simp
  · simp [String.toList_intercalate, Function.comp_def]

lemma map_pair_sourceAttributes : (e.tag parent).sourceAttributes.map SourceAttribute.pair = e.attributes := by
  rw [sourceAttributes_tag, attributes, List.map_append]
  congr 1
  · cases e.id <;> rfl
  · split_ifs <;> rfl

lemma WellFormed.sourceAttribute (h : e.WellFormed) {a : SourceAttribute} (ha : a ∈ (e.tag parent).sourceAttributes) :
    (a.name = ['i', 'd'] ∨ a.name = ['c', 'l', 'a', 's', 's']) ∧
      ∀ v ∈ a.value, ∀ c ∈ v, isPlainChar c = true ∨ c = ' ' := by
  rw [sourceAttributes_tag, List.mem_append, Option.mem_toList, Option.map_eq_some_iff] at ha
  rcases ha with ⟨id, hid, rfl⟩ | ha
  · refine ⟨.inl rfl, fun v hv c hc => .inl ?_⟩
    cases hv
    exact h.id id hid c hc
  · split_ifs at ha
    · cases ha
    · rw [List.mem_singleton.1 ha]
      refine ⟨.inr rfl, fun v hv c hc => ?_⟩
      cases hv
      rcases mem_intercalate hc with hspace | ⟨w, hw, hmem⟩
      · exact .inr hspace
      · exact .inl (h.classes w hw c hmem)

lemma WellFormed.plain_tag (h : e.WellFormed) (parent : Option String) : (e.tag parent).Plain where
  name := by
    rw [tag, toList_nameIn]
    split_ifs with hname
    · exact (implicitName_plain parent).1
    · obtain ⟨c, cs, hcs⟩ := List.exists_cons_of_ne_nil hname
      have hletter (c : Char) (hc : c ∈ e.name) : CharClass.isAlphabetic c = true :=
        isAlphabetic_of_isAsciiLetter (h.name c hc)
      refine ⟨⟨c, by simp [hcs], hletter c (by simp [hcs])⟩, fun c hc => ?_⟩
      simp [isNameChar, CharClass.isAlphanumeric, hletter c hc]
  notRaw := by
    rw [tag, toList_nameIn]
    split_ifs
    · exact (implicitName_plain parent).2.1
    · exact h.notRaw
  noAttributes := rfl
  noText := rfl
  wellFormed a ha := by
    obtain ⟨hname, hvalue⟩ := h.sourceAttribute ha
    have hid : ∀ c ∈ ['i', 'd'], isAttributeNameChar c = true := List.all_eq_true.1 (by decide)
    have hclass : ∀ c ∈ ['c', 'l', 'a', 's', 's'], isAttributeNameChar c = true := List.all_eq_true.1 (by decide)
    refine ⟨?_, ?_, fun v hv hmem => absurd (hvalue v hv _ hmem) (by decide)⟩
    · rcases hname with hname | hname <;> simp [hname]
    · rcases hname with hname | hname
      · rwa [hname]
      · rwa [hname]
  noReturn a ha := by
    obtain ⟨hname, hvalue⟩ := h.sourceAttribute ha
    refine SourceAttribute.noReturn_print ?_ fun v hv hmem => absurd (hvalue v hv _ hmem) (by decide)
    rcases hname with hname | hname <;> rw [hname] <;> decide

end SourceElement

lemma standsFor_repeated {g : Grove} {E : Elements} (he : e.WellFormed) (hg : g.StandsFor E)
    (hempty : IsVoid e.name → g = .nil) (parent : Option String) :
    (Grove.ofList (List.replicate e.times (e.tag parent, g))).StandsFor (e.repeated parent E) := by
  have hvoid (h : (e.tag parent).isVoid = true) : g = .nil := hempty (by simpa [SourceElement.isVoid_tag] using h)
  have hstands := hg.replicate (he.plain_tag parent) hvoid e.times
  rwa [SourceElement.map_pair_sourceAttributes, SourceElement.isVoid_tag] at hstands

end Repetition

section Levels

lemma ofLevels_level (he : e.WellFormed) (parent : Option String) (below : List (List Element)) :
    Grove.ofLevels parent ([e.element] :: below) =
      .ofList (.replicate e.times (e.tag parent, .ofLevels (some (e.nameIn parent)) below)) := by
  simp only [Grove.ofLevels_singleton, he.repetition_element, times_element, List.map_const', List.length_range]
  rfl

lemma ofLevels_front (he : e.WellFormed) (parent : Option String) (e' : Element) (behind : List Element)
    (below : List (List Element)) : Grove.ofLevels parent ((e.element :: e' :: behind) :: below) =
      .ofList (.replicate e.times (e.tag parent, .nil)) ++ .ofLevels parent ((e' :: behind) :: below) := by
  simp only [Grove.ofLevels_cons_cons, he.repetition_element, times_element, List.map_const', List.length_range]

lemma standsFor_level {below : List (List Element)} (helements : ∀ e ∈ level, e.WellFormed)
    (hbelow : ∀ name, (Grove.ofLevels (some name) below).StandsFor (inner name))
    (hholds : ∀ e ∈ level.getLast?, IsVoid e.name → below = []) :
    (Grove.ofLevels parent (level.map SourceElement.element :: below)).StandsFor (denoteLevel parent inner level) := by
  fun_induction denoteLevel parent inner level with
  | case1 => exact Grove.standsFor_nil
  | case2 e =>
    rw [List.map_singleton, ofLevels_level (helements e (List.mem_singleton_self e))]
    refine standsFor_repeated (helements e (List.mem_singleton_self e)) (hbelow _) (fun hvoid => ?_) parent
    rw [hholds e rfl hvoid]
    rfl
  | case3 e e' level ih =>
    obtain ⟨he, hrest⟩ := List.forall_mem_cons.1 helements
    rw [List.map_cons, List.map_cons, ofLevels_front he]
    refine (standsFor_repeated he Grove.standsFor_nil (fun _ => rfl) parent).append (ih hrest ?_)
    rwa [List.getLast?_cons_cons] at hholds

lemma standsFor_ofLevels (helements : ∀ level ∈ levels, ∀ e ∈ level, e.WellFormed)
    (hholds : ∀ level ∈ levels.dropLast, ∀ e ∈ level.getLast?, ¬ IsVoid e.name) (parent : Option String) :
    (Grove.ofLevels parent (levels.map (·.map SourceElement.element))).StandsFor (denote parent levels) := by
  induction levels generalizing parent with
  | nil => exact Grove.standsFor_nil
  | cons level rest ih =>
    obtain ⟨hlevel, hrest⟩ := List.forall_mem_cons.1 helements
    have hbelow : ∀ name, (Grove.ofLevels (some name) (rest.map (·.map SourceElement.element))).StandsFor
        (denote (some name) rest) := by
      refine fun name => ih hrest (fun level' h => hholds level' ?_) (some name)
      cases rest with
      | nil => cases h
      | cons next rest => exact List.mem_cons_of_mem _ h
    refine standsFor_level hlevel hbelow fun e he hvoid => ?_
    cases rest with
    | nil => rfl
    | cons next rest => exact absurd hvoid (hholds level List.mem_cons_self e he)

end Levels

lemma trimNewlines_line {s : String} {cs : List Char} (hs : s.toList = cs ++ ['\n']) (hcs : cs.getLast? = some '>') :
    trimNewlines s = .ofList cs := by
  obtain ⟨cs, rfl⟩ := List.getLast?_eq_some_iff.1 hcs
  rw [← String.toList_inj, toList_trimNewlines, hs, List.rdropWhile_concat_pos _ _ _ rfl,
    List.rdropWhile_concat_neg _ _ _ (by decide), String.toList_ofList]

lemma WellFormedLevels.printLevels_ne_bang (h : WellFormedLevels levels) :
    String.ofList (printLevels levels) ≠ "!" := by
  intro hbang
  have hmem : '!' ∈ printLevels levels := by
    rw [← String.toList_ofList (l := printLevels levels), hbang]
    exact List.mem_singleton_self _
  exact h.plainWith_printLevels.notMem rfl (by decide) hmem

/-- What well-formed levels of at most 1000 elements expand to is read as the elements they denote. -/
theorem expand?_printLevels (h : WellFormedLevels levels) (hsize : (denote none levels).size ≤ 1000)
    (o : ExpandOptions) (languageId : String) :
    ∃ text t, expand? (.ofList (printLevels levels)) .html o = some text ∧
      (Document.ofText languageId text).parse? .html = some t ∧ t.forest.elements? = some (denote none levels) := by
  have hlevels := h.levels?_printLevels fun level hlevel e he =>
    (count_le_times.trans ((times_le_size_denote h.level hlevel he).trans hsize)).trans_lt (by decide)
  have hstands := standsFor_ofLevels h.element h.holds none
  have hne : Grove.ofLevels none (levels.map (·.map SourceElement.element)) ≠ .nil := by
    obtain ⟨level, rest, rfl⟩ := List.exists_cons_of_ne_nil h.ne_nil
    exact Grove.ofLevels_ne_nil none (by simpa using h.level level List.mem_cons_self)
  obtain ⟨cs, hcs, hreads, hlast⟩ :=
    Grove.addsLines_writeOnto hstands.plain hne (o.selfClosingStyle? .html) 0 ⟨"", 0⟩
  have htrim := trimNewlines_line hcs hlast
  rw [hstands.elements] at hreads
  obtain ⟨t, ht, helements⟩ := hreads.parse? languageId
  refine ⟨_, t, ?_, ht, helements⟩
  rw [expand?, if_neg (by decide), expandMarkup?_eq, if_neg h.printLevels_ne_bang, String.toList_ofList, hlevels]
  dsimp only
  rw [if_pos (size_denote none levels ▸ hsize), htrim]

/-- `ul#a.b>.c*2+br`, whose second level has an element without a name and a void element. -/
theorem expand?_printLevels_list :
    let levels : List (List SourceElement) :=
      [[⟨['u', 'l'], some ['a'], [['b']], none⟩], [⟨[], none, [['c']], some ['2']⟩, ⟨['b', 'r'], none, [], none⟩]]
    let item (next : Elements) : Elements := .cons "li" [("class", some "c")] true .nil next
    let elements : Elements :=
      .cons "ul" [("id", some "a"), ("class", some "b")] true (item (item (.cons "br" [] false .nil .nil))) .nil
    let o := Behaviour.standard.expandOptions .html
    WellFormedLevels levels ∧ (denote none levels).size ≤ 1000 ∧
      ∃ text t, expand? "ul#a.b>.c*2+br" .html o = some text ∧
        (Document.ofText "html" text).parse? .html = some t ∧ t.forest.elements? = some elements := by
  intro levels item elements o
  have hlevels : WellFormedLevels levels := by decide +kernel
  have hdenote : denote none levels = elements := by decide +kernel
  have hprint : String.ofList (printLevels levels) = "ul#a.b>.c*2+br" := by decide +kernel
  have hsize : (denote none levels).size ≤ 1000 := by
    rw [hdenote]
    decide
  refine ⟨hlevels, hsize, ?_⟩
  rw [← hprint, ← hdenote]
  exact expand?_printLevels hlevels hsize o "html"

end AbbrevSite.Abbreviation
