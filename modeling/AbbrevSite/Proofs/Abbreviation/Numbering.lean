import AbbrevSite.Proofs.Abbreviation.Expansion
import AbbrevSite.Proofs.Abbreviation.Source
import AbbrevSite.Proofs.Abbreviation.Writing

/-! The places of an expansion. They are numbered from 1 on in the order in which they stand, one for each attribute
without a value and one for each element that is left open for the user, and there is no other `$` in the text: every
one that the user has written is replaced by a number. -/
namespace AbbrevSite.Abbreviation

open Draft (placeText)

variable {m n k l : Nat} {cs ds : List Char}

/-- A text with the places `m + 1` to `n` in it, in this order, and with no `$` but theirs. -/
inductive HasPlaces : Nat → Nat → List Char → Prop
  | plain {m : Nat} {cs : List Char} (h : '$' ∉ cs) : HasPlaces m m cs
  | place {m n : Nat} {cs ds : List Char} (h : '$' ∉ cs) (rest : HasPlaces (m + 1) n ds) :
      HasPlaces m n (cs ++ (placeText (m + 1) ++ ds))

lemma rdropWhile_append {p : Char → Bool} {c : Char} (hc : cs.getLast? = some c) (hp : p c = false) (ds : List Char) :
    (cs ++ ds).rdropWhile p = cs ++ ds.rdropWhile p := by
  induction ds using List.reverseRecOn with
  | nil =>
    obtain ⟨cs, rfl⟩ := List.getLast?_eq_some_iff.1 hc
    rw [List.append_nil, List.rdropWhile_concat_neg _ _ _ (by simp [hp]), List.rdropWhile_nil, List.append_nil]
  | append_singleton ds e ih =>
    rw [← List.append_assoc, List.rdropWhile_concat, List.rdropWhile_concat]
    split_ifs
    · exact ih
    · exact List.append_assoc cs ds [e]

namespace HasPlaces

lemma prepend (hcs : '$' ∉ cs) (h : HasPlaces m n ds) : HasPlaces m n (cs ++ ds) := by
  cases h with
  | plain hds => exact .plain (by simp [hcs, hds])
  | place hds rest =>
    rw [← List.append_assoc]
    exact .place (by simp [hcs, hds]) rest

lemma append (h : HasPlaces m n cs) (h' : HasPlaces n k ds) : HasPlaces m k (cs ++ ds) := by
  induction h with
  | plain hcs => exact h'.prepend hcs
  | place hcs _ ih =>
    rw [List.append_assoc, List.append_assoc]
    exact .place hcs (ih h')

lemma rdropWhile (h : HasPlaces m n cs) : HasPlaces m n (cs.rdropWhile (· == '\n')) := by
  induction h with
  | plain hcs => exact .plain fun hmem => hcs ((List.rdropWhile_prefix _ _).subset hmem)
  | @place m n cs ds hcs _ ih =>
    have hlast : (cs ++ placeText (m + 1)).getLast? = some '}' := by
      simp [placeText, List.getLast?_append, List.getLast?_cons]
    rw [← List.append_assoc, rdropWhile_append hlast rfl, List.append_assoc]
    exact .place hcs ih

end HasPlaces

namespace Draft

variable {d d' d'' : Draft} {s : String}

/-- A draft to which a text with `k` more places has been added. -/
def GainsPlaces (d d' : Draft) (k : Nat) : Prop :=
  d'.places = d.places + k ∧ ∃ cs, d.Adds d' cs ∧ HasPlaces d.places d'.places cs

namespace GainsPlaces

lemma refl (d : Draft) : d.GainsPlaces d 0 := ⟨rfl, [], (List.append_nil _).symm, .plain List.not_mem_nil⟩

lemma trans (h : d.GainsPlaces d' k) (h' : d'.GainsPlaces d'' l) : d.GainsPlaces d'' (k + l) := by
  obtain ⟨hk, cs, hcs, hplaces⟩ := h
  obtain ⟨hl, ds, hds, hplaces'⟩ := h'
  exact ⟨by omega, cs ++ ds, hcs.trans hds, hplaces.append hplaces'⟩

lemma of_eq (h : d.GainsPlaces d' k) (hk : k = l) : d.GainsPlaces d' l := hk ▸ h

lemma add (hs : '$' ∉ s.toList) (d : Draft) : d.GainsPlaces (d.add s) 0 := ⟨rfl, _, adds_add d s, .plain hs⟩

lemma addPlace (d : Draft) : d.GainsPlaces d.addPlace 1 := by
  have hplace : HasPlaces d.places (d.places + 1) ([] ++ (placeText (d.places + 1) ++ [])) :=
    .place List.not_mem_nil (.plain List.not_mem_nil)
  rw [List.nil_append, List.append_nil] at hplace
  exact ⟨rfl, _, adds_addPlace d, hplace⟩

lemma addAttribute {name : String} {value : Option String} (hname : '$' ∉ name.toList)
    (hvalue : ∀ v ∈ value, '$' ∉ v.toList) (d : Draft) :
    d.GainsPlaces (d.addAttribute name value) (if value.isNone then 1 else 0) := by
  have hopen : '$' ∉ (" " ++ name ++ "=\"").toList := by simp [hname]
  have hclose : '$' ∉ "\"".toList := by simp
  unfold Draft.addAttribute
  cases value with
  | none => exact ((add hopen d).trans (addPlace _)).trans (add hclose _)
  | some v => exact ((add hopen d).trans (add (hvalue v rfl) _)).trans (add hclose _)

lemma addAttributes {attributes : List (String × Option String)}
    (h : ∀ a ∈ attributes, '$' ∉ a.1.toList ∧ ∀ v ∈ a.2, '$' ∉ v.toList) (d : Draft) :
    d.GainsPlaces (attributes.foldl (fun d a => d.addAttribute a.1 a.2) d) (attributes.countP fun a => a.2.isNone) := by
  induction attributes generalizing d with
  | nil => exact refl d
  | cons a attributes ih =>
    obtain ⟨ha, hattributes⟩ := List.forall_mem_cons.1 h
    rw [List.countP_cons, Nat.add_comm]
    exact (addAttribute ha.1 ha.2 d).trans (ih hattributes _)

end GainsPlaces
end Draft

/-- An element without a `$` in it. -/
structure Tag.NoDollar (t : Tag) : Prop where
  name : '$' ∉ t.name.toList
  id : ∀ v ∈ t.id, '$' ∉ v.toList
  classes : ∀ c ∈ t.classes, '$' ∉ c.toList
  attributes : ∀ a ∈ t.attributes, '$' ∉ a.1.toList ∧ ∀ v ∈ a.2, '$' ∉ v.toList
  text : ∀ v ∈ t.text, '$' ∉ v.toList

namespace Grove

/-- The elements of a grove in the order in which they are written, each with what it holds. -/
def nodes : Grove → List (Tag × Grove)
  | nil => []
  | cons tag inner next => (tag, inner) :: (inner.nodes ++ next.nodes)

def valueless (g : Grove) : Nat := (g.nodes.map fun node => node.1.attributes.countP fun a => a.2.isNone).sum

/-- The number of elements without a text that hold nothing and are not void. -/
def blanks (g : Grove) : Nat := g.nodes.countP fun node => node.2 = nil ∧ node.1.text = none ∧ ¬ node.1.isVoid = true

end Grove

section Elements

variable {t tag : Tag} {inner next g : Grove} {dialect : Dialect} {style : Option String} {depth : Nat}

lemma dollar_notMem_indentation : '$' ∉ (indentation depth).toList := by simp [indentation]

lemma Tag.NoDollar.intercalate_classes (ht : t.NoDollar) : '$' ∉ (String.intercalate " " t.classes).toList := by
  intro hmem
  rw [String.toList_intercalate] at hmem
  rcases mem_intercalate hmem with hspace | ⟨word, hword, hdollar⟩
  · cases hspace
  · obtain ⟨c, hc, rfl⟩ := List.mem_map.1 hword
    exact ht.classes c hc hdollar

lemma gainsPlaces_openOnto (ht : t.NoDollar) (dialect : Dialect) (depth : Nat) (d : Draft) :
    d.GainsPlaces (t.openOnto dialect depth d) (t.attributes.countP fun a => a.2.isNone) := by
  have hname : '$' ∉ (indentation depth ++ "<" ++ t.name).toList := by simp [ht.name, dollar_notMem_indentation]
  have hid (d : Draft) : d.GainsPlaces (t.id.elim d fun id => d.addAttribute "id" (some id)) 0 := by
    cases hid : t.id with
    | none => exact .refl d
    | some id => exact .addAttribute (by simp) (fun v hv => ht.id v (hid ▸ hv)) d
  have hclasses (name : String) (hname : '$' ∉ name.toList) (d : Draft) : d.GainsPlaces (if t.classes.isEmpty then d
      else d.addAttribute name (some (String.intercalate " " t.classes))) 0 := by
    split_ifs
    · exact .refl d
    · refine .addAttribute hname ?_ d
      rintro _ ⟨⟩
      exact ht.intercalate_classes
  have hclass : '$' ∉ (if dialect = .jsx then "className" else "class").toList := by split_ifs <;> simp
  have hopen := (((Draft.GainsPlaces.add hname d).trans (hid _)).trans (hclasses _ hclass _)).trans
    (.addAttributes ht.attributes _)
  rw [Draft.openOnto_eq]
  exact hopen.of_eq (Nat.zero_add _)

lemma valueless_cons : (Grove.cons tag inner next).valueless =
    (tag.attributes.countP fun a => a.2.isNone) + (inner.valueless + next.valueless) := by
  simp [Grove.valueless, Grove.nodes]

lemma blanks_cons : (Grove.cons tag inner next).blanks =
    (if inner = .nil ∧ tag.text = none ∧ ¬ tag.isVoid = true then 1 else 0) + (inner.blanks + next.blanks) := by
  simp only [Grove.blanks, Grove.nodes, List.countP_cons, List.countP_append, decide_eq_true_eq]
  omega

lemma dollar_notMem_selfClosing (style : Option String) : '$' ∉ (selfClosing style ++ "\n").toList := by
  unfold selfClosing
  split <;> simp

lemma gainsPlaces_leaf (ht : t.NoDollar) (style : Option String) (d : Draft) : d.GainsPlaces
    (if t.isVoid && t.text.isNone then d.add (selfClosing style ++ "\n")
      else
        (match t.text with
          | some text => (d.add ">").add text
          | none => (d.add ">").addPlace).add ("</" ++ t.name ++ ">\n"))
    (if t.text = none ∧ ¬ t.isVoid = true then 1 else 0) := by
  have hbracket : '$' ∉ ">".toList := by simp
  have hclose : '$' ∉ ("</" ++ t.name ++ ">\n").toList := by simp [ht.name]
  cases htext : t.text with
  | some text =>
    rw [Option.isNone_some, Bool.and_false, if_neg Bool.false_ne_true, if_neg (by simp)]
    exact ((Draft.GainsPlaces.add hbracket d).trans (.add (ht.text text htext) _)).trans (.add hclose _)
  | none =>
    rw [Option.isNone_none, Bool.and_true]
    by_cases hvoid : t.isVoid = true
    · rw [if_pos hvoid, if_neg (by simp [hvoid])]
      exact .add (dollar_notMem_selfClosing style) d
    · rw [if_neg hvoid, if_pos ⟨rfl, hvoid⟩]
      exact ((Draft.GainsPlaces.add hbracket d).trans (.addPlace _)).trans (.add hclose _)

/-- A grove is written with a place for each attribute without a value and for each blank element. -/
theorem gainsPlaces_writeOnto (hg : ∀ node ∈ g.nodes, node.1.NoDollar) (dialect : Dialect) (style : Option String)
    (depth : Nat) (d : Draft) : d.GainsPlaces (g.writeOnto dialect style depth d) (g.valueless + g.blanks) := by
  induction g generalizing depth d with
  | nil => exact .refl d
  | cons tag inner next ih ih' =>
    rw [Grove.nodes, List.forall_mem_cons, List.forall_mem_append] at hg
    obtain ⟨htag, hinner, hnext⟩ := hg
    replace htag : tag.NoDollar := htag
    have hopen := gainsPlaces_openOnto htag dialect depth d
    rw [valueless_cons, blanks_cons]
    cases inner with
    | nil =>
      have hleaf := (hopen.trans (gainsPlaces_leaf htag style _)).trans (ih' hnext depth _)
      have hnil : Grove.nil.valueless = 0 ∧ Grove.nil.blanks = 0 := ⟨rfl, rfl⟩
      simp only [true_and]
      rw [Grove.writeOnto]
      exact hleaf.of_eq (by omega)
    | cons t i n =>
      have hline : '$' ∉ (tag.text.getD "" ++ "\n").toList := by
        cases htext : tag.text with
        | none => simp
        | some text => simp [htag.text text htext]
      have hclose : '$' ∉ (indentation depth ++ "</" ++ tag.name ++ ">\n").toList := by
        simp [htag.name, dollar_notMem_indentation]
      have hbegin := (hopen.trans (.add (s := ">") (by simp) _)).trans (.add hline _)
      have hnode := ((hbegin.trans (ih hinner (depth + 1) _)).trans (.add hclose _)).trans (ih' hnext depth _)
      rw [if_neg (by simp), Grove.writeOnto]
      exact hnode.of_eq (by omega)

end Elements

section Repetition

variable {e : Element} {parent : Option String} {levels : List (List Element)} {trees : List (Tag × Grove)}

lemma dollar_notMem_zeroPadded (n width : Nat) : '$' ∉ zeroPadded n width := by
  unfold zeroPadded
  split_ifs
  · exact List.not_mem_nil
  · have hdigits : '$' ∉ Nat.toDigits 10 n := fun hmem =>
      absurd (Nat.isDigit_of_mem_toDigits (by decide) (by decide) hmem) (by decide)
    simp [hdigits]

lemma dollar_notMem_numbered (n width : Nat) (cs : List Char) : '$' ∉ numbered n width cs := by
  induction cs generalizing width with
  | nil => exact dollar_notMem_zeroPadded n width
  | cons c cs ih =>
    rw [numbered]
    split_ifs with hc
    · exact ih (width + 1)
    · simp [dollar_notMem_zeroPadded n width, ih 0, Ne.symm hc]

lemma dollar_notMem_number (n : Nat) (cs : List Char) : '$' ∉ (number n cs).toList := by
  rw [number, String.toList_ofList]
  exact dollar_notMem_numbered n 0 cs

lemma dollar_notMem_implicitName (parent : Option String) : '$' ∉ (implicitName parent).toList := by
  unfold implicitName
  split <;> simp

lemma noDollar_repetition (e : Element) (n : Nat) (parent : Option String) : (e.repetition n parent).NoDollar where
  name := by
    unfold Element.repetition
    dsimp only
    split_ifs
    · exact dollar_notMem_implicitName parent
    · exact dollar_notMem_number n e.name
  id v hv := by
    obtain ⟨cs, -, rfl⟩ := Option.map_eq_some_iff.1 hv
    exact dollar_notMem_number n cs
  classes v hv := by
    obtain ⟨cs, -, rfl⟩ := List.mem_map.1 hv
    exact dollar_notMem_number n cs
  attributes a ha := by
    obtain ⟨⟨name, value⟩, -, rfl⟩ := List.mem_map.1 ha
    refine ⟨dollar_notMem_number n name, fun v hv => ?_⟩
    obtain ⟨cs, -, rfl⟩ := Option.map_eq_some_iff.1 hv
    exact dollar_notMem_number n cs
  text v hv := by
    obtain ⟨cs, -, rfl⟩ := Option.map_eq_some_iff.1 hv
    exact dollar_notMem_number n cs

namespace Grove

lemma mem_nodes_ofList {node : Tag × Grove} (h : node ∈ (ofList trees).nodes) :
    ∃ t ∈ trees, node = t ∨ node ∈ t.2.nodes := by
  induction trees with
  | nil => cases h
  | cons t trees ih =>
    have hsplit : node ∈ (t.1, t.2) :: (t.2.nodes ++ (ofList trees).nodes) := h
    rw [List.mem_cons, List.mem_append] at hsplit
    rcases hsplit with rfl | hinner | hnext
    · exact ⟨t, List.mem_cons_self, .inl rfl⟩
    · exact ⟨t, List.mem_cons_self, .inr hinner⟩
    · obtain ⟨t', ht', hnode⟩ := ih hnext
      exact ⟨t', List.mem_cons_of_mem _ ht', hnode⟩

/-- The elements that levels stand for are repetitions of elements of the levels. -/
lemma noDollar_ofLevels (parent : Option String) (levels : List (List Element)) :
    ∀ node ∈ (ofLevels parent levels).nodes, node.1.NoDollar := by
  induction levels generalizing parent with
  | nil => exact List.forall_mem_nil _
  | cons level rest ih =>
    intro node hnode
    obtain ⟨t, ht, hnode⟩ := mem_nodes_ofList hnode
    rcases List.mem_append.1 ht with hleaf | hlast
    · obtain ⟨e, -, hleaf⟩ := List.mem_flatMap.1 hleaf
      obtain ⟨tag, htag, rfl⟩ := List.mem_map.1 hleaf
      obtain ⟨k, -, rfl⟩ := List.mem_map.1 htag
      rcases hnode with rfl | hnode
      · exact noDollar_repetition e (k + 1) parent
      · cases hnode
    · obtain ⟨tag, htag, rfl⟩ := List.mem_map.1 hlast
      rcases hnode with rfl | hnode
      · cases hlevel : level.getLast? with
        | none =>
          rw [hlevel] at htag
          cases htag
        | some e =>
          rw [hlevel] at htag
          obtain ⟨k, -, rfl⟩ := List.mem_map.1 htag
          exact noDollar_repetition e (k + 1) parent
      · exact ih _ node hnode

end Grove
end Repetition

/-- The places of an expansion are numbered without a gap in the order in which they stand. There are as many as
attributes without a value and blank elements are rendered, and no `$` but theirs: none is left in what is rendered. -/
theorem expand?_hasPlaces {abbreviation text : String} {dialect : Dialect} {o : ExpandOptions}
    (hbang : abbreviation ≠ "!") (hmarkup : dialect.isMarkup = true)
    (h : expand? abbreviation dialect o = some text) : ∃ levels, HasParts abbreviation.toList levels ∧
      let grove := Grove.ofLevels none levels
      text = trimNewlines (grove.writeOnto dialect (o.selfClosingStyle? dialect) 0 ⟨"", 0⟩).text ∧
        (∀ node ∈ grove.nodes, node.1.NoDollar) ∧ HasPlaces 0 (grove.valueless + grove.blanks) text.toList := by
  rw [expand?_of_isMarkup hmarkup, expandMarkup?_eq, if_neg hbang] at h
  cases hlevels : levels? abbreviation.toList with
  | none => simp [hlevels] at h
  | some levels =>
    rw [hlevels] at h
    dsimp only at h
    split_ifs at h
    cases h
    have hnodes := Grove.noDollar_ofLevels none levels
    obtain ⟨hcount, cs, hcs, hplaces⟩ := gainsPlaces_writeOnto hnodes dialect (o.selfClosingStyle? dialect) 0 ⟨"", 0⟩
    refine ⟨levels, levels?_eq_some_iff.1 hlevels, rfl, hnodes, ?_⟩
    rw [hcount, Nat.zero_add] at hplaces
    rw [toList_trimNewlines, hcs]
    exact hplaces.rdropWhile

/-- `input[type]+li.no$*2` has a place for the type of the void element and one in each of the others. -/
theorem expand?_hasPlaces_form :
    let o := Behaviour.standard.expandOptions .html
    let text := "<input type=\"$\x7b1\x7d\">\n<li class=\"no1\">$\x7b2\x7d</li>\n<li class=\"no2\">$\x7b3\x7d</li>"
    "input[type]+li.no$*2" ≠ "!" ∧ Dialect.html.isMarkup = true ∧ expand? "input[type]+li.no$*2" .html o = some text ∧
      HasPlaces 0 3 text.toList := by
  intro o text
  let levels : List (List Element) := [[⟨"input".toList, none, [], [("type".toList, none)], none, 0⟩,
    ⟨"li".toList, none, ["no$".toList], [], none, 2⟩]]
  have hlevels : levels? "input[type]+li.no$*2".toList = some levels := by cbv
  have hcount : (Grove.ofLevels none levels).valueless + (Grove.ofLevels none levels).blanks = 3 := by decide +kernel
  have hexpand : expand? "input[type]+li.no$*2" .html o = some text := by
    rw [expand?_of_isMarkup rfl, expandMarkup?_eq, if_neg (by decide), hlevels]
    dsimp only
    rw [if_pos (by decide)]
    cbv
  obtain ⟨levels', hparts, -, -, hplaces⟩ := expand?_hasPlaces (by decide) rfl hexpand
  obtain rfl : levels = levels' := Option.some_inj.1 (hlevels.symm.trans (levels?_eq_some_iff.2 hparts))
  exact ⟨by decide, rfl, hexpand, hcount ▸ hplaces⟩

end AbbrevSite.Abbreviation
