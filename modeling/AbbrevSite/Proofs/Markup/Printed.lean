import AbbrevSite.Proofs.Markup.Pieces
import AbbrevSite.Proofs.Markup.Source

/-! The readers of markup over text that was written out: each of them stops where the part it is to read ends, and
the tokens it returns are those of that part. -/
namespace AbbrevSite

section Case

variable {a c : Char} {cs ds : List Char}

lemma toLower_of_ne {c : Char} (h : ¬ ('A'.val ≤ c.val ∧ c.val ≤ 'Z'.val)) : c.toLower = c := by
  unfold Char.toLower
  exact dif_neg h

lemma toLower_lowercase (h : 'A'.val ≤ c.val ∧ c.val ≤ 'Z'.val) :
    'a'.val ≤ c.toLower.val ∧ c.toLower.val ≤ 'z'.val := by
  unfold Char.toLower
  rw [dif_pos h]
  have hA : 'A'.val.toNat = 65 := rfl
  have hZ : 'Z'.val.toNat = 90 := rfl
  have ha : 'a'.val.toNat = 97 := rfl
  have hz : 'z'.val.toNat = 122 := rfl
  have hd : ('a'.val - 'A'.val).toNat = 32 := rfl
  simp only [UInt32.le_iff_toNat_le, UInt32.toNat_add, hA, hZ, ha, hz, hd] at h ⊢
  omega

lemma toLower_toLower (c : Char) : c.toLower.toLower = c.toLower := by
  by_cases h : 'A'.val ≤ c.val ∧ c.val ≤ 'Z'.val
  · refine toLower_of_ne fun hc => ?_
    have hl := toLower_lowercase h
    have hZ : 'Z'.val.toNat = 90 := rfl
    have ha : 'a'.val.toNat = 97 := rfl
    simp only [UInt32.le_iff_toNat_le, hZ, ha] at hc hl
    omega
  · rw [toLower_of_ne h, toLower_of_ne h]

lemma toLower_eq_toLower_iff (ha : ¬ ('A'.val ≤ a.val ∧ a.val ≤ 'Z'.val))
    (ha' : ¬ ('a'.val ≤ a.val ∧ a.val ≤ 'z'.val)) : a.toLower = c.toLower ↔ a = c := by
  refine ⟨fun h => ?_, fun h => congrArg _ h⟩
  rw [toLower_of_ne ha] at h
  by_cases hc : 'A'.val ≤ c.val ∧ c.val ≤ 'Z'.val
  · rw [h] at ha'
    exact absurd (toLower_lowercase hc) ha'
  · rwa [toLower_of_ne hc] at h

lemma eq_of_map_toLower (hcs : ∀ c ∈ cs, ¬ ('A'.val ≤ c.val ∧ c.val ≤ 'Z'.val) ∧ ¬ ('a'.val ≤ c.val ∧ c.val ≤ 'z'.val))
    (h : cs.map Char.toLower = ds.map Char.toLower) : cs = ds := by
  induction cs generalizing ds with
  | nil => simpa [eq_comm] using h
  | cons c cs ih =>
    rw [List.forall_mem_cons] at hcs
    obtain ⟨e, ds', rfl, he, hds⟩ := List.map_eq_cons_iff.1 h.symm
    rw [(toLower_eq_toLower_iff hcs.1.1 hcs.1.2).1 he.symm, ih hcs.2 hds.symm]

lemma toList_toLower (s : String) : s.toLower.toList = s.toList.map Char.toLower := String.toList_map

lemma toList_toLower_ofList (cs : List Char) : (String.ofList cs).toLower.toList = cs.map Char.toLower := by
  rw [toList_toLower, String.toList_ofList]

end Case

lemma not_prefix_of_not_infix {α : Type} {row cs back ds : List α} (hcs : ¬ row <:+: cs)
    (hrow : ∀ k, 0 < k → k < row.length → ¬ row.drop k <+: row) (hb : back <:+ cs) (hne : back ≠ []) :
    ¬ row <+: back ++ (row ++ ds) := by
  intro h
  rcases Nat.le_total row.length back.length with hle | hle
  · exact hcs ((List.prefix_of_prefix_length_le h (List.prefix_append back _) hle).isInfix.trans hb.isInfix)
  · obtain ⟨tail, rfl⟩ := List.prefix_of_prefix_length_le (List.prefix_append back (row ++ ds)) h hle
    have htail : tail <+: back ++ tail :=
      List.prefix_of_prefix_length_le ((List.prefix_append_right_inj back).1 h) (List.prefix_append _ ds)
        (by simp)
    rcases List.eq_nil_or_concat tail with rfl | ⟨_, _, rfl⟩
    · rw [List.append_nil] at hcs
      exact hcs hb.isInfix
    · refine hrow back.length (List.length_pos_iff.2 hne) (by simp) ?_
      rwa [List.drop_left]

namespace Markup

open Document

variable {d : Document} {b x : Position} {cs ds : List Char} {p : Char → Bool}

/-- What is left of a window from a place on are some characters. -/
def Reads (d : Document) (b x : Position) (cs : List Char) : Prop := RestAt d b x (glyphsFrom x cs)

lemma Reads.split (hb : d.Valid b) (h : Reads d b x (cs ++ ds)) :
    Reads d b (x.along cs) ds ∧ d.textOf (.along x cs) = .ofList cs := by
  obtain ⟨hspells, rfl⟩ := Spells.of_glyphs h.valid hb h.le h.glyphs.symm
  have hrest := hspells.right
  rw [Position.along_append]
  exact ⟨⟨hrest.valid, Position.le_along _ ds, hrest.glyphs.symm⟩, hspells.left.textOf_along⟩

lemma Reads.append (hb : d.Valid b) (h : Reads d b x (cs ++ ds)) : Reads d b (x.along cs) ds := (h.split hb).1

lemma Reads.token (hb : d.Valid b) (h : Reads d b x (cs ++ ds)) :
    tokenUpTo b d (glyphsFrom x (cs ++ ds)) (glyphsFrom (x.along cs) ds) = .along x cs := by
  obtain ⟨hrest, htext⟩ := h.split hb
  rw [tokenUpTo_eq hb h hrest (x.le_along cs)]
  exact congrArg (Token.mk _) htext

lemma skipWhile_of_head (h : ∀ c ∈ cs.head?, p c = false) : skipWhile p (glyphsFrom x cs) = glyphsFrom x cs := by
  cases cs with
  | nil => rfl
  | cons c cs => exact List.dropWhile_cons_of_neg (by simpa using h c rfl)

lemma skipWhile_glyphsFrom (hcs : ∀ c ∈ cs, p c = true) (hds : ∀ c ∈ ds.head?, p c = false) :
    skipWhile p (glyphsFrom x (cs ++ ds)) = glyphsFrom (x.along cs) ds := by
  induction cs generalizing x with
  | nil => exact skipWhile_of_head hds
  | cons c cs ih =>
    rw [List.forall_mem_cons] at hcs
    exact (List.dropWhile_cons_of_pos (p := fun g : Glyph => p g.char) hcs.1).trans (ih hcs.2)

lemma drop_glyphsFrom : (glyphsFrom x (cs ++ ds)).drop cs.length = glyphsFrom (x.along cs) ds := by
  induction cs generalizing x with
  | nil => rfl
  | cons c cs ih => exact ih

lemma startsWith_iff {gs : List Glyph} :
    startsWith cs gs = true ↔ cs.map Char.toLower <+: (gs.map (·.char)).map Char.toLower := by
  induction cs generalizing gs with
  | nil => simp [startsWith]
  | cons c cs ih =>
    cases gs with
    | nil => simp [startsWith]
    | cons g gs => simp [startsWith, List.cons_prefix_cons, ih]

lemma startsWith_glyphsFrom :
    startsWith cs (glyphsFrom x ds) = true ↔ cs.map Char.toLower <+: ds.map Char.toLower := by
  rw [startsWith_iff, map_char_glyphsFrom]

/-- A row of characters, whatever their case, that starts at no place of a text before the one where it is
written. -/
structure FirstBehind (row cs : List Char) : Prop where
  ne_nil : row ≠ []
  not_infix : ¬ row.map Char.toLower <:+: cs.map Char.toLower
  no_overlap : ∀ k, 0 < k → k < row.length → ¬ (row.map Char.toLower).drop k <+: row.map Char.toLower

namespace FirstBehind

variable {row : List Char} {c : Char}

lemma of_cons (h : FirstBehind row (c :: cs)) : FirstBehind row cs :=
  ⟨h.ne_nil, fun hi => h.not_infix (hi.trans (List.suffix_cons _ _).isInfix), h.no_overlap⟩

lemma startsWith_cons (h : FirstBehind row (c :: cs)) :
    startsWith row (glyphsFrom x (c :: cs ++ (row ++ ds))) = false := by
  rw [Bool.eq_false_iff, Ne, startsWith_glyphsFrom, List.map_append, List.map_append]
  refine not_prefix_of_not_infix h.not_infix (fun k hk hlt => ?_) (List.suffix_refl _) (by simp)
  exact h.no_overlap k hk (by simpa using hlt)

lemma startsWith_row : startsWith row (glyphsFrom x (row ++ ds)) = true := by
  rw [startsWith_glyphsFrom, List.map_append]
  exact List.prefix_append _ _

end FirstBehind

lemma skipPast_glyphsFrom {row : List Char} (h : FirstBehind row cs) :
    skipPast row (glyphsFrom x (cs ++ (row ++ ds))) = glyphsFrom (x.along (cs ++ row)) ds := by
  induction cs generalizing x with
  | nil =>
    obtain ⟨c, row', rfl⟩ := List.exists_cons_of_ne_nil h.ne_nil
    have hs : startsWith (c :: row') (glyphsFrom x (c :: row' ++ ds)) = true := FirstBehind.startsWith_row
    rw [List.cons_append, glyphsFrom] at hs
    rw [List.nil_append, List.nil_append, ← drop_glyphsFrom, List.cons_append, glyphsFrom, skipPast, if_pos hs]
  | cons c cs ih =>
    have hs : startsWith row (glyphsFrom x (c :: cs ++ (row ++ ds))) = false := h.startsWith_cons
    rw [List.cons_append, glyphsFrom] at hs ⊢
    rw [skipPast, if_neg (by rw [hs]; decide)]
    exact ih h.of_cons

lemma not_isBlank_of_isAttributeNameChar {c : Char} (h : isAttributeNameChar c = true) :
    CharClass.isBlank c = false ∧ ∀ e ∈ ['=', '>', '/', '<', '"'], c ≠ e := by
  simp only [isAttributeNameChar, Bool.and_eq_true, Bool.not_eq_true', Bool.or_eq_false_iff, beq_eq_false_iff_ne] at h
  simp [h]

lemma attributeValue?_quoted (hb : d.Valid b) {v : List Char} (hv : '"' ∉ v)
    (h : Reads d b x ('"' :: (v ++ '"' :: ds))) :
    attributeValue? b d (glyphsFrom x ('"' :: (v ++ '"' :: ds))) =
      some (.along (x.advance '"') v, glyphsFrom (x.along ('"' :: (v ++ ['"']))) ds) := by
  have hq : skipWhile (· != '"') (glyphsFrom (x.advance '"') (v ++ '"' :: ds)) =
      glyphsFrom ((x.advance '"').along v) ('"' :: ds) :=
    skipWhile_glyphsFrom (fun c hc => by simpa using fun h : c = '"' => hv (h ▸ hc)) (by simp)
  have hrest : Reads d b (x.along ['"']) (v ++ '"' :: ds) := h.append hb
  have htoken := hrest.token hb
  rw [glyphsFrom, attributeValue?, if_pos (.inl rfl), hq]
  simp only [Position.along_cons, Position.along_nil, glyphsFrom] at htoken ⊢
  rw [htoken]
  simp [Position.along_append]

lemma skipAttributeName_print {name : List Char} (hne : name ≠ []) (hname : ∀ c ∈ name, isAttributeNameChar c = true)
    (hds : ∀ c ∈ ds.head?, isAttributeNameChar c = false) :
    skipAttributeName (glyphsFrom x (name ++ ds)) = glyphsFrom (x.along name) ds := by
  obtain ⟨c, name, rfl⟩ := List.exists_cons_of_ne_nil hne
  rw [List.forall_mem_cons] at hname
  rw [List.cons_append, glyphsFrom, skipAttributeName, if_pos hname.1, skipWhile_glyphsFrom hname.2 hds]
  rfl

def EndsAttribute (ds : List Char) : Prop :=
  (∀ c ∈ ds.head?, isAttributeNameChar c = false) ∧ ∀ c ∈ (ds.dropWhile CharClass.isBlank).head?, c ≠ '='

lemma skipWhile_eq (p : Char → Bool) (x : Position) (cs : List Char) :
    skipWhile p (glyphsFrom x cs) = glyphsFrom (x.along (cs.takeWhile p)) (cs.dropWhile p) := by
  conv_lhs => rw [← List.takeWhile_append_dropWhile (p := p) (l := cs)]
  refine skipWhile_glyphsFrom (fun c hc => List.all_eq_true.1 List.all_takeWhile c hc) fun c hc => ?_
  have := List.head?_dropWhile_not p cs
  rw [Option.mem_def.1 hc] at this
  simpa using this

theorem attribute?_print (hb : d.Valid b) {a : SourceAttribute} (ha : a.WellFormed) (hds : EndsAttribute ds)
    (h : Reads d b x (a.name ++ (SourceAttribute.printValue a.value ++ ds))) :
    attribute? b d (glyphsFrom x (a.name ++ (SourceAttribute.printValue a.value ++ ds))) =
      some (a.placed x, glyphsFrom (x.along (a.name ++ SourceAttribute.printValue a.value)) ds) := by
  obtain ⟨name, value⟩ := a
  have htoken := h.token hb
  have hrest := h.append hb
  unfold attribute?
  dsimp only at *
  cases value with
  | none =>
    rw [SourceAttribute.printValue, List.nil_append] at *
    rw [skipAttributeName_print ha.ne_nil ha.name hds.1, htoken, skipWhile_eq, List.append_nil]
    cases hd : ds.dropWhile CharClass.isBlank with
    | nil => rfl
    | cons c tail =>
      have hc : c ≠ '=' := hds.2 c (by rw [hd]; rfl)
      simp only [glyphsFrom]
      rw [if_neg hc]
      rfl
  | some v =>
    have hprint : SourceAttribute.printValue (some v) ++ ds = '=' :: '"' :: (v ++ '"' :: ds) := by
      simp [SourceAttribute.printValue]
    rw [hprint] at hrest
    have hquoted : Reads d b ((x.along name).along ['=']) ('"' :: (v ++ '"' :: ds)) := hrest.append hb
    have hvalue := attributeValue?_quoted hb (ha.value v rfl) hquoted
    have hend (c : Char) (hc : c ∈ (SourceAttribute.printValue (some v) ++ ds).head?) : c = '=' := by
      simpa [hprint, eq_comm] using hc
    rw [skipAttributeName_print ha.ne_nil ha.name fun c hc => by rw [hend c hc]; decide, htoken, hprint]
    have hequals : skipWhile CharClass.isBlank (glyphsFrom (x.along name) ('=' :: '"' :: (v ++ '"' :: ds))) =
        glyphsFrom (x.along name) ('=' :: '"' :: (v ++ '"' :: ds)) := skipWhile_of_head (by simp; decide)
    have hquote : skipWhile CharClass.isBlank (glyphsFrom ((x.along name).along ['=']) ('"' :: (v ++ '"' :: ds))) =
        glyphsFrom ((x.along name).along ['=']) ('"' :: (v ++ '"' :: ds)) := skipWhile_of_head (by simp; decide)
    rw [hequals]
    simp only [Position.along_cons, Position.along_nil, glyphsFrom] at hquote hvalue ⊢
    rw [if_pos trivial, hquote, hvalue]
    simp [SourceAttribute.placed, SourceAttribute.printValue, Position.along_append]

section

variable {limit : Position} {acc : List Attribute} {g : Glyph} {gs rest : List Glyph}

lemma attributes?_close (hs : skipWhile CharClass.isBlank gs = g :: rest) (hg : g.char = '>') :
    attributes? limit d acc gs = some (acc.reverse, false, rest) := by
  rw [attributes?_of_cons hs, if_pos hg]

lemma attributes?_slash (hs : skipWhile CharClass.isBlank gs = g :: rest) (hg : g.char = '/')
    (hrest : startsWith ['>'] rest = true) :
    attributes? limit d acc gs = some (acc.reverse, true, rest.drop 1) := by
  rw [attributes?_of_cons hs, if_neg (by rw [hg]; decide), if_pos hg, if_pos hrest]

lemma attributes?_attribute (hs : skipWhile CharClass.isBlank gs = g :: rest)
    (hg : isAttributeNameChar g.char = true) {a : Attribute} {after : List Glyph}
    (ha : attribute? limit d (g :: rest) = some (a, after)) :
    attributes? limit d acc gs = attributes? limit d (a :: acc) after := by
  have hne := (not_isBlank_of_isAttributeNameChar hg).2
  rw [attributes?_of_cons hs, if_neg (hne '>' (by simp)), if_neg (hne '/' (by simp)), if_neg (hne '<' (by simp)), ha]
  rfl

end

/-- The ends of an opening tag: what says whether it closes itself may be set off by a space. -/
inductive TagEnding : List Char → Bool → Prop
  | plain : TagEnding ['>'] false
  | slash : TagEnding ['/', '>'] true
  | spaced : TagEnding [' ', '/', '>'] true

lemma tagEnding_tagEnd (slash : Bool) : TagEnding (tagEnd slash) slash := by
  cases slash with
  | false => exact .plain
  | true => exact .slash

section Ending

variable {ending : List Char} {slash : Bool}

lemma endsAttribute_ending (he : TagEnding ending slash) (attributes : List SourceAttribute)
    (h : ∀ a ∈ attributes, a.WellFormed) :
    EndsAttribute (attributes.flatMap SourceAttribute.print ++ (ending ++ ds)) := by
  cases attributes with
  | nil => cases he <;> exact ⟨by simp; decide, by simp [CharClass.isBlank]⟩
  | cons a attributes =>
    have ha := h a List.mem_cons_self
    obtain ⟨c, name, hname⟩ := List.exists_cons_of_ne_nil ha.ne_nil
    have hc := not_isBlank_of_isAttributeNameChar (ha.name c (by simp [hname]))
    refine ⟨by simp [SourceAttribute.print]; decide, ?_⟩
    have hblank : CharClass.isBlank ' ' = true := by decide
    simpa [SourceAttribute.print, hname, hblank, hc.1] using hc.2 '=' (by simp)

lemma attributes?_ending (he : TagEnding ending slash) (acc : List Attribute) :
    attributes? b d acc (glyphsFrom x (ending ++ ds)) =
      some (acc.reverse, slash, glyphsFrom (x.along ending) ds) := by
  have hslash (y : Position) : skipWhile CharClass.isBlank (glyphsFrom y ('/' :: '>' :: ds)) =
      glyphsFrom y ('/' :: '>' :: ds) := skipWhile_of_head (by simp; decide)
  cases he with
  | plain =>
    have hclose : skipWhile CharClass.isBlank (glyphsFrom x ('>' :: ds)) = glyphsFrom x ('>' :: ds) :=
      skipWhile_of_head (by simp; decide)
    exact attributes?_close hclose rfl
  | slash => exact attributes?_slash (hslash x) rfl rfl
  | spaced =>
    have hspace : skipWhile CharClass.isBlank (glyphsFrom x (' ' :: '/' :: '>' :: ds)) =
        glyphsFrom (x.advance ' ') ('/' :: '>' :: ds) := hslash (x.advance ' ')
    exact attributes?_slash hspace rfl rfl

/-- The attributes of a tag and the end of it. -/
theorem attributes?_print (hb : d.Valid b) {attributes : List SourceAttribute} (ha : ∀ a ∈ attributes, a.WellFormed)
    (he : TagEnding ending slash) (acc : List Attribute)
    (h : Reads d b x (attributes.flatMap SourceAttribute.print ++ (ending ++ ds))) :
    attributes? b d acc (glyphsFrom x (attributes.flatMap SourceAttribute.print ++ (ending ++ ds))) =
      some (acc.reverse ++ SourceAttribute.placedFrom x attributes, slash,
        glyphsFrom (x.along (attributes.flatMap SourceAttribute.print ++ ending)) ds) := by
  induction attributes generalizing x acc with
  | nil =>
    rw [List.flatMap_nil, List.nil_append, List.nil_append, SourceAttribute.placedFrom, List.append_nil]
    exact attributes?_ending he acc
  | cons a attributes ih =>
    rw [List.forall_mem_cons] at ha
    rw [List.flatMap_cons] at h ⊢
    set tail := attributes.flatMap SourceAttribute.print ++ (ending ++ ds) with htail
    have hprint : a.print ++ attributes.flatMap SourceAttribute.print ++ (ending ++ ds) =
        [' '] ++ (a.name ++ (SourceAttribute.printValue a.value ++ tail)) := by
      simp [SourceAttribute.print, htail]
    obtain ⟨c, name, hname⟩ := List.exists_cons_of_ne_nil ha.1.ne_nil
    have hc : isAttributeNameChar c = true := ha.1.name c (by simp [hname])
    rw [hprint] at h ⊢
    have hrest := h.append hb
    have hread := attribute?_print hb ha.1 (endsAttribute_ending he attributes ha.2) hrest
    have hskip : skipWhile CharClass.isBlank (glyphsFrom x ([' '] ++ (a.name ++
        (SourceAttribute.printValue a.value ++ tail)))) =
        glyphsFrom (x.along [' ']) (a.name ++ (SourceAttribute.printValue a.value ++ tail)) :=
      skipWhile_glyphsFrom (by simp; decide) (by simpa [hname] using (not_isBlank_of_isAttributeNameChar hc).1)
    have hhead : glyphsFrom (x.along [' ']) (a.name ++ (SourceAttribute.printValue a.value ++ tail)) =
        ⟨c, x.along [' '], (x.along [' ']).advance c⟩ ::
          glyphsFrom ((x.along [' ']).advance c) (name ++ (SourceAttribute.printValue a.value ++ tail)) := by
      rw [hname]
      rfl
    have hafter : Reads d b ((x.along [' ']).along (a.name ++ SourceAttribute.printValue a.value)) tail := by
      rw [← List.append_assoc] at hrest
      exact hrest.append hb
    rw [attributes?_attribute (hskip.trans hhead) hc (hhead ▸ hread), ih ha.2 _ hafter]
    simp [SourceAttribute.placedFrom, SourceAttribute.print, Position.along_append]

end Ending

section Tag

variable {name ending : List Char} {attributes : List SourceAttribute} {slash : Bool}

lemma not_isNameChar_tag (he : TagEnding ending slash) :
    ∀ c ∈ (attributes.flatMap SourceAttribute.print ++ (ending ++ ds)).head?, isNameChar c = false := by
  cases attributes with
  | nil => cases he <;> simp <;> decide
  | cons a attributes => simp [SourceAttribute.print]; decide

theorem openingTag?_print (hb : d.Valid b) (hn : IsName name) (ha : ∀ a ∈ attributes, a.WellFormed)
    (he : TagEnding ending slash) (h : Reads d b x (openTagWith name attributes ending ++ ds)) :
    openingTag? b d (glyphsFrom x (openTagWith name attributes ending ++ ds)) =
      some (.along (x.advance '<') name, SourceAttribute.placedFrom ((x.advance '<').along name) attributes, slash,
        glyphsFrom (x.along (openTagWith name attributes ending)) ds) := by
  set tail := attributes.flatMap SourceAttribute.print ++ (ending ++ ds) with htail
  have hprint : openTagWith name attributes ending ++ ds = ['<'] ++ (name ++ tail) := by simp [openTagWith, htail]
  rw [hprint] at h ⊢
  obtain ⟨c, hc, hfirst⟩ := hn.first
  obtain ⟨name', hname⟩ : ∃ name', name = c :: name' := by
    cases name with
    | nil => cases hc
    | cons e name' =>
      cases hc
      exact ⟨name', rfl⟩
  have hrest := h.append hb
  have htoken := hrest.token hb
  have hread := attributes?_print hb ha he [] (hrest.append hb)
  have hskip : skipWhile isNameChar (glyphsFrom (x.along ['<']) (name ++ tail)) =
      glyphsFrom ((x.along ['<']).along name) tail := skipWhile_glyphsFrom hn.all (not_isNameChar_tag he)
  have hdrop : (glyphsFrom x (['<'] ++ (name ++ tail))).drop 1 = glyphsFrom (x.along ['<']) (name ++ tail) := rfl
  have hhead : glyphsFrom (x.along ['<']) (name ++ tail) =
      ⟨c, x.along ['<'], (x.along ['<']).advance c⟩ :: glyphsFrom ((x.along ['<']).advance c) (name' ++ tail) := by
    rw [hname]
    rfl
  unfold openingTag?
  dsimp only
  rw [hdrop, hskip, hread, htoken, hhead]
  simp [hfirst, openTagWith, Position.along_append]

theorem closingTag?_print (hb : d.Valid b) (hn : ∀ c ∈ name, isNameChar c = true)
    (h : Reads d b x (closeTag name ++ ds)) :
    closingTag? b d (glyphsFrom x (closeTag name ++ ds)) = some (.along (x.along ['<', '/']) name,
      .along x (closeTag name), glyphsFrom (x.along (closeTag name)) ds) := by
  have htoken := h.token hb
  have hprint : closeTag name ++ ds = ['<', '/'] ++ (name ++ '>' :: ds) := by simp [closeTag]
  have hname := (Reads.append hb (hprint ▸ h)).token hb
  have hskip : skipWhile isNameChar (glyphsFrom (x.along ['<', '/']) (name ++ '>' :: ds)) =
      glyphsFrom ((x.along ['<', '/']).along name) ('>' :: ds) := skipWhile_glyphsFrom hn (by simp; decide)
  have hend : skipWhile (fun c => c != '>' && c != '<') (glyphsFrom ((x.along ['<', '/']).along name) ('>' :: ds)) =
      glyphsFrom ((x.along ['<', '/']).along name) ('>' :: ds) := skipWhile_of_head (by simp)
  have hdrop : (glyphsFrom x (['<', '/'] ++ (name ++ '>' :: ds))).drop 2 =
      glyphsFrom (x.along ['<', '/']) (name ++ '>' :: ds) := rfl
  have halong : x.along (closeTag name) = ((x.along ['<', '/']).along name).advance '>' := by
    simp [closeTag, Position.along_append]
  rw [hprint] at htoken ⊢
  rw [halong] at htoken ⊢
  unfold closingTag?
  dsimp only
  rw [hdrop, hskip, hend, hname]
  simp only [glyphsFrom] at htoken ⊢
  rw [if_pos trivial, htoken]

/-- The closing tag of an element starts nowhere in its raw text. -/
lemma firstBehind_closing (hn : ∀ c ∈ name, isNameChar c = true)
    (hcs : ¬ ('<' :: '/' :: name).map Char.toLower <:+: cs.map Char.toLower) :
    FirstBehind ('<' :: '/' :: name) cs := by
  refine ⟨List.cons_ne_nil _ _, hcs, fun k hk hlt hp => ?_⟩
  obtain ⟨k, rfl⟩ : ∃ m, k = m + 1 := ⟨k - 1, by omega⟩
  have hmem : '<' ∈ ('/' :: name).map Char.toLower := by
    rw [List.map_cons, List.drop_succ_cons] at hp
    cases hd : (('/' :: name).map Char.toLower).drop k with
    | nil =>
      rw [List.drop_eq_nil_iff, List.length_map] at hd
      rw [List.length_cons] at hlt
      omega
    | cons e tail =>
      rw [hd, List.cons_prefix_cons] at hp
      have he : e = '<' := hp.1
      exact List.mem_of_mem_drop (i := k) (by rw [hd, he]; exact List.mem_cons_self)
  obtain ⟨e, he, hlower⟩ := List.mem_map.1 hmem
  have hlt : '<' = e := (toLower_eq_toLower_iff (by decide) (by decide)).1 (hlower.trans (by decide)).symm
  rcases List.mem_cons.1 he with rfl | he
  · exact absurd hlt (by decide)
  · have := hn e he
    rw [← hlt] at this
    exact absurd this (by decide)

lemma firstBehind_angle (hn : ∀ c ∈ name, isNameChar c = true) : FirstBehind ['>'] ('<' :: '/' :: name) := by
  refine ⟨List.cons_ne_nil _ _, fun hi => ?_, fun k hk hlt => absurd hlt (by simp; omega)⟩
  obtain ⟨e, he, hlower⟩ := List.mem_map.1 (hi.subset List.mem_cons_self)
  have hgt : '>' = e := (toLower_eq_toLower_iff (by decide) (by decide)).1 hlower.symm
  subst hgt
  have he : '>' ∈ name := by simpa using he
  exact absurd (hn _ he) (by decide)

lemma startsWith_closing {gs : List Glyph} :
    startsWith ('<' :: '/' :: (String.ofList name).toLower.toList) gs = startsWith ('<' :: '/' :: name) gs := by
  have hlower : (Char.toLower ∘ Char.toLower) = Char.toLower := funext toLower_toLower
  rw [Bool.eq_iff_iff, startsWith_iff, startsWith_iff, toList_toLower_ofList]
  simp only [List.map_cons, List.map_map, hlower]

theorem rawBody_print (hb : d.Valid b) (hn : ∀ c ∈ name, isNameChar c = true)
    (hcs : FirstBehind ('<' :: '/' :: name) cs) (h : Reads d b x (cs ++ (closeTag name ++ ds))) :
    rawBody b d (String.ofList name).toLower (glyphsFrom x (cs ++ (closeTag name ++ ds))) =
      (some (.along (x.along cs) (closeTag name)), glyphsFrom (x.along (cs ++ closeTag name)) ds) := by
  have hprint : closeTag name ++ ds = '<' :: '/' :: name ++ (['>'] ++ ds) := by simp [closeTag]
  induction cs generalizing x with
  | nil =>
    rw [List.nil_append] at h
    have htoken := h.token hb
    have hs : startsWith ('<' :: '/' :: (String.ofList name).toLower.toList)
        (glyphsFrom x ('<' :: '/' :: name ++ (['>'] ++ ds))) = true :=
      startsWith_closing.trans FirstBehind.startsWith_row
    have hskip : skipPast ['>'] (glyphsFrom x ('<' :: '/' :: name ++ (['>'] ++ ds))) =
        glyphsFrom (x.along (closeTag name)) ds := skipPast_glyphsFrom (firstBehind_angle hn)
    rw [List.nil_append, List.nil_append, Position.along_nil, ← htoken, ← hskip, hprint]
    simp only [List.cons_append, glyphsFrom] at hs ⊢
    rw [rawBody, if_pos hs]
  | cons c cs ih =>
    have hs : startsWith ('<' :: '/' :: (String.ofList name).toLower.toList)
        (glyphsFrom x (c :: cs ++ ('<' :: '/' :: name ++ (['>'] ++ ds)))) = false :=
      startsWith_closing.trans hcs.startsWith_cons
    rw [← hprint, List.cons_append, glyphsFrom] at hs
    rw [List.cons_append, glyphsFrom, rawBody, if_neg (by rw [hs]; decide)]
    have hrest : Reads d b (x.along [c]) (cs ++ (closeTag name ++ ds)) := h.append hb
    exact ih hcs.of_cons hrest

end Tag

end Markup
end AbbrevSite
