import AbbrevSite.Markup.Piece
import AbbrevSite.Proofs.Text.Places
import AbbrevSite.Proofs.Tree.Tokens

/-! Where the readers of a markup text stop. Each of them leaves a rest of the window that starts at a place at or
behind the one it started from, and the tokens it returns stand in order between the two. -/
namespace AbbrevSite

def Attribute.tokens (a : Attribute) : List Token := a.name :: a.value.toList

namespace Markup

open Document

/-- What is left of a window that ends at `b` when it is read up to `x`. -/
structure RestAt (d : Document) (b x : Position) (gs : List Glyph) : Prop where
  valid : d.Valid x
  le : x ≤ b
  glyphs : gs = d.glyphs x b

variable {d : Document} {b x y : Position} {gs mid rest : List Glyph} {g : Glyph} {t : Token} {a : Attribute}

namespace RestAt

lemma place_eq (hb : d.Valid b) (h : RestAt d b x gs) : place b gs = x := by
  rw [h.glyphs]
  rcases lt_or_eq_of_le h.le with hlt | rfl
  · rw [glyphs_cons hb hlt]
    rfl
  · rw [glyphs_self]
    rfl

lemma suffix (hb : d.Valid b) (h : RestAt d b x gs) (hs : rest <:+ gs) :
    ∃ y, RestAt d b y rest ∧ x ≤ y ∧ (rest.length < gs.length → x < y) := by
  obtain ⟨front, rfl⟩ := hs
  obtain ⟨y, hy, hxy, hyb, hfront, hrest⟩ := exists_glyphs_split h.valid hb h.le h.glyphs.symm
  refine ⟨y, ⟨hy, hyb, hrest.symm⟩, hxy, fun hlt => lt_of_le_of_ne hxy ?_⟩
  rintro rfl
  rw [glyphs_self] at hfront
  rw [← hfront, List.nil_append] at hlt
  exact absurd hlt (lt_irrefl _)

lemma nil (hb : d.Valid b) : RestAt d b b [] := ⟨hb, le_refl b, by rw [glyphs_self]⟩

end RestAt

lemma tokenUpTo_eq (hb : d.Valid b) (h : RestAt d b x gs) (h' : RestAt d b y rest) (hxy : x ≤ y) :
    tokenUpTo b d gs rest = ⟨⟨x, y, hxy⟩, d.textOf ⟨x, y, hxy⟩⟩ := by
  unfold tokenUpTo
  rw [h.place_eq hb, h'.place_eq hb, Span.between_of_le hxy]

lemma inOrder_tokenUpTo (hb : d.Valid b) (h : RestAt d b x gs) (h' : RestAt d b y rest) (hxy : x ≤ y) :
    d.InOrder x [tokenUpTo b d gs rest] y := by
  rw [tokenUpTo_eq hb h h' hxy]
  exact ⟨le_refl _, rfl, le_refl _⟩

lemma skipWhile_suffix (p : Char → Bool) (gs : List Glyph) : skipWhile p gs <:+ gs :=
  List.dropWhile_suffix _

lemma skipPast_suffix (cs : List Char) (gs : List Glyph) : skipPast cs gs <:+ gs := by
  induction gs with
  | nil => exact List.suffix_refl _
  | cons g gs ih =>
    rw [skipPast]
    split_ifs
    · exact List.drop_suffix _ _
    · exact ih.trans (List.suffix_cons g gs)

lemma skipAttributeName_suffix (gs : List Glyph) : skipAttributeName gs <:+ gs := by
  cases gs with
  | nil => exact List.suffix_refl _
  | cons g gs =>
    rw [skipAttributeName]
    split_ifs
    · exact (skipWhile_suffix _ _).trans (List.suffix_cons g gs)
    · exact List.suffix_cons g gs

/-- Tokens in order from one place of a window on, up to where the rest starts. -/
def ReadsTokens (d : Document) (b x : Position) (ts : List Token) (rest : List Glyph) : Prop :=
  ∃ y, RestAt d b y rest ∧ d.InOrder x ts y

lemma RestAt.noTokens (h : RestAt d b x gs) : ReadsTokens d b x [] gs := ⟨x, h, le_refl x⟩

lemma RestAt.token (hb : d.Valid b) (h : RestAt d b x gs) (hs : rest <:+ gs) :
    ReadsTokens d b x [tokenUpTo b d gs rest] rest := by
  obtain ⟨y, hy, hxy, -⟩ := h.suffix hb hs
  exact ⟨y, hy, inOrder_tokenUpTo hb h hy hxy⟩

lemma RestAt.skip (hb : d.Valid b) (h : RestAt d b x gs) {ts : List Token} (hs : mid <:+ gs)
    (hr : ∀ y, RestAt d b y mid → ReadsTokens d b y ts rest) : ReadsTokens d b x ts rest := by
  obtain ⟨y, hy, hxy, -⟩ := h.suffix hb hs
  obtain ⟨z, hz, hts⟩ := hr y hy
  exact ⟨z, hz, hts.mono hxy (le_refl z)⟩

namespace ReadsTokens

variable {ts us : List Token}

lemma append (h : ReadsTokens d b x ts mid) (h' : ∀ y, RestAt d b y mid → ReadsTokens d b y us rest) :
    ReadsTokens d b x (ts ++ us) rest := by
  obtain ⟨y, hy, hts⟩ := h
  obtain ⟨z, hz, hus⟩ := h' y hy
  exact ⟨z, hz, hts.append hus⟩

lemma skip (hb : d.Valid b) (h : ReadsTokens d b x ts mid) (hs : rest <:+ mid) : ReadsTokens d b x ts rest := by
  obtain ⟨y, hy, hts⟩ := h
  obtain ⟨z, hz, hyz, -⟩ := hy.suffix hb hs
  exact ⟨z, hz, hts.mono (le_refl x) hyz⟩

end ReadsTokens

lemma attributeValue?_reads (hb : d.Valid b) (h : RestAt d b x gs)
    (hv : attributeValue? b d gs = some (t, rest)) : ReadsTokens d b x [t] rest := by
  unfold attributeValue? at hv
  split at hv
  · cases hv
  · rename_i g tail
    split_ifs at hv with hq
    · split at hv
      · cases hv
      · rename_i q after hskip
        cases hv
        refine h.skip hb (List.suffix_cons g tail) fun y hy => ?_
        have := hy.token hb (skipWhile_suffix (· != g.char) tail)
        rw [hskip] at this
        exact this.skip hb (List.suffix_cons q rest)
    · cases hv
      exact h.token hb (skipWhile_suffix _ _)

theorem attribute?_reads (hb : d.Valid b) (h : RestAt d b x gs) (ha : attribute? b d gs = some (a, rest)) :
    ReadsTokens d b x a.tokens rest := by
  have hname := h.token hb (skipAttributeName_suffix gs)
  unfold attribute? at ha
  dsimp only at ha
  split at ha
  · rename_i g after hskip
    split_ifs at ha with heq
    · obtain ⟨⟨value, rest'⟩, hv, he⟩ := Option.map_eq_some_iff.1 ha
      cases he
      have hsuffix : g :: after <:+ skipAttributeName gs := hskip ▸ skipWhile_suffix _ _
      refine hname.append fun y hy => ?_
      refine hy.skip hb ((List.suffix_cons g after).trans hsuffix) fun z hz => ?_
      exact hz.skip hb (skipWhile_suffix _ _) fun w hw => attributeValue?_reads hb hw hv
    · cases ha
      exact hname
  · cases ha
    exact hname

section

variable {limit : Position} {acc : List Attribute}

lemma attributes?_of_nil (hs : skipWhile CharClass.isBlank gs = []) : attributes? limit d acc gs = none := by
  rw [attributes?]
  split
  · rfl
  · rename_i hs'
    rw [hs] at hs'
    cases hs'

lemma attributes?_of_cons (hs : skipWhile CharClass.isBlank gs = g :: rest) :
    attributes? limit d acc gs =
      if g.char = '>' then some (acc.reverse, false, rest)
      else if g.char = '/' then
        if startsWith ['>'] rest then some (acc.reverse, true, rest.drop 1) else attributes? limit d acc rest
      else if g.char = '<' then some (acc.reverse, false, g :: rest)
      else (attribute? limit d (g :: rest)).bind fun found => attributes? limit d (found.1 :: acc) found.2 := by
  rw [attributes?]
  split
  · rename_i hs'
    rw [hs] at hs'
    cases hs'
  · rename_i g' rest' hs'
    obtain ⟨rfl, rfl⟩ := List.cons.inj (hs.symm.trans hs')
    split_ifs
    · rfl
    · rfl
    · rfl
    · rfl
    · split <;> simp_all

end

/-- The attributes of a tag stand in order between its name and its end. -/
theorem attributes?_reads (hb : d.Valid b) {acc attributes : List Attribute} {selfClosing : Bool}
    (h : RestAt d b x gs) (ha : attributes? b d acc gs = some (attributes, selfClosing, rest)) :
    ∃ new, attributes = acc.reverse ++ new ∧ ReadsTokens d b x (new.flatMap Attribute.tokens) rest := by
  have hend {gs : List Glyph} {x : Position} (h : RestAt d b x gs) (acc : List Attribute)
      (hs : rest <:+ gs) : ∃ new, acc.reverse = acc.reverse ++ new ∧
        ReadsTokens d b x (new.flatMap Attribute.tokens) rest :=
    ⟨[], by simp, h.noTokens.skip hb hs⟩
  fun_induction attributes? b d acc gs generalizing x with
  | case1 => cases ha
  | case2 acc gs g tail hskip hg =>
    cases ha
    exact hend h acc ((List.suffix_cons g rest).trans (hskip ▸ skipWhile_suffix _ _))
  | case3 acc gs g tail hskip =>
    cases ha
    exact hend h acc ((List.drop_suffix 1 tail).trans
      ((List.suffix_cons g tail).trans (hskip ▸ skipWhile_suffix _ _)))
  | case4 acc gs g tail hskip _ _ _ ih =>
    obtain ⟨y, hy, hxy, -⟩ := h.suffix hb ((List.suffix_cons g tail).trans (hskip ▸ skipWhile_suffix _ _))
    obtain ⟨new, he, z, hz, hts⟩ := ih hy ha
    exact ⟨new, he, z, hz, hts.mono hxy (le_refl z)⟩
  | case5 acc gs g tail hskip =>
    cases ha
    exact hend h acc (hskip ▸ skipWhile_suffix _ _)
  | case6 => cases ha
  | case7 acc gs g tail hskip _ _ _ a rest' ha' ih =>
    have hs : g :: tail <:+ gs := hskip ▸ skipWhile_suffix _ _
    obtain ⟨y, hy, hxy, -⟩ := h.suffix hb hs
    obtain ⟨z, hz, hts⟩ := attribute?_reads hb hy ha'
    obtain ⟨new, he, w, hw, hus⟩ := ih hz ha
    refine ⟨a :: new, by simpa using he, w, hw, ?_⟩
    rw [List.flatMap_cons]
    exact (hts.mono hxy (le_refl z)).append hus

/-- A closing tag that starts at a place. -/
theorem closingTag?_reads (hb : d.Valid b) (h : RestAt d b x gs) {name whole : Token}
    (hc : closingTag? b d gs = some (name, whole, rest)) :
    ∃ (y : Position) (hxy : x < y), RestAt d b y rest ∧
      whole = ⟨⟨x, y, le_of_lt hxy⟩, d.textOf ⟨x, y, le_of_lt hxy⟩⟩ := by
  unfold closingTag? at hc
  dsimp only at hc
  split at hc
  · rename_i g tail hskip
    split_ifs at hc with hg
    cases hc
    have hs : g :: rest <:+ gs := hskip ▸ (skipWhile_suffix _ _).trans
      ((skipWhile_suffix _ _).trans (List.drop_suffix 2 gs))
    obtain ⟨y, hy, -, hlt⟩ := h.suffix hb ((List.suffix_cons g rest).trans hs)
    have hxy := hlt (Nat.lt_of_lt_of_le (Nat.lt_succ_self _) hs.length_le)
    exact ⟨y, hxy, hy, tokenUpTo_eq hb h hy (le_of_lt hxy)⟩
  · cases hc

/-- An opening tag that starts at a place: its name and its attributes stand in order in it. -/
theorem openingTag?_reads (hb : d.Valid b) (h : RestAt d b x gs) {name : Token} {attributes : List Attribute}
    {selfClosing : Bool} (ho : openingTag? b d gs = some (name, attributes, selfClosing, rest)) :
    ∃ y, RestAt d b y rest ∧ x < y ∧ d.InOrder x (name :: attributes.flatMap Attribute.tokens) y := by
  unfold openingTag? at ho
  dsimp only at ho
  split at ho
  · cases ho
  · rename_i g tail hdrop
    split_ifs at ho with hg
    obtain ⟨⟨attributes', selfClosing', rest'⟩, ha, he⟩ := Option.map_eq_some_iff.1 ho
    cases he
    obtain ⟨y, hy, -, hlt⟩ := h.suffix hb (List.drop_suffix 1 gs)
    have hxy : x < y := by
      refine hlt ?_
      have hne : gs ≠ [] := by
        rintro rfl
        cases hdrop
      have := List.length_pos_iff.2 hne
      rw [List.length_drop]
      omega
    have hattributes (w : Position) (hw : RestAt d b w (skipWhile isNameChar (gs.drop 1))) :
        ReadsTokens d b w (attributes'.flatMap Attribute.tokens) rest' := by
      obtain ⟨new, rfl, hnew⟩ := attributes?_reads hb hw ha
      exact hnew
    obtain ⟨z, hz, hts⟩ := (hy.token hb (skipWhile_suffix isNameChar (gs.drop 1))).append hattributes
    exact ⟨z, hz, hxy.trans_le hts.le, hts.mono (le_of_lt hxy) (le_refl z)⟩

theorem rawBody_reads (hb : d.Valid b) (h : RestAt d b x gs) (name : String) :
    ReadsTokens d b x (rawBody b d name gs).1.toList (rawBody b d name gs).2 := by
  induction gs generalizing x with
  | nil => exact h.noTokens
  | cons g gs ih =>
    rw [rawBody]
    split_ifs with hs
    · exact h.token hb (skipPast_suffix ['>'] (g :: gs))
    · exact h.skip hb (List.suffix_cons g gs) fun y hy => ih hy

end Markup
end AbbrevSite
