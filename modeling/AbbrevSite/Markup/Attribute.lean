import AbbrevSite.Markup.Scan

/-! The attributes of an opening tag. -/
namespace AbbrevSite.Markup

def isAttributeNameChar (c : Char) : Bool :=
  !CharClass.isBlank c && !(c == '=' || c == '>' || c == '/' || c == '<' || c == '"' || c == '\'')

def isBareValueChar (c : Char) : Bool := !CharClass.isBlank c && c != '>' && c != '<'

/-- The value of an attribute after its `=`, and the rest. None if the text ends in it. -/
def attributeValue? (limit : Position) (d : Document) (gs : List Glyph) :
    Option (Token × List Glyph) :=
  match gs with
  | [] => none
  | g :: rest =>
    if g.char = '"' ∨ g.char = '\'' then
      match skipWhile (· != g.char) rest with
      | [] => none
      | q :: after => some (tokenUpTo limit d rest (q :: after), after)
    else
      let after := skipWhile isBareValueChar gs
      some (tokenUpTo limit d gs after, after)

/-- The rest after the name of an attribute; a character that can start no name is a name alone. -/
def skipAttributeName : List Glyph → List Glyph
  | [] => []
  | g :: gs => if isAttributeNameChar g.char then skipWhile isAttributeNameChar gs else gs

/-- An attribute and the rest. None if the text ends in it. -/
def attribute? (limit : Position) (d : Document) (gs : List Glyph) :
    Option (Attribute × List Glyph) :=
  let afterName := skipAttributeName gs
  let name := tokenUpTo limit d gs afterName
  match skipWhile CharClass.isBlank afterName with
  | g :: rest =>
    if g.char = '=' then
      (attributeValue? limit d (skipWhile CharClass.isBlank rest)).map fun (value, after) =>
        (⟨name, some value⟩, after)
    else some (⟨name, none⟩, afterName)
  | [] => some (⟨name, none⟩, afterName)

theorem length_attributeValue? {limit : Position} {d : Document} {gs rest : List Glyph} {t : Token}
    (h : attributeValue? limit d gs = some (t, rest)) : rest.length ≤ gs.length := by
  unfold attributeValue? at h
  split at h
  · simp at h
  · rename_i g r
    split at h
    · split at h
      · simp at h
      · rename_i q after heq
        have := length_skipWhile (· != g.char) r
        simp_all
        omega
    · have := length_skipWhile isBareValueChar (g :: r)
      simp_all

theorem length_skipAttributeName {g : Glyph} {gs : List Glyph} :
    (skipAttributeName (g :: gs)).length ≤ gs.length := by
  simp only [skipAttributeName]
  split
  · exact length_skipWhile _ _
  · exact Nat.le_refl _

theorem length_attribute? {limit : Position} {d : Document} {g : Glyph} {gs rest : List Glyph}
    {a : Attribute} (h : attribute? limit d (g :: gs) = some (a, rest)) :
    rest.length ≤ gs.length := by
  have hn := @length_skipAttributeName g gs
  unfold attribute? at h
  simp only at h
  split at h
  · rename_i g' r heq
    have hb := length_skipWhile CharClass.isBlank (skipAttributeName (g :: gs))
    rw [heq] at hb
    split at h
    · obtain ⟨⟨v, after⟩, hv, he⟩ := Option.map_eq_some_iff.1 h
      have h1 := length_attributeValue? hv
      have h2 := length_skipWhile CharClass.isBlank r
      simp only [Prod.mk.injEq] at he
      simp only [List.length_cons] at hb
      rw [← he.2]
      omega
    · simp only [Option.some.injEq, Prod.mk.injEq] at h
      rw [← h.2]; exact hn
  · simp only [Option.some.injEq, Prod.mk.injEq] at h
    rw [← h.2]; exact hn

/-- The attributes of an opening tag after its name, those before it in `acc`, last first; whether the
tag closes itself; and the rest after it. A `<` ends the tag and belongs to the rest. None if the
text ends in the tag. -/
def attributes? (limit : Position) (d : Document) (acc : List Attribute) (gs : List Glyph) :
    Option (List Attribute × Bool × List Glyph) :=
  match _h : skipWhile CharClass.isBlank gs with
  | [] => none
  | g :: rest =>
    if g.char = '>' then some (acc.reverse, false, rest)
    else if g.char = '/' then
      if startsWith ['>'] rest then some (acc.reverse, true, rest.drop 1)
      else attributes? limit d acc rest
    else if g.char = '<' then some (acc.reverse, false, g :: rest)
    else
      match _ha : attribute? limit d (g :: rest) with
      | none => none
      | some (a, rest') => attributes? limit d (a :: acc) rest'
termination_by gs.length
decreasing_by
  · have hl := length_skipWhile CharClass.isBlank gs
    rw [_h, List.length_cons] at hl
    omega
  · have hl := length_skipWhile CharClass.isBlank gs
    rw [_h, List.length_cons] at hl
    have := length_attribute? _ha
    omega

theorem length_attributes? {limit : Position} {d : Document} {acc : List Attribute}
    {gs : List Glyph} {r : List Attribute × Bool × List Glyph}
    (h : attributes? limit d acc gs = some r) : r.2.2.length ≤ gs.length := by
  fun_induction attributes? limit d acc gs with
  | case1 => simp at h
  | case2 _ gs g rest hs _ =>
    have := length_skipWhile CharClass.isBlank gs
    rw [hs, List.length_cons] at this
    simp only [Option.some.injEq] at h; subst h; simp only; omega
  | case3 _ gs g rest hs =>
    have := length_skipWhile CharClass.isBlank gs
    rw [hs, List.length_cons] at this
    simp only [Option.some.injEq] at h; subst h; simp only [List.length_drop]; omega
  | case4 _ gs g rest hs _ _ _ ih =>
    have := length_skipWhile CharClass.isBlank gs
    rw [hs, List.length_cons] at this
    have := ih h; omega
  | case5 _ gs g rest hs =>
    have := length_skipWhile CharClass.isBlank gs
    rw [hs] at this
    simp only [Option.some.injEq] at h; subst h; simpa using this
  | case6 => simp at h
  | case7 _ gs g rest hs _ _ _ _ _ ha ih =>
    have := length_skipWhile CharClass.isBlank gs
    rw [hs, List.length_cons] at this
    have := length_attribute? ha
    have := ih h; omega

end AbbrevSite.Markup
