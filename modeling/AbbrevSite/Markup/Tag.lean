import AbbrevSite.Markup.Attribute

/-! Opening and closing tags. -/
namespace AbbrevSite.Markup

def isNameChar (c : Char) : Bool :=
  CharClass.isAlphanumeric c || c == '-' || c == '_' || c == ':' || c == '.'

/-- A closing tag that is complete: its name, its whole and the rest. `gs` starts with `</`. -/
def closingTag? (limit : Position) (d : Document) (gs : List Glyph) :
    Option (Token × Token × List Glyph) :=
  let name := gs.drop 2
  let afterName := skipWhile isNameChar name
  match skipWhile (fun c => c != '>' && c != '<') afterName with
  | g :: rest =>
    if g.char = '>' then some (tokenUpTo limit d name afterName, tokenUpTo limit d gs rest, rest)
    else none
  | [] => none

theorem length_closingTag? {limit : Position} {d : Document} {g : Glyph} {gs rest : List Glyph}
    {name whole : Token} (h : closingTag? limit d (g :: gs) = some (name, whole, rest)) :
    rest.length ≤ gs.length := by
  unfold closingTag? at h
  simp only [List.drop_succ_cons] at h
  split at h
  · rename_i hs
    have h1 := length_skipWhile (fun c => c != '>' && c != '<') (skipWhile isNameChar (gs.drop 1))
    have h2 := length_skipWhile isNameChar (gs.drop 1)
    rw [hs, List.length_cons] at h1
    rw [List.length_drop] at h2
    split at h
    · simp only [Option.some.injEq, Prod.mk.injEq] at h
      rw [← h.2.2]; omega
    · simp at h
  · simp at h

/-- An opening tag: its name, its attributes, whether it closes itself and the rest. `gs` starts with
`<`. None if no letter follows or the text ends in the tag. -/
def openingTag? (limit : Position) (d : Document) (gs : List Glyph) :
    Option (Token × List Attribute × Bool × List Glyph) :=
  let name := gs.drop 1
  match name with
  | [] => none
  | g :: _ =>
    if CharClass.isAlphabetic g.char then
      let afterName := skipWhile isNameChar name
      (attributes? limit d [] afterName).map fun (attributes, selfClosing, rest) =>
        (tokenUpTo limit d name afterName, attributes, selfClosing, rest)
    else none

theorem length_openingTag? {limit : Position} {d : Document} {g : Glyph} {gs rest : List Glyph}
    {name : Token} {attributes : List Attribute} {selfClosing : Bool}
    (h : openingTag? limit d (g :: gs) = some (name, attributes, selfClosing, rest)) :
    rest.length ≤ gs.length := by
  unfold openingTag? at h
  simp only [List.drop_succ_cons, List.drop_zero] at h
  split at h
  · simp at h
  · rename_i g' r
    split at h
    · obtain ⟨r', hr, he⟩ := Option.map_eq_some_iff.1 h
      have h1 := length_attributes? hr
      have h2 := length_skipWhile isNameChar (g' :: r)
      simp only [Prod.mk.injEq] at he
      rw [← he.2.2.2]
      exact Nat.le_trans h1 h2
    · simp at h

end AbbrevSite.Markup
