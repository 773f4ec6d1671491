import AbbrevSite.Markup.Element
import AbbrevSite.Markup.Tag

/-! The pieces of a markup text: comments, opening tags and closing tags. Text, declarations and
processing instructions leave no piece, and neither does a `<` that starts nothing complete. -/
namespace AbbrevSite.Markup

/-- What follows an opening tag. -/
inductive Body where
  /-- Markup, up to the closing tag if there is one. -/
  | open
  /-- Nothing: the element is void or closes itself. -/
  | empty
  /-- Raw text, up to the closing tag if there is one. -/
  | raw (closing : Option Token)
deriving DecidableEq, Repr

inductive Piece where
  | comment (span : Span)
  | opening (name whole : Token) (attributes : List Attribute) (body : Body)
  | closing (name whole : Token)
deriving DecidableEq, Repr

/-- The closing token of a raw element of a lowercase name and the rest after it. Without a closing
tag the body is all the rest. -/
def rawBody (limit : Position) (d : Document) (name : String) :
    List Glyph → Option Token × List Glyph
  | [] => (none, [])
  | g :: gs =>
    if startsWith ('<' :: '/' :: name.toList) (g :: gs) then
      let rest := skipPast ['>'] (g :: gs)
      (some (tokenUpTo limit d (g :: gs) rest), rest)
    else rawBody limit d name gs

/-- What starts at a `<`: a piece or nothing, and the rest. `gs` is the rest after the `<`. -/
def pieceAt (limit : Position) (voids : Bool) (d : Document) (g : Glyph) (gs : List Glyph) :
    Option Piece × List Glyph :=
  let all := g :: gs
  if startsWith ['<', '!', '-', '-'] all then
    let rest := skipPast ['-', '-', '>'] (all.drop 4)
    (some (.comment (.between (place limit all) (place limit rest))), rest)
  else if startsWith ['<', '!', '[', 'C', 'D', 'A', 'T', 'A', '['] all then
    (none, skipPast [']', ']', '>'] all)
  else if startsWith ['<', '!'] all || startsWith ['<', '?'] all then
    (none, skipPast ['>'] all)
  else if startsWith ['<', '/'] all then
    match closingTag? limit d all with
    | some (name, whole, rest) => (some (.closing name whole), rest)
    | none => (none, gs)
  else
    match openingTag? limit d all with
    | none => (none, gs)
    | some (name, attributes, selfClosing, rest) =>
      let whole := tokenUpTo limit d all rest
      let lower := name.text.toLower
      if selfClosing || (voids && voidElements.contains lower) then
        (some (.opening name whole attributes .empty), rest)
      else if rawElements.contains lower then
        let (closing, rest) := rawBody limit d lower rest
        (some (.opening name whole attributes (.raw closing)), rest)
      else (some (.opening name whole attributes .open), rest)

theorem length_rawBody (limit : Position) (d : Document) (name : String) (gs : List Glyph) :
    (rawBody limit d name gs).2.length ≤ gs.length := by
  induction gs with
  | nil => simp [rawBody]
  | cons g gs ih =>
    unfold rawBody
    split
    · exact length_skipPast _ _
    · simp; omega

theorem length_pieceAt (limit : Position) (voids : Bool) (d : Document) (g : Glyph)
    (gs : List Glyph) : (pieceAt limit voids d g gs).2.length ≤ gs.length := by
  unfold pieceAt
  simp only
  split
  · have := length_skipPast ['-', '-', '>'] ((g :: gs).drop 4)
    simp at this ⊢; omega
  split
  · exact length_skipPast_cons (by simp)
  split
  · exact length_skipPast_cons (by simp)
  split
  · split
    · rename_i heq; exact length_closingTag? heq
    · exact Nat.le_refl _
  · split
    · exact Nat.le_refl _
    · rename_i heq
      have := length_openingTag? heq
      split
      · exact this
      · split
        · exact Nat.le_trans (length_rawBody limit d _ _) this
        · exact this

/-- The pieces found so far, last first, followed by those of the rest. -/
def piecesOnto (limit : Position) (voids : Bool) (d : Document) (acc : List Piece) :
    List Glyph → List Piece
  | [] => acc.reverse
  | g :: gs =>
    if g.char = '<' then
      let found := pieceAt limit voids d g gs
      piecesOnto limit voids d (found.1.toList ++ acc) found.2
    else piecesOnto limit voids d acc gs
termination_by gs => gs.length
decreasing_by
  · have := length_pieceAt limit voids d g gs
    simp only [List.length_cons]; omega
  · simp

/-- The pieces of a window that ends at `limit`. `voids` says whether void elements exist. -/
def pieces (limit : Position) (voids : Bool) (d : Document) (gs : List Glyph) : List Piece :=
  piecesOnto limit voids d [] gs

end AbbrevSite.Markup
