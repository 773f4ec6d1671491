import AbbrevSite.Text.CharClass
import AbbrevSite.Text.Glyph
import AbbrevSite.Tree.Node

/-! Reading along the characters of a window. Each reader takes what is left of the window and gives what
is left after it. -/
namespace AbbrevSite.Markup

/-- Where the rest of a window starts, `limit` if nothing is left of it. -/
def place (limit : Position) (gs : List Glyph) : Position := (gs.head?.map (·.start)).getD limit

/-- The token that starts at `gs` and ends where `rest` starts. -/
def tokenUpTo (limit : Position) (d : Document) (gs rest : List Glyph) : Token :=
  let s := Span.between (place limit gs) (place limit rest)
  ⟨s, d.textOf s⟩

/-- Whether the rest of a window starts with some characters, whatever their case in ASCII. -/
def startsWith (cs : List Char) (gs : List Glyph) : Bool :=
  match cs, gs with
  | [], _ => true
  | _ :: _, [] => false
  | c :: cs, g :: gs => c.toLower == g.char.toLower && startsWith cs gs

/-- The rest after the first occurrence of some characters, nothing if there is none. -/
def skipPast (cs : List Char) : List Glyph → List Glyph
  | [] => []
  | g :: gs => if startsWith cs (g :: gs) then (g :: gs).drop cs.length else skipPast cs gs

theorem length_skipPast (cs : List Char) (gs : List Glyph) :
    (skipPast cs gs).length ≤ gs.length := by
  induction gs with
  | nil => simp [skipPast]
  | cons g gs ih =>
    unfold skipPast
    split
    · simp
    · simp; omega

theorem length_skipPast_cons {cs : List Char} {g : Glyph} {gs : List Glyph}
    (h : cs ≠ []) : (skipPast cs (g :: gs)).length ≤ gs.length := by
  unfold skipPast
  split
  · have : 0 < cs.length := List.length_pos_iff.2 h
    simp; omega
  · exact length_skipPast _ _

/-- The rest after the characters that satisfy `p`. -/
def skipWhile (p : Char → Bool) (gs : List Glyph) : List Glyph := gs.dropWhile fun g => p g.char

theorem length_skipWhile (p : Char → Bool) (gs : List Glyph) :
    (skipWhile p gs).length ≤ gs.length := (List.dropWhile_sublist _).length_le

end AbbrevSite.Markup
