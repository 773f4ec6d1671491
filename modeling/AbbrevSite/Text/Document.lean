import AbbrevSite.Text.Position

/-! A text as an array of lines. Each line counts its characters and one newline after them, whatever
line endings the text was given with; only the last line has none. Positions and flat offsets name
the same places. -/
namespace AbbrevSite

/-- The pieces of a text between its newlines, one more than there are newlines. -/
def splitAtNewlines (text : List Char) : List (List Char) :=
  text.foldr
    (fun c pieces =>
      if c = '\n' then [] :: pieces
      else match pieces with
        | [] => [[c]]
        | piece :: rest => (c :: piece) :: rest)
    [[]]

theorem splitAtNewlines_ne_nil (text : List Char) : splitAtNewlines text ≠ [] := by
  cases text with
  | nil => simp [splitAtNewlines]
  | cons c r =>
    simp only [splitAtNewlines, List.foldr_cons]
    split
    · simp
    · split <;> simp

/-- A line without the carriage return it may end in. -/
def dropReturn (line : List Char) : List Char :=
  if line.getLast? = some '\r' then line.dropLast else line

/-- An immutable text with the language it is written in. -/
structure Document where
  languageId : String
  lines : Array (Array Char)
  lines_pos : 0 < lines.size

namespace Document

def ofChars (languageId : String) (text : List Char) : Document where
  languageId
  lines := ((splitAtNewlines text).map fun l => (dropReturn l).toArray).toArray
  lines_pos := by
    simpa [List.length_pos_iff] using splitAtNewlines_ne_nil text

def ofText (languageId text : String) : Document := ofChars languageId text.toList

def lineCount (d : Document) : Nat := d.lines.size

/-- The characters of a line, none past the last line. -/
def line (d : Document) (n : Nat) : Array Char := d.lines[n]?.getD #[]

def lineLength (d : Document) (n : Nat) : Nat := (d.line n).size

def charAt (d : Document) (p : Position) : Option Char := (d.line p.line)[p.column]?

def lastLine (d : Document) : Nat := d.lineCount - 1

/-- Just after the last character. -/
def stop (d : Document) : Position := ⟨d.lastLine, d.lineLength d.lastLine⟩

/-- The offset of the first character of a line: the lines before it, a newline after each. -/
def lineStart (d : Document) (n : Nat) : Nat :=
  (d.lines.toList.take n).foldl (fun count l => count + (l.size + 1)) 0

/-- The number of characters, newlines included. -/
def length (d : Document) : Nat := d.lineStart d.lastLine + d.lineLength d.lastLine

def isEmpty (d : Document) : Bool := d.length == 0

/-- The place of the document nearest to a position: the end of its line, or of the text. -/
def clamp (d : Document) (p : Position) : Position :=
  if p.line < d.lineCount then ⟨p.line, min p.column (d.lineLength p.line)⟩ else d.stop

def offsetAt (d : Document) (p : Position) : Nat :=
  let q := d.clamp p
  d.lineStart q.line + q.column

/-- Walks the lines from number `n` on to the place `offset` characters in. -/
def placeIn (n : Nat) : Nat → List (Array Char) → Position
  | offset, [] => ⟨n, offset⟩
  | offset, [_] => ⟨n, offset⟩
  | offset, l :: m :: rest =>
    if offset ≤ l.size then ⟨n, offset⟩ else placeIn (n + 1) (offset - (l.size + 1)) (m :: rest)

def positionAt (d : Document) (offset : Nat) : Position :=
  placeIn 0 (min offset d.length) d.lines.toList

/-- The characters between two positions, newlines included; none if they are out of order. -/
def charsBetween (d : Document) (p q : Position) : List Char :=
  let a := d.clamp p
  let b := d.clamp q
  if a.line = b.line then ((d.line a.line).extract a.column b.column).toList
  else if b.line < a.line then []
  else
    ((d.line a.line).extract a.column (d.lineLength a.line)).toList
      ++ (List.range' (a.line + 1) (b.line - (a.line + 1))).flatMap
          (fun n => '\n' :: (d.line n).toList)
      ++ '\n' :: ((d.line b.line).extract 0 b.column).toList

def textOf (d : Document) (s : Span) : String := String.ofList (d.charsBetween s.start s.stop)

theorem lastLine_lt (d : Document) : d.lastLine < d.lineCount :=
  Nat.sub_lt d.lines_pos Nat.one_pos

/-- A place that lies on one of the lines, at most just after its last character. -/
def Valid (d : Document) (p : Position) : Prop :=
  p.line < d.lineCount ∧ p.column ≤ d.lineLength p.line

theorem clamp_valid (d : Document) (p : Position) : d.Valid (d.clamp p) := by
  unfold clamp Valid
  split
  · rename_i h; exact ⟨h, Nat.min_le_right _ _⟩
  · exact ⟨d.lastLine_lt, Nat.le_refl _⟩

theorem clamp_of_valid {d : Document} {p : Position} (h : d.Valid p) : d.clamp p = p := by
  unfold clamp
  rw [if_pos h.1, Nat.min_eq_left h.2]

theorem valid_origin (d : Document) : d.Valid .origin := ⟨d.lines_pos, Nat.zero_le _⟩

theorem valid_stop (d : Document) : d.Valid d.stop := ⟨d.lastLine_lt, Nat.le_refl _⟩

theorem le_stop {d : Document} {p : Position} (h : d.Valid p) : p ≤ d.stop := by
  obtain ⟨h1, h2⟩ := h
  have : d.lastLine = d.lineCount - 1 := rfl
  simp only [Position.le_def, stop]
  by_cases h : p.line = d.lastLine
  · right; rw [← h]; exact ⟨rfl, h2⟩
  · left; omega

def span (d : Document) : Span := ⟨.origin, d.stop, Position.origin_le _⟩

/-- The whole text, lines joined with newlines. -/
def text (d : Document) : String := d.textOf d.span

end Document
end AbbrevSite
