import AbbrevSite.Dialect
import AbbrevSite.Region.Back
import AbbrevSite.Settings.Limits
import AbbrevSite.Sheet.Lexeme

/-! The search for the region around a position: back to the selector of the enclosing block and on
to the first closing brace. Comments are skipped both ways; strings and parentheses are not. The limits
bound how far back it goes, and each step back lowers the position, so that it ends without them. -/
namespace AbbrevSite

/-- The search for the region around a position. -/
structure RegionSearch where
  document : Document
  lineComments : Bool
  position : Position
  /-- Going back ends at or before this position. -/
  farthest : Position
  maxLines : Nat

namespace RegionSearch

def new (d : Document) (dialect : Dialect) (limits : Limits) (p : Position) : RegionSearch where
  document := d
  lineComments := dialect.hasLineComments
  position := d.clamp p
  farthest := d.positionAt (d.offsetAt (d.clamp p) - limits.lookbackChars)
  maxLines := limits.lookbackLines

/-- The end of the region: after the first closing brace outside comments, `last` if none follows. -/
def stopAfter (lineComments : Bool) (last : Position) : List Glyph → Position
  | [] => last
  | g :: rest =>
    if g.char = '}' then g.stop
    else if g.char = '/' then
      match rest with
      | [] => last
      | h :: rest =>
        if lineComments ∧ h.char = '/' then
          stopAfter lineComments last (rest.dropWhile fun g => g.char != '\n')
        else if h.char = '*' then
          match _h : Sheet.closeComment rest with
          | none => last
          | some (_, rest) => stopAfter lineComments last rest
        else stopAfter lineComments last (h :: rest)
    else stopAfter lineComments last rest
termination_by gs => gs.length
decreasing_by
  · have := (List.dropWhile_sublist (l := rest) fun g => g.char != '\n').length_le
    simp only [List.length_cons]; omega
  · have := Sheet.length_closeComment ‹_›
    simp only [List.length_cons]; omega
  · simp
  · simp

variable (s : RegionSearch)

/-- Whether the search has gone back as far as it may. -/
def exhausted (p : Position) : Bool :=
  s.maxLines < s.position.line - p.line || p ≤ s.farthest

def leaveLineComment (line : Nat) (p : Position) : Position :=
  if s.lineComments && line != p.line then
    match s.document.lineCommentColumn p.line with
    | some column => if column < p.column then ⟨p.line, column⟩ else p
    | none => p
  else p

def endsComment (p : Position) : Bool :=
  p != .origin && s.document.readAt (s.document.prev p) == '*'

/-- From the `/` at a position, the start of the block comment it ends, if it ends one. -/
def leaveBlockComment (p : Position) : Position :=
  if s.endsComment p then
    let q := s.document.prev p
    match s.document.openingBefore q.line q.column with
    | some start => start
    | none => .origin
  else p

theorem leaveLineComment_le (line : Nat) (p : Position) : s.leaveLineComment line p ≤ p := by
  unfold leaveLineComment
  split
  · split
    · split
      · simp [Position.le_def]; omega
      · exact Position.le_refl p
    · exact Position.le_refl p
  · exact Position.le_refl p

theorem leaveBlockComment_le (p : Position) : s.leaveBlockComment p ≤ p := by
  unfold leaveBlockComment
  split
  · simp only
    split
    · rename_i h
      exact Position.le_trans (Document.openingBefore_le h) (s.document.prev_le p)
    · exact Position.origin_le p
  · exact Position.le_refl p

/-- One character back, out of a line comment. -/
def stepBack (line : Nat) (p : Position) : Position :=
  s.document.prev (s.leaveLineComment line p)

theorem stepBack_lt {line : Nat} {p : Position} (h : p ≠ .origin) : s.stepBack line p < p := by
  unfold stepBack
  by_cases h' : s.leaveLineComment line p = .origin
  · have : p ≤ .origin ∨ Position.origin < p := by
      rcases Decidable.em (p ≤ .origin) with h | h
      · exact .inl h
      · exact .inr (Position.not_le.1 h)
    rw [h']
    rcases this with hp | hp
    · exact absurd (Position.le_antisymm hp (Position.origin_le p)) h
    · exact Position.lt_of_le_of_lt (s.document.prev_le _) hp
  · exact Position.lt_of_lt_of_le (Document.prev_lt h') (s.leaveLineComment_le line p)

/-- What going back from a position leads to. -/
inductive Front where
  /-- The opening brace of the enclosing block. -/
  | brace (p : Position)
  /-- The start of the region, if it is no enclosing block that decides it. -/
  | edge (p : Position)

/-- Goes back to the brace that opens the enclosing block. `depth` counts the blocks gone into and
`line` is the line come from. Blocks of plain `css` do not nest, so there the region starts after the
last block closed. A search that goes too far takes all the text before. -/
def findBrace (line depth : Nat) (p : Position) : Front :=
  if _h : p = .origin then .edge .origin
  else
    let q := s.stepBack line p
    let back := s.leaveBlockComment q
    match s.document.readAt q with
    | '{' =>
      match depth with
      | 0 => .brace q
      | depth + 1 => if s.exhausted q then .edge .origin else findBrace p.line depth q
    | '}' =>
      if s.lineComments then
        if s.exhausted q then .edge .origin else findBrace p.line (depth + 1) q
      else .edge (s.document.after q)
    | '/' => if s.exhausted back then .edge .origin else findBrace p.line depth back
    | _ => if s.exhausted q then .edge .origin else findBrace p.line depth q
termination_by (p.line, p.column)
decreasing_by
  all_goals first
    | exact Position.lex_of_lt (s.stepBack_lt _h)
    | exact Position.lex_of_lt
        (Position.lt_of_le_of_lt (s.leaveBlockComment_le _) (s.stepBack_lt _h))

/-- The first significant position from `p` on. -/
def skipBlanks (p : Position) : Position :=
  ((Cursor.whole s.document p).skipWhile CharClass.isBlank).position

/-- Goes back from a character of a selector to the first significant character after the delimiter
before it: a brace, a semicolon, a block comment or a line with a line comment. -/
def selectorStart (p : Position) : Position :=
  if _h : p = .origin then s.skipBlanks p
  else if p ≤ s.farthest then s.skipBlanks p
  else
    let q := s.document.prev p
    let c := s.document.readAt q
    if s.lineComments && q.line != p.line && (s.document.lineCommentColumn q.line).isSome then
      s.skipBlanks p
    else if c = '{' ∨ c = '}' ∨ c = ';' ∨ (c = '/' ∧ s.endsComment q) then s.skipBlanks p
    else selectorStart q
termination_by (p.line, p.column)
decreasing_by exact Position.lex_of_lt (Document.prev_lt _h)

/-- Goes back from the brace of the enclosing block to the last character of its selector, and from
there to the start of it. Without a selector the region starts at the brace. `nested` counts the
blocks gone into. -/
def beforeBrace (brace : Position) (line nested : Nat) (p : Position) : Position :=
  if _h : p = .origin then brace
  else
    let q := s.stepBack line p
    let back := s.leaveBlockComment q
    let c := s.document.readAt q
    if CharClass.isBlank c then
      if s.exhausted q then brace else beforeBrace brace p.line nested q
    else if c = '/' then
      if s.exhausted back then brace else beforeBrace brace p.line nested back
    else if c = '}' then
      if s.exhausted q then brace else beforeBrace brace p.line (nested + 1) q
    else
      match nested with
      | 0 => if c = '{' then brace else s.selectorStart q
      | n + 1 =>
        if s.exhausted q then brace
        else beforeBrace brace p.line (if c = '{' then n else n + 1) q
termination_by (p.line, p.column)
decreasing_by
  all_goals first
    | exact Position.lex_of_lt (s.stepBack_lt _h)
    | exact Position.lex_of_lt
        (Position.lt_of_le_of_lt (s.leaveBlockComment_le _) (s.stepBack_lt _h))

def start : Position :=
  match s.findBrace s.position.line 0 s.position with
  | .edge p => p
  | .brace p => s.beforeBrace p p.line 0 p

def stop : Position :=
  stopAfter s.lineComments s.document.stop (s.document.glyphs s.position s.document.stop)

def region : Span := .between s.start s.stop

end RegionSearch

end AbbrevSite
