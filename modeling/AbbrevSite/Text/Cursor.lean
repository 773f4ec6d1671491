import AbbrevSite.Failure
import AbbrevSite.Text.CharClass
import AbbrevSite.Text.Glyph

/-! A cursor in a window of a document. Reading goes forward up to the end of the window, backing up
goes as far as the start of the document. -/
namespace AbbrevSite

structure Cursor where
  document : Document
  window : Span
  position : Position
  /-- Where the token being read starts. -/
  mark : Position

namespace Cursor

def whole (d : Document) (p : Position) : Cursor :=
  ⟨d, d.span, p, p⟩

def within (d : Document) (p : Position) (window : Span) : Cursor := ⟨d, window, p, p⟩

/-- A cursor at `p` whose window lies between `p` and `q`. -/
def narrow (c : Cursor) (p q : Position) : Cursor := within c.document p (.between p q)

def atStart (c : Cursor) : Bool := c.position ≤ c.window.start

def atEnd (c : Cursor) : Bool := c.window.stop ≤ c.position

/-- The character after the cursor, unless the window ends there. -/
def peek? (c : Cursor) : Option Char :=
  if c.atEnd then none else some (c.document.readAt c.position)

def skip (c : Cursor) : Cursor :=
  if c.atEnd then c
  else { c with position := c.document.afterWithin c.window.stop c.position }

/-- The characters after the cursor, up to the end of the window. -/
def ahead (c : Cursor) : List Glyph := c.document.glyphs c.position c.window.stop

theorem ahead_of_atEnd {c : Cursor} (h : c.atEnd = true) : c.ahead = [] :=
  Document.glyphs_of_le (of_decide_eq_true h)

theorem ahead_of_not_atEnd {c : Cursor} (h : c.atEnd = false) :
    c.ahead = ⟨c.document.readAt c.position, c.position, c.skip.position⟩ :: c.skip.ahead := by
  have hlt : c.position < c.window.stop := Position.not_le.1 (of_decide_eq_false h)
  simp only [ahead, skip, h, Bool.false_eq_true, if_false]
  exact Document.glyphs_of_lt hlt

theorem peek?_eq (c : Cursor) : c.peek? = c.ahead.head?.map (·.char) := by
  cases h : c.atEnd with
  | true => simp [peek?, h, ahead_of_atEnd h]
  | false => simp [peek?, h, ahead_of_not_atEnd h]

theorem ahead_of_peek?_none {c : Cursor} (h : c.peek? = none) : c.ahead = [] := by
  rw [peek?_eq, Option.map_eq_none_iff, List.head?_eq_none_iff] at h
  exact h

theorem ahead_skip (c : Cursor) : c.skip.ahead = c.ahead.tail := by
  cases h : c.atEnd with
  | true => simp [skip, h, ahead_of_atEnd h]
  | false => simp [ahead_of_not_atEnd h]

theorem length_ahead_skip (c : Cursor) : c.skip.ahead.length ≤ c.ahead.length := by
  rw [ahead_skip, List.length_tail]
  exact Nat.sub_le _ _

theorem length_ahead_skip_lt {c : Cursor} {x : Char} (h : c.peek? = some x) :
    c.skip.ahead.length < c.ahead.length := by
  rw [ahead_skip]
  cases hc : c.ahead with
  | nil => simp [peek?_eq, hc] at h
  | cons g gs => exact Nat.lt_succ_self _

def next? (c : Cursor) : Option (Char × Cursor) := c.peek?.map (·, c.skip)

/-- The position a column of a line stands for. A negative column counts from the end of the line above, its newline
included; above the first line it stands for the origin. -/
def backFrom (d : Document) : (line : Nat) → (column : Int) → Position
  | line, column =>
    if 0 ≤ column then ⟨line, column.toNat⟩
    else match line with
      | 0 => .origin
      | line + 1 => backFrom d line (column + (d.lineLength line + 1))

/-- A count of characters is a word of the machine. -/
instance : Coe Nat UInt64 := ⟨Nat.toUInt64⟩

/-- The cursor `n` characters back. Count and column are subtracted as signed words, so that a count from `2 ^ 63` on is
negative and leads forward. -/
def back (c : Cursor) (n : UInt64) : Cursor :=
  let column := Int64.ofNat c.position.column - n.toInt64
  { c with position := backFrom c.document c.position.line column.toInt }

/-- Moves past the next character if it satisfies `p`, and says whether it did. -/
def eat (p : Char → Bool) (c : Cursor) : Bool × Cursor :=
  if c.peek?.any p then (true, c.skip) else (false, c)

theorem eat_fst (p : Char → Bool) (c : Cursor) : (c.eat p).1 = c.peek?.any p := by
  unfold eat
  split <;> simp_all

theorem eat_decreases {p : Char → Bool} {c : Cursor} (h : (c.eat p).1 = true) :
    Prod.Lex (· < ·) (· < ·)
      ((c.eat p).2.document.readingMeasure (c.eat p).2.window.stop (c.eat p).2.position)
      (c.document.readingMeasure c.window.stop c.position) := by
  unfold eat at h ⊢
  split at h
  · rename_i hp
    rw [if_pos hp]
    have he : ¬ c.window.stop ≤ c.position := by
      intro he
      simp [peek?, atEnd, he] at hp
    simp only [skip, atEnd, he, decide_false, Bool.false_eq_true, if_false]
    exact Document.afterWithin_decreases _ (Position.not_le.1 he)
  · simp at h

/-- Moves past the longest run of characters satisfying `p`. -/
def skipWhile (p : Char → Bool) (c : Cursor) : Cursor :=
  if (c.eat p).1 then skipWhile p (c.eat p).2 else c
termination_by c.document.readingMeasure c.window.stop c.position
decreasing_by exact eat_decreases ‹_›

theorem ahead_skipWhile (p : Char → Bool) (c : Cursor) :
    (c.skipWhile p).ahead = c.ahead.dropWhile (p ·.char) := by
  fun_induction skipWhile p c with
  | case1 c h ih =>
    rw [eat_fst] at h
    rw [ih, eat, if_pos h, ahead_skip]
    rw [peek?_eq] at h
    cases hc : c.ahead with
    | nil => rfl
    | cons g gs => simp_all
  | case2 c h =>
    rw [eat_fst, peek?_eq] at h
    cases hc : c.ahead with
    | nil => rfl
    | cons g gs => simp_all

theorem length_ahead_skipWhile (p : Char → Bool) (c : Cursor) :
    (c.skipWhile p).ahead.length ≤ c.ahead.length := by
  rw [ahead_skipWhile]
  exact (List.dropWhile_suffix _).length_le

/-- As `skipWhile`, and says whether the cursor moved. -/
def eatWhile (p : Char → Bool) (c : Cursor) : Bool × Cursor :=
  let c' := c.skipWhile p
  (c'.position != c.position, c')

def eatBlanks (c : Cursor) : Bool × Cursor := c.eatWhile CharClass.isBlank

def setMark (c : Cursor) : Cursor := { c with mark := c.position }

def moveTo (c : Cursor) (p : Position) : Cursor := { c with position := p }

def textBetween (c : Cursor) (p q : Position) : String := c.document.textOf (.between p q)

def token (c : Cursor) : String := c.textBetween c.mark c.position

def failure (c : Cursor) (complaint : String) : Failure := .malformed complaint c.position

end Cursor
end AbbrevSite
