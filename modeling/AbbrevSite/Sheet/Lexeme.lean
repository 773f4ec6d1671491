import AbbrevSite.Text.Glyph

/-! The lexemes of a stylesheet. A stylesheet is a row of comments, strings, parenthesised groups and
single characters; which of them starts at a character depends on what follows alone, never on what
came before. -/
namespace AbbrevSite.Sheet

inductive Shape where
  /-- A block comment, or a line comment up to its newline. -/
  | comment
  /-- A quote up to the same quote or a newline, unless a backslash hides it. -/
  | string
  /-- A parenthesis up to the one that closes it, or up to the end. -/
  | group
  | char (c : Char)
deriving DecidableEq, Repr

structure Lexeme where
  shape : Shape
  start : Position
  stop : Position
deriving DecidableEq, Repr

/-- What makes a stylesheet unreadable. -/
inductive Fault where
  | strayBrace
  | openString
  | openComment
deriving DecidableEq, Repr

def Fault.complaint : Fault → String
  | strayBrace => "Unexpected \x7d"
  | openString => "Unterminated string"
  | openComment => "Unterminated comment"

def isQuote (c : Char) : Bool := c == '"' || c == '\''

/-- The end of a block comment and what follows it, given what follows its opening. -/
def closeComment : List Glyph → Option (Position × List Glyph)
  | [] => none
  | [_] => none
  | g :: h :: rest =>
    if g.char = '*' ∧ h.char = '/' then some (h.stop, rest) else closeComment (h :: rest)

/-- The end of a line comment and what follows it, the newline included. `last` is the end if nothing
more belongs to it. -/
def closeLineComment (last : Position) : List Glyph → Position × List Glyph
  | [] => (last, [])
  | g :: rest => if g.char = '\n' then (last, g :: rest) else closeLineComment g.stop rest

/-- The end of a string and what follows it, given what follows its quote. -/
def closeString (quote : Char) : List Glyph → Option (Position × List Glyph)
  | [] => none
  | g :: rest =>
    if g.char = '\\' then
      match rest with
      | [] => none
      | _ :: rest => closeString quote rest
    else if g.char = '\n' ∨ g.char = quote then some (g.stop, rest)
    else closeString quote rest

/-- The end of a group and what follows it. `depth` counts the parentheses open inside it, `quote` is
that of the string being read and `last` the end if nothing more follows. Fails inside a string. -/
def closeGroup (depth : Nat) (quote : Option Char) (last : Position) :
    List Glyph → Option (Position × List Glyph)
  | [] => if quote.isSome then none else some (last, [])
  | g :: rest =>
    match quote with
    | some q =>
      if g.char = '\\' then
        match rest with
        | [] => none
        | h :: rest => closeGroup depth quote h.stop rest
      else if g.char = '\n' ∨ g.char = q then closeGroup depth none g.stop rest
      else closeGroup depth quote g.stop rest
    | none =>
      if isQuote g.char then closeGroup depth (some g.char) g.stop rest
      else if g.char = '(' then closeGroup (depth + 1) none g.stop rest
      else if g.char = ')' then
        match depth with
        | 0 => some (g.stop, rest)
        | depth + 1 => closeGroup depth none g.stop rest
      else closeGroup depth none g.stop rest

def lexeme (lineComments : Bool) (g : Glyph) (rest : List Glyph) :
    Except Fault (Lexeme × List Glyph) :=
  let plain : Lexeme × List Glyph := (⟨.char g.char, g.start, g.stop⟩, rest)
  if g.char = '/' then
    match rest with
    | [] => .ok plain
    | h :: rest =>
      if h.char = '*' then
        match closeComment rest with
        | some (stop, rest) => .ok (⟨.comment, g.start, stop⟩, rest)
        | none => .error .openComment
      else if h.char = '/' ∧ lineComments then
        let (stop, rest) := closeLineComment h.stop rest
        .ok (⟨.comment, g.start, stop⟩, rest)
      else .ok plain
  else if isQuote g.char then
    match closeString g.char rest with
    | some (stop, rest) => .ok (⟨.string, g.start, stop⟩, rest)
    | none => .error .openString
  else if g.char = '(' then
    match closeGroup 0 none g.stop rest with
    | some (stop, rest) => .ok (⟨.group, g.start, stop⟩, rest)
    | none => .error .openString
  else .ok plain

theorem length_closeComment {gs rest : List Glyph} {p : Position}
    (h : closeComment gs = some (p, rest)) : rest.length ≤ gs.length := by
  fun_induction closeComment gs with
  | case1 => simp at h
  | case2 => simp at h
  | case3 g g' r _ => simp at h; simp [h.2]; omega
  | case4 g g' r _ ih => have := ih h; simp at *; omega

theorem length_closeLineComment (last : Position) (gs : List Glyph) :
    (closeLineComment last gs).2.length ≤ gs.length := by
  fun_induction closeLineComment last gs with
  | case1 => simp
  | case2 => simp
  | case3 _ g r _ ih => simp; omega

theorem length_closeString {q : Char} {gs rest : List Glyph} {p : Position}
    (h : closeString q gs = some (p, rest)) : rest.length ≤ gs.length := by
  fun_induction closeString q gs with
  | case1 => simp at h
  | case2 => simp at h
  | case3 _ _ _ _ ih => have := ih h; simp; omega
  | case4 => simp at h; simp [h.2]
  | case5 _ _ _ _ ih => have := ih h; simp; omega

theorem length_closeGroup {n : Nat} {q : Option Char} {last p : Position} {gs rest : List Glyph}
    (h : closeGroup n q last gs = some (p, rest)) : rest.length ≤ gs.length := by
  fun_induction closeGroup n q last gs <;> simp_all <;> omega

theorem length_lexeme {lineComments : Bool} {g : Glyph} {gs rest : List Glyph} {l : Lexeme}
    (h : lexeme lineComments g gs = .ok (l, rest)) : rest.length ≤ gs.length := by
  unfold lexeme at h
  split at h
  · split at h
    · simp_all
    · rename_i g' r
      split at h
      · split at h
        · rename_i heq
          have := length_closeComment heq
          simp_all; omega
        · simp at h
      · split at h
        · have := length_closeLineComment g'.stop r
          simp_all; omega
        · simp_all
  · split at h
    · split at h
      · rename_i heq
        have := length_closeString heq
        simp_all
      · simp at h
    · split at h
      · split at h
        · rename_i heq
          have := length_closeGroup heq
          simp_all
        · simp at h
      · simp_all

/-- The lexemes read so far, last first, followed by those of the rest, up to the first fault. -/
def lexemesOnto (lineComments : Bool) (acc : List Lexeme) :
    List Glyph → List Lexeme × Option Fault
  | [] => (acc.reverse, none)
  | g :: gs =>
    match _h : lexeme lineComments g gs with
    | .ok (l, rest) => lexemesOnto lineComments (l :: acc) rest
    | .error fault => (acc.reverse, some fault)
termination_by gs => gs.length
decreasing_by
  have := length_lexeme ‹_›
  simp only [List.length_cons]
  omega

/-- The lexemes of a text, and the fault that ends them before the text ends. -/
def lexemes (lineComments : Bool) (gs : List Glyph) : List Lexeme × Option Fault :=
  lexemesOnto lineComments [] gs

end AbbrevSite.Sheet
