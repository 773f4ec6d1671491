import AbbrevSite.Sheet.Lexeme
import AbbrevSite.Text.CharClass
import AbbrevSite.Tree.Node

/-! The prelude of a statement: everything before the `{`, `;` or `}` that decides what the statement
is. It starts at the first significant lexeme, so a word left alone on the line above a selector is
read as part of that selector. -/
namespace AbbrevSite.Sheet

/-- A prelude read so far. -/
structure Prelude where
  start : Position
  /-- After the last significant character. -/
  stop : Position
  /-- After the at-name, if the statement starts with one. -/
  atStop : Option Position
  /-- Whether the next character may still belong to the at-name. -/
  inAtName : Bool
  /-- The first significant character after the at-name. -/
  first : Option Position
  /-- The first colon. -/
  colon : Option Position
  /-- After the last significant character before the colon. -/
  nameStop : Option Position
  /-- The first significant character after the colon. -/
  valueStart : Option Position
deriving DecidableEq, Repr

def isAtNameChar (c : Char) : Bool := CharClass.isAlphanumeric c || c == '-' || c == '_'

namespace Prelude

def startAt (p : Position) : Prelude := ⟨p, p, none, false, none, none, none, none⟩

/-- A significant lexeme that is not the first colon. -/
def addPlain (p : Prelude) (l : Lexeme) : Prelude :=
  { p with
    stop := l.stop
    inAtName := false
    first := p.first.or (some l.start)
    valueStart := if p.colon.isSome then p.valueStart.or (some l.start) else p.valueStart }

def addColon (p : Prelude) (l : Lexeme) : Prelude :=
  { p with
    stop := l.stop
    inAtName := false
    first := p.first.or (some l.start)
    colon := some l.start
    nameStop := some p.stop }

/-- Reads a lexeme that does not end the prelude. -/
def add (p : Prelude) (l : Lexeme) : Prelude :=
  match l.shape with
  | .comment => { p with inAtName := false }
  | .string | .group => p.addPlain l
  | .char c =>
    if p.inAtName && isAtNameChar c then { p with stop := l.stop, atStop := some l.stop }
    else if CharClass.isBlank c then { p with inAtName := false }
    else if c = ':' ∧ p.colon = none then p.addColon l
    else p.addPlain l

def ofFirst (l : Lexeme) : Prelude :=
  if l.shape = .char '@' then
    { startAt l.start with stop := l.stop, atStop := some l.stop, inAtName := true }
  else (startAt l.start).add l

end Prelude
end AbbrevSite.Sheet
