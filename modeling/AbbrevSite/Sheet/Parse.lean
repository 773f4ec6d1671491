import AbbrevSite.Dialect
import AbbrevSite.Sheet.Scan
import AbbrevSite.Tree.Builder

/-! Reading a stylesheet into a tree of rules, at-rules and declarations. Statements are read one after the
other; braces open and close blocks, and blocks still open at the end are closed there. -/
namespace AbbrevSite.Sheet

/-- What has been read of a stylesheet. -/
structure Reading where
  builder : Builder
  /-- The comments met, last first. -/
  comments : List Span
  /-- The statement being read. -/
  prelude : Option Prelude
deriving DecidableEq, Repr

def tokenBetween (d : Document) (p q : Position) : Token :=
  let s := Span.between p q
  ⟨s, d.textOf s⟩

def charToken (c : Char) (l : Lexeme) : Token := ⟨.between l.start l.stop, c.toString⟩

namespace Prelude

def expression (d : Document) (p : Prelude) : Option Token :=
  p.first.map fun first => tokenBetween d first p.stop

/-- The rule or at-rule whose block opens at `opening`. -/
def block (d : Document) (p : Prelude) (opening : Token) : Kind :=
  match p.atStop with
  | some atStop => .atRule (tokenBetween d p.start atStop) (p.expression d) (some opening) none
  | none => .rule (tokenBetween d p.start p.stop) opening none

/-- The declaration or at-rule that ends without a block. -/
def statement (d : Document) (p : Prelude) (terminator : Option Token) : Kind :=
  match p.atStop with
  | some atStop => .atRule (tokenBetween d p.start atStop) (p.expression d) none none
  | none =>
    .property (tokenBetween d p.start (p.nameStop.getD p.stop))
      (p.colon.map fun colon => ⟨.between colon ⟨colon.line, colon.column + 1⟩, ":"⟩)
      (p.valueStart.map fun start => tokenBetween d start p.stop)
      terminator

def statementSpan (p : Prelude) (terminator : Option Token) : Span :=
  .between p.start ((terminator.map (·.span.stop)).getD p.stop)

end Prelude

namespace Reading

def start : Reading := ⟨.start, [], none⟩

def endStatement (d : Document) (r : Reading) (terminator : Option Token) : Reading :=
  match r.prelude with
  | none => r
  | some p =>
    { r with
      builder := r.builder.leaf (p.statement d terminator) (p.statementSpan terminator)
      prelude := none }

/-- Opens the block of the statement being read; a block without a prelude is a rule whose selector is
empty. -/
def openBlock (d : Document) (r : Reading) (l : Lexeme) : Reading :=
  let p := r.prelude.getD (.startAt l.start)
  { r with
    builder := r.builder.enter (p.block d (charToken '{' l)) (.between p.start l.stop)
    prelude := none }

def closeBlock (d : Document) (r : Reading) (l : Lexeme) : Except Failure Reading :=
  let r := r.endStatement d none
  match r.builder.enclosing with
  | [] => .error (.malformed Fault.strayBrace.complaint l.start)
  | _ :: _ =>
    let close (n : Node) : Node :=
      { n with kind := n.kind.close (charToken '}' l), span := .between n.span.start l.stop }
    .ok { r with builder := r.builder.leave close }

/-- The tree when the text ends at `stop`. -/
def finish (d : Document) (window : Span) (stop : Position) (r : Reading) : Tree :=
  let r := r.endStatement d none
  let b := r.builder.leaveAll fun n => { n with span := .between n.span.start stop }
  ⟨⟨0, .stylesheet, window⟩, b.forest, r.comments.reverse⟩

end Reading

/-- Reads the statements from the cursor on, up to the end of its window. -/
def readStatements (lineComments : Bool) (r : Reading) (c : Cursor) : Except Failure Tree :=
  match _hb : pastBlanks lineComments r.comments c with
  | .error failure => .error failure
  | .ok (comments, c') =>
    let r := { r with comments }
    match _hx : c'.peek? with
    | none => .ok (r.finish c.document c.window c'.position)
    | some x =>
      if x = '}' then
        match r.closeBlock c.document (charLexeme '}' c') with
        | .error failure => .error failure
        | .ok r => readStatements lineComments r c'.skip
      else if x = ';' then readStatements lineComments r c'.skip
      else
        match _hp : scanPrelude lineComments comments c' with
        | .error failure => .error failure
        | .ok (p, comments, c'') =>
          let r := { r with comments, prelude := some p }
          if c''.peek? = some '{' then
            readStatements lineComments (r.openBlock c.document (charLexeme '{' c'')) c''.skip
          else if c''.peek? = some ';' then
            readStatements lineComments
              (r.endStatement c.document (some (charToken ';' (charLexeme ';' c'')))) c''.skip
          else readStatements lineComments (r.endStatement c.document none) c''
termination_by c.ahead.length
decreasing_by
  all_goals refine Nat.lt_of_lt_of_le ?_ (length_pastBlanks ‹_›)
  · exact Cursor.length_ahead_skip_lt ‹_›
  · exact Cursor.length_ahead_skip_lt ‹_›
  · exact Nat.lt_of_lt_of_le (Cursor.length_ahead_skip_lt ‹_›) (length_ahead_le_of_scanPrelude ‹_›)
  · exact Nat.lt_of_lt_of_le (Cursor.length_ahead_skip_lt ‹_›) (length_ahead_le_of_scanPrelude ‹_›)
  · exact length_scanPrelude_lt ‹_› ‹_› ‹¬ x = '}'› ‹¬ x = ';'› ‹¬ c''.peek? = some '{'›

/-- The tree of the stylesheet in the window of a cursor, read from the cursor on. -/
def parse (c : Cursor) (dialect : Dialect) : Except Failure Tree :=
  readStatements dialect.hasLineComments .start c

end AbbrevSite.Sheet
