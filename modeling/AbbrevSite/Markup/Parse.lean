import AbbrevSite.Dialect
import AbbrevSite.Markup.Piece
import AbbrevSite.Text.Cursor
import AbbrevSite.Tree.Builder

/-! Matching the tags of a markup text. A closing tag closes the innermost open element of its name;
the elements opened inside that one and not closed keep only the span of their opening tags, and what
they held is handed up to their parent. So an unclosed element never swallows the rest of a text. -/
namespace AbbrevSite.Markup

/-- The node with its closing tag and its span up to the end of it. -/
def closeNode (whole : Token) (n : Node) : Node :=
  { n with kind := n.kind.close whole, span := .between n.span.start whole.span.stop }

/-- Closes the innermost open element of a name, leaving those inside it unclosed. Without such an
element nothing happens. -/
def closeElement (name whole : Token) (b : Builder) : Builder :=
  let isNamed (n : Node) : Bool := n.kind.isElementNamed name.text
  if b.enclosing.any fun o => isNamed o.node then
    (b.abandonWhile fun n => !isNamed n).leave (closeNode whole)
  else b

def addPiece (b : Builder) : Piece → Builder
  | .comment span => b.leaf .comment span
  | .closing name whole => closeElement name whole b
  | .opening name whole attributes body =>
    let kind := Kind.element name whole none attributes
    match body with
    | .open => b.enter kind whole.span
    | .empty => b.leaf kind whole.span
    | .raw none => b.leaf kind whole.span
    | .raw (some closing) =>
      b.leaf (kind.close closing) (.between whole.span.start closing.span.stop)

def forestOf (pieces : List Piece) : Forest := (pieces.foldl addPiece .start).abandonAll.forest

/-- The tree of the markup in the window of a cursor, read from the cursor on. -/
def parse (c : Cursor) (dialect : Dialect) : Tree :=
  let limit := if c.atEnd then c.position else c.window.stop
  ⟨⟨0, .document, c.window⟩, forestOf (pieces limit dialect.hasVoidElements c.document c.ahead), []⟩

end AbbrevSite.Markup
