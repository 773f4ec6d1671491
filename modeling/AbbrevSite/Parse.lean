import AbbrevSite.Markup.Parse
import AbbrevSite.Sheet.Parse
import AbbrevSite.Tree.Lookup

/-! Reading a document, and the stylesheets that stand inside markup. -/
namespace AbbrevSite

/-- The tree of the window of a cursor. Markup always has one. -/
def Cursor.parse (c : Cursor) (dialect : Dialect) : Except Failure Tree :=
  if dialect.isStylesheet then Sheet.parse c dialect else .ok (Markup.parse c dialect)

/-- The tree of a whole document. None if it is a stylesheet that cannot be read. -/
def Document.parse? (d : Document) (dialect : Dialect) : Option Tree :=
  ((Cursor.whole d .origin).parse dialect).toOption

/-- The stylesheet a position lies in: the body of a closed `style` element around it, if the position
is strictly inside and the body can be read. -/
def Document.embeddedSheet? (d : Document) (found : Option Found) (p : Position) : Option Tree := do
  let kind := (← found).node.kind
  guard (kind.isElementNamed "style")
  let inner ← kind.innerSpan?
  guard (inner.encloses p)
  (Sheet.parse (Cursor.within d inner.start inner) .css).toOption

/-- Whether a position lies in the value of the first `style` attribute of a node, ends included. -/
def inStyleAttribute (found : Option Found) (p : Position) : Bool :=
  found.any fun f => (f.node.kind.attribute? "style").any fun a =>
    a.value.any fun v => v.span.contains p

end AbbrevSite
