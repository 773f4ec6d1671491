import AbbrevSite.Parse
import AbbrevSite.Region.Search

/-! The tree of a region. Large stylesheets are not read whole: of a document only the enclosing block
of a position, with its selector, is parsed. -/
namespace AbbrevSite

/-- The dialect a document is read in when only a region of it is: its own if it is a stylesheet. -/
def Document.sheetDialect (d : Document) : Dialect :=
  match Dialect.ofName? d.languageId with
  | some dialect => if dialect.isStylesheet then dialect else .scss
  | none => .scss

def Document.regionAround (d : Document) (limits : Limits) (p : Position) : Span :=
  (RegionSearch.new d d.sheetDialect limits p).region

/-- The tree of the region around a position. None if the region cannot be read. -/
def Document.parseAround? (d : Document) (limits : Limits) (p : Position) : Option Tree :=
  let region := d.regionAround limits p
  (Sheet.parse (Cursor.within d region.start region) d.sheetDialect).toOption

end AbbrevSite
