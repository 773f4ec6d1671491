/-! The names of elements that are read in a way of their own. -/
namespace AbbrevSite.Markup

def voidElements : List String :=
  ["area", "base", "br", "col", "embed", "hr", "img", "input", "keygen", "link", "meta", "param",
    "source", "track", "wbr"]

/-- Elements whose body is raw text up to their closing tag. -/
def rawElements : List String := ["script", "style"]

end AbbrevSite.Markup
