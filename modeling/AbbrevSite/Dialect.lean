/-! The dialects abbreviations are written in: seven of markup and six of stylesheets. -/
namespace AbbrevSite

inductive Dialect where
  | html | pug | slim | haml | xml | xsl | jsx
  | css | scss | sass | less | stylus | wxss
deriving DecidableEq, Repr

namespace Dialect

/-- Every dialect, those of markup first. -/
def all : List Dialect :=
  [html, pug, slim, haml, xml, xsl, jsx, css, scss, sass, less, stylus, wxss]

/-- The identifier used in settings and as a language id. -/
def name : Dialect → String
  | html => "html"
  | pug => "pug"
  | slim => "slim"
  | haml => "haml"
  | xml => "xml"
  | xsl => "xsl"
  | jsx => "jsx"
  | css => "css"
  | scss => "scss"
  | sass => "sass"
  | less => "less"
  | stylus => "stylus"
  | wxss => "wxss"

def ofName? (s : String) : Option Dialect := all.find? fun d => d.name == s

def isStylesheet : Dialect → Bool
  | css | scss | sass | less | stylus | wxss => true
  | html | pug | slim | haml | xml | xsl | jsx => false

def isMarkup (d : Dialect) : Bool := !d.isStylesheet

/-- Whether a declaration ends with `;`. The dialects that go by indentation have no such token. -/
def hasTerminators : Dialect → Bool
  | sass | stylus => false
  | _ => true

/-- Whether `//` starts a comment. Only plain `css` has none. -/
def hasLineComments : Dialect → Bool
  | css => false
  | _ => true

/-- Whether some elements never have a closing tag. In `xml` and `xsl` every element needs one. -/
def hasVoidElements : Dialect → Bool
  | xml | xsl => false
  | _ => true

theorem ofName?_name (d : Dialect) : ofName? d.name = some d := by cases d <;> decide

end Dialect
end AbbrevSite
