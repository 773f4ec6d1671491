import AbbrevSite.CommandLine.Options
import AbbrevSite.Completion
import AbbrevSite.Tree.Outline

/-! What is printed about a position of a document. -/
namespace AbbrevSite.CommandLine

/-- The extension of the last name in a path, in lower case. A name that starts with its only point has
none. -/
def extension? (path : String) : Option String :=
  let name := (path.toList.reverse.takeWhile (· != '/'))
  let extension := name.takeWhile (· != '.')
  if name.length ≤ extension.length + 1 then none
  else some (String.ofList (extension.reverse.map Char.toLower))

def languageOf (path : String) : String :=
  match (extension? path).getD "" with
  | "html" | "htm" | "xhtml" => "html"
  | "css" => "css"
  | "scss" => "scss"
  | "sass" => "sass"
  | "less" => "less"
  | "styl" => "stylus"
  | "xml" | "svg" => "xml"
  | "xsl" | "xslt" => "xsl"
  | "pug" | "jade" => "pug"
  | "haml" => "haml"
  | "slim" => "slim"
  | "jsx" => "javascriptreact"
  | "tsx" => "typescriptreact"
  | "js" | "mjs" | "cjs" => "javascript"
  | "ts" => "typescript"
  | "php" => "php"
  | "hbs" | "handlebars" => "handlebars"
  | "md" | "markdown" => "markdown"
  | _ => "plaintext"

/-- The position asked for, inside the document: by default the end of the line, of the last line if no
line is named. -/
def Options.position (o : Options) (d : Document) : Position :=
  let line := min (o.line.getD d.stop.line) d.stop.line
  d.clamp ⟨line, o.column.getD (d.lineLength line)⟩

/-- The lines about a document, the position, and the abbreviation at it. -/
def describe (d : Document) (p : Position) (dialect : Option Dialect) (s : Settings) : String :=
  let b := s.behaviour
  let language := d.languageId
  let found := Abbreviation.extract? d p (!dialect.any (·.isStylesheet))
  let mode := (b.languageMapping.get? language).getD language
  "language:     " ++ language ++ "\n"
    ++ "syntax:       " ++ (dialect.map (·.name)).getD "(none)" ++ "\n"
    ++ "position:     " ++ p.render ++ "\n"
    ++ "abbreviation: " ++ (found.map fun f => f.text ++ " (" ++ f.span.render ++ ")").getD "(none)"
    ++ "\n"
    ++ ((Modes.triggers? mode).map fun cs =>
      "triggers:     " ++ String.ofList cs ++ "\n").getD ""
    ++ (if b.isExcluded language then "excluded:     yes\n" else "")

/-- The tree a location is checked against: that of the region around the position if the document is a
large stylesheet. -/
def checkedTree? (d : Document) (p : Position) (dialect : Dialect) (s : Settings) : Option Tree :=
  if dialect.isStylesheet then Provider.sheetTree? s d dialect p else d.parse? dialect

def describeTree : Option Tree → String
  | some t => "tree:\n" ++ t.outline
  | none => "tree:         (unparsable)\n"

def describeCompletions : Option CompletionList → String
  | none => "expand:       no\n"
  | some list => "expand:       yes\n" ++ String.join (list.items.map fun c =>
      "--- " ++ c.label ++ " (" ++ c.span.render ++ ")\n" ++ c.newText ++ "\n")

/-- Everything printed for a document at the position the options ask for. -/
def report (o : Options) (s : Settings) (d : Document) : String :=
  let p := o.position d
  let dialect := s.behaviour.dialectOf? d.languageId
  let request : Request := ⟨if o.incomplete then .incomplete else .invoked, none⟩
  describe d p dialect s
    ++ (if o.showTree then
      (dialect.map fun dialect => describeTree (checkedTree? d p dialect s)).getD "" else "")
    ++ describeCompletions ((Provider.new s).complete d p request).1

end AbbrevSite.CommandLine
