import AbbrevSite.Abbreviation.Expand
import AbbrevSite.Location
import AbbrevSite.Region.Parse

/-! Answering an editor's requests for completions: whether an abbreviation may expand at the cursor, and
the list of its expansions. Of the last answer only its family is remembered, so that a repeated
request for a list that was incomplete can do without reading the document again. -/
namespace AbbrevSite

inductive Trigger where
  | invoked
  | character
  /-- Asked again while the last list is still incomplete. -/
  | incomplete
deriving DecidableEq, Repr

structure Request where
  trigger : Trigger
  /-- What the user has typed so far. -/
  input : Option String
deriving DecidableEq, Repr

/-- The family of an expansion. -/
inductive Family where
  | markup
  | stylesheet
deriving DecidableEq, Repr

/-- The family of an expansion as shown: a tag is markup, a declaration with a semicolon belongs to a
stylesheet. -/
def Family.ofExpansion? (text : String) : Option Family :=
  let cs := text.toList
  if cs.head? = some '<' then some .markup
  else if (cs.drop 1).contains ':' && cs.head? != some ':' && cs.getLast? == some ';' then
    some .stylesheet
  else none

inductive ItemFormat where
  | plain
  | snippet
deriving DecidableEq, Repr

inductive ItemKind where
  | text
  | snippet
deriving DecidableEq, Repr

structure Completion where
  label : String
  documentation : Option String
  detail : Option String
  format : ItemFormat
  /-- What the new text replaces. -/
  span : Span
  newText : String
  kind : Option ItemKind
  filterText : Option String
  sortText : Option String
deriving DecidableEq, Repr

structure CompletionList where
  items : List Completion
  isIncomplete : Bool
deriving DecidableEq, Repr

/-- Programming languages in which `this.` starts the access to a member. -/
def scriptLanguages : List String :=
  ["javascript", "javascriptreact", "typescript", "typescriptreact"]

/-- The settings and the family of the last answer. -/
structure Provider where
  settings : Settings
  last : Option Family

namespace Provider

def new (s : Settings) : Provider := ⟨s, none⟩

def item (b : Behaviour) (request : Request) (o : Abbreviation.Offer) : Completion where
  label := o.label
  documentation := o.documentation
  detail := o.detail
  format := .snippet
  span := o.span
  newText := o.newText
  kind := if b.showAsSnippets then some .snippet else none
  filterText := request.input.or o.word
  sortText := o.sortText

/-- What is known about a position before the abbreviation at it is looked at. -/
structure Setting where
  dialect : Dialect
  /-- Whether the location has to be checked. -/
  checked : Bool
  tree : Option Tree

/-- The setting of a position in an `html` document: in the value of a `style` attribute the dialect is
`css` and nothing is checked, in the body of a `style` element it is `css` and the stylesheet there is
checked, elsewhere it is markup. -/
def htmlSetting (d : Document) (dialect : Dialect) (p : Position) : Setting :=
  let tree := d.parse? dialect
  let found := tree.bind (·.nodeAt p true)
  if inStyleAttribute found p then ⟨.css, false, none⟩
  else
    match d.embeddedSheet? found p with
    | some sheet => ⟨.css, true, some sheet⟩
    | none => ⟨dialect, true, tree⟩

/-- The setting of a position in a document. A repeated request in an `html` document keeps to the family
of the last answer. -/
def setting (d : Document) (dialect : Dialect) (last : Option Family) (request : Request)
    (p : Position) : Setting :=
  let checked := dialect == .html || dialect == .jsx || dialect == .xml
  if d.languageId = "html" then
    match if request.trigger = .incomplete then last else none with
    | some .markup => ⟨dialect, false, none⟩
    | some .stylesheet => ⟨.css, false, none⟩
    | none => if checked then htmlSetting d dialect p else ⟨dialect, checked, none⟩
  else ⟨dialect, checked, none⟩

/-- Whether a stylesheet is so large that only the region around the cursor is read. -/
def readsRegion (s : Settings) (d : Document) : Bool :=
  s.behaviour.optimizeParsing && decide (s.limits.partialParseLines < d.lineCount)

/-- The tree of a stylesheet that the location is checked against. -/
def sheetTree? (s : Settings) (d : Document) (dialect : Dialect) (p : Position) : Option Tree :=
  if readsRegion s d then d.parseAround? s.limits p else d.parse? dialect

def ownSheetDialect? (d : Document) : Option Dialect :=
  (Dialect.ofName? d.languageId).filter (·.isStylesheet)

/-- The completions at a position, before an empty list is left out. -/
def completions? (s : Settings) (last : Option Family) (d : Document) (p : Position)
    (request : Request) : Option CompletionList := do
  let b := s.behaviour
  guard (!b.isExcluded d.languageId)
  let dialect ← b.dialectOf? d.languageId
  guard (b.showExpanded != .never)
  let setting := setting d dialect last request p
  let found ← Abbreviation.extract? d p setting.dialect.isMarkup
  guard (Abbreviation.isValid setting.dialect found.text)
  let setting ←
    match if request.trigger = .incomplete then none else ownSheetDialect? d with
    | some own => do
      let tree ← sheetTree? s d own p
      some { setting with checked := true, tree := some tree }
    | none => some setting
  guard (!setting.checked ||
    acceptsAbbreviation d setting.tree (setting.tree.bind (·.nodeAt p true)) setting.dialect p
      found.span s)
  guard !(setting.dialect.isMarkup && scriptLanguages.contains d.languageId
    && "this.".toList.isPrefixOf found.text.toList)
  let offers := Abbreviation.offers d p setting.dialect (b.expandOptions setting.dialect)
  some ⟨offers.map (item b request), true⟩

/-- The answer to a request, none if nothing may expand, and the provider after it. -/
def complete (provider : Provider) (d : Document) (p : Position) (request : Request) :
    Option CompletionList × Provider :=
  let list := (completions? provider.settings provider.last d p request).filter
    fun l => !l.items.isEmpty
  let shown := list.bind fun l => l.items.head?.bind (·.documentation)
  (list, { provider with last := shown.bind Family.ofExpansion? })

end Provider
end AbbrevSite
