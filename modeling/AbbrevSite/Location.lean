import AbbrevSite.Settings.Basic
import AbbrevSite.Tree.Lookup
import AbbrevSite.Text.Document

/-! Where an abbreviation may expand. In a stylesheet the node under the cursor decides; in markup it is
the node and the text between the last tag before the abbreviation and the abbreviation itself. -/
namespace AbbrevSite

def markupScriptTypes : List String :=
  ["text/html", "text/plain", "text/x-template", "text/template", "text/ng-template"]

def programScriptTypes : List String := ["", "application/javascript", "text/javascript"]

/-- A colour of at most six hexadecimal digits, or the mark of an important value. -/
def isColourOrBang (abbreviation : List Char) : Bool :=
  match abbreviation with
  | ['!'] => true
  | '#' :: digits => digits.length ≤ 6 && digits.all CharClass.isHexDigit
  | _ => false

/-- Whether an abbreviation may stand at a position of a property, `none` if nothing there decides. In a
value only colours and the important mark may, elsewhere only they may not. -/
def Found.propertyVerdict (f : Found) (abbreviation : List Char) (p : Position) : Option Bool :=
  match f.node.kind with
  | .property _ separator _ terminator =>
    if !f.parent.kind.isBlock then some false
    else
      let inValue := separator.any fun s =>
        s.span.stop ≤ p && terminator.all fun t => p ≤ t.span.start
      if inValue then some (isColourOrBang abbreviation)
      else if isColourOrBang abbreviation then some false
      else none
  | _ => none

/-- Whether a node other than a block is around the position, or the position is in the block. A word on
the line above a nested selector, which belongs to that selector, counts as being in the block
around. -/
def Found.blockVerdict (f : Found) (abbreviation : Span) (p : Position) : Bool :=
  match f.node.kind with
  | .rule selector opening _ =>
    opening.span.stop < p ||
      (f.parent.kind.isBlock && p.line != selector.span.stop.line
        && selector.span.start == abbreviation.start)
  | .atRule _ _ opening _ => opening.any fun o => o.span.stop < p
  | _ => true

/-- Whether an abbreviation may expand at a position of a stylesheet. -/
def sheetAccepts (d : Document) (tree : Option Tree) (found : Option Found) (dialect : Dialect)
    (p : Position) (abbreviation : Span) : Bool :=
  if tree.any (·.inComment p) then false
  else
    match found with
    | none => true
    | some f =>
      let text := d.charsBetween abbreviation.start abbreviation.stop
      match if dialect.hasTerminators then f.propertyVerdict text p else none with
      | some verdict => verdict
      | none => f.blockVerdict abbreviation p

/-- Whether the body of a `script` element takes abbreviations: when it is markup, or a program of a
language they are offered in. -/
def scriptAccepts (kind : Kind) (b : Behaviour) : Bool :=
  let type := ((kind.attribute? "type").map (·.valueText)).getD ""
  markupScriptTypes.contains type ||
    (programScriptTypes.contains type && (b.dialectWithin? "javascript" none).isSome)

/-- Reads the text before an abbreviation backward, last character first, to the bracket that decides
whether the abbreviation is inside a tag. `spaced` says whether a blank has been met: right after `<`
the abbreviation continues a tag name, after a blank it would be an attribute. Brackets after a
backslash, `=>`, `<?` and `<` before a blank decide nothing. -/
def backtrack (spaced : Bool) : List Char → Bool
  | [] => true
  | c :: rest =>
    if !spaced && CharClass.isBlank c then backtrack true rest
    else
      match rest with
      | [] => if c = '<' then !spaced else true
      | prev :: rest' =>
        if (c = '?' || CharClass.isBlank c) && prev = '<' then backtrack spaced rest'
        else if c ≠ '<' ∧ c ≠ '>' then backtrack spaced (prev :: rest')
        else if prev = '\\' then backtrack spaced rest'
        else if c = '>' then
          if prev = '=' then backtrack spaced (prev :: rest') else true
        else !spaced

/-- Whether an abbreviation may follow a text that is not all blank, given last character first. -/
def acceptsAfter (reversed : List Char) : Bool :=
  if reversed.head? = some '<' then false else backtrack false reversed

/-- Whether an abbreviation may expand at a position of a markup document. -/
def markupAccepts (d : Document) (found : Option Found) (p : Position) (abbreviation : Span)
    (s : Settings) : Bool :=
  let after (start : Position) : Bool :=
    let text := Span.between start abbreviation.start
    let before := (d.charsBetween text.start text.stop).reverse.take s.limits.backtrackChars
    before.all CharClass.isBlank || acceptsAfter before
  match found with
  | none => after .origin
  | some f =>
    if f.node.kind.isElementNamed "script" then scriptAccepts f.node.kind s.behaviour
    else
      match f.node.kind.innerSpan? with
      | none => false
      | some inner =>
        if inner.contains p then
          let closed := f.children.takeWhile fun n => n.span.stop ≤ p
          after ((closed.getLast?.map (·.span.stop)).getD inner.start)
        else false

/-- Whether an abbreviation may expand at a position. `tree` is that of the document, of the stylesheet
embedded around the position or of the region around it, and `found` the node at the position. -/
def acceptsAbbreviation (d : Document) (tree : Option Tree) (found : Option Found)
    (dialect : Dialect) (p : Position) (abbreviation : Span) (s : Settings) : Bool :=
  if dialect.isStylesheet then sheetAccepts d tree found dialect p abbreviation
  else markupAccepts d found p abbreviation s

end AbbrevSite
