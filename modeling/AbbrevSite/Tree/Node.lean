import AbbrevSite.Text.Position

/-! The nodes of a document: what each of them is and the tokens it is made of. -/
namespace AbbrevSite

/-- A stretch of the source together with its text. -/
structure Token where
  span : Span
  text : String
deriving DecidableEq, Repr

/-- An attribute of an element. The value excludes its quotes. -/
structure Attribute where
  name : Token
  value : Option Token
deriving DecidableEq, Repr

def Attribute.valueText (a : Attribute) : String := (a.value.map (·.text)).getD ""

/-- Equal up to the case of ASCII letters. -/
def sameIgnoringCase (a b : String) : Bool := a.toLower == b.toLower

inductive Kind where
  /-- The root of a stylesheet. -/
  | stylesheet
  /-- The root of a markup document. -/
  | document
  /-- A selector with a block; the block has no closing brace if the text ends first. -/
  | rule (selector opening : Token) (closing : Option Token)
  /-- An at-name with an optional expression and an optional block. -/
  | atRule (name : Token) (expression opening closing : Option Token)
  /-- A declaration: name, colon, value, semicolon. -/
  | property (name : Token) (separator value terminator : Option Token)
  /-- An element with its whole opening tag and, if there is one, its whole closing tag. -/
  | element (name opening : Token) (closing : Option Token) (attributes : List Attribute)
  | comment
deriving DecidableEq, Repr

namespace Kind

def typeName : Kind → String
  | stylesheet => "stylesheet"
  | document => "document"
  | rule .. => "rule"
  | atRule .. => "at-rule"
  | property .. => "property"
  | element .. => "tag"
  | comment => "comment"

def isBlock : Kind → Bool
  | rule .. | atRule .. => true
  | _ => false

/-- Selector, at-name, property name or element name. -/
def label? : Kind → Option String
  | rule selector _ _ => some selector.text
  | atRule name _ _ _ => some name.text
  | property name _ _ _ => some name.text
  | element name _ _ _ => some name.text
  | _ => none

def elementName? : Kind → Option String
  | element name _ _ _ => some name.text
  | _ => none

def isElementNamed (name : String) (k : Kind) : Bool :=
  k.elementName?.any (sameIgnoringCase name)

/-- What lies between the tags of a closed element. -/
def innerSpan? : Kind → Option Span
  | element _ opening (some closing) _ => some (.between opening.span.stop closing.span.start)
  | _ => none

def attributes : Kind → List Attribute
  | element _ _ _ attributes => attributes
  | _ => []

/-- The first attribute of a name, whatever its case. -/
def attribute? (k : Kind) (name : String) : Option Attribute :=
  k.attributes.find? fun a => sameIgnoringCase a.name.text name

/-- The same block or element with its closing token. -/
def close (closing : Token) : Kind → Kind
  | rule selector opening _ => rule selector opening (some closing)
  | atRule name expression opening _ => atRule name expression opening (some closing)
  | element name opening _ attributes => element name opening (some closing) attributes
  | k => k

end Kind

/-- A node with the number it is known by. -/
structure Node where
  id : Nat
  kind : Kind
  span : Span
deriving DecidableEq, Repr

end AbbrevSite
