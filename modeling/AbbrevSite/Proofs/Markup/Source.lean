import AbbrevSite.Markup.Parse
import AbbrevSite.Proofs.Tree.Tokens

/-! Markup to be written out: runs of text, comments and elements, nested to any depth, with the text that is
written for them and the forest that stands for them at a place of a document. -/
namespace AbbrevSite

namespace Markup

/-- An attribute to be written: a name, and perhaps a value in double quotes. -/
structure SourceAttribute where
  name : List Char
  value : Option (List Char)
deriving DecidableEq, Repr

namespace SourceAttribute

def printValue : Option (List Char) → List Char
  | none => []
  | some v => '=' :: '"' :: (v ++ ['"'])

/-- The attribute behind the space that sets it off. -/
def print (a : SourceAttribute) : List Char := ' ' :: (a.name ++ printValue a.value)

def placed (x : Position) (a : SourceAttribute) : Attribute :=
  ⟨.along x a.name, a.value.map (.along (x.along (a.name ++ ['=', '"'])))⟩

/-- A name of its own characters, and a value without a double quote. -/
structure WellFormed (a : SourceAttribute) : Prop where
  ne_nil : a.name ≠ []
  name : ∀ c ∈ a.name, isAttributeNameChar c = true
  value : ∀ v ∈ a.value, '"' ∉ v

instance : DecidablePred WellFormed := fun a =>
  decidable_of_iff (a.name ≠ [] ∧ a.name.all isAttributeNameChar = true ∧ ∀ v ∈ a.value, '"' ∉ v)
    ⟨fun h => ⟨h.1, List.all_eq_true.1 h.2.1, h.2.2⟩, fun h => ⟨h.ne_nil, List.all_eq_true.2 h.name, h.value⟩⟩

def placedFrom : Position → List SourceAttribute → List Attribute
  | _, [] => []
  | x, a :: rest => a.placed (x.advance ' ') :: placedFrom (x.along a.print) rest

end SourceAttribute

def tagEnd (slash : Bool) : List Char := if slash then ['/', '>'] else ['>']

def openTag (name : List Char) (attributes : List SourceAttribute) (slash : Bool) : List Char :=
  '<' :: (name ++ (attributes.flatMap SourceAttribute.print ++ tagEnd slash))

def openTagWith (name : List Char) (attributes : List SourceAttribute) (ending : List Char) : List Char :=
  '<' :: (name ++ (attributes.flatMap SourceAttribute.print ++ ending))

def closeTag (name : List Char) : List Char := '<' :: '/' :: (name ++ ['>'])

def elementAt (x : Position) (name : List Char) (attributes : List SourceAttribute) (slash : Bool)
    (closing : Option Token) : Kind :=
  .element (.along (x.advance '<') name) (.along x (openTag name attributes slash)) closing
    (SourceAttribute.placedFrom ((x.advance '<').along name) attributes)

/-- A letter, then letters, digits and the marks of a name. -/
structure IsName (name : List Char) : Prop where
  first : ∃ c ∈ name.head?, CharClass.isAlphabetic c = true
  all : ∀ c ∈ name, isNameChar c = true

instance : DecidablePred IsName := fun name =>
  decidable_of_iff (name.head?.any CharClass.isAlphabetic = true ∧ name.all isNameChar = true)
    ⟨fun h => ⟨(Option.any_eq_true _ _).1 h.1, List.all_eq_true.1 h.2⟩,
      fun h => ⟨(Option.any_eq_true _ _).2 h.first, List.all_eq_true.2 h.all⟩⟩

def IsVoid (name : List Char) : Prop := (String.ofList name).toLower ∈ voidElements

def IsRaw (name : List Char) : Prop := (String.ofList name).toLower ∈ rawElements

instance : DecidablePred IsVoid := fun name =>
  inferInstanceAs (Decidable ((String.ofList name).toLower ∈ voidElements))

instance : DecidablePred IsRaw := fun name =>
  inferInstanceAs (Decidable ((String.ofList name).toLower ∈ rawElements))

/-- A row of markup: each constructor is followed by the rest of its row. -/
inductive Source where
  | nil
  | text (run : List Char) (next : Source)
  | comment (body : List Char) (next : Source)
  /-- An element without content: a void element, or one that closes itself. -/
  | empty (name : List Char) (attributes : List SourceAttribute) (slash : Bool) (next : Source)
  /-- An element with raw text in it. -/
  | raw (name : List Char) (attributes : List SourceAttribute) (body : List Char) (next : Source)
  /-- An element with markup in it. -/
  | element (name : List Char) (attributes : List SourceAttribute) (inner next : Source)
deriving DecidableEq, Repr

namespace Source

def printComment (body : List Char) : List Char := ['<', '!', '-', '-'] ++ body ++ ['-', '-', '>']

def print : Source → List Char
  | nil => []
  | text run next => run ++ next.print
  | comment body next => printComment body ++ next.print
  | empty name attributes slash next => openTag name attributes slash ++ next.print
  | raw name attributes body next =>
    openTag name attributes false ++ (body ++ (closeTag name ++ next.print))
  | element name attributes inner next =>
    openTag name attributes false ++ (inner.print ++ (closeTag name ++ next.print))

/-- Text without `<`, comments without their end, raw text without the closing tag of its element, and every
element of the kind its name stands for. -/
def WellFormed : Source → Prop
  | nil => True
  | text run next => '<' ∉ run ∧ next.WellFormed
  | comment body next => ¬ ['-', '-', '>'] <:+: body ∧ next.WellFormed
  | empty name attributes slash next =>
    (IsName name ∧ (∀ a ∈ attributes, a.WellFormed) ∧ (slash = true ∨ IsVoid name)) ∧ next.WellFormed
  | raw name attributes body next =>
    (IsName name ∧ (∀ a ∈ attributes, a.WellFormed) ∧ IsRaw name) ∧
      ¬ ('<' :: '/' :: name).map Char.toLower <:+: body.map Char.toLower ∧ next.WellFormed
  | element name attributes inner next =>
    (IsName name ∧ (∀ a ∈ attributes, a.WellFormed) ∧ ¬ IsVoid name ∧ ¬ IsRaw name) ∧
      inner.WellFormed ∧ next.WellFormed

instance decidableWellFormed : DecidablePred WellFormed
  | nil => .isTrue trivial
  | text _ next | comment _ next | empty _ _ _ next | raw _ _ _ next =>
    have := decidableWellFormed next
    inferInstanceAs (Decidable (_ ∧ _))
  | element _ _ inner next =>
    have := decidableWellFormed inner
    have := decidableWellFormed next
    inferInstanceAs (Decidable (_ ∧ _))

def size : Source → Nat
  | nil => 0
  | text _ next => next.size
  | comment _ next | empty _ _ _ next | raw _ _ _ next => next.size + 1
  | element _ _ inner next => inner.size + next.size + 1

/-- The node of an element with content, from its opening tag to its closing tag. -/
def closedAt (n : Nat) (x : Position) (name : List Char) (attributes : List SourceAttribute)
    (content : List Char) : Node :=
  ⟨n, elementAt x name attributes false
      (some (.along (x.along (openTag name attributes false ++ content)) (closeTag name))),
    .along x (openTag name attributes false ++ content ++ closeTag name)⟩

/-- The comments and elements of a row that starts at a place, the numbers from `n` on given in preorder. -/
def forest (n : Nat) (x : Position) : Source → Forest
  | nil => .nil
  | text run next => next.forest n (x.along run)
  | comment body next =>
    .cons ⟨n, .comment, .along x (printComment body)⟩ .nil
      (next.forest (n + 1) (x.along (printComment body)))
  | empty name attributes slash next =>
    .cons ⟨n, elementAt x name attributes slash none, .along x (openTag name attributes slash)⟩ .nil
      (next.forest (n + 1) (x.along (openTag name attributes slash)))
  | raw name attributes body next =>
    .cons (closedAt n x name attributes body) .nil
      (next.forest (n + 1) (x.along (openTag name attributes false ++ body ++ closeTag name)))
  | element name attributes inner next =>
    .cons (closedAt n x name attributes inner.print)
      (inner.forest (n + 1) (x.along (openTag name attributes false)))
      (next.forest (n + 1 + inner.size)
        (x.along (openTag name attributes false ++ inner.print ++ closeTag name)))

lemma innerSpan?_closedAt (n : Nat) (x : Position) (name : List Char) (attributes : List SourceAttribute)
    (content : List Char) : (closedAt n x name attributes content).kind.innerSpan? =
      some (.along (x.along (openTag name attributes false)) content) := by
  show some (Span.between (x.along (openTag name attributes false))
    (x.along (openTag name attributes false ++ content))) = _
  rw [Position.along_append, Span.between_along]

end Source
end Markup
end AbbrevSite
