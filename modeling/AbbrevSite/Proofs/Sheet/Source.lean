import AbbrevSite.Proofs.Tree.Sketch
import AbbrevSite.Proofs.Tree.Tokens
import AbbrevSite.Sheet.Parse

/-! Stylesheets to be written out: declarations, at-rules and rules, nested to any depth, with any blanks between them,
the text that is written for them and the forest that stands for them at a place of a document. -/
namespace AbbrevSite

def Token.unplaced (t : Token) : Token := ⟨.emptyAt .origin, t.text⟩

def Node.unplaced (n : Node) : Node := ⟨n.id, n.kind.mapTokens .unplaced, .emptyAt .origin⟩

namespace Sheet

/-- What is written in front of a delimiter. -/
inductive Header where
  | declaration (name value : List Char)
  | rule (selector : List Char)
  | atRule (name expression : List Char)
deriving DecidableEq, Repr

/-- Some characters without a blank at either end, none of which starts a comment, a string or a group or ends a
statement. -/
structure IsPhrase (cs : List Char) : Prop where
  first : ∃ c ∈ cs.head?, CharClass.isBlank c = false
  last : ∃ c ∈ cs.getLast?, CharClass.isBlank c = false
  plain : ∀ c ∈ cs, c ∉ ['{', '}', ';', '(', '/', '"', '\'', '\r']

instance : DecidablePred IsPhrase := fun cs =>
  decidable_of_iff (cs.head?.any (!CharClass.isBlank ·) = true ∧ cs.getLast?.any (!CharClass.isBlank ·) = true ∧
      cs.all (fun c => decide (c ∉ ['{', '}', ';', '(', '/', '"', '\'', '\r'])) = true)
    ⟨fun h => ⟨by simpa [Option.any_eq_true] using h.1, by simpa [Option.any_eq_true] using h.2.1,
        by simpa using h.2.2⟩,
      fun h => ⟨by simpa [Option.any_eq_true] using h.first, by simpa [Option.any_eq_true] using h.last,
        by simpa using h.plain⟩⟩

lemma IsPhrase.exists_eq_cons {cs : List Char} (h : IsPhrase cs) :
    ∃ c tail, cs = c :: tail ∧ CharClass.isBlank c = false := by
  obtain ⟨c, hc, hb⟩ := h.first
  obtain ⟨tail, rfl⟩ := List.head?_eq_some_iff.1 hc
  exact ⟨c, tail, rfl, hb⟩

namespace Header

def print : Header → List Char
  | declaration name value => name ++ (':' :: ' ' :: value)
  | rule selector => selector
  | atRule name expression => '@' :: (name ++ (' ' :: expression))

/-- The name of a declaration ends at the first colon, an at-name at the first character that is none of its own, and
nothing else starts as an at-rule does. -/
def WellFormed : Header → Prop
  | declaration name value => IsPhrase name ∧ IsPhrase value ∧ ':' ∉ name ∧ name.head? ≠ some '@'
  | rule selector => IsPhrase selector ∧ selector.head? ≠ some '@'
  | atRule name expression => name.all isAtNameChar = true ∧ IsPhrase expression

instance : DecidablePred WellFormed
  | declaration _ _ | rule _ | atRule _ _ => inferInstanceAs (Decidable (_ ∧ _))

def expressionAt (x : Position) (name expression : List Char) : Token :=
  .along (x.along ('@' :: (name ++ [' ']))) expression

/-- The statement of a header that starts at a place, with the semicolon behind it. -/
def statementAt (x : Position) : Header → Kind
  | declaration name value =>
    .property (.along x name) (some (.along (x.along name) [':']))
      (some (.along (x.along (name ++ [':', ' '])) value))
      (some (.along (x.along (declaration name value).print) [';']))
  | rule selector => .property (.along x selector) none none (some (.along (x.along selector) [';']))
  | atRule name expression => .atRule (.along x ('@' :: name)) (some (expressionAt x name expression)) none none

def blockAt (x : Position) (h : Header) (opening : Token) (closing : Option Token) : Kind :=
  match h with
  | atRule name expression =>
    .atRule (.along x ('@' :: name)) (some (expressionAt x name expression)) (some opening) closing
  | _ => .rule (.along x h.print) opening closing

def IsStatement : Header → Prop
  | rule _ => False
  | _ => True

def IsOpening : Header → Prop
  | declaration _ _ => False
  | _ => True

instance : DecidablePred IsStatement
  | declaration _ _ | atRule _ _ => .isTrue trivial
  | rule _ => .isFalse id

instance : DecidablePred IsOpening
  | declaration _ _ => .isFalse id
  | rule _ | atRule _ _ => .isTrue trivial

end Header

/-- A row of statements and blocks, each behind some blanks, and the blanks behind the last of them. -/
inductive Source where
  | nil (gap : List Char)
  | statement (gap : List Char) (header : Header) (next : Source)
  | block (gap : List Char) (header : Header) (inner next : Source)
deriving DecidableEq, Repr

namespace Source

def print : Source → List Char
  | nil gap => gap
  | statement gap header next => gap ++ (header.print ++ (';' :: next.print))
  | block gap header inner next => gap ++ (header.print ++ (' ' :: '{' :: (inner.print ++ ('}' :: next.print))))

def WellFormed : Source → Prop
  | nil gap => gap.all CharClass.isBlank = true
  | statement gap header next =>
    (gap.all CharClass.isBlank = true ∧ header.WellFormed ∧ header.IsStatement) ∧ next.WellFormed
  | block gap header inner next =>
    (gap.all CharClass.isBlank = true ∧ header.WellFormed ∧ header.IsOpening) ∧ inner.WellFormed ∧ next.WellFormed

instance decidableWellFormed : DecidablePred WellFormed
  | nil gap => inferInstanceAs (Decidable (gap.all CharClass.isBlank = true))
  | statement _ _ next =>
    have := decidableWellFormed next
    inferInstanceAs (Decidable (_ ∧ _))
  | block _ _ inner next =>
    have := decidableWellFormed inner
    have := decidableWellFormed next
    inferInstanceAs (Decidable (_ ∧ _))

def size : Source → Nat
  | nil _ => 0
  | statement _ _ next => next.size + 1
  | block _ _ inner next => inner.size + next.size + 1

/-- The node of a block whose header starts at a place, from its header to its closing brace. -/
def closedAt (n : Nat) (x : Position) (header : Header) (content : List Char) : Node :=
  ⟨n, header.blockAt x (.along (x.along (header.print ++ [' '])) ['{'])
      (some (.along (x.along (header.print ++ ([' ', '{'] ++ content))) ['}'])),
    .along x (header.print ++ ([' ', '{'] ++ (content ++ ['}'])))⟩

/-- The statements and blocks of a row that starts at a place, the numbers from `n` on given in preorder. -/
def forest (n : Nat) (x : Position) : Source → Forest
  | nil _ => .nil
  | statement gap header next =>
    .cons ⟨n, header.statementAt (x.along gap), .along (x.along gap) (header.print ++ [';'])⟩ .nil
      (next.forest (n + 1) (x.along (gap ++ (header.print ++ [';']))))
  | block gap header inner next =>
    .cons (closedAt n (x.along gap) header inner.print)
      (inner.forest (n + 1) (x.along (gap ++ (header.print ++ [' ', '{']))))
      (next.forest (n + 1 + inner.size)
        (x.along (gap ++ (header.print ++ ([' ', '{'] ++ (inner.print ++ ['}']))))))

end Source
end Sheet
end AbbrevSite
