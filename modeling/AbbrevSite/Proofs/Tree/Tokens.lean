import AbbrevSite.Proofs.Text.Lines
import AbbrevSite.Tree.Node

/-! The tokens of a node in the order of the source. Tokens stand in order between two places if each starts at
or after the end of the one before and has the text of its own stretch of the document. -/
namespace AbbrevSite

def Token.along (x : Position) (cs : List Char) : Token := ⟨.along x cs, .ofList cs⟩

/-- The tokens a node is made of, in the order of the source; of an element its two tags. -/
def Kind.tokens : Kind → List Token
  | .rule selector opening closing => selector :: opening :: closing.toList
  | .atRule name expression opening closing =>
    name :: (expression.toList ++ opening.toList ++ closing.toList)
  | .property name separator value terminator =>
    name :: (separator.toList ++ value.toList ++ terminator.toList)
  | .element _ opening closing _ => opening :: closing.toList
  | .stylesheet | .document | .comment => []

/-- The kind with every token changed, those of attributes included. -/
def Kind.mapTokens (f : Token → Token) : Kind → Kind
  | .rule selector opening closing => .rule (f selector) (f opening) (closing.map f)
  | .atRule name expression opening closing => .atRule (f name) (expression.map f) (opening.map f) (closing.map f)
  | .property name separator value terminator =>
    .property (f name) (separator.map f) (value.map f) (terminator.map f)
  | .element name opening closing attributes =>
    .element (f name) (f opening) (closing.map f) (attributes.map fun a => ⟨f a.name, a.value.map f⟩)
  | k => k

namespace Document

/-- Tokens of a document that stand in order between two places. -/
def InOrder (d : Document) : Position → List Token → Position → Prop
  | a, [], b => a ≤ b
  | a, t :: ts, b => a ≤ t.span.start ∧ t.text = d.textOf t.span ∧ d.InOrder t.span.stop ts b

namespace InOrder

variable {d : Document} {a b x y : Position} {t : Token} {ts us : List Token}

lemma le (h : d.InOrder a ts b) : a ≤ b := by
  induction ts generalizing a with
  | nil => exact h
  | cons t ts ih => exact (h.1.trans t.span.ordered).trans (ih h.2.2)

lemma bounds (h : d.InOrder a ts b) (ht : t ∈ ts) : a ≤ t.span.start ∧ t.span.stop ≤ b := by
  induction ts generalizing a with
  | nil => cases ht
  | cons u us ih =>
    rcases List.mem_cons.1 ht with rfl | ht
    · exact ⟨h.1, h.2.2.le⟩
    · obtain ⟨hstart, hstop⟩ := ih h.2.2 ht
      exact ⟨(h.1.trans u.span.ordered).trans hstart, hstop⟩

lemma mono (hx : x ≤ a) (h : d.InOrder a ts b) (hy : b ≤ y) : d.InOrder x ts y := by
  induction ts generalizing a x with
  | nil => exact (hx.trans h).trans hy
  | cons t ts ih => exact ⟨hx.trans h.1, h.2.1, ih (le_refl _) h.2.2⟩

lemma append (h : d.InOrder a ts x) (h' : d.InOrder x us b) : d.InOrder a (ts ++ us) b := by
  induction ts generalizing a with
  | nil => exact h'.mono h (le_refl b)
  | cons t ts ih => exact ⟨h.1, h.2.1, ih h.2.2⟩

lemma cons (ht : t.text = d.textOf t.span) (ha : a ≤ t.span.start) (h : d.InOrder t.span.stop ts b) :
    d.InOrder a (t :: ts) b := ⟨ha, ht, h⟩

lemma toList {o : Option Token} (hab : a ≤ b)
    (h : ∀ t, o = some t → a ≤ t.span.start ∧ t.text = d.textOf t.span ∧ t.span.stop ≤ b) :
    d.InOrder a o.toList b := by
  cases o with
  | none => exact hab
  | some t => exact h t rfl

end InOrder
end Document
end AbbrevSite
