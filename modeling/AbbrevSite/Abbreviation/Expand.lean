import AbbrevSite.Abbreviation.Extract
import AbbrevSite.Abbreviation.Markup
import AbbrevSite.Abbreviation.Sheet
import AbbrevSite.Abbreviation.Valid

/-! What is offered for the abbreviation at a position. -/
namespace AbbrevSite.Abbreviation

/-- The expansion of an abbreviation. None if it means nothing. -/
def expand? (abbreviation : String) (dialect : Dialect) (o : ExpandOptions) : Option String :=
  if dialect.isStylesheet then Sheet.expand? abbreviation dialect o
  else expandMarkup? abbreviation dialect o

/-- What follows a place `${n}` or `${n:text}` at the start of a text, with what the place shows. -/
def place? (cs : List Char) : Option (List Char × List Char) :=
  match cs with
  | '$' :: '{' :: rest =>
    if (rest.takeWhile CharClass.isDecimalDigit).isEmpty then none
    else
      match rest.dropWhile CharClass.isDecimalDigit with
      | '}' :: rest' => some (['|'], rest')
      | ':' :: rest' =>
        match rest'.dropWhile (· != '}') with
        | _ :: rest'' => some (rest'.takeWhile (· != '}'), rest'')
        | [] => none
      | _ => none
  | _ => none

theorem length_place? {cs shown rest : List Char} (h : place? cs = some (shown, rest)) :
    rest.length < cs.length := by
  unfold place? at h
  split at h
  · rename_i r
    have h1 := (List.dropWhile_sublist (l := r) CharClass.isDecimalDigit).length_le
    split at h
    · simp at h
    · split at h
      · rename_i heq
        rw [heq] at h1
        simp only [Option.some.injEq, Prod.mk.injEq] at h
        rw [← h.2]; simp at h1 ⊢; omega
      · rename_i r' heq
        rw [heq] at h1
        have h2 := (List.dropWhile_sublist (l := r') (· != '}')).length_le
        split at h
        · rename_i heq'
          rw [heq'] at h2
          simp only [Option.some.injEq, Prod.mk.injEq] at h
          rw [← h.2]; simp at h1 h2 ⊢; omega
        · simp at h
      · simp at h
  · simp at h

/-- A text with each place replaced by its text, or by a bar if it has none; `acc` is what stands before
it, last character first. -/
def previewOnto (acc : List Char) (cs : List Char) : List Char :=
  match _h : place? cs with
  | some (shown, rest) => previewOnto (shown.reverse ++ acc) rest
  | none =>
    match cs with
    | [] => acc.reverse
    | c :: rest => previewOnto (c :: acc) rest
termination_by cs.length
decreasing_by
  · exact length_place? ‹_›
  · simp

def preview (snippet : String) : String := String.ofList (previewOnto [] snippet.toList)

/-- An offer for an abbreviation. -/
structure Offer where
  label : String
  documentation : Option String
  detail : Option String
  /-- What the expansion replaces. -/
  span : Span
  newText : String
  sortText : Option String
  word : Option String
deriving DecidableEq, Repr

/-- The offers for the abbreviation at a position: one if it is valid and means something. -/
def offers (d : Document) (p : Position) (dialect : Dialect) (o : ExpandOptions) : List Offer :=
  match extract? d p dialect.isMarkup with
  | none => []
  | some found =>
    if isValid dialect found.text then
      match expand? found.text dialect o with
      | none => []
      | some snippet =>
        [⟨found.text, some (preview snippet), some "Emmet Abbreviation", found.span, snippet, none,
          some found.text⟩]
    else []

end AbbrevSite.Abbreviation
