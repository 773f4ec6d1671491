import AbbrevSite.Proofs.Markup.RoundTrip
import Mathlib

/-! Rows of elements without regard to where they stand. A text is read as a row of elements if it adds just these to
the tree, whatever is read before it and behind it; such texts can be put together. -/
namespace AbbrevSite

/-- A row of elements, each with its attributes, whether it has a closing tag, and the row of elements in it. -/
inductive Elements where
  | nil
  | cons (name : String) (attributes : List (String × Option String)) (closed : Bool) (inner next : Elements)
deriving DecidableEq, Repr

namespace Elements

def append : Elements → Elements → Elements
  | nil, F => F
  | cons name attributes closed inner next, F => cons name attributes closed inner (next.append F)

instance : Append Elements := ⟨append⟩

def size : Elements → Nat
  | nil => 0
  | cons _ _ _ inner next => inner.size + next.size + 1

/-- A row that stands a number of times behind itself. -/
def times : Nat → Elements → Elements
  | 0, _ => nil
  | n + 1, E => E ++ E.times n

variable {E F : Elements} {name : String} {attributes : List (String × Option String)} {closed : Bool}

@[simp] lemma nil_append (E : Elements) : nil ++ E = E := rfl

@[simp] lemma cons_append (inner next F : Elements) : cons name attributes closed inner next ++ F =
    cons name attributes closed inner (next ++ F) := rfl

@[simp] lemma append_nil (E : Elements) : E ++ nil = E := by
  induction E with
  | nil => rfl
  | cons name attributes closed inner next _ ih => rw [cons_append, ih]

@[simp] lemma size_append : (E ++ F).size = E.size + F.size := by
  induction E with
  | nil => simp [size]
  | cons name attributes closed inner next _ ih =>
    rw [cons_append, size, size, ih]
    omega

@[simp] lemma size_times (n : Nat) : (E.times n).size = n * E.size := by
  induction n with
  | zero => simp [times, size]
  | succ n ih =>
    rw [times, size_append, ih, Nat.succ_mul]
    omega

end Elements

namespace Forest

def elements? : Forest → Option Elements
  | nil => some .nil
  | cons n inner next =>
    match n.kind with
    | .element name _ closing attributes => do
      let E ← inner.elements?
      let F ← next.elements?
      some (.cons name.text (attributes.map fun a => (a.name.text, a.value.map (·.text))) closing.isSome E F)
    | _ => none

variable {f g : Forest} {E F : Elements}

lemma elements?_cons {n : Node} {name opening : Token} {closing : Option Token} {attributes : List Attribute}
    (hn : n.kind = .element name opening closing attributes) (hf : f.elements? = some E) (hg : g.elements? = some F) :
    (cons n f g).elements? = some
      (.cons name.text (attributes.map fun a => (a.name.text, a.value.map (·.text))) closing.isSome E F) := by
  simp only [elements?, hn, hf, hg, Option.bind_eq_bind, Option.bind_some]

lemma elements?_append (hf : f.elements? = some E) (hg : g.elements? = some F) :
    (f ++ g).elements? = some (E ++ F) := by
  induction f generalizing E with
  | nil =>
    cases hf
    exact hg
  | cons n inner next _ ih =>
    obtain ⟨id, kind, span⟩ := n
    cases kind with
    | element name opening closing attributes =>
      simp only [elements?, Option.bind_eq_bind, Option.bind_eq_some_iff, Option.some_inj] at hf
      obtain ⟨I, hinner, N, hnext, rfl⟩ := hf
      exact elements?_cons rfl hinner (ih hnext)
    | _ => cases hf

lemma size_append : (f ++ g).size = f.size + g.size := by
  rw [← length_preorder, ← length_preorder, ← length_preorder, preorder_append, List.length_append]

end Forest

namespace Builder

variable {B : Builder} {f g : Forest}

lemma push_nil : B.push .nil = B := rfl

lemma push_push : (B.push f).push g = B.push (f ++ g) := by
  simp only [push, Forest.trees_append, Forest.size_append, List.reverse_append, List.append_assoc, Nat.add_assoc]

end Builder

namespace Markup

open Document

variable {d : Document} {b x : Position} {cs ds name ending : List Char} {E F : Elements}
  {attributes : List SourceAttribute} {slash : Bool}

/-- A text without line endings other than newlines, in front of any other, that adds a row of elements to a tree. -/
structure ReadsAs (cs : List Char) (E : Elements) : Prop where
  noReturn : '\r' ∉ cs
  adds (d : Document) (b x : Position) (ds : List Char) (B : Builder) (hb : d.Valid b) (h : Reads d b x (cs ++ ds)) :
    ∃ f : Forest, f.elements? = some E ∧ (pieces b true d (glyphsFrom x (cs ++ ds))).foldl addPiece B =
      (pieces b true d (glyphsFrom (x.along cs) ds)).foldl addPiece (B.push f)

def SourceAttribute.pair (a : SourceAttribute) : String × Option String := (.ofList a.name, a.value.map .ofList)

lemma SourceAttribute.map_placedFrom (x : Position) (attributes : List SourceAttribute) :
    (placedFrom x attributes).map (fun a => (a.name.text, a.value.map (·.text))) = attributes.map pair := by
  induction attributes generalizing x with
  | nil => rfl
  | cons a attributes ih =>
    rw [placedFrom, List.map_cons, List.map_cons, ih, placed, pair, Option.map_map]
    rfl

section Returns

lemma IsName.noReturn (hn : IsName name) : '\r' ∉ name := fun h => absurd (hn.all _ h) (by decide)

lemma SourceAttribute.noReturn_print {a : SourceAttribute} (hname : '\r' ∉ a.name)
    (hvalue : ∀ v ∈ a.value, '\r' ∉ v) : '\r' ∉ a.print := by
  cases hv : a.value with
  | none => simp [print, printValue, hname, hv]
  | some v => simp [print, printValue, hname, hv, hvalue v hv]

lemma noReturn_openTagWith (hn : IsName name) (hr : ∀ a ∈ attributes, '\r' ∉ a.print) (he : TagEnding ending slash) :
    '\r' ∉ openTagWith name attributes ending := by
  have hattributes : '\r' ∉ attributes.flatMap SourceAttribute.print := by
    rw [List.mem_flatMap]
    rintro ⟨a, ha, h⟩
    exact hr a ha h
  have hending : '\r' ∉ ending := by cases he <;> decide
  simp only [openTagWith, List.mem_cons, List.mem_append, not_or]
  exact ⟨by decide, hn.noReturn, hattributes, hending⟩

lemma noReturn_closeTag (hn : IsName name) : '\r' ∉ closeTag name := by
  simp only [closeTag, List.mem_cons, List.mem_append, List.not_mem_nil, or_false, not_or]
  exact ⟨by decide, by decide, hn.noReturn, by decide⟩

end Returns

namespace ReadsAs

lemma text (hr : '\r' ∉ cs) (hcs : '<' ∉ cs) : ReadsAs cs .nil where
  noReturn := hr
  adds d b x ds B hb h := ⟨.nil, rfl, by rw [pieces_text b true d hcs, Builder.push_nil]⟩

lemma append (h : ReadsAs cs E) (h' : ReadsAs ds F) : ReadsAs (cs ++ ds) (E ++ F) where
  noReturn := by
    rw [List.mem_append, not_or]
    exact ⟨h.noReturn, h'.noReturn⟩
  adds d b x es B hb hreads := by
    rw [List.append_assoc] at hreads ⊢
    obtain ⟨f, hf, hfold⟩ := h.adds d b x (ds ++ es) B hb hreads
    obtain ⟨g, hg, hfold'⟩ := h'.adds d b _ es (B.push f) hb (hreads.append hb)
    refine ⟨f ++ g, Forest.elements?_append hf hg, ?_⟩
    rw [hfold, hfold', Builder.push_push, Position.along_append]

lemma empty (hn : IsName name) (ha : ∀ a ∈ attributes, a.WellFormed) (hr : ∀ a ∈ attributes, '\r' ∉ a.print)
    (he : TagEnding ending slash) (hempty : slash = true ∨ IsVoid name) :
    ReadsAs (openTagWith name attributes ending)
      (.cons (.ofList name) (attributes.map SourceAttribute.pair) false .nil .nil) where
  noReturn := noReturn_openTagWith hn hr he
  adds d b x ds B hb h := by
    have hcond : (slash || voidElements.contains (String.ofList name).toLower) = true := by
      simpa [IsVoid] using hempty
    refine ⟨.cons ⟨B.count, .element (.along (x.advance '<') name) (.along x (openTagWith name attributes ending)) none
      (SourceAttribute.placedFrom ((x.advance '<').along name) attributes),
      .along x (openTagWith name attributes ending)⟩ .nil .nil, ?_, ?_⟩
    · rw [Forest.elements?_cons rfl rfl rfl, SourceAttribute.map_placedFrom]
      rfl
    · refine (congrArg (List.foldl addPiece B) ((pieces_openTagWith hb hn ha he h).trans (if_pos hcond))).trans ?_
      rw [List.foldl_cons, ← Builder.push_leaf, Builder.push_nil]
      rfl

/-- An element around a text. -/
lemma element (hn : IsName name) (ha : ∀ a ∈ attributes, a.WellFormed) (hr : ∀ a ∈ attributes, '\r' ∉ a.print)
    (hvoid : ¬ IsVoid name) (hraw : ¬ IsRaw name) (h : ReadsAs cs E) :
    ReadsAs (openTag name attributes false ++ (cs ++ closeTag name))
      (.cons (.ofList name) (attributes.map SourceAttribute.pair) true E .nil) where
  noReturn := by
    rw [List.mem_append, List.mem_append, not_or, not_or]
    exact ⟨noReturn_openTagWith hn hr (tagEnding_tagEnd false), h.noReturn, noReturn_closeTag hn⟩
  adds d b x ds B hb hreads := by
    rw [List.append_assoc, List.append_assoc] at hreads ⊢
    have hin := hreads.append hb
    obtain ⟨f, hf, hfold⟩ := h.adds d b _ (closeTag name ++ ds) _ hb hin
    have hclose := hin.append hb
    refine ⟨.cons (closeNode (.along ((x.along (openTag name attributes false)).along cs) (closeTag name))
      ⟨B.count, elementAt x name attributes false none, .along x (openTag name attributes false)⟩) f .nil, ?_, ?_⟩
    · have hkind : (closeNode (.along ((x.along (openTag name attributes false)).along cs) (closeTag name))
          ⟨B.count, elementAt x name attributes false none, .along x (openTag name attributes false)⟩).kind =
          elementAt x name attributes false
            (some (.along ((x.along (openTag name attributes false)).along cs) (closeTag name))) := rfl
      rw [Forest.elements?_cons hkind hf rfl, SourceAttribute.map_placedFrom]
      rfl
    · rw [pieces_open hb hn ha hvoid hraw hreads, List.foldl_cons, Source.addPiece_open, hfold,
        pieces_closing true hb hn hclose, List.foldl_cons, Source.addPiece_closing, ← Builder.push_leave,
        Builder.push_nil, Position.along_append, Position.along_append]

end ReadsAs

theorem ReadsAs.parse? (h : ReadsAs cs E) (languageId : String) :
    ∃ t, (ofText languageId (.ofList cs)).parse? .html = some t ∧ t.forest.elements? = some E := by
  have hreads := reads_ofText languageId (dropReturns_eq h.noReturn)
  have hnil : cs = cs ++ [] := (List.append_nil cs).symm
  rw [hnil] at hreads
  obtain ⟨f, hf, hfold⟩ := h.adds _ _ .origin [] .start (valid_stop _) hreads
  rw [← hnil] at hreads hfold
  refine ⟨_, parse?_of_foldl hreads ?_, hf⟩
  rw [hfold, glyphsFrom, pieces, piecesOnto, List.reverse_nil]
  rfl

end Markup
end AbbrevSite
