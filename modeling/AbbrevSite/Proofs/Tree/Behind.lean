import AbbrevSite.Failure
import AbbrevSite.Proofs.Text.Excerpt
import AbbrevSite.Proofs.Tree.Sketch
import AbbrevSite.Proofs.Tree.Tokens

/-! Trees whose places are those of a text that starts somewhere in a document. Building a forest looks at no place, so
what is built of nodes that were moved is what is built of the nodes, moved. -/
namespace AbbrevSite

variable {o : Position}

def Token.behind (t : Token) (o : Position) : Token := ⟨t.span.behind o, t.text⟩

abbrev Kind.behind (k : Kind) (o : Position) : Kind := k.mapTokens (·.behind o)

def Node.behind (n : Node) (o : Position) : Node := ⟨n.id, n.kind.behind o, n.span.behind o⟩

/-- The tree with every place moved: those of its nodes, of their tokens and of its comments. -/
def Tree.behind (t : Tree) (o : Position) : Tree :=
  ⟨t.root.behind o, t.forest.mapNodes (·.behind o), t.comments.map (·.behind o)⟩

def Failure.behind (f : Failure) (o : Position) : Failure :=
  match f with
  | malformed complaint place => malformed complaint (place.behind o)
  | f => f

namespace Kind

lemma mapTokens_close (f : Token → Token) (closing : Token) (k : Kind) :
    (k.close closing).mapTokens f = (k.mapTokens f).close (f closing) := by
  cases k <;> rfl

lemma isElementNamed_behind (name : String) (k : Kind) : (k.behind o).isElementNamed name = k.isElementNamed name := by
  cases k <;> rfl

end Kind

namespace Builder

variable {b : Builder} {f : Node → Node}

lemma mapNodes_leave {final final' : Node → Node} (h : ∀ n, f (final n) = final' (f n)) :
    (b.leave final).mapNodes f = (b.mapNodes f).leave final' := by
  obtain ⟨count, finished, enclosing⟩ := b
  cases enclosing with
  | nil => rfl
  | cons n rest => simp [leave, mapNodes, OpenNode.mapNodes, Forest.mapTree, Forest.mapNodes_ofReversed, h]

lemma mapNodes_abandonWhile {p p' : Node → Bool} (h : ∀ n, p' (f n) = p n) :
    (b.abandonWhile p).mapNodes f = (b.mapNodes f).abandonWhile p' := by
  have hcomp : (fun n : OpenNode => p' n.node) ∘ OpenNode.mapNodes f = fun n => p n.node := by
    funext n
    exact h n.node
  unfold abandonWhile mapNodes
  simp only [List.takeWhile_map, List.dropWhile_map, hcomp, List.map_append, List.map_flatMap, List.flatMap_map]
  rfl

lemma mapNodes_abandonAll : b.abandonAll.mapNodes f = (b.mapNodes f).abandonAll := mapNodes_abandonWhile fun _ => rfl

lemma mapNodes_leaveAll {final final' : Node → Node} (h : ∀ n, f (final n) = final' (f n)) :
    (b.leaveAll final).mapNodes f = (b.mapNodes f).leaveAll final' := by
  fun_induction leaveAll b final with
  | case1 b hb =>
    have hb' : (b.mapNodes f).enclosing = [] := List.map_eq_nil_iff.2 hb
    rw [leaveAll, dif_pos hb']
  | case2 b hb ih =>
    have hb' : (b.mapNodes f).enclosing ≠ [] := fun hn => hb (List.map_eq_nil_iff.1 hn)
    rw [ih, mapNodes_leave h, leaveAll.eq_def (b.mapNodes f), dif_neg hb']

lemma mapNodes_forest : b.forest.mapNodes f = (b.mapNodes f).forest := Forest.mapNodes_ofReversed _

abbrev behind (b : Builder) (o : Position) : Builder := b.mapNodes (·.behind o)

end Builder
end AbbrevSite
