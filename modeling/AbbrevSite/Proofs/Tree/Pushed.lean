import AbbrevSite.Proofs.Tree.Blocks
import AbbrevSite.Proofs.Tree.Listing

/-! Finished trees pushed onto a builder. A whole forest is added at once, and a node that is opened and closed
again around a forest is added as a tree. -/
namespace AbbrevSite

namespace Forest

@[simp] lemma ofReversed_reverse_trees (f : Forest) : ofReversed f.trees.reverse = f := by
  induction f with
  | nil => rfl
  | cons n inner next _ ih =>
    rw [trees, List.reverse_cons, ofReversed_append, ih]
    rfl

end Forest

namespace Builder

/-- The builder with the trees of a forest finished behind the others. -/
def push (b : Builder) (f : Forest) : Builder := ⟨b.count + f.size, f.trees.reverse ++ b.finished, b.enclosing⟩

variable {b : Builder} {f g : Forest} {kind : Kind} {span : Span}

lemma count_push : (b.push f).count = b.count + f.size := rfl

lemma push_leaf : (b.leaf kind span).push f = b.push (.cons ⟨b.count, kind, span⟩ .nil f) := by
  simp [push, leaf, Forest.trees, Forest.size]
  omega

lemma push_leave {final : Node → Node} : (((b.enter kind span).push f).leave final).push g =
    b.push (.cons (final ⟨b.count, kind, span⟩) f g) := by
  simp [push, enter, leave, Forest.trees, Forest.size]
  omega

lemma forest_push : (start.push f).forest = f := by simp [push, start, forest]

lemma forest_abandonAll_push : (start.push f).abandonAll.forest = f := by
  rw [abandonAll, abandonWhile_of_nil rfl, forest_push]

lemma forest_leaveAll_push (final : Node → Node) : ((start.push f).leaveAll final).forest = f := by
  have hopen : (start.push f).enclosing = [] := rfl
  rw [leaveAll, dif_pos hopen, forest_push]

end Builder

end AbbrevSite
