import AbbrevSite.Proofs.Sheet.Run
import AbbrevSite.Proofs.Tree.Closing

/-! States of the stylesheet reader that differ in the numbers of their nodes and in the comments met.
They go on alike and end in trees that differ in numbers alone. -/
namespace AbbrevSite.Sheet.Reading

variable {d : Document} {r r' s s' t : Reading} {l : Lexeme} {ls : List Lexeme}

/-- Two states with the same statement being read and, numbers left out, the same nodes. -/
structure Alike (r s : Reading) : Prop where
  builder : r.builder.unnumbered = s.builder.unnumbered
  prelude : r.prelude = s.prelude

namespace Alike

lemma symm (h : Alike r s) : Alike s r := ⟨h.builder.symm, h.prelude.symm⟩

lemma enclosing (h : Alike r s) :
    r.builder.enclosing.map OpenNode.unnumbered = s.builder.enclosing.map OpenNode.unnumbered :=
  (Builder.unnumbered_eq_iff.1 h.builder).2

lemma depth (h : Alike r s) : r.depth = s.depth := by
  simpa [Reading.depth] using congrArg List.length h.enclosing

lemma endStatement (h : Alike r s) (terminator : Option Token) :
    Alike (r.endStatement d terminator) (s.endStatement d terminator) := by
  refine ⟨?_, by simp⟩
  unfold Reading.endStatement
  rw [h.prelude]
  cases s.prelude with
  | none => exact h.builder
  | some p => exact Builder.leaf_congr h.builder _ _

lemma openBlock (h : Alike r s) : Alike (r.openBlock d l) (s.openBlock d l) := by
  refine ⟨?_, rfl⟩
  unfold Reading.openBlock
  rw [h.prelude]
  exact Builder.enter_congr h.builder _ _

lemma afterClosing (h : Alike r s) : Alike (r.afterClosing d l) (s.afterClosing d l) := by
  refine ⟨Builder.leave_congr (h.endStatement none).builder fun m n hn => ?_, ?_⟩
  · simp only [Node.unnumbered, Node.mk.injEq, true_and] at hn
    simp [closedBy, Node.unnumbered, hn.1, hn.2]
  · simp [Reading.afterClosing]

lemma addToPrelude (h : Alike r s) : Alike (r.addToPrelude l) (s.addToPrelude l) := by
  refine ⟨by rw [addToPrelude_builder, addToPrelude_builder, h.builder], ?_⟩
  unfold Reading.addToPrelude
  rw [h.prelude]
  split
  · rfl
  · split_ifs
    · exact h.prelude
    · rfl
  · rfl

end Alike

theorem simulates_alike (d : Document) : Simulates d d Alike where
  depth h := h.depth
  comment _ h := ⟨h.builder, by simp only [h.prelude]⟩
  openBlock _ h := h.openBlock
  afterClosing _ h := h.afterClosing
  endStatement terminator h := h.endStatement terminator
  addToPrelude _ h := h.addToPrelude

theorem run_alike (h : run d r ls = .ok s) (ha : Alike r r') : ∃ s', run d r' ls = .ok s' ∧ Alike s s' :=
  (simulates_alike d).run h ha

def forestAt (d : Document) (stop : Position) (r : Reading) : Forest :=
  (r.endStatement d none).builder.closedAt stop

lemma finish_forest (window : Span) (stop : Position) :
    (r.finish d window stop).forest = r.forestAt d stop := Builder.forest_leaveAll

lemma Alike.forestAt (h : Alike r s) (stop : Position) :
    (r.forestAt d stop).unnumbered = (s.forestAt d stop).unnumbered :=
  Builder.closedAt_congr (h.endStatement none).builder

lemma forestAt_under (base : List OpenNode) (stop : Position) :
    (r.under base).forestAt d stop = .inside stop base (r.forestAt d stop) := by
  unfold Reading.forestAt
  rw [endStatement_under]
  exact Forest.inside_append _ _ _

end AbbrevSite.Sheet.Reading
