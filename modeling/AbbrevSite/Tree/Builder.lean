import AbbrevSite.Tree.Basic

/-! Building a forest while reading a text from front to back. A builder knows the nodes still open,
each with its finished siblings; a node gets its number when it is met, so the numbers follow the
preorder. -/
namespace AbbrevSite

/-- A node still open, with the finished trees before it, last first. -/
structure OpenNode where
  node : Node
  before : List (Node × Forest)
deriving DecidableEq, Repr

structure Builder where
  /-- The number the next node gets. -/
  count : Nat
  /-- The finished trees below the innermost open node, last first. -/
  finished : List (Node × Forest)
  /-- The open nodes, innermost first. -/
  enclosing : List OpenNode
deriving DecidableEq, Repr

namespace Builder

def start : Builder := ⟨1, [], []⟩

/-- Adds a node with nothing below it. -/
def leaf (b : Builder) (kind : Kind) (span : Span) : Builder :=
  { b with count := b.count + 1, finished := (⟨b.count, kind, span⟩, .nil) :: b.finished }

/-- Opens a node: what comes next is below it. -/
def enter (b : Builder) (kind : Kind) (span : Span) : Builder :=
  ⟨b.count + 1, [], ⟨⟨b.count, kind, span⟩, b.finished⟩ :: b.enclosing⟩

/-- Closes the innermost open node, giving it its final form. -/
def leave (b : Builder) (final : Node → Node) : Builder :=
  match b.enclosing with
  | [] => b
  | o :: rest => ⟨b.count, (final o.node, .ofReversed b.finished) :: o.before, rest⟩

/-- Leaves the innermost open nodes as leaves as long as they satisfy `p`; what was below each of them
comes right after it. -/
def abandonWhile (p : Node → Bool) (b : Builder) : Builder :=
  let stays (o : OpenNode) : Bool := p o.node
  let above := (b.enclosing.takeWhile stays).flatMap fun o => (o.node, .nil) :: o.before
  ⟨b.count, b.finished ++ above, b.enclosing.dropWhile stays⟩

theorem length_enclosing_leave {b : Builder} (f : Node → Node) (h : b.enclosing ≠ []) :
    (b.leave f).enclosing.length < b.enclosing.length := by
  unfold leave
  split
  · contradiction
  · rename_i o rest heq; simp [heq]

/-- Leaves every open node as a leaf. -/
def abandonAll (b : Builder) : Builder := b.abandonWhile fun _ => true

theorem enclosing_abandonAll (b : Builder) : b.abandonAll.enclosing = [] := by
  simp only [abandonAll, abandonWhile]
  induction b.enclosing with
  | nil => rfl
  | cons o rest ih => rw [List.dropWhile_cons_of_pos rfl, ih]

/-- Closes every open node. -/
def leaveAll (b : Builder) (final : Node → Node) : Builder :=
  if _h : b.enclosing = [] then b else (b.leave final).leaveAll final
termination_by b.enclosing.length
decreasing_by exact length_enclosing_leave _ ‹_›

def forest (b : Builder) : Forest := .ofReversed b.finished

end Builder
end AbbrevSite
