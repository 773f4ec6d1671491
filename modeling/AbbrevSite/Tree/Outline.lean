import AbbrevSite.Text.Quoted
import AbbrevSite.Tree.Basic

/-! The outline of a tree: one line for each node, indented by its depth. -/
namespace AbbrevSite

/-- The type, the span and, where there is one, the quoted label. -/
def Node.describe (n : Node) : String :=
  let head := n.kind.typeName ++ " " ++ n.span.render
  match n.kind.label? with
  | some label => head ++ " " ++ Quoted.encode label
  | none => head

def outlineLine (depth : Nat) (n : Node) : String :=
  String.join (List.replicate depth "  ") ++ n.describe

namespace Forest

/-- The lines of a forest whose first level stands at a depth, in front of `rest`. -/
def outlineOnto (depth : Nat) : Forest → List String → List String
  | nil, rest => rest
  | cons n inner next, rest =>
    outlineLine depth n :: inner.outlineOnto (depth + 1) (next.outlineOnto depth rest)

end Forest

def Tree.outline (t : Tree) : String :=
  String.intercalate "\n" (outlineLine 0 t.root :: t.forest.outlineOnto 1 [])

end AbbrevSite
