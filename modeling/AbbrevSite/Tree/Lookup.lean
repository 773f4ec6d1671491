import AbbrevSite.Tree.Basic

/-! Which node a position belongs to: the search goes down into the first node that holds the
position and stays inside it. -/
namespace AbbrevSite

/-- A node found below a root, with its parent and its children. -/
structure Found where
  node : Node
  parent : Node
  children : List Node
deriving DecidableEq, Repr

/-- Whether a span holds a position, with or without its ends. -/
def Span.holds (s : Span) (p : Position) (ends : Bool) : Bool :=
  s.encloses p || (ends && s.contains p)

/-- The deepest node of a chain in which each is the first of its level to satisfy `holds`; `above`
if the first level has none. -/
def Forest.descend (holds : Node → Bool) (parent : Node) (above : Option Found) :
    Forest → Option Found
  | nil => above
  | cons n inner next =>
    if holds n then inner.descend holds n (some ⟨n, parent, inner.roots⟩)
    else next.descend holds parent above

/-- The node at a position. With `ends`, a node also holds the two ends of its span. -/
def Tree.nodeAt (t : Tree) (p : Position) (ends : Bool) : Option Found :=
  t.forest.descend (fun n => n.span.holds p ends) t.root none

end AbbrevSite
