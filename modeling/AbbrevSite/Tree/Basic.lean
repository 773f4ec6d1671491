import AbbrevSite.Tree.Forest

/-! The tree of a document: a root, the forest below it and the comments met while reading. Nodes
are known by numbers given out in order of creation, the root being 0. -/
namespace AbbrevSite

structure Tree where
  root : Node
  forest : Forest
  /-- The stretches of text that are comments, whether or not a node stands for them. -/
  comments : List Span
deriving DecidableEq, Repr

namespace Tree

def new (kind : Kind) (span : Span) : Tree := ⟨⟨0, kind, span⟩, .nil, []⟩

def size (t : Tree) : Nat := t.forest.size + 1

def isEmpty (t : Tree) : Bool := t.size == 1

/-- Every node, the root first. -/
def preorder (t : Tree) : List Node := t.root :: t.forest.preorder

/-- Adds a node below the node of number `parent`, after what is there; its number is the size the
tree had. -/
def add (t : Tree) (parent : Nat) (kind : Kind) (span : Span) : Tree :=
  let new : Node := ⟨t.size, kind, span⟩
  if parent = t.root.id then { t with forest := t.forest ++ .cons new .nil .nil }
  else { t with forest := t.forest.addBelow parent new }

/-- Moves what is below a node to right after it. Below the root it stays. -/
def hoist (t : Tree) (id : Nat) : Tree :=
  if id = t.root.id then t else { t with forest := t.forest.hoist id }

def setSpan (t : Tree) (id : Nat) (span : Span) : Tree :=
  if id = t.root.id then { t with root := { t.root with span } }
  else { t with forest := t.forest.update id fun n => { n with span } }

def addComment (t : Tree) (span : Span) : Tree := { t with comments := t.comments ++ [span] }

def inComment (t : Tree) (p : Position) : Bool := t.comments.any (·.contains p)

end Tree

/-- A node and where it stands in its tree. -/
structure Placed where
  node : Node
  parent : Option Node
  children : List Node
  next : Option Node
deriving DecidableEq, Repr

namespace Forest

/-- Every node with its place, in preorder, in front of `rest`. -/
def placedOnto (parent : Node) : Forest → List Placed → List Placed
  | nil, rest => rest
  | cons n inner next, rest =>
    ⟨n, some parent, inner.roots, next.first?⟩
      :: inner.placedOnto n (next.placedOnto parent rest)

end Forest

namespace Tree

/-- Every node with its place, the root first. -/
def placed (t : Tree) : List Placed :=
  ⟨t.root, none, t.forest.roots, none⟩ :: t.forest.placedOnto t.root []

def get? (t : Tree) (id : Nat) : Option Placed := t.placed.find? fun p => p.node.id == id

end Tree
end AbbrevSite
