import AbbrevSite.Tree.Outline

/-! Trees as they are stored: a table of nodes known by their places in it. Each node has the number of its
parent and the numbers of its children, so every link is stored twice. -/
namespace AbbrevSite

/-- A row of the table. -/
structure Slot where
  kind : Kind
  span : Span
  parent : Option Nat
  children : List Nat
deriving DecidableEq, Repr

/-- Puts a row of numbers into another right after `id`, or at the end if `id` is not there. -/
def spliceAfter (id : Nat) (row siblings : List Nat) : List Nat :=
  let place := ((siblings.findIdx? (· == id)).map (· + 1)).getD siblings.length
  siblings.take place ++ row ++ siblings.drop place

namespace Slot

def setParent (parent : Nat) (s : Slot) : Slot := { s with parent := some parent }

def addChild (id : Nat) (s : Slot) : Slot := { s with children := s.children ++ [id] }

def disown (s : Slot) : Slot := { s with children := [] }

/-- Takes in the children of a child, right after it. -/
def adopt (id : Nat) (row : List Nat) (s : Slot) : Slot :=
  { s with children := spliceAfter id row s.children }

end Slot

structure Arena where
  slots : Array Slot
deriving DecidableEq, Repr

namespace Arena

def new (kind : Kind) (span : Span) : Arena := ⟨#[⟨kind, span, none, []⟩]⟩

def size (a : Arena) : Nat := a.slots.size

def children (a : Arena) (id : Nat) : List Nat := (a.slots[id]?.map (·.children)).getD []

/-- Adds a node as the last child of `parent`; its number is the size the table had. -/
def addChild (a : Arena) (parent : Nat) (kind : Kind) (span : Span) : Arena :=
  let slots := a.slots.push ⟨kind, span, some parent, []⟩
  ⟨slots.modify parent (.addChild a.size)⟩

/-- Gives the children of a node to its parent, right after the node. The root keeps its own. -/
def hoistChildren (a : Arena) (id : Nat) : Arena :=
  match a.slots[id]?.bind (·.parent) with
  | none => a
  | some parent =>
    let children := a.children id
    let slots := a.slots.modify id .disown
    let slots := children.foldl (fun slots child => slots.modify child (.setParent parent)) slots
    ⟨slots.modify parent (.adopt id children)⟩

/-- The sibling after a node, looked up where the node stands among the children of its parent. -/
def nextSibling? (a : Arena) (id : Nat) : Option Nat := do
  let siblings := a.children (← (← a.slots[id]?).parent)
  siblings[(← siblings.findIdx? (· == id)) + 1]?

/-- The pending nodes, the first one next, and the children of each right after it, all with their depths. None if
that takes more turns than it may, or if a number is not one of the table. -/
def visitFrom (a : Arena) : (turns : Nat) → (pending : List (Nat × Nat)) → Option (List (Nat × Node))
  | _, [] => some []
  | 0, _ :: _ => none
  | turns + 1, (depth, id) :: pending => do
    let s ← a.slots[id]?
    let visits ← a.visitFrom turns (s.children.map (depth + 1, ·) ++ pending)
    return (depth, ⟨id, s.kind, s.span⟩) :: visits

/-- Every node with its depth, in the order they are visited from the root on. -/
def visits? (a : Arena) : Option (List (Nat × Node)) := a.visitFrom a.size [(0, 0)]

/-- The numbers of the nodes, in the order they are visited. -/
def preorder? (a : Arena) : Option (List Nat) := a.visits?.map fun visits => visits.map (·.2.id)

def outline? (a : Arena) : Option String :=
  a.visits?.map fun visits => String.intercalate "\n" (visits.map fun e => outlineLine e.1 e.2)

end Arena
end AbbrevSite
