import AbbrevSite.Tree.Node

/-! Ordered forests of nodes: a forest is empty or a first node, the forest below it and the forest
after it. The preorder lists a node before what is below it, and that before what is after it. -/
namespace AbbrevSite

inductive Forest where
  | nil
  | cons (node : Node) (inner next : Forest)
deriving DecidableEq, Repr

namespace Forest

def append : Forest → Forest → Forest
  | nil, g => g
  | cons n inner next, g => cons n inner (next.append g)

instance : Append Forest := ⟨append⟩

@[simp] theorem nil_append (g : Forest) : nil ++ g = g := rfl

@[simp] theorem cons_append (n : Node) (inner next g : Forest) :
    cons n inner next ++ g = cons n inner (next ++ g) := rfl

@[simp] theorem append_nil (f : Forest) : f ++ nil = f := by
  induction f with
  | nil => rfl
  | cons n inner next _ ih => rw [cons_append, ih]

theorem append_assoc (f g h : Forest) : f ++ g ++ h = f ++ (g ++ h) := by
  induction f with
  | nil => rfl
  | cons n inner next _ ih => rw [cons_append, cons_append, cons_append, ih]

/-- The nodes of the first level, in order. -/
def roots : Forest → List Node
  | nil => []
  | cons n _ next => n :: next.roots

def first? : Forest → Option Node
  | nil => none
  | cons n _ _ => some n

theorem first?_eq (f : Forest) : f.first? = f.roots.head? := by cases f <;> rfl

def preorder : Forest → List Node
  | nil => []
  | cons n inner next => n :: (inner.preorder ++ next.preorder)

def size : Forest → Nat
  | nil => 0
  | cons _ inner next => inner.size + next.size + 1

@[simp] theorem preorder_append (f g : Forest) : (f ++ g).preorder = f.preorder ++ g.preorder := by
  induction f with
  | nil => rfl
  | cons n inner next _ ih => simp [preorder, ih]

@[simp] theorem roots_append (f g : Forest) : (f ++ g).roots = f.roots ++ g.roots := by
  induction f with
  | nil => rfl
  | cons n inner next _ ih => simp [roots, ih]

theorem length_preorder (f : Forest) : f.preorder.length = f.size := by
  induction f with
  | nil => rfl
  | cons n inner next ih ih' => simp [preorder, size, ih, ih']

/-- Trees given last to first, as a forest. -/
def ofReversed (trees : List (Node × Forest)) : Forest :=
  trees.foldl (fun f t => cons t.1 t.2 f) nil

theorem foldl_cons_eq (trees : List (Node × Forest)) (f : Forest) :
    trees.foldl (fun f t => cons t.1 t.2 f) f = ofReversed trees ++ f := by
  induction trees generalizing f with
  | nil => rfl
  | cons t trees ih =>
    have h : ofReversed (t :: trees) = ofReversed trees ++ cons t.1 t.2 nil := ih _
    rw [List.foldl_cons, ih, h, append_assoc]
    rfl

theorem ofReversed_cons (t : Node × Forest) (trees : List (Node × Forest)) :
    ofReversed (t :: trees) = ofReversed trees ++ cons t.1 t.2 nil := by
  rw [ofReversed, List.foldl_cons, foldl_cons_eq]

/-- Adds a node below the node of number `id`, after what is there. -/
def addBelow (id : Nat) (new : Node) : Forest → Forest
  | nil => nil
  | cons n inner next =>
    if n.id = id then cons n (inner ++ cons new nil nil) next
    else cons n (inner.addBelow id new) (next.addBelow id new)

/-- Moves what is below the node of number `id` to right after it. -/
def hoist (id : Nat) : Forest → Forest
  | nil => nil
  | cons n inner next =>
    if n.id = id then cons n nil (inner ++ next)
    else cons n (inner.hoist id) (next.hoist id)

/-- Changes the node of number `id`. -/
def update (id : Nat) (change : Node → Node) : Forest → Forest
  | nil => nil
  | cons n inner next =>
    if n.id = id then cons (change n) inner next
    else cons n (inner.update id change) (next.update id change)

@[simp] theorem preorder_hoist (id : Nat) (f : Forest) : (f.hoist id).preorder = f.preorder := by
  induction f with
  | nil => rfl
  | cons n inner next ih ih' =>
    unfold hoist
    split <;> simp [preorder, ih, ih']

end Forest
end AbbrevSite
