import AbbrevSite.Tree.Outline
import Mathlib.Data.List.Perm.Basic
import Mathlib.Tactic.Common

/-! How the nodes of a forest are linked. A node stands among the children of its parent alone and its next node is the
one after it there, so going from the first child on to the next nodes gives the children in order; the outline has one
line for each node. -/
namespace AbbrevSite.Forest

variable {f inner next : Forest} {parent n : Node} {x y : Placed} {rest : List Placed}

lemma placedOnto_eq (f : Forest) (parent : Node) (rest : List Placed) :
    f.placedOnto parent rest = f.placedOnto parent [] ++ rest := by
  induction f generalizing parent rest with
  | nil => rfl
  | cons n inner next ih ih' =>
    rw [placedOnto, placedOnto, ih, ih n (next.placedOnto parent []), ih']
    simp

lemma placedOnto_cons : (cons n inner next).placedOnto parent [] =
    ⟨n, some parent, inner.roots, next.first?⟩ :: (inner.placedOnto n [] ++ next.placedOnto parent []) := by
  rw [placedOnto, placedOnto_eq inner]

lemma map_node_placedOnto (f : Forest) (parent : Node) : (f.placedOnto parent []).map (·.node) = f.preorder := by
  induction f generalizing parent with
  | nil => rfl
  | cons n inner next ih ih' => rw [placedOnto_cons, List.map_cons, List.map_append, ih, ih', preorder]

lemma perm_children (f : Forest) (parent : Node) :
    (f.roots ++ (f.placedOnto parent []).flatMap (·.children)).Perm f.preorder := by
  induction f generalizing parent with
  | nil => rfl
  | cons n inner next ih ih' =>
    rw [placedOnto_cons, List.flatMap_cons, List.flatMap_append, roots, preorder, List.cons_append]
    rw [← List.append_assoc inner.roots]
    exact ((List.perm_append_comm_assoc _ _ _).trans ((ih n).append (ih' parent))).cons n

lemma exists_placed_root (parent : Node) {k : Nat} (h : f.roots[k]? = some n) :
    ∃ y ∈ f.placedOnto parent [], y.node = n ∧ y.parent = some parent ∧ y.next = f.roots[k + 1]? := by
  induction f generalizing k with
  | nil => simp [roots] at h
  | cons m inner next _ ih =>
    rw [placedOnto_cons]
    cases k with
    | zero =>
      refine ⟨_, List.mem_cons_self, Option.some_inj.1 h, rfl, ?_⟩
      rw [roots, List.getElem?_cons_succ, first?_eq, List.head?_eq_getElem?]
    | succ k =>
      obtain ⟨y, hy, hn, hparent, hnext⟩ := ih h
      exact ⟨y, List.mem_cons_of_mem _ (List.mem_append_right _ hy), hn, hparent, hnext⟩

lemma exists_placed_child (hx : x ∈ f.placedOnto parent []) {k : Nat} (h : x.children[k]? = some n) :
    ∃ y ∈ f.placedOnto parent [], y.node = n ∧ y.parent = some x.node ∧ y.next = x.children[k + 1]? := by
  induction f generalizing parent with
  | nil => cases hx
  | cons m inner next ih ih' =>
    rw [placedOnto_cons] at hx ⊢
    rcases List.mem_cons.1 hx with rfl | hx
    · obtain ⟨y, hy, hlinks⟩ := exists_placed_root m h
      exact ⟨y, List.mem_cons_of_mem _ (List.mem_append_left _ hy), hlinks⟩
    · rcases List.mem_append.1 hx with hx | hx
      · obtain ⟨y, hy, hlinks⟩ := ih hx
        exact ⟨y, List.mem_cons_of_mem _ (List.mem_append_left _ hy), hlinks⟩
      · obtain ⟨y, hy, hlinks⟩ := ih' hx
        exact ⟨y, List.mem_cons_of_mem _ (List.mem_append_right _ hy), hlinks⟩

lemma exists_placed_parent (hy : y ∈ f.placedOnto parent []) :
    (y.parent = some parent ∧ y.node ∈ f.roots) ∨
      ∃ x ∈ f.placedOnto parent [], y.parent = some x.node ∧ y.node ∈ x.children := by
  induction f generalizing parent with
  | nil => cases hy
  | cons m inner next ih ih' =>
    rw [placedOnto_cons] at hy ⊢
    rcases List.mem_cons.1 hy with rfl | hy
    · exact .inl ⟨rfl, List.mem_cons_self⟩
    · rcases List.mem_append.1 hy with hy | hy
      · rcases ih hy with ⟨hparent, hroots⟩ | ⟨x, hx, hlinks⟩
        · exact .inr ⟨_, List.mem_cons_self, hparent, hroots⟩
        · exact .inr ⟨x, List.mem_cons_of_mem _ (List.mem_append_left _ hx), hlinks⟩
      · rcases ih' hy with ⟨hparent, hroots⟩ | ⟨x, hx, hlinks⟩
        · exact .inl ⟨hparent, List.mem_cons_of_mem _ hroots⟩
        · exact .inr ⟨x, List.mem_cons_of_mem _ (List.mem_append_right _ hx), hlinks⟩

/-- The nodes of a forest whose first level stands at a depth, in preorder, each with its depth. -/
def levels (depth : Nat) : Forest → List (Nat × Node)
  | nil => []
  | cons n inner next => (depth, n) :: (inner.levels (depth + 1) ++ next.levels depth)

lemma map_snd_levels (f : Forest) (depth : Nat) : (f.levels depth).map Prod.snd = f.preorder := by
  induction f generalizing depth with
  | nil => rfl
  | cons n inner next ih ih' => rw [levels, List.map_cons, List.map_append, ih, ih', preorder]

lemma outlineOnto_eq (f : Forest) (depth : Nat) (rest : List String) :
    f.outlineOnto depth rest = (f.levels depth).map (fun e => outlineLine e.1 e.2) ++ rest := by
  induction f generalizing depth rest with
  | nil => rfl
  | cons n inner next ih ih' =>
    rw [outlineOnto, ih, ih', levels]
    simp

end AbbrevSite.Forest
