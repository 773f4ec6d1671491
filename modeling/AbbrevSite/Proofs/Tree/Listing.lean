import AbbrevSite.Proofs.Tree.Closing

/-! The nodes of a builder in the order in which they were met. Whatever is closed or left unclosed later, that
order stays the preorder of the forest, so the numbers follow it. -/
namespace AbbrevSite

namespace Forest

lemma ofReversed_append (xs ys : List (Node × Forest)) :
    ofReversed (xs ++ ys) = ofReversed ys ++ ofReversed xs := by
  induction xs with
  | nil => simp [ofReversed]
  | cons t xs ih => rw [List.cons_append, ofReversed_cons, ofReversed_cons, ih, append_assoc]

end Forest

namespace Builder

/-- The nodes around the innermost level and those of the levels before it. -/
def around : List OpenNode → List Node
  | [] => []
  | o :: rest => around rest ++ ((Forest.ofReversed o.before).preorder ++ [o.node])

/-- Every node met, open or finished, in preorder. -/
def nodes (b : Builder) : List Node := around b.enclosing ++ (Forest.ofReversed b.finished).preorder

variable {b : Builder} {P : Node → Prop}

@[simp] lemma nodes_start : start.nodes = [] := rfl

lemma nodes_leaf (kind : Kind) (span : Span) :
    (b.leaf kind span).nodes = b.nodes ++ [⟨b.count, kind, span⟩] := by
  simp [nodes, leaf, Forest.ofReversed_cons, Forest.preorder]

lemma nodes_enter (kind : Kind) (span : Span) :
    (b.enter kind span).nodes = b.nodes ++ [⟨b.count, kind, span⟩] := by
  simp [nodes, enter, around, Forest.ofReversed, Forest.preorder]

lemma leave_of_cons {o : OpenNode} {rest : List OpenNode} (h : b.enclosing = o :: rest)
    (final : Node → Node) :
    b.leave final = ⟨b.count, (final o.node, .ofReversed b.finished) :: o.before, rest⟩ := by
  simp only [leave, h]

lemma nodes_leave {o : OpenNode} {rest : List OpenNode} (h : b.enclosing = o :: rest)
    (final : Node → Node) :
    ∃ front back, b.nodes = front ++ o.node :: back ∧ (b.leave final).nodes = front ++ final o.node :: back := by
  refine ⟨around rest ++ (Forest.ofReversed o.before).preorder, (Forest.ofReversed b.finished).preorder, ?_, ?_⟩
  · simp [nodes, h, around]
  · simp [nodes, leave_of_cons h, Forest.ofReversed_cons, Forest.preorder]

lemma forall_nodes_leave_of_open {final : Node → Node} (hb : ∀ n ∈ b.nodes, P n)
    (hfinal : ∀ o ∈ b.enclosing.head?, P o.node → P (final o.node)) : ∀ n ∈ (b.leave final).nodes, P n := by
  cases he : b.enclosing with
  | nil =>
    have hl : b.leave final = b := by simp only [Builder.leave, he]
    rwa [hl]
  | cons o rest =>
    obtain ⟨front, back, hnodes, hleft⟩ := nodes_leave he final
    rw [hnodes, List.forall_mem_append, List.forall_mem_cons] at hb
    rw [hleft, List.forall_mem_append, List.forall_mem_cons]
    exact ⟨hb.1, hfinal o (by rw [he]; rfl) hb.2.1, hb.2.2⟩

lemma forall_nodes_leave {final : Node → Node} (hb : ∀ n ∈ b.nodes, P n) (hfinal : ∀ n, P n → P (final n)) :
    ∀ n ∈ (b.leave final).nodes, P n := forall_nodes_leave_of_open hb fun _ _ => hfinal _

/-- The innermost open node as a leaf, with what was below it after it. -/
def abandon (o : OpenNode) (rest : List OpenNode) (b : Builder) : Builder :=
  ⟨b.count, b.finished ++ (o.node, .nil) :: o.before, rest⟩

lemma abandonWhile_of_nil {p : Node → Bool} (h : b.enclosing = []) : b.abandonWhile p = b := by
  obtain ⟨count, finished, enclosing⟩ := b
  obtain rfl : enclosing = [] := h
  simp [abandonWhile]

lemma abandonWhile_of_neg {p : Node → Bool} {o : OpenNode} {rest : List OpenNode}
    (h : b.enclosing = o :: rest) (hp : p o.node = false) : b.abandonWhile p = b := by
  obtain ⟨count, finished, enclosing⟩ := b
  obtain rfl : enclosing = o :: rest := h
  simp [abandonWhile, hp]

lemma abandonWhile_of_pos {p : Node → Bool} {o : OpenNode} {rest : List OpenNode}
    (h : b.enclosing = o :: rest) (hp : p o.node = true) :
    b.abandonWhile p = (b.abandon o rest).abandonWhile p := by
  simp [abandonWhile, abandon, h, hp]

/-- What holds of a builder and stays when its innermost node is left as a leaf still holds when nodes have been
left so. -/
theorem abandonWhile_induction {motive : Builder → Prop} {p : Node → Bool} (base : motive b)
    (step : ∀ (c : Builder) (o : OpenNode) (rest : List OpenNode), c.enclosing = o :: rest → motive c →
      motive (c.abandon o rest)) :
    motive (b.abandonWhile p) := by
  induction he : b.enclosing generalizing b with
  | nil => rwa [abandonWhile_of_nil he]
  | cons o rest ih =>
    cases hp : p o.node with
    | false => rwa [abandonWhile_of_neg he hp]
    | true =>
      rw [abandonWhile_of_pos he hp]
      exact ih (step b o rest he base) rfl

lemma nodes_abandon {o : OpenNode} {rest : List OpenNode} (h : b.enclosing = o :: rest) :
    (b.abandon o rest).nodes = b.nodes := by
  simp [nodes, abandon, h, around, Forest.ofReversed_append, Forest.ofReversed_cons, Forest.preorder]

@[simp] lemma nodes_abandonWhile (p : Node → Bool) : (b.abandonWhile p).nodes = b.nodes :=
  abandonWhile_induction (motive := fun c => c.nodes = b.nodes) rfl
    fun _ _ _ he h => (nodes_abandon he).trans h

lemma nodes_of_enclosing_nil (h : b.enclosing = []) : b.nodes = b.forest.preorder := by
  simp [nodes, h, around, forest]

/-- The numbers given out are those of the nodes met, in their order, behind the number of the root. -/
def Numbered (b : Builder) : Prop := 0 :: b.nodes.map (·.id) = List.range b.count

lemma numbered_start : start.Numbered := rfl

lemma Numbered.leaf (h : b.Numbered) (kind : Kind) (span : Span) : (b.leaf kind span).Numbered := by
  rw [Numbered, nodes_leaf]
  show _ = List.range (b.count + 1)
  rw [List.range_succ, ← h]
  simp

lemma Numbered.enter (h : b.Numbered) (kind : Kind) (span : Span) : (b.enter kind span).Numbered := by
  rw [Numbered, nodes_enter]
  show _ = List.range (b.count + 1)
  rw [List.range_succ, ← h]
  simp

lemma Numbered.leave (h : b.Numbered) {final : Node → Node} (hid : ∀ n, (final n).id = n.id) :
    (b.leave final).Numbered := by
  cases he : b.enclosing with
  | nil =>
    have hl : b.leave final = b := by simp only [Builder.leave, he]
    rwa [hl]
  | cons o rest =>
    obtain ⟨front, back, hb, hl⟩ := nodes_leave he final
    have hc : (b.leave final).count = b.count := by rw [leave_of_cons he]
    rw [Numbered, hb] at h
    rw [Numbered, hl, hc, ← h]
    simp [hid]

lemma Numbered.preorder (h : b.Numbered) (he : b.enclosing = []) :
    0 :: b.forest.preorder.map (·.id) = List.range (b.forest.size + 1) := by
  rw [Numbered, nodes_of_enclosing_nil he] at h
  have hl := congrArg List.length h
  rw [List.length_cons, List.length_map, Forest.length_preorder, List.length_range] at hl
  rw [h, hl]

theorem leaveAll_induction {motive : Builder → Prop} {final : Node → Node} (base : motive b)
    (step : ∀ (c : Builder) (o : OpenNode) (rest : List OpenNode), c.enclosing = o :: rest → motive c →
      motive (c.leave final)) :
    motive (b.leaveAll final) := by
  induction he : b.enclosing generalizing b with
  | nil => rwa [leaveAll, dif_pos he]
  | cons o rest ih =>
    rw [leaveAll, dif_neg (by simp [he])]
    exact ih (step b o rest he base) (by rw [leave_of_cons he])

lemma enclosing_leaveAll (final : Node → Node) : (b.leaveAll final).enclosing = [] := by
  induction he : b.enclosing generalizing b with
  | nil => rwa [leaveAll, dif_pos he]
  | cons o rest ih =>
    rw [leaveAll, dif_neg (by simp [he])]
    exact ih (by rw [leave_of_cons he])

end Builder
end AbbrevSite
