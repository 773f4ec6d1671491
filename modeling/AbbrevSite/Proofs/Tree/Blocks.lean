import AbbrevSite.Proofs.Tree.Closing

/-! The trees of a forest and the blocks in it: rules and at-rules with a body. A block is counted when it
opens; closing it changes no count. -/
namespace AbbrevSite

namespace Kind

def opening? : Kind → Option Token
  | rule _ opening _ => some opening
  | atRule _ _ opening _ => opening
  | _ => none

/-- The token that closes the body of a block, none if the text ends first. -/
def closing? : Kind → Option Token
  | rule _ _ closing => closing
  | atRule _ _ _ closing => closing
  | _ => none

@[simp] lemma opening?_close (token : Token) (k : Kind) : (k.close token).opening? = k.opening? := by
  cases k <;> rfl

end Kind

/-- The last place in a block: before its closing brace, or the end of the text. -/
def Node.bodyEnd (n : Node) : Position := (n.kind.closing?.map (·.span.start)).getD n.span.stop

namespace Forest

def trees : Forest → List (Node × Forest)
  | nil => []
  | cons n inner next => (n, inner) :: next.trees

def subtrees : Forest → List (Node × Forest)
  | nil => []
  | cons n inner next => (n, inner) :: (inner.subtrees ++ next.subtrees)

variable {f g : Forest} {T : Node × Forest}

@[simp] lemma trees_append (f g : Forest) : (f ++ g).trees = f.trees ++ g.trees := by
  induction f with
  | nil => rfl
  | cons n inner next _ ih => simp [trees, ih]

lemma trees_ofReversed (ts : List (Node × Forest)) : (ofReversed ts).trees = ts.reverse := by
  induction ts with
  | nil => rfl
  | cons t ts ih =>
    rw [ofReversed_cons, trees_append, ih, List.reverse_cons]
    rfl

lemma trees_unnumbered (f : Forest) : f.unnumbered.trees = f.trees.map unnumberedTree := by
  induction f with
  | nil => rfl
  | cons n inner next _ ih =>
    rw [unnumbered, trees, trees, ih]
    rfl

lemma mem_subtrees : T ∈ f.subtrees ↔ T ∈ f.trees ∨ ∃ S ∈ f.trees, T ∈ S.2.subtrees := by
  induction f with
  | nil => simp [subtrees, trees]
  | cons n inner next _ ih =>
    simp only [subtrees, trees, List.mem_cons, List.mem_append, ih, exists_eq_or_imp]
    tauto

lemma mem_preorder_of_mem_subtrees (h : T ∈ f.subtrees) : T.1 ∈ f.preorder := by
  induction f with
  | nil => cases h
  | cons n inner next ih ih' =>
    simp only [subtrees, List.mem_cons, List.mem_append] at h
    rw [preorder, List.mem_cons, List.mem_append]
    rcases h with rfl | h | h
    · exact .inl rfl
    · exact .inr (.inl (ih h))
    · exact .inr (.inr (ih' h))

def Flat (f : Forest) : Prop :=
  ∀ T ∈ f.subtrees, T.1.kind.opening?.isSome = true → ∀ n ∈ T.2.preorder, n.kind.opening? = none

instance (f : Forest) : Decidable f.Flat :=
  inferInstanceAs (Decidable (∀ T ∈ f.subtrees, T.1.kind.opening?.isSome = true →
    ∀ n ∈ T.2.preorder, n.kind.opening? = none))

lemma Flat.mem_trees (h : f.Flat)
    (hroot : ∀ S ∈ f.trees, S.2 ≠ nil → S.1.kind.opening?.isSome = true) (hT : T ∈ f.subtrees)
    (hopen : T.1.kind.opening?.isSome = true) : T ∈ f.trees := by
  rcases mem_subtrees.1 hT with hT | ⟨S, hS, hTS⟩
  · exact hT
  · have hne : S.2 ≠ nil := by
      intro hn
      rw [hn] at hTS
      cases hTS
    have hnone := h S (mem_subtrees.2 (.inl hS)) (hroot S hS hne) T.1
      (mem_preorder_of_mem_subtrees hTS)
    rw [hnone] at hopen
    cases hopen

def blocks (f : Forest) : Nat := f.preorder.countP (·.kind.opening?.isSome)

@[simp] lemma blocks_nil : nil.blocks = 0 := rfl

lemma blocks_cons (n : Node) (inner next : Forest) :
    (cons n inner next).blocks =
      (if n.kind.opening?.isSome then 1 else 0) + inner.blocks + next.blocks := by
  simp only [blocks, preorder, List.countP_cons, List.countP_append]
  omega

@[simp] lemma blocks_append (f g : Forest) : (f ++ g).blocks = f.blocks + g.blocks := by
  simp [blocks]

lemma blocks_unnumbered (f : Forest) : f.unnumbered.blocks = f.blocks := by
  induction f with
  | nil => rfl
  | cons n inner next ih ih' =>
    rw [unnumbered, blocks_cons, blocks_cons, ih, ih']
    rfl

lemma blocks_eq_zero_iff : f.blocks = 0 ↔ ∀ n ∈ f.preorder, n.kind.opening? = none := by
  simp [blocks, List.countP_eq_zero]

lemma blocks_inside (stop : Position) (es : List OpenNode) (f g : Forest) :
    (inside stop es f).blocks + g.blocks = (inside stop es g).blocks + f.blocks := by
  induction es generalizing f g with
  | nil => exact Nat.add_comm _ _
  | cons o es ih =>
    have h := ih (ofReversed o.before ++ cons (o.node.endingAt stop) f nil)
      (ofReversed o.before ++ cons (o.node.endingAt stop) g nil)
    rw [blocks_append, blocks_append, blocks_cons, blocks_cons] at h
    rw [inside, inside]
    omega

end Forest

namespace Builder

variable (b : Builder) (stop : Position)

lemma blocks_leaf (kind : Kind) (span : Span) (h : kind.opening? = none) :
    ((b.leaf kind span).closedAt stop).blocks = (b.closedAt stop).blocks := by
  have hi := Forest.blocks_inside stop b.enclosing
    (.ofReversed b.finished ++ .cons ⟨b.count, kind, span⟩ .nil .nil) (.ofReversed b.finished)
  rw [Forest.blocks_append, Forest.blocks_cons, h] at hi
  simp only [Option.isSome_none, Bool.false_eq_true, if_false, Forest.blocks_nil] at hi
  rw [closedAt, leaf, Forest.ofReversed_cons, closedAt]
  dsimp only
  omega

lemma blocks_enter (kind : Kind) (span : Span) (h : kind.opening?.isSome = true) :
    ((b.enter kind span).closedAt stop).blocks = (b.closedAt stop).blocks + 1 := by
  have hi := Forest.blocks_inside stop b.enclosing
    (.ofReversed b.finished ++ .cons (Node.endingAt stop ⟨b.count, kind, span⟩) .nil .nil)
    (.ofReversed b.finished)
  have hk : (Node.endingAt stop ⟨b.count, kind, span⟩).kind.opening?.isSome = true := h
  rw [Forest.blocks_append, Forest.blocks_cons, if_pos hk, Forest.blocks_nil] at hi
  show (Forest.inside stop b.enclosing (.ofReversed b.finished ++
    .cons (Node.endingAt stop ⟨b.count, kind, span⟩) .nil .nil)).blocks = _
  rw [closedAt]
  omega

lemma blocks_leave (final : Node → Node)
    (h : ∀ n, (final n).kind.opening? = n.kind.opening?) :
    ((b.leave final).closedAt stop).blocks = (b.closedAt stop).blocks := by
  unfold leave
  split
  · rfl
  · rename_i o rest he
    have hi := Forest.blocks_inside stop rest
      (.ofReversed o.before ++ .cons (final o.node) (.ofReversed b.finished) .nil)
      (.ofReversed o.before ++ .cons (o.node.endingAt stop) (.ofReversed b.finished) .nil)
    have hk : (o.node.endingAt stop).kind.opening? = o.node.kind.opening? := rfl
    rw [Forest.blocks_append, Forest.blocks_append, Forest.blocks_cons, Forest.blocks_cons, h,
      hk] at hi
    rw [closedAt, closedAt, he, Forest.ofReversed_cons, Forest.inside]
    dsimp only
    omega

end Builder
end AbbrevSite
