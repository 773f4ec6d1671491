import AbbrevSite.Proofs.Tree.Numbers

/-! The forest of a builder when all its open nodes are closed at one place: each open node, with what is
finished below it, comes after the finished trees before it. -/
namespace AbbrevSite

def Node.endingAt (stop : Position) (n : Node) : Node :=
  { n with span := .between n.span.start stop }

/-- A forest inside open nodes, innermost first, that are all closed at one place. -/
def Forest.inside (stop : Position) : List OpenNode → Forest → Forest
  | [], f => f
  | o :: rest, f => inside stop rest (ofReversed o.before ++ cons (o.node.endingAt stop) f nil)

namespace Forest

variable {stop : Position}

lemma inside_append (es fs : List OpenNode) (f : Forest) :
    inside stop (es ++ fs) f = inside stop fs (inside stop es f) := by
  induction es generalizing f with
  | nil => rfl
  | cons o es ih => exact ih _

lemma unnumbered_inside_congr {es fs : List OpenNode} {f g : Forest}
    (he : es.map OpenNode.unnumbered = fs.map OpenNode.unnumbered)
    (h : f.unnumbered = g.unnumbered) :
    (inside stop es f).unnumbered = (inside stop fs g).unnumbered := by
  induction es generalizing fs f g with
  | nil =>
    rw [List.map_nil, eq_comm, List.map_eq_nil_iff] at he
    rwa [he]
  | cons o es ih =>
    rw [List.map_cons] at he
    obtain ⟨o', fs, rfl, ho, hes⟩ := List.map_eq_cons_iff.1 he.symm
    rw [inside, inside]
    refine ih hes.symm ?_
    simp only [OpenNode.unnumbered, OpenNode.mk.injEq, Node.unnumbered, Node.mk.injEq] at ho
    rw [unnumbered_append, unnumbered_append, unnumbered_ofReversed_congr ho.2.symm]
    simp only [unnumbered, h, Node.unnumbered, Node.endingAt, ho.1]

end Forest

namespace Builder

/-- The forest when every open node is closed at a place. -/
def closedAt (stop : Position) (b : Builder) : Forest :=
  .inside stop b.enclosing (.ofReversed b.finished)

variable {b c : Builder} {stop : Position}

lemma count_leave (final : Node → Node) : (b.leave final).count = b.count := by
  unfold leave
  split <;> rfl

theorem forest_leaveAll : (b.leaveAll (·.endingAt stop)).forest = b.closedAt stop := by
  unfold closedAt
  induction he : b.enclosing generalizing b with
  | nil =>
    rw [leaveAll, dif_pos he]
    rfl
  | cons o rest ih =>
    have hl : b.leave (·.endingAt stop) =
        ⟨b.count, (o.node.endingAt stop, .ofReversed b.finished) :: o.before, rest⟩ := by
      simp only [leave, he]
    rw [leaveAll, dif_neg (by simp [he]), ih (by rw [hl]), hl, Forest.ofReversed_cons]
    rfl

lemma closedAt_congr (h : b.unnumbered = c.unnumbered) :
    (b.closedAt stop).unnumbered = (c.closedAt stop).unnumbered := by
  obtain ⟨hfin, henc⟩ := unnumbered_eq_iff.1 h
  exact Forest.unnumbered_inside_congr henc (Forest.unnumbered_ofReversed_congr hfin)

end Builder
end AbbrevSite
