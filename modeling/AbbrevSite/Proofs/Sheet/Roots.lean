import AbbrevSite.Proofs.Sheet.Block
import AbbrevSite.Proofs.Tree.Blocks

/-! Where the trees of the first level come from. Each is a statement without a block or a block that opens
outside all others, and of a block the tree holds what is read between its braces. -/
namespace AbbrevSite.Sheet

open Document

variable {d : Document}

lemma Prelude.statement_opening? (q : Prelude) (terminator : Option Token) :
    (q.statement d terminator).opening? = none := by
  unfold statement
  split <;> rfl

lemma Prelude.block_opening? (q : Prelude) (opening : Token) :
    (q.block d opening).opening? = some opening := by
  unfold block
  split <;> rfl

namespace Reading

variable {x stop : Position} {r s t u : Reading} {l : Lexeme} {ls : List Lexeme} {o : OpenNode}

lemma endStatement_blocks (terminator : Option Token) :
    ((r.endStatement d terminator).builder.closedAt stop).blocks =
      (r.builder.closedAt stop).blocks := by
  unfold endStatement
  split
  · rfl
  · exact Builder.blocks_leaf _ _ _ _ (Prelude.statement_opening? _ _)

lemma Step.blocks (h : Step d r l s) :
    (s.builder.closedAt stop).blocks =
      (r.builder.closedAt stop).blocks + if l.shape = .char '{' then 1 else 0 := by
  cases h with
  | comment hs => simp [hs]
  | opening hs =>
    rw [if_pos hs]
    exact Builder.blocks_enter _ _ _ _ (by rw [Prelude.block_opening?]; rfl)
  | closing hs hn =>
    rw [if_neg (by simp [hs]), Nat.add_zero]
    exact (Builder.blocks_leave _ stop (closedBy l) fun n => Kind.opening?_close _ _).trans
      (endStatement_blocks none)
  | semicolon hs =>
    rw [if_neg (by simp [hs]), endStatement_blocks, Nat.add_zero]
  | other _ h2 _ _ => rw [if_neg h2, addToPrelude_builder, Nat.add_zero]

theorem run_blocks (h : run d r ls = .ok s) :
    (s.builder.closedAt stop).blocks =
      (r.builder.closedAt stop).blocks + ls.countP (·.shape = .char '{') := by
  induction ls generalizing r with
  | nil =>
    cases h
    rfl
  | cons l ls ih =>
    obtain ⟨a, ha, hls⟩ := run_cons.1 h
    rw [ih hls, ha.blocks, List.countP_cons]
    simp only [decide_eq_true_eq]
    omega

lemma no_opening_of_blocks (h : run d .start ls = .ok s) (hb : (s.forestAt d stop).blocks = 0) :
    ∀ l ∈ ls, l.shape ≠ .char '{' := by
  have hr : (s.builder.closedAt stop).blocks =
      (Reading.start.builder.closedAt stop).blocks + ls.countP (·.shape = .char '{') := run_blocks h
  rw [forestAt, endStatement_blocks] at hb
  have hc : ls.countP (·.shape = .char '{') = 0 := by omega
  simpa [List.countP_eq_zero] using hc

/-- The node of a block when the text is cut at `z`: closed by the brace there, or ended with the text. -/
def blockAt (d : Document) (z : Position) (n : Node) : Node :=
  if z < d.stop then closedBy (d.letter z) n else n.endingAt z

/-- What a tree of the first level is, numbers left out. -/
inductive Root (d : Document) : Node × Forest → Prop
  | statement (n : Node) (noBlock : n.kind.opening? = none) : Root d (n, .nil)
  | block {q z stop : Position} {s t : Reading} (valid : d.Valid q) (valid' : d.Valid z)
      (lt : q < z) (opens : d.readAt q = '{') (before : run d .start (d.row .origin q) = .ok s)
      (outer : s.builder.enclosing = []) (inner : run d .start (d.row (d.after q) z) = .ok t)
      (cut : CutAt d z stop) (closed : z < d.stop → t.builder.enclosing = []) :
      Root d (Forest.unnumberedTree
        (blockAt d z (s.opened d (d.letter q)).node, t.forestAt d stop))

/-- The first level of what has been read up to `x`: complete, or with one block open. -/
inductive RootsAt (d : Document) (x : Position) (r : Reading) : Prop
  | between (outer : r.builder.enclosing = [])
      (roots : ∀ T ∈ r.builder.finished, Root d (Forest.unnumberedTree T))
  | within {q : Position} {s t : Reading} (valid : d.Valid q) (lt : q < x)
      (opens : d.readAt q = '{') (before : run d .start (d.row .origin q) = .ok s)
      (outer : s.builder.enclosing = []) (inner : run d .start (d.row (d.after q) x) = .ok t)
      (alike : Alike r (t.under [s.opened d (d.letter q)]))
      (roots : ∀ T ∈ s.builder.finished, Root d (Forest.unnumberedTree T))

lemma forestAt_of_nil (h : t.builder.enclosing = []) :
    t.forestAt d stop = .ofReversed (t.endStatement d none).builder.finished := by
  rw [forestAt, Builder.closedAt, endStatement_enclosing, h]
  rfl

lemma afterClosing_under (h : t.builder.enclosing = []) (stop : Position) :
    ((t.under [o]).afterClosing d l).builder.enclosing = [] ∧
      ((t.under [o]).afterClosing d l).builder.finished =
        (closedBy l o.node, t.forestAt d stop) :: o.before := by
  have he : (t.under [o]).builder.enclosing = [o] := by simp [under, h]
  rw [afterClosing_of_cons he, endStatement_under, forestAt_of_nil h]
  exact ⟨rfl, rfl⟩

lemma Alike.finished (h : Alike r s) : r.builder.finished.map Forest.unnumberedTree =
    s.builder.finished.map Forest.unnumberedTree :=
  (Builder.unnumbered_eq_iff.1 h.builder).1

lemma Alike.enclosing_eq_nil (h : Alike r s) (hs : s.builder.enclosing = []) :
    r.builder.enclosing = [] := by
  have he := h.enclosing
  rwa [hs, List.map_nil, List.map_eq_nil_iff] at he

lemma endStatement_roots (h : ∀ T ∈ r.builder.finished, Root d (Forest.unnumberedTree T))
    (terminator : Option Token) : ∀ T ∈ (r.endStatement d terminator).builder.finished,
      Root d (Forest.unnumberedTree T) := by
  unfold endStatement
  split
  · exact h
  · intro T hT
    rcases List.mem_cons.1 hT with rfl | hT
    · exact .statement _ (Prelude.statement_opening? _ _)
    · exact h T hT

lemma RootsAt.step_between (hx : d.Valid x) (h0 : x ≠ .origin) (houter : r.builder.enclosing = [])
    (hroots : ∀ T ∈ r.builder.finished, Root d (Forest.unnumberedTree T))
    (hr : run d .start (d.row .origin (d.prev x)) = .ok r)
    (hstep : Step d r (d.letter (d.prev x)) s) : RootsAt d x s := by
  cases hstep with
  | comment h => cases h
  | opening h =>
    refine .within (t := .start) (valid_prev hx) (prev_lt h0) (by simpa using h) hr houter ?_ ?_
      hroots
    · rw [after_prev hx h0, row_self]
      rfl
    · rw [← houter]
      exact openBlock_alike
  | closing _ hn => exact absurd houter hn
  | semicolon => exact .between (by simpa using houter) (endStatement_roots hroots _)
  | other =>
    exact .between (by rwa [addToPrelude_builder]) (by rwa [addToPrelude_builder])

/-- One character more, in a block: it belongs to the block or closes it. -/
lemma RootsAt.step_within {q : Position} (hx : d.Valid x) (h0 : x ≠ .origin) (hq : d.Valid q)
    (hlt : q < d.prev x) (ho : d.readAt q = '{') (hs : run d .start (d.row .origin q) = .ok s)
    (houter : s.builder.enclosing = [])
    (hin : run d .start (d.row (d.after q) (d.prev x)) = .ok t)
    (hal : Alike r (t.under [s.opened d (d.letter q)]))
    (hroots : ∀ T ∈ s.builder.finished, Root d (Forest.unnumberedTree T))
    (hstep : Step d r (d.letter (d.prev x)) u) : RootsAt d x u := by
  have hv := valid_prev hx
  have hprev := prev_lt (d := d) h0
  have hva := valid_after hq (lt_of_lt_of_le hlt (le_stop hv))
  have hax : d.after q < x := lt_of_le_of_lt (after_le hv hlt) hprev
  cases hn : nest t.depth [d.letter (d.prev x)] with
  | some n =>
    obtain ⟨t', ht'⟩ := exists_step (d := d) hn
    obtain ⟨u', hu', hal'⟩ := (simulates_alike d).step (ht'.under [s.opened d (d.letter q)]) hal.symm
    obtain rfl := hu'.unique hstep
    exact .within hq (hlt.trans hprev) ho hs houter ((run_row_concat hva hx hax).2 ⟨t, hin, ht'⟩)
      hal'.symm hroots
  | none =>
    obtain ⟨hc, hdepth⟩ := of_nest_letter_eq_none hn
    have hd : t.builder.enclosing = [] := List.length_eq_zero_iff.1 hdepth
    obtain rfl := hstep.eq_afterClosing (by rw [letter_shape, hc])
    have hal' := hal.afterClosing (d := d) (l := d.letter (d.prev x))
    obtain ⟨henc, hfin⟩ := afterClosing_under (d := d) (l := d.letter (d.prev x))
      (o := s.opened d (d.letter q)) hd (d.after (d.prev x))
    refine .between (hal'.enclosing_eq_nil henc) fun T hT => ?_
    have hT' := List.mem_map_of_mem (f := Forest.unnumberedTree) hT
    rw [hal'.finished, hfin, List.map_cons, List.mem_cons] at hT'
    rcases hT' with hT' | hT'
    · rw [hT']
      have hz : d.prev x < d.stop := lt_of_lt_of_le hprev (le_stop hx)
      have hb := Root.block hq hv hlt ho hs houter hin (.brace hz hc rfl) fun _ => hd
      rwa [blockAt, if_pos hz] at hb
    · obtain ⟨S, hS, hST⟩ := List.mem_map.1 hT'
      rw [← hST]
      exact hroots S hS

/-- What the first level consists of at every place of a text. -/
theorem rootsAt_run (hx : d.Valid x) (hr : run d .start (d.row .origin x) = .ok r) :
    RootsAt d x r := by
  induction x, hx using backward_induction generalizing r with
  | base =>
    rw [row_self] at hr
    cases hr
    exact .between rfl fun T hT => by cases hT
  | step x hx h0 ih =>
    have hlt : Position.origin < x := lt_of_le_of_ne (Position.origin_le x) (Ne.symm h0)
    obtain ⟨s, hs, hstep⟩ := (run_row_concat d.valid_origin hx hlt).1 hr
    cases ih hs with
    | between houter hroots => exact .step_between hx h0 houter hroots hs hstep
    | within hq hqx ho hbefore houter hin hal hroots =>
      exact .step_within hx h0 hq hqx ho hbefore houter hin hal hroots hstep

/-- What the first level of a document consists of. -/
theorem root_of_mem_trees (hr : run d .start (d.row .origin d.stop) = .ok r) {T : Node × Forest}
    (hT : T ∈ (r.forestAt d d.stop).trees) : Root d (Forest.unnumberedTree T) := by
  cases rootsAt_run d.valid_stop hr with
  | between houter hroots =>
    rw [forestAt_of_nil houter, Forest.trees_ofReversed, List.mem_reverse] at hT
    exact endStatement_roots hroots none T hT
  | @within q s t hq hlt ho hbefore houter hin hal hroots =>
    have hT' := List.mem_map_of_mem (f := Forest.unnumberedTree) hT
    rw [← Forest.trees_unnumbered, hal.forestAt, forestAt_under, Forest.trees_unnumbered] at hT'
    simp only [Forest.inside, Forest.trees_append, Forest.trees_ofReversed, List.map_append,
      List.mem_append, Forest.trees, List.map_cons, List.map_nil, List.mem_singleton] at hT'
    rcases hT' with hT' | hT'
    · obtain ⟨S, hS, hST⟩ := List.mem_map.1 hT'
      rw [← hST]
      exact hroots S (List.mem_reverse.1 hS)
    · have hb := Root.block hq d.valid_stop hlt ho hbefore houter hin (.last rfl rfl)
        fun h => absurd h (lt_irrefl _)
      rw [blockAt, if_neg (lt_irrefl _)] at hb
      rwa [hT']

/-- The forest of a text that is cut in a block that opens outside all others, or after that block. -/
theorem unnumbered_forestAt_block {a q z : Position} (ha : d.Valid a) (hq : d.Valid q)
    (hz : d.Valid z) (haq : a ≤ q) (hqz : q < z) (hs : run d .start (d.row a q) = .ok s)
    (houter : s.builder.enclosing = []) (ho : d.readAt q = '{')
    (ht : run d .start (d.row (d.after q) z) = .ok t) (hcut : CutAt d z stop)
    (hclosed : z < d.stop → t.builder.enclosing = []) (hu : run d .start (d.row a stop) = .ok u) :
    (u.forestAt d stop).unnumbered =
      (.ofReversed s.builder.finished ++
        .cons (blockAt d z (s.opened d (d.letter q)).node) (t.forestAt d stop) .nil : Forest).unnumbered := by
  obtain ⟨v, hv, hal⟩ := run_block ha hq hz haq hqz hs ho ht
  rw [houter] at hal
  cases hcut with
  | last hend hstop =>
    subst hstop
    rw [hu] at hv
    cases hv
    rw [hal.forestAt, forestAt_under, blockAt, if_neg (not_lt.2 (le_of_eq hend.symm))]
    rfl
  | brace hlt hc hstop =>
    subst hstop
    obtain ⟨w, hw, -, rfl⟩ := run_closing ha hz hlt (haq.trans (le_of_lt hqz)) hc hu
    rw [hv] at hw
    cases hw
    obtain ⟨henc, hfin⟩ := afterClosing_under (d := d) (l := d.letter z)
      (o := s.opened d (d.letter q)) (hclosed hlt) (d.after z)
    rw [hal.afterClosing.forestAt, forestAt_afterClosing, Builder.closedAt, henc, hfin,
      Forest.ofReversed_cons, blockAt, if_pos hlt]
    rfl

end Reading
end AbbrevSite.Sheet
