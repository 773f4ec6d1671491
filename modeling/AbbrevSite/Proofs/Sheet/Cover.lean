import AbbrevSite.Proofs.Sheet.Balance
import AbbrevSite.Proofs.Sheet.Beyond
import AbbrevSite.Proofs.Sheet.Prelude
import AbbrevSite.Proofs.Sheet.Roots
import AbbrevSite.Proofs.Tree.Layout

/-! The tree of a stylesheet covers its text. Every statement lies in the body of its block behind the statement
before it, and outside of statements a body holds nothing but blanks, semicolons and comments. The reader keeps
this up to the place it has reached; blocks still open lie there as if they ended where they opened. -/
namespace AbbrevSite.Sheet

open Document

/-- The body of a block: from its opening brace to its closing brace, or to its end without one. -/
def bodyOf (n : Node) : Option (Position × Position) := n.kind.opening?.map fun t => (t.span.stop, n.bodyEnd)

/-- A node whose tokens lie in it in the order of the source and which cuts no comment. -/
structure Covered (d : Document) (comments : List Span) (n : Node) : Prop where
  tokens : d.InOrder n.span.start n.kind.tokens n.span.stop
  clear_start : Clear comments n.span.start
  clear_stop : Clear comments n.span.stop

/-- A tree that covers its source: the numbers follow the preorder and so do the places where nodes start; every
level lies in the body it belongs to, that of the roots in the span of the tree, with nothing but filler between
its trees; comments follow each other and none is cut by a node; tokens stand in their nodes in order. -/
structure Covers (d : Document) (t : Tree) : Prop where
  numbered : t.preorder.map (·.id) = List.range t.size
  increasing : (t.forest.preorder.map (·.span.start)).Pairwise (· < ·)
  laidOut : t.forest.LaidOut (Filler d t.comments) bodyOf t.root.span.start t.root.span.stop
  comments : t.comments.Pairwise fun s s' => s.stop ≤ s'.start
  apart {s : Span} {n : Node} (hs : s ∈ t.comments) (hn : n ∈ t.preorder) :
    s.stop ≤ n.span.start ∨ n.span.stop ≤ s.start ∨ n.span.start ≤ s.start ∧ s.stop ≤ n.span.stop
  tokens {n : Node} (hn : n ∈ t.preorder) : d.InOrder n.span.start n.kind.tokens n.span.stop

variable {d : Document} {comments : List Span} {a x y : Position} {l : Lexeme} {ls : List Lexeme}

lemma isGap_filler : IsGap (Filler d comments) := ⟨filler_self, .trans, fun h => h.1⟩

/-- A node that stands open: its body starts where it ends so far, and its closing token is still to come. -/
def StandsOpen (n : Node) : Prop :=
  ∃ t, n.kind.opening? = some t ∧ t.span.stop = n.span.stop ∧ n.kind.closing? = none

/-- What a builder holds when a stylesheet is read from one place up to another. -/
abbrev Built (d : Document) (comments : List Span) (a : Position) (b : Builder) (x : Position) : Prop :=
  b.WellBuilt (Filler d comments) bodyOf a (Covered d comments) StandsOpen x

lemma Built.endingAt {b : Builder} (h : Built d comments a b x) (hc : Clear comments x) {o : OpenNode}
    {rest : List OpenNode} (he : b.enclosing = o :: rest) :
    Built d comments a (b.leave (·.endingAt x)) x := by
  have hle := h.open_stop_le isGap_filler he
  obtain ⟨t, ht, hstop, hclosing⟩ := h.enclosing (by rw [he]; exact List.mem_cons_self)
  obtain ⟨htok, hstart, -⟩ := h.nodes (Builder.mem_nodes_of_enclosing he)
  have hspan : (o.node.endingAt x).span = ⟨o.node.span.start, x, o.node.span.ordered.trans hle⟩ :=
    Span.between_of_le _
  have hbody : bodyOf (o.node.endingAt x) = some (o.node.span.stop, x) := by
    have hk : (o.node.endingAt x).kind = o.node.kind := rfl
    simp only [bodyOf, Node.bodyEnd, hk, ht, hclosing, Option.map_some, Option.map_none, Option.getD_none, hspan,
      hstop]
  have hn : Covered d comments (o.node.endingAt x) := by
    refine ⟨?_, ?_, ?_⟩ <;> rw [hspan]
    · exact htok.mono (le_refl _) hle
    · exact hstart
    · exact hc
  have hleft : Built d comments a (b.leave (·.endingAt x)) (o.node.endingAt x).span.stop :=
    h.leave isGap_filler he (fun _ => rfl) hn (by rw [hspan]) (by rw [hspan]) hbody
  rwa [hspan] at hleft

namespace Reading

variable {r s : Reading}

/-- What is read of a stylesheet up to a place: all of it if no statement is being read, else up to the start of
that statement, and from there on its prelude. -/
structure BuiltTo (d : Document) (comments : List Span) (a : Position) (r : Reading) (x : Position) : Prop where
  built : Built d comments a r.builder ((r.prelude.map (·.start)).getD x)
  prelude {p : Prelude} (h : r.prelude = some p) : p.Stands d comments x

namespace BuiltTo

lemma of_none (hb : Built d comments a r.builder x) (hp : r.prelude = none) : r.BuiltTo d comments a x := by
  refine ⟨by rwa [hp], fun h => ?_⟩
  rw [hp] at h
  cases h

lemma built_of_none (h : r.BuiltTo d comments a x) (hp : r.prelude = none) : Built d comments a r.builder x := by
  have := h.built
  rwa [hp] at this

lemma built_of_some (h : r.BuiltTo d comments a x) {p : Prelude} (hp : r.prelude = some p) :
    Built d comments a r.builder p.start := by
  have := h.built
  rwa [hp] at this

lemma endStatement_some (h : r.BuiltTo d comments a x) {p : Prelude} (hp : r.prelude = some p)
    {terminator : Option Token} (ht : d.InOrder p.stop terminator.toList y)
    (hy : (terminator.map (·.span.stop)).getD p.stop = y) (hc : Clear comments y) :
    Built d comments a (r.endStatement d terminator).builder y := by
  have hb := h.built_of_some hp
  have hs := h.prelude hp
  have hspan : p.statementSpan terminator = ⟨p.start, y, (le_of_lt hs.lt).trans ht.le⟩ := by
    rw [Prelude.statementSpan, hy, Span.between_of_le ((le_of_lt hs.lt).trans ht.le)]
  unfold endStatement
  rw [hp]
  dsimp only
  rw [hspan]
  have hbody : bodyOf ⟨r.builder.count, p.statement d terminator, ⟨p.start, y, (le_of_lt hs.lt).trans ht.le⟩⟩ = none := by
    simp only [bodyOf, Prelude.statement_opening?, Option.map_none]
  exact hb.leaf isGap_filler ⟨hs.ordered.inOrder_statement ht, hs.clear_start, hc⟩
    (Forest.laidOut_leaf isGap_filler (hs.lt.trans_le ht.le) hbody)

lemma endStatement_none (h : r.BuiltTo d comments a x) : (r.endStatement d none).BuiltTo d comments a x := by
  refine .of_none ?_ (endStatement_prelude d r none)
  cases hp : r.prelude with
  | none =>
    rw [endStatement_of_none hp]
    exact h.built_of_none hp
  | some p =>
    have hs := h.prelude hp
    have hended : Built d comments a (r.endStatement d none).builder p.stop :=
      h.endStatement_some hp (le_refl _) rfl hs.clear_stop
    exact hended.before isGap_filler hs.filler

lemma endStatement_semicolon (h : r.BuiltTo d comments a l.start) (hl : l.Stands d comments)
    (hv : d.Valid l.stop) (hs : l.shape = .char ';') :
    (r.endStatement d (some (charToken ';' l))).BuiltTo d comments a l.stop := by
  refine .of_none ?_ (endStatement_prelude d r _)
  cases hp : r.prelude with
  | none =>
    rw [endStatement_of_none hp]
    exact (h.built_of_none hp).before isGap_filler (hl.filler_char hs (.inr rfl))
  | some p =>
    have hspan := charToken_span (le_of_lt hl.lt) ';'
    have hend : d.InOrder p.stop (some (charToken ';' l)).toList l.stop := by
      refine .cons (hl.charToken_text hv hs) ?_ ?_ <;> rw [hspan]
      · exact (h.prelude hp).filler.1
      · exact le_refl _
    exact h.endStatement_some hp hend (by simp only [hspan, Option.map_some, Option.getD_some]) hl.clear_stop

lemma openBlock (h : r.BuiltTo d comments a l.start) (hl : l.Stands d comments) (hv : d.Valid l.stop)
    (hs : l.shape = .char '{') : (r.openBlock d l).BuiltTo d comments a l.stop := by
  refine .of_none ?_ rfl
  obtain ⟨p, hp, hord, hle, hclear, hb⟩ : ∃ p, r.prelude.getD (.startAt l.start) = p ∧ p.Ordered d ∧
      p.stop ≤ l.start ∧ Clear comments p.start ∧ Built d comments a r.builder p.start := by
    cases hp : r.prelude with
    | none =>
      exact ⟨_, rfl, Prelude.ordered_startAt _, le_refl _, hl.clear_start, h.built_of_none hp⟩
    | some p =>
      have hst := h.prelude hp
      exact ⟨p, rfl, hst.ordered, hst.filler.1, hst.clear_start, h.built_of_some hp⟩
  have hlt : p.start < l.stop := (hord.le.trans hle).trans_lt hl.lt
  have hspan := charToken_span (le_of_lt hl.lt) '{'
  unfold Reading.openBlock
  simp only [hp, Span.between_of_le (le_of_lt hlt)]
  refine hb.enter isGap_filler ⟨?_, hclear, hl.clear_stop⟩ hlt ⟨charToken '{' l, ?_, by rw [hspan], ?_⟩
  · have hle' : p.stop ≤ (charToken '{' l).span.start := by rwa [hspan]
    have htok := hord.inOrder_block hle' (hl.charToken_text hv hs)
    rwa [hspan] at htok
  · show (p.block d _).opening? = _
    unfold Prelude.block
    split <;> rfl
  · show (p.block d _).closing? = _
    unfold Prelude.block
    split <;> rfl

lemma tokens_close {k : Kind} {opening : Token} (ho : k.opening? = some opening) (hc : k.closing? = none)
    (closing : Token) : (k.close closing).tokens = k.tokens ++ [closing] := by
  cases k with
  | rule selector opening' closing' =>
    obtain rfl : closing' = none := hc
    rfl
  | atRule name expression opening' closing' =>
    obtain rfl : closing' = none := hc
    simp [Kind.close, Kind.tokens]
  | stylesheet | document | property | element | comment => cases ho

lemma closing?_close {k : Kind} {opening : Token} (ho : k.opening? = some opening) (closing : Token) :
    (k.close closing).closing? = some closing := by
  cases k <;> first | rfl | cases ho

lemma afterClosing (h : r.BuiltTo d comments a l.start) (hl : l.Stands d comments) (hv : d.Valid l.stop)
    (hs : l.shape = .char '}') (hn : r.builder.enclosing ≠ []) :
    (r.afterClosing d l).BuiltTo d comments a l.stop := by
  refine .of_none ?_ (endStatement_prelude d r none)
  have hb := h.endStatement_none.built_of_none (endStatement_prelude d r none)
  obtain ⟨o, rest, ho⟩ := List.exists_cons_of_ne_nil hn
  rw [← endStatement_enclosing d r none] at ho
  obtain ⟨t, ht, hstop, hclosing⟩ := hb.enclosing (by rw [ho]; exact List.mem_cons_self)
  obtain ⟨htok, hstart, -⟩ := hb.nodes (Builder.mem_nodes_of_enclosing ho)
  have hle := (hb.open_stop_le isGap_filler ho).trans (le_of_lt hl.lt)
  have hcl := charToken_span (le_of_lt hl.lt) '}'
  have hspan : (closedBy l o.node).span = ⟨o.node.span.start, l.stop, o.node.span.ordered.trans hle⟩ :=
    Span.between_of_le _
  have hbody : bodyOf (closedBy l o.node) = some (o.node.span.stop, l.start) := by
    have hk : (closedBy l o.node).kind = o.node.kind.close (charToken '}' l) := rfl
    simp only [bodyOf, Node.bodyEnd, hk, Kind.opening?_close, ht, closing?_close ht, Option.map_some,
      Option.getD_some, hcl, hstop]
  have hcov : Covered d comments (closedBy l o.node) := by
    refine ⟨?_, ?_, ?_⟩ <;> rw [hspan]
    · have hk : (closedBy l o.node).kind.tokens = o.node.kind.tokens ++ [charToken '}' l] :=
        tokens_close ht hclosing _
      rw [hk]
      refine htok.append (.cons (hl.charToken_text hv hs) ?_ ?_) <;> rw [hcl]
      · exact hb.open_stop_le isGap_filler ho
      · exact le_refl _
    · exact hstart
    · exact hl.clear_stop
  have hle' : l.start ≤ (closedBy l o.node).span.stop := by
    rw [hspan]
    exact le_of_lt hl.lt
  have hleft : Built d comments a ((r.endStatement d none).builder.leave (closedBy l))
      (closedBy l o.node).span.stop := hb.leave isGap_filler ho (fun _ => rfl) hcov (by rw [hspan]) hle' hbody
  rwa [hspan] at hleft

lemma comment (h : r.BuiltTo d comments a l.start) (hl : l.Stands d comments) (hs : l.shape = .comment)
    (spans : List Span) :
    { r with comments := spans, prelude := r.prelude.map (·.add l) : Reading }.BuiltTo d comments a l.stop := by
  cases hp : r.prelude with
  | none => exact .of_none ((h.built_of_none hp).before isGap_filler (hl.filler_comment hs)) rfl
  | some p =>
    refine ⟨?_, ?_⟩
    · simpa [Prelude.add_start] using h.built_of_some hp
    · rintro q ⟨⟩
      exact (h.prelude hp).add hl

lemma addToPrelude (h : r.BuiltTo d comments a l.start) (hl : l.Stands d comments) (hs : l.shape ≠ .comment) :
    (r.addToPrelude l).BuiltTo d comments a l.stop := by
  have hfirst (hp : r.prelude = none) (hb : ∀ c, l.shape = .char c → CharClass.isBlank c = false) :
      { r with prelude := some (.ofFirst l) : Reading }.BuiltTo d comments a l.stop := by
    refine ⟨?_, ?_⟩
    · simpa [Prelude.ofFirst_start] using h.built_of_none hp
    · rintro q ⟨⟩
      exact Prelude.stands_ofFirst hl hs hb
  unfold Reading.addToPrelude
  split
  · rename_i p hp
    refine ⟨?_, ?_⟩
    · simpa [Prelude.add_start] using h.built_of_some hp
    · rintro q ⟨⟩
      exact (h.prelude hp).add hl
  · rename_i c hp hc
    split_ifs with hblank
    · exact .of_none ((h.built_of_none hp).before isGap_filler (hl.filler_char hc (.inl hblank))) hp
    · refine hfirst hp fun c' hc' => ?_
      rw [hc] at hc'
      cases hc'
      simpa using hblank
  · rename_i hp hc
    exact hfirst hp fun c hc' => absurd hc' (hc c)

end BuiltTo

theorem Step.builtTo (h : Step d r l s) (hr : r.BuiltTo d comments a l.start) (hl : l.Stands d comments)
    (hv : d.Valid l.stop) : s.BuiltTo d comments a l.stop := by
  cases h with
  | comment hs => exact hr.comment hl hs _
  | opening hs => exact hr.openBlock hl hv hs
  | closing hs hn => exact hr.afterClosing hl hv hs hn
  | semicolon hs => exact hr.endStatement_semicolon hl hv hs
  | other hs _ _ _ => exact hr.addToPrelude hl hs

theorem run_builtTo (h : run d r ls = .ok s) (hr : r.BuiltTo d comments a x) (ht : Tiles d x ls y)
    (hls : ∀ l ∈ ls, l.Stands d comments) : s.BuiltTo d comments a y := by
  induction ht generalizing r with
  | nil =>
    cases h
    exact hr
  | cons _ hv _ _ _ ih =>
    obtain ⟨m, hm, hrest⟩ := run_cons.1 h
    exact ih hrest (hm.builtTo hr (hls _ List.mem_cons_self) hv) fun k hk => hls k (List.mem_cons_of_mem _ hk)

end Reading

section Window

variable {window : Span} {dialect : Dialect} {t : Tree}

lemma Clear.apart {s n : Span} (hs : s ∈ comments) (h : Clear comments n.start) (h' : Clear comments n.stop) :
    s.stop ≤ n.start ∨ n.stop ≤ s.start ∨ n.start ≤ s.start ∧ s.stop ≤ n.stop := by
  rcases h s hs with h1 | h1
  · rcases h' s hs with h2 | h2
    · exact .inr (.inl h2)
    · exact .inr (.inr ⟨h1, h2⟩)
  · exact .inl h1

lemma Built.leaveAll {b : Builder} (h : Built d comments a b x) (hc : Clear comments x) :
    Built d comments a (b.leaveAll (·.endingAt x)) x :=
  Builder.leaveAll_induction (motive := fun b => Built d comments a b x) h
    fun _ _ _ he hb => hb.endingAt hc he

/-- The tree that is left when every lexeme of a window of a stylesheet is read covers the window. -/
lemma covers_within (ha : d.Valid window.start) (hb : d.Valid window.stop)
    (h : parse (Cursor.within d window.start window) dialect = .ok t) : Covers d t := by
  obtain ⟨ls, r, hls, hr, rfl⟩ := parse_within_eq_ok.1 h
  have hcomments : (r.finish d window window.stop).comments = ls.filterMap Lexeme.comment? :=
    (parse_comments h).2.trans (congrArg (fun read => read.1.filterMap Lexeme.comment?) hls)
  have htiles : Tiles d window.start ls window.stop := by
    have hread : (lexemes dialect.hasLineComments (d.glyphs window.start window.stop)).2 = none := by rw [hls]
    have := tiles_lexemes ha hb window.ordered hread
    rwa [hls] at this
  have hbuilt := Reading.run_builtTo hr (.of_none (.start isGap_filler) rfl) htiles fun l => htiles.stands
  have hall := (hbuilt.endStatement_none.built_of_none (Reading.endStatement_prelude d r none)).leaveAll
    fun s hs => .inr (htiles.comment_bounds hs).2
  have henc := Builder.enclosing_leaveAll (b := (r.endStatement d none).builder) (·.endingAt window.stop)
  have hpre := Builder.nodes_of_enclosing_nil henc
  have hforest := hall.laidOut.forest henc
  have hcovered : ∀ n ∈ (r.finish d window window.stop).preorder,
      Covered d (ls.filterMap Lexeme.comment?) n := by
    intro n hn
    rcases List.mem_cons.1 hn with rfl | hn
    · exact ⟨window.ordered, fun s hs => .inl (htiles.comment_bounds hs).1, fun s hs => .inr (htiles.comment_bounds hs).2⟩
    · exact hall.nodes (by rw [hpre]; exact hn)
  exact {
    numbered := hall.numbered.preorder henc
    increasing := hforest.increasing isGap_filler
    laidOut := by
      rw [hcomments]
      exact hforest
    comments := by
      rw [hcomments]
      exact htiles.pairwise_comments
    apart := by
      rw [hcomments]
      exact fun hs hn => Clear.apart hs (hcovered _ hn).clear_start (hcovered _ hn).clear_stop
    tokens := fun hn => (hcovered _ hn).tokens }

/-- The tree of a window of a stylesheet covers the window. -/
theorem covers_of_parse (ha : d.Valid window.start) (hb : d.Valid window.stop)
    (h : parse (Cursor.within d window.start window) dialect = .ok t) :
    t.root = ⟨0, .stylesheet, window⟩ ∧ Covers d t := by
  refine ⟨?_, covers_within ha hb h⟩
  obtain ⟨ls, r, -, -, rfl⟩ := parse_within_eq_ok.1 h
  rfl

/-- Read from behind the first brace on, `}a{/*b*/c:d;;@e f;{g:h}i{` has blocks with and without a closing brace,
one of them without a selector, and filler of every kind between its statements. -/
theorem covers_nested_blocks :
    let d := Document.ofText "scss" "\x7da\x7b/*b*/c:d;;@e f;\x7bg:h\x7di\x7b"
    let window : Span := ⟨⟨0, 1⟩, ⟨0, 25⟩, by decide⟩
    d.Valid window.start ∧ d.Valid window.stop ∧ ∃ t,
      parse (Cursor.within d window.start window) .scss = .ok t ∧ t.root = ⟨0, .stylesheet, window⟩ ∧ Covers d t := by
  intro d window
  have ha : d.Valid window.start := by decide
  have hb : d.Valid window.stop := by decide
  have hread : (parse (Cursor.within d window.start window) .scss).toOption.isSome = true := by
    rw [parse_eq_parseLexemes]
    cbv
  obtain ⟨t, ht⟩ := Option.isSome_iff_exists.1 hread
  have ht := toOption_eq_some.1 ht
  exact ⟨ha, hb, t, ht, covers_of_parse ha hb ht⟩

end Window
end AbbrevSite.Sheet
