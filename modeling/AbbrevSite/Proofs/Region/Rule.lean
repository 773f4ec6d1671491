import AbbrevSite.Proofs.Region.Window
import AbbrevSite.Proofs.Sheet.Roots
import AbbrevSite.Proofs.Sheet.Statement
import Mathlib

/-! The region around a position in a block of plain `css`. If no block stands inside another, the region is
the block with its selector, and its tree holds the tree of that block and nothing else. -/
namespace AbbrevSite

open Sheet Document

namespace Kind

@[simp] lemma label?_close (token : Token) (k : Kind) : (k.close token).label? = k.label? := by
  cases k <;> rfl

end Kind

namespace Sheet

variable {d : Document} {q : Prelude} {opening token : Token}

lemma Prelude.closing?_block : (q.block d opening).closing? = none := by
  unfold block
  split <;> rfl

lemma Prelude.closing?_close_block : ((q.block d opening).close token).closing? = some token := by
  unfold block
  split <;> rfl

namespace Reading

variable {x z stop : Position} {r s t u : Reading}

lemma blockAt_opening? (n : Node) : (blockAt d z n).kind.opening? = n.kind.opening? := by
  unfold blockAt
  split_ifs
  · exact Kind.opening?_close _ _
  · rfl

lemma blockAt_label? (n : Node) : (blockAt d z n).kind.label? = n.kind.label? := by
  unfold blockAt
  split_ifs
  · exact Kind.label?_close _ _
  · rfl

lemma blockAt_start {n : Node} (h : n.span.start ≤ z) : (blockAt d z n).span.start = n.span.start := by
  have hle : n.span.start ≤ d.after z := h.trans (le_of_lt (lt_after d z))
  unfold blockAt
  split_ifs
  · rw [closedBy, letter_stop, Span.between_of_le hle]
  · rw [Node.endingAt, Span.between_of_le h]

lemma bodyEnd_blockAt {n : Node} (hk : n.kind = q.block d opening) (h : n.span.start ≤ z) :
    (blockAt d z n).bodyEnd = z := by
  have hz : (charToken '}' (d.letter z)).span.start = z := by
    rw [charToken, letter_start, letter_stop, Span.between_of_le (le_of_lt (lt_after d z))]
  unfold blockAt Node.bodyEnd
  split_ifs
  · simp only [closedBy, hk, Prelude.closing?_close_block]
    exact hz
  · simp only [Node.endingAt, hk, Prelude.closing?_block]
    rw [Span.between_of_le h]
    rfl

lemma blockAt_unnumbered {m n : Node} (h : m.unnumbered = n.unnumbered) :
    (blockAt d z m).unnumbered = (blockAt d z n).unnumbered := by
  simp only [Node.unnumbered, Node.mk.injEq, true_and] at h
  unfold blockAt
  split_ifs
  · simp [closedBy, Node.unnumbered, h.1, h.2]
  · simp [Node.endingAt, Node.unnumbered, h.1, h.2]

lemma no_closing_of_run {ls : List Lexeme} (h : run d .start ls = .ok s)
    (ho : ∀ l ∈ ls, l.shape ≠ .char '{') : ∀ l ∈ ls, l.shape ≠ .char '}' := by
  have hn : nest 0 ls = some s.depth := run_nest h
  clear h
  induction ls with
  | nil => exact fun l hl => absurd hl List.not_mem_nil
  | cons l ls ih =>
    have hl : l.shape ≠ .char '}' := by
      intro hc
      rw [nest_closing_zero hc] at hn
      cases hn
    rw [nest_other (ho l (by simp)) hl] at hn
    intro x hx
    rcases List.mem_cons.1 hx with rfl | hx
    · exact hl
    · exact ih (fun y hy => ho y (by simp [hy])) hn x hx

lemma no_brace_of_blocks {a : Position} (stop : Position) (ha : d.Valid a) (hz : d.Valid z) (haz : a ≤ z)
    (h : run d .start (d.row a z) = .ok t) (hb : (t.forestAt d stop).blocks = 0) :
    d.Throughout (¬ IsBrace ·) a z := by
  have ho := no_opening_of_blocks h hb
  have hc := no_closing_of_run h ho
  intro x hx hax hxz
  have hm := (mem_row ha hz haz).2 ⟨x, hx, hax, hxz, rfl⟩
  rintro (hb | hb)
  · exact ho _ hm (by rw [letter_shape, hb])
  · exact hc _ hm (by rw [letter_shape, hb])

lemma label?_block_startAt (hx : d.Valid x) :
    ((Prelude.startAt x).block d opening).label? = some "" := by
  show some (d.textOf (.between x x)) = some ""
  rw [Span.between_of_le (le_refl x), textOf, charsBetween_of_le hx hx (le_refl x)]

lemma Root.opening?_isSome {S : Node × Forest} (h : Root d (Forest.unnumberedTree S))
    (hne : S.2 ≠ .nil) : S.1.kind.opening?.isSome = true := by
  generalize hU : Forest.unnumberedTree S = U at h
  cases h with
  | statement n hn => exact absurd (Forest.unnumbered_eq_nil.1 (congrArg (·.2) hU)) hne
  | @block q z stop s t hq hz hlt ho hs houter hin hcut hclosed =>
    have hk : S.1.kind = (blockAt d z (s.opened d (d.letter q)).node).kind :=
      congrArg (·.1.kind) hU
    rw [hk, blockAt_opening?, opened, Prelude.block_opening?]
    rfl

/-- A tree is that of the block between `x` and `z`, whose prelude is `q`. -/
structure BlockFrom (d : Document) (R : Node × Forest) (x z stop : Position) (s t : Reading)
    (q : Prelude) : Prop where
  valid : d.Valid x
  valid' : d.Valid z
  lt : x < z
  opens : d.readAt x = '{'
  before : run d .start (d.row .origin x) = .ok s
  prelude_eq : s.prelude = some q
  inner : run d .start (d.row (d.after x) z) = .ok t
  cut : CutAt d z stop
  closed : z < d.stop → t.builder.enclosing = []
  tree : Forest.unnumberedTree R =
    Forest.unnumberedTree (blockAt d z (s.opened d (d.letter x)).node, t.forestAt d stop)

lemma Root.exists_blockFrom {R : Node × Forest} (h : Root d (Forest.unnumberedTree R))
    (hopen : R.1.kind.opening? = some opening) (hname : R.1.kind.label? ≠ some "") :
    ∃ x z stop s t q, BlockFrom d R x z stop s t q := by
  generalize hU : Forest.unnumberedTree R = U at h
  cases h with
  | statement n hn =>
    have hk : R.1.kind = n.kind := congrArg (·.1.kind) hU
    rw [hk, hn] at hopen
    cases hopen
  | @block x z stop s t hx hz hlt ho hs houter hin hcut hclosed =>
    have hk : R.1.kind = (blockAt d z (s.opened d (d.letter x)).node).kind :=
      congrArg (·.1.kind) hU
    cases hpre : s.prelude with
    | some q => exact ⟨x, z, stop, s, t, q, hx, hz, hlt, ho, hs, hpre, hin, hcut, hclosed, hU⟩
    | none =>
      rw [hk, blockAt_label?, opened, hpre] at hname
      exact absurd (label?_block_startAt hx) hname

namespace BlockFrom

variable {R : Node × Forest} (h : BlockFrom d R x z stop s t q)
include h

lemma kind : R.1.kind = (blockAt d z (s.opened d (d.letter x)).node).kind :=
  congrArg (·.1.kind) h.tree

lemma span : R.1.span = (blockAt d z (s.opened d (d.letter x)).node).span :=
  congrArg (·.1.span) h.tree

lemma opened_kind :
    (s.opened d (d.letter x)).node.kind = q.block d (charToken '{' (d.letter x)) := by
  rw [opened, h.prelude_eq]
  rfl

lemma prelude_le : q.start ≤ x :=
  ((run_row_within d.valid_origin h.valid (Position.origin_le x) h.before).prelude q
    h.prelude_eq).1

lemma opened_start : (s.opened d (d.letter x)).node.span.start = q.start := by
  rw [opened, h.prelude_eq]
  exact congrArg Span.start (Span.between_of_le (h.prelude_le.trans (le_of_lt (lt_after d x))))

lemma prelude_le_stop : (s.opened d (d.letter x)).node.span.start ≤ z := by
  rw [h.opened_start]
  exact h.prelude_le.trans (le_of_lt h.lt)

lemma start : R.1.span.start = q.start := by
  rw [h.span, blockAt_start h.prelude_le_stop, h.opened_start]

lemma bodyEnd : R.1.bodyEnd = z := by
  unfold Node.bodyEnd
  rw [h.kind, h.span]
  exact bodyEnd_blockAt h.opened_kind h.prelude_le_stop

lemma opening_stop (hopen : R.1.kind.opening? = some opening) :
    opening.span.stop = d.after x := by
  rw [h.kind, blockAt_opening?, h.opened_kind, Prelude.block_opening?] at hopen
  cases hopen
  exact congrArg Span.stop (Span.between_of_le (le_of_lt (lt_after d x)))

lemma noBrace {f : Forest} (hflat : f.Flat) (hR : R ∈ f.subtrees)
    (hopen : R.1.kind.opening?.isSome = true) :
    d.Throughout (¬ IsBrace ·) (d.after x) z := by
  have hva := valid_after h.valid (lt_of_lt_of_le h.lt (le_stop h.valid'))
  refine no_brace_of_blocks stop hva h.valid' (after_le h.valid' h.lt) h.inner ?_
  have ht : R.2.unnumbered = (t.forestAt d stop).unnumbered := congrArg (·.2) h.tree
  rw [← Forest.blocks_unnumbered, ← ht, Forest.blocks_unnumbered]
  exact Forest.blocks_eq_zero_iff.2 (hflat R hR hopen)

lemma exists_run (hv : d.Valid q.start) (hlt : q.start < x)
    (hrun : run d .start (d.row q.start x) = .ok { Reading.start with prelude := some q }) :
    ∃ u, run d .start (d.row q.start stop) = .ok u ∧
      ∃ R', (u.forestAt d stop).trees = [R'] ∧
        Forest.unnumberedTree R' = Forest.unnumberedTree R := by
  obtain ⟨u, hu⟩ :=
    exists_run_cut hv h.valid h.valid' (le_of_lt hlt) h.lt hrun h.opens h.inner h.cut
  refine ⟨u, hu, ?_⟩
  have hf := unnumbered_forestAt_block hv h.valid h.valid' (le_of_lt hlt) h.lt hrun rfl h.opens
    h.inner h.cut h.closed hu
  have ht := congrArg Forest.trees hf
  rw [Forest.trees_unnumbered, Forest.trees_unnumbered] at ht
  obtain ⟨R', hR', hTR⟩ := List.map_eq_singleton_iff.1 ht
  refine ⟨R', hR', ?_⟩
  rw [hTR, h.tree]
  refine Prod.ext (blockAt_unnumbered ?_) rfl
  simp [opened, h.prelude_eq, Node.unnumbered]

end BlockFrom

end Reading
end Sheet

namespace Document

variable {d : Document} {limits : Limits} {p q x y : Position}

section Limits

variable (hp : d.Valid p) (hy : d.Valid y)
  (hchars : d.offsetAt p < d.offsetAt y + limits.lookbackChars)
include hp hy hchars

lemma exhausted_of_lt (hlines : p.line - y.line ≤ limits.lookbackLines) (hx : d.Valid x)
    (hyx : y < x) : (d.search limits p).exhausted x = false := by
  refine (exhausted_eq_false_iff hp hx (ne_origin_of_lt hyx)).2 ⟨?_, ?_⟩
  · simp only [Position.lt_def] at hyx
    omega
  · have := offsetAt_lt hy hx hyx
    omega

lemma farthest_lt_or : (d.search limits p).farthest < y ∨ (d.search limits p).farthest = .origin := by
  have hle : d.offsetAt p - limits.lookbackChars ≤ d.length :=
    (Nat.sub_le _ _).trans (offsetAt_le_length hp)
  rw [search_farthest limits hp, positionAt_lt_iff hle hy]
  by_cases h0 : d.offsetAt p < limits.lookbackChars
  · right
    rw [Nat.sub_eq_zero_of_le (Nat.le_of_lt h0), ← offsetAt_origin (d := d),
      positionAt_offsetAt d.valid_origin]
  · left
    omega

end Limits

open Reading

variable {s : Reading} {prelude : Prelude}

/-- From the body of a block without further braces the search leads to the start of its prelude. -/
theorem Plain.search_start_of_prelude (limits : Limits) (hd : d.Plain) (hlang : d.languageId = Dialect.css.name)
    (hp : d.Valid p) (hq : d.Valid q) (hqp : q < p) (ho : d.readAt q = '{')
    (hbody : d.Throughout (¬ IsBrace ·) (d.after q) p)
    (hs : run d .start (d.row .origin q) = .ok s) (hpre : s.prelude = some prelude)
    (hlines : p.line - prelude.start.line ≤ limits.lookbackLines)
    (hchars : d.offsetAt p < d.offsetAt prelude.start + limits.lookbackChars) :
    (d.search limits p).start = prelude.start ∧ d.Valid prelude.start ∧ prelude.start < q ∧
      run d .start (d.row prelude.start q) = .ok { Reading.start with prelude := some prelude } := by
  have h0 := Position.origin_le q
  rcases run_statement d.valid_origin hq h0 rfl hs with
    ⟨hn, -⟩ | ⟨x, y, t, hy, h0y, hyq, hx, ht, htn, rfl⟩
  · rw [hn] at hpre
    cases hpre
  · cases hpre
    have hyx := hx.start_eq
    rw [hyx] at hlines hchars ⊢
    refine ⟨?_, hy, hyq, hx.reads .start rfl⟩
    obtain ⟨-, e, he⟩ | ⟨_, _, _, _, _, _, _, _, _, rfl⟩ :=
      run_statement d.valid_origin hy h0y rfl ht
    · obtain ⟨b, hb, hyb, hbq, hsig, hblank⟩ :=
        exists_last (P := (CharClass.isBlank · = true)) hy hq hyq (by simp [hx.significant])
      have hpos := search_position limits hp
      have hv := valid_search_position limits hp
      have hnear : ∀ z, d.Valid z → y < z → (d.search limits p).exhausted z = false :=
        fun z hz => exhausted_of_lt hp hy hchars hlines hz
      have hclear : (d.search limits p).Clear (d.after q) (d.search limits p).position := by
        rw [hpos]
        refine ⟨hbody, fun z hz hqz _ => hnear z hz ?_⟩
        exact lt_of_lt_of_le (hyq.trans (lt_after d q)) hqz
      have hl := search_lineComments limits p hlang rfl
      have hsig : CharClass.isBlank (d.readAt b) = false := by simpa using hsig
      have hbrace : ¬ IsBrace (d.readAt b) := fun h =>
        hx.noDelimiter b hb hyb hbq (isDelimiter_of_isBrace h)
      rw [RegionSearch.start_of_opening (s := d.search limits p) hd hl hv hq (by rwa [hpos]) ho hclear,
        RegionSearch.beforeBrace_eq (s := d.search limits p) hd hb hsig hbrace hq
          hbq hblank fun z hz hbz _ => hnear z hz (lt_of_le_of_lt hyb hbz)]
      exact RegionSearch.selectorStart_eq (s := d.search limits p) hd hb hy hyb he.valid he.le_stop
        hx.significant (hx.noDelimiter.sub (le_refl y) (le_of_lt hbq)) he.blank he.ends
        (farthest_lt_or hp hy hchars)
    · cases htn

/-- From a place in a body without further braces the region ends where the block does. -/
lemma Plain.search_stop_of_body (limits : Limits) (hd : d.Plain) (hp : d.Valid p) (hy : d.Valid y) (hpy : p ≤ y)
    (hbody : d.Throughout (¬ IsBrace ·) p y) (hcut : CutAt d y x) : (d.search limits p).stop = x := by
  obtain ⟨e, he, hpe, hno, hcut'⟩ := hd.search_stop limits hp
  obtain rfl : e = y := by
    rcases lt_trichotomy e y with hlt | heq | hlt
    · cases hcut' with
      | last hend _ => exact absurd (le_stop hy) (not_le.2 (hend ▸ hlt))
      | brace _ hc _ => exact absurd (.inr hc) (hbody e he hpe hlt)
    · exact heq
    · cases hcut with
      | last hend _ => exact absurd (le_stop he) (not_le.2 (hend ▸ hlt))
      | brace _ hc _ => exact absurd hc (hno y hy hpy hlt)
  cases hcut with
  | last hend hs =>
    cases hcut' with
    | last _ hs' => rw [hs, hs']
    | brace hlt _ _ => exact absurd hend (ne_of_lt hlt)
  | brace hlt _ hs =>
    cases hcut' with
    | last hend _ => exact absurd hend (ne_of_lt hlt)
    | brace _ _ hs' => rw [hs, hs']

end Document

/-- In a `css` document in which no block stands inside another, the region around a position in the body
of a block has one tree, and that is the tree of the block. -/
theorem parseAround?_of_body {d : Document} {limits : Limits} {p : Position} {t : Tree}
    {R : Node × Forest} {opening : Token} (hlang : d.languageId = "css") (hplain : d.Plain)
    (hread : d.parse? .css = some t) (hflat : t.forest.Flat) (hR : R ∈ t.forest.subtrees)
    (hopen : R.1.kind.opening? = some opening) (hname : R.1.kind.label? ≠ some "")
    (hp : d.Valid p) (hstart : opening.span.stop ≤ p) (hend : p ≤ R.1.bodyEnd)
    (hlines : p.line - R.1.span.start.line ≤ limits.lookbackLines)
    (hchars : d.offsetAt p - d.offsetAt R.1.span.start < limits.lookbackChars) :
    ∃ t', d.parseAround? limits p = some t' ∧
      ∃ R', t'.forest.trees = [R'] ∧ Forest.unnumberedTree R' = Forest.unnumberedTree R := by
  obtain ⟨r, hr, rfl⟩ := (hplain.parse?_eq_some_iff rfl).1 hread
  rw [Reading.finish_forest] at hflat hR
  have hroots : ∀ S ∈ (r.forestAt d d.stop).trees, Reading.Root d (Forest.unnumberedTree S) :=
    fun S hS => Reading.root_of_mem_trees hr hS
  have hsome : R.1.kind.opening?.isSome = true := by rw [hopen]; rfl
  have hRt := hflat.mem_trees (fun S hS hne => (hroots S hS).opening?_isSome hne) hR hsome
  obtain ⟨x, z, stop, s, u, q, hb⟩ := (hroots R hRt).exists_blockFrom hopen hname
  rw [hb.opening_stop hopen] at hstart
  rw [hb.bodyEnd] at hend
  rw [hb.start] at hlines hchars
  have hbody := hb.noBrace hflat hR hsome
  have hxp : x < p := lt_of_lt_of_le (lt_after d x) hstart
  obtain ⟨hst, hv, hlt, hrun⟩ := hplain.search_start_of_prelude limits hlang hp hb.valid
    hxp hb.opens (hbody.sub (le_refl _) hend) hb.before hb.prelude_eq hlines (by omega)
  have hsp := hplain.search_stop_of_body limits hp hb.valid' hend
    (hbody.sub hstart (le_refl z)) hb.cut
  obtain ⟨w, hw, R', hR', hRR⟩ := hb.exists_run hv hlt hrun
  rw [← hst, ← hsp] at hw
  refine ⟨_, (hplain.parseAround?_eq_some_iff hp).2 ⟨w, _, hw, rfl, rfl⟩, R', ?_, hRR⟩
  rw [Reading.finish_forest, hsp, hR']

/-- In `a\x7b\x7db\x7bc|:d\x7d`, with room for one more character than those back to `b`. -/
theorem parseAround?_in_second_rule :
    let d := Document.ofText "css" "a\x7b\x7db\x7bc:d\x7d"
    d.Plain ∧ d.Valid ⟨0, 6⟩ ∧ ∃ t, d.parse? .css = some t ∧ t.forest.Flat ∧
      ∃ R ∈ t.forest.subtrees, R.1.kind.label? = some "b" ∧
        ∃ t', d.parseAround? ⟨0, 0, 4, 0⟩ ⟨0, 6⟩ = some t' ∧
          ∃ R', t'.forest.trees = [R'] ∧ Forest.unnumberedTree R' = Forest.unnumberedTree R := by
  have hplain : (Document.ofText "css" "a\x7b\x7db\x7bc:d\x7d").Plain := by decide
  have hp : (Document.ofText "css" "a\x7b\x7db\x7bc:d\x7d").Valid ⟨0, 6⟩ := by decide
  have hread : ((Document.ofText "css" "a\x7b\x7db\x7bc:d\x7d").parse? .css).any (fun t =>
      decide t.forest.Flat && t.forest.subtrees.any fun R =>
        R.1.kind.label? = some "b" && R.1.kind.opening?.any fun opening =>
          opening.span.stop ≤ ⟨0, 6⟩ && ⟨0, 6⟩ ≤ R.1.bodyEnd && R.1.span.start = ⟨0, 3⟩) = true := by
    simp only [Document.parse?, Cursor.parse, Sheet.parse_eq_parseLexemes]
    cbv
  simp only [Option.any_eq_true, List.any_eq_true, Bool.and_eq_true, decide_eq_true_eq] at hread
  obtain ⟨t, ht, hflat, R, hR, hname, opening, hopen, ⟨hstart, hend⟩, hs⟩ := hread
  refine ⟨hplain, hp, t, ht, hflat, R, hR, hname, ?_⟩
  refine parseAround?_of_body rfl hplain ht hflat hR hopen ?_ hp hstart hend ?_ ?_
  · rw [hname]
    decide
  · rw [hs]
    decide
  · rw [hs]
    decide

end AbbrevSite
