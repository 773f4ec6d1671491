import AbbrevSite.Abbreviation.Extract
import AbbrevSite.Location
import AbbrevSite.Proofs.Region.Window
import Mathlib

/-! Where blocks nest, the region around a position leads to the same verdict as the whole document. The
two trees differ in the blocks around the innermost one and in its selector, which may be cut off; the
verdict looks at neither. -/
namespace AbbrevSite

open Sheet Document

section Sight

variable {f g : Found} {text : List Char} {abbreviation : Span} {p : Position}

lemma Found.propertyVerdict_congr (h : f.sight = g.sight) :
    f.propertyVerdict text p = g.propertyVerdict text p := by
  obtain ⟨hk, hb⟩ := Prod.mk.inj h
  unfold propertyVerdict
  rw [hb]
  cases hf : f.node.kind <;> cases hg : g.node.kind <;> rw [hf, hg] at hk <;>
    first | rfl | (cases hk; rfl) | cases hk

lemma Found.blockVerdict_congr (h : f.sight = g.sight) :
    f.blockVerdict abbreviation p = g.blockVerdict abbreviation p := by
  obtain ⟨hk, hb⟩ := Prod.mk.inj h
  unfold blockVerdict
  rw [hb]
  cases hf : f.node.kind <;> cases hg : g.node.kind <;> rw [hf, hg] at hk <;>
    first | rfl | (cases hk; rfl) | cases hk

variable {d : Document} {dialect : Dialect} {t t' : Tree} {found found' : Option Found}

lemma sheetAccepts_congr (ht : t.comments = []) (ht' : t'.comments = [])
    (h : found.map Found.sight = found'.map Found.sight) :
    sheetAccepts d (some t) found dialect p abbreviation =
      sheetAccepts d (some t') found' dialect p abbreviation := by
  have hc : (some t).any (·.inComment p) = false := by simp [Tree.inComment, ht]
  have hc' : (some t').any (·.inComment p) = false := by simp [Tree.inComment, ht']
  unfold sheetAccepts
  rw [hc, hc']
  cases found with
  | none =>
    cases found' with
    | none => rfl
    | some g => cases h
  | some f =>
    cases found' with
    | none => cases h
    | some g =>
      have hs : f.sight = g.sight := Option.some_inj.1 h
      simp only [Found.propertyVerdict_congr hs, Found.blockVerdict_congr hs]

variable {q : Prelude} {opening : Token}

lemma Sheet.Prelude.block_opened : (q.block d opening).opened = q.block d opening := by
  unfold block
  split <;> rfl

lemma Sheet.Prelude.block_isBlock : (q.block d opening).isBlock = true := by
  unfold block
  split <;> rfl

/-- On the line of the abbreviation nothing but the place of the brace decides about a block. -/
lemma Found.blockVerdict_of_block (hk : f.node.kind.opened = q.block d opening)
    (hline : abbreviation.start.line = p.line) (hq : q.Until p) :
    f.blockVerdict abbreviation p = decide (opening.span.stop < p) := by
  unfold blockVerdict
  unfold Prelude.block at hk
  cases hf : f.node.kind with
  | rule selector o c =>
    rw [hf] at hk
    cases ha : q.atStop with
    | some x => rw [ha] at hk; cases hk
    | none =>
      rw [ha] at hk
      simp only [Kind.opened, Kind.rule.injEq, and_true] at hk
      obtain ⟨hs, rfl⟩ := hk
      have hstop : selector.span.stop ≤ p := by
        rw [hs]
        exact Span.between_stop_le hq.1 hq.2
      have hle := selector.span.ordered
      have hno : (p.line != selector.span.stop.line && selector.span.start == abbreviation.start) =
          false := by
        rw [Bool.and_eq_false_iff]
        by_cases he : selector.span.start = abbreviation.start
        · left
          rw [he] at hle
          simp only [Position.le_def] at hle hstop
          simp only [bne_eq_false_iff_eq]
          omega
        · right
          simpa using he
      show (decide _ || (f.parent.kind.isBlock && p.line != _ && _)) = _
      rw [Bool.and_assoc, hno, Bool.and_false, Bool.or_false]
  | atRule name expression o c =>
    rw [hf] at hk
    cases ha : q.atStop with
    | some x =>
      rw [ha] at hk
      cases hk
      rfl
    | none => rw [ha] at hk; cases hk
  | _ =>
    rw [hf] at hk
    cases ha : q.atStop with
    | none => rw [ha] at hk; cases hk
    | some x => rw [ha] at hk; cases hk

lemma Found.propertyVerdict_of_isBlock (h : f.node.kind.isBlock = true) :
    f.propertyVerdict text p = none := by
  unfold propertyVerdict
  cases hf : f.node.kind with
  | property => rw [hf] at h; cases h
  | _ => rfl

lemma sheetAccepts_of_block (ht : t.comments = []) {inBlock : Bool}
    (h : found.map Found.sight = some (q.block d opening, inBlock))
    (hline : abbreviation.start.line = p.line) (hq : q.Until p) :
    sheetAccepts d (some t) found dialect p abbreviation = decide (opening.span.stop < p) := by
  have hc : (some t).any (·.inComment p) = false := by simp [Tree.inComment, ht]
  obtain ⟨f, rfl, hs⟩ := Option.map_eq_some_iff.1 h
  obtain ⟨hk, -⟩ := Prod.mk.inj hs
  have hb : f.node.kind.isBlock = true := by
    rw [← Kind.isBlock_opened, hk, Prelude.block_isBlock]
  unfold sheetAccepts
  rw [hc]
  simp [Found.propertyVerdict_of_isBlock hb, Found.blockVerdict_of_block hk hline hq]

lemma sight_nodeAt : (t.nodeAt p true).map Found.sight = t.forest.sight p t.root.kind.isBlock none :=
  Forest.sight_descend t.root none

end Sight

lemma Abbreviation.extract?_start_line {d : Document} {p : Position} {lookahead : Bool}
    {x : Extracted} (h : extract? d p lookahead = some x) : x.span.start.line = p.line := by
  unfold extract? at h
  simp only [Option.ite_none_left_eq_some, Option.some.injEq] at h
  rw [← h.2]
  unfold Span.between
  split_ifs <;> rfl

namespace Document

variable {d : Document} {dialect : Dialect} {limits : Limits} {p q e a stop : Position}

open Reading

variable {r s t u : Reading}

lemma sight_block (ha : d.Valid a) (hq : d.Valid q) (he : d.Valid e) (haq : a ≤ q) (hqp : q < p)
    (hpe : p ≤ e) (hs : run d .start (d.row a q) = .ok s) (ho : d.readAt q = '{')
    (ht : run d .start (d.row (d.after q) e) = .ok t) (hcut : CutAt d e stop)
    (hu : run d .start (d.row a stop) = .ok u) :
    ∃ x inBlock, Prelude.Until q x ∧ (u.forestAt d stop).sight p false none =
      ((t.forestAt d stop).sight p true none).or
        (some (x.block d (charToken '{' (d.letter q)), inBlock)) := by
  have hag := agreeAt_block ha hq he haq (lt_of_lt_of_le hqp hpe) hpe hs ho ht hcut hu
  have hsur := surrounds_opened ha hq haq hqp hs
  have hpre : Prelude.Until q (s.prelude.getD (.startAt q)) := by
    cases hx : s.prelude with
    | none => exact ⟨le_refl q, le_refl q⟩
    | some x => exact (run_row_within ha hq haq hs).prelude x hx
  have hkind : (s.opened d (d.letter q)).node.kind =
      (s.prelude.getD (.startAt q)).block d (charToken '{' (d.letter q)) := rfl
  refine ⟨_, (s.builder.enclosing.head?.map (·.node.kind.isBlock)).getD false, hpre, ?_⟩
  rw [hag, Forest.sight_inside (hpe.trans hcut.le) _ _ hsur, Forest.sight_eq_or, hkind,
    Prelude.block_isBlock, Prelude.block_opened]

lemma sight_finish (window : Span) : ((r.finish d window stop).nodeAt p true).map Found.sight =
    (r.forestAt d stop).sight p false none := by
  rw [sight_nodeAt, finish_forest]
  rfl

lemma finish_comments {window : Span} (ha : d.Valid a) (hs : d.Valid stop) (hle : a ≤ stop)
    (hr : run d .start (d.row a stop) = .ok r) : (r.finish d window stop).comments = [] := by
  have hc := run_row_comments ha hs hle hr
  simp [finish, hc, start]

variable {abbreviation : Span} {window : Span}

lemma sheetAccepts_prefix (he : d.Valid e) (hpe : p ≤ e) (hcut : CutAt d e stop)
    (hr : run d .start (d.row .origin d.stop) = .ok r)
    (hu : run d .start (d.row .origin stop) = .ok u) :
    sheetAccepts d (some (u.finish d window stop)) ((u.finish d window stop).nodeAt p true) dialect p
        abbreviation =
      sheetAccepts d (some (r.finish d d.span d.stop)) ((r.finish d d.span d.stop).nodeAt p true)
        dialect p abbreviation := by
  have hv := hcut.valid he
  refine sheetAccepts_congr (finish_comments d.valid_origin hv (Position.origin_le _) hu)
    (finish_comments d.valid_origin d.valid_stop (Position.origin_le _) hr) ?_
  rw [sight_finish, sight_finish]
  exact (agreeAt_cut d.valid_origin he d.valid_stop (Position.origin_le e) hpe hcut (le_stop hv) hu
    hr _ _).symm

/-- A region that starts at the selector of the innermost block leads to the verdict of the whole. -/
lemma sheetAccepts_block (ha : d.Valid a) (hq : d.Valid q) (he : d.Valid e) (haq : a ≤ q)
    (hqp : q < p) (hpe : p ≤ e) (hs : run d .start (d.row a q) = .ok s) (ho : d.readAt q = '{')
    (ht : run d .start (d.row (d.after q) e) = .ok t) (hcut : CutAt d e stop)
    (hr : run d .start (d.row .origin d.stop) = .ok r) (hu : run d .start (d.row a stop) = .ok u)
    (hline : abbreviation.start.line = p.line) :
    sheetAccepts d (some (u.finish d window stop)) ((u.finish d window stop).nodeAt p true) dialect p
        abbreviation =
      sheetAccepts d (some (r.finish d d.span d.stop)) ((r.finish d d.span d.stop).nodeAt p true)
        dialect p abbreviation := by
  have hv := hcut.valid he
  have h0 : ∀ x, Position.origin ≤ x := Position.origin_le
  have hstop : a ≤ stop := (haq.trans (le_of_lt (lt_of_lt_of_le hqp hpe))).trans hcut.le
  have hcu : (u.finish d window stop).comments = [] := finish_comments ha hv hstop hu
  have hcr : (r.finish d d.span d.stop).comments = [] :=
    finish_comments d.valid_origin d.valid_stop (h0 _) hr
  obtain ⟨v, hv', -⟩ := (run_row_split d.valid_origin hv d.valid_stop (h0 _) (le_stop hv)).1 hr
  obtain ⟨s', hs', -⟩ := (run_row_split d.valid_origin hq d.valid_stop (h0 q) (le_stop hq)).1 hr
  have hag := agreeAt_cut d.valid_origin he d.valid_stop (h0 e) hpe hcut (le_stop hv) hv' hr
  obtain ⟨x, b, hx, hsu⟩ := sight_block ha hq he haq hqp hpe hs ho ht hcut hu
  obtain ⟨y, c, hy, hsv⟩ := sight_block d.valid_origin hq he (h0 q) hqp hpe hs' ho ht hcut hv'
  rw [← sight_finish window] at hsu
  rw [← hag, ← sight_finish d.span] at hsv
  have hup : ∀ {z : Prelude}, z.Until q → z.Until p := fun hz =>
    ⟨hz.1.trans (le_of_lt hqp), hz.2.trans (le_of_lt hqp)⟩
  cases hin : (t.forestAt d stop).sight p true none with
  | some y =>
    rw [hin, Option.some_or] at hsu hsv
    exact sheetAccepts_congr hcu hcr (hsu.trans hsv.symm)
  | none =>
    rw [hin, Option.none_or] at hsu hsv
    rw [sheetAccepts_of_block hcu hsu hline (hup hx), sheetAccepts_of_block hcr hsv hline (hup hy)]

end Document

def Dialect.nesting : List Dialect := [.scss, .less, .sass, .stylus, .wxss]

lemma Dialect.of_mem_nesting {dialect : Dialect} (h : dialect ∈ nesting) :
    dialect.isStylesheet = true ∧ dialect.hasLineComments = true := by
  revert dialect
  decide

/-- In the dialects whose blocks nest, the region around a position of a document that can be read has a
tree, whatever the limits, and an abbreviation at the position is accepted with that tree if and only if
it is accepted with the tree of the document. -/
theorem acceptsAbbreviation_parseAround? {d : Document} {dialect : Dialect} {t : Tree} {p : Position}
    {limits : Limits} (hlang : d.languageId = dialect.name) (hnest : dialect ∈ Dialect.nesting)
    (hplain : d.Plain) (hread : d.parse? dialect = some t) (hp : d.Valid p) :
    ∃ t', d.parseAround? limits p = some t' ∧
      ∀ (abbreviation : Span) (settings : Settings),
        (abbreviation = .emptyAt p ∨
          ∃ x, Abbreviation.extract? d p false = some x ∧ x.span = abbreviation) →
        acceptsAbbreviation d (some t') (t'.nodeAt p true) dialect p abbreviation settings =
          acceptsAbbreviation d (some t) (t.nodeAt p true) dialect p abbreviation settings := by
  obtain ⟨hs, hl⟩ := Dialect.of_mem_nesting hnest
  obtain ⟨r, hr, rfl⟩ := (hplain.parse?_eq_some_iff hs).1 hread
  have hlc : (d.search limits p).lineComments = true := by
    rwa [search_lineComments limits p hlang hs]
  have hline : ∀ abbreviation : Span, (abbreviation = .emptyAt p ∨
      ∃ x, Abbreviation.extract? d p false = some x ∧ x.span = abbreviation) →
      abbreviation.start.line = p.line := by
    rintro _ (rfl | ⟨x, hx, rfl⟩)
    · rfl
    · exact Abbreviation.extract?_start_line hx
  obtain ⟨e, he, hpe, hno, hcut⟩ := hplain.search_stop limits hp
  have hvs := hcut.valid he
  simp only [acceptsAbbreviation, hs, if_true]
  rcases hplain.search_start limits hp hlc with
    hstart | ⟨q, hq, hqp, ho, hn, hva, haq, hna⟩
  · obtain ⟨u, hu, -⟩ := (Reading.run_row_split d.valid_origin hvs d.valid_stop
      (Position.origin_le _) (le_stop hvs)).1 hr
    refine ⟨_, (hplain.parseAround?_eq_some_iff hp).2 ⟨u, _, ?_, rfl, rfl⟩, fun ab _ _ => ?_⟩
    · rwa [hstart]
    · exact sheetAccepts_prefix he hpe hcut hr hu
  · have hb := valid_after hq (lt_of_lt_of_le hqp (le_stop hp))
    have hbp := after_le hp hqp
    obtain ⟨k, hk⟩ := exists_nest_row (n := 0) hp he hpe hno
    have hin : nest 0 (d.row (d.after q) e) = some (0 + k) := by
      rw [row_append hb hp he hbp hpe, nest_append, hn]
      exact hk
    obtain ⟨v, hv', -⟩ := Reading.exists_run_row hin
    obtain ⟨s, hs', -⟩ := Reading.exists_run_row hna
    obtain ⟨u, hu⟩ :=
      Reading.exists_run_cut hva hq he haq (lt_of_lt_of_le hqp hpe) hs' ho hv' hcut
    refine ⟨_, (hplain.parseAround?_eq_some_iff hp).2 ⟨u, _, hu, rfl, rfl⟩, fun ab _ hab => ?_⟩
    exact sheetAccepts_block hva hq he haq hqp hpe hs' ho hv' hcut hr hu (hline ab hab)

/-- In `a\x7bb\x7bm10|\x7d\x7d`, with no room to go back, the region is read from the start of the text. -/
theorem acceptsAbbreviation_in_nested_block :
    let d := Document.ofText "scss" "a\x7bb\x7bm10\x7d\x7d"
    d.Plain ∧ d.Valid ⟨0, 7⟩ ∧ ∃ t, d.parse? .scss = some t ∧
      ∃ t', d.parseAround? ⟨0, 0, 0, 0⟩ ⟨0, 7⟩ = some t' ∧
        ∀ (abbreviation : Span) (settings : Settings),
          (abbreviation = .emptyAt ⟨0, 7⟩ ∨
            ∃ x, Abbreviation.extract? d ⟨0, 7⟩ false = some x ∧ x.span = abbreviation) →
          acceptsAbbreviation d (some t') (t'.nodeAt ⟨0, 7⟩ true) .scss ⟨0, 7⟩ abbreviation settings =
            acceptsAbbreviation d (some t) (t.nodeAt ⟨0, 7⟩ true) .scss ⟨0, 7⟩ abbreviation
              settings := by
  have hplain : (Document.ofText "scss" "a\x7bb\x7bm10\x7d\x7d").Plain := by decide
  have hp : (Document.ofText "scss" "a\x7bb\x7bm10\x7d\x7d").Valid ⟨0, 7⟩ := by decide
  have hread : ((Document.ofText "scss" "a\x7bb\x7bm10\x7d\x7d").parse? .scss).isSome = true := by
    simp only [Document.parse?, Cursor.parse, Sheet.parse_eq_parseLexemes]
    cbv
  obtain ⟨t, ht⟩ := Option.isSome_iff_exists.1 hread
  exact ⟨hplain, hp, t, ht, acceptsAbbreviation_parseAround? rfl (by decide) hplain ht hp⟩

end AbbrevSite
