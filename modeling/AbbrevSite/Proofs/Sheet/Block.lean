import AbbrevSite.Proofs.Sheet.Plain

/-! Blocks of a document without comments, strings and groups. What follows the opening brace of a block is
read as if the text started there, inside the block and the blocks around it. -/
namespace AbbrevSite.Sheet.Reading

open Document

variable {d : Document} {p q e a stop z : Position} {r s t u : Reading} {l : Lexeme}

def opened (d : Document) (r : Reading) (l : Lexeme) : OpenNode :=
  let q := r.prelude.getD (.startAt l.start)
  ⟨⟨r.builder.count, q.block d (charToken '{' l), .between q.start l.stop⟩, r.builder.finished⟩

lemma openBlock_alike :
    Alike (r.openBlock d l) (Reading.start.under (r.opened d l :: r.builder.enclosing)) :=
  ⟨rfl, rfl⟩

/-- A text is read inside a block as it is read alone. -/
theorem run_block (ha : d.Valid a) (hq : d.Valid q) (he : d.Valid e) (haq : a ≤ q) (hqe : q < e)
    (hs : run d r (d.row a q) = .ok s) (ho : d.readAt q = '{')
    (ht : run d .start (d.row (d.after q) e) = .ok t) :
    ∃ u, run d r (d.row a e) = .ok u ∧
      Alike u (t.under (s.opened d (d.letter q) :: s.builder.enclosing)) := by
  have hstep : Step d s (d.letter q) (s.openBlock d (d.letter q)) :=
    .opening (by rw [letter_shape, ho])
  have hin := run_under (s.opened d (d.letter q) :: s.builder.enclosing) ht
  obtain ⟨u, hu, hal⟩ := run_alike hin openBlock_alike.symm
  refine ⟨u, ?_, hal.symm⟩
  exact (run_row_split ha hq he haq (le_of_lt hqe)).2
    ⟨s, hs, (run_row_cons he hqe).2 ⟨_, hstep, hu⟩⟩

/-- A text is cut at `stop`: after the brace at `e` that closes a block, or at its end. -/
inductive CutAt (d : Document) (e stop : Position) : Prop
  | last (atEnd : e = d.stop) (stop_eq : stop = e)
  | brace (before : e < d.stop) (closing : d.readAt e = '}') (stop_eq : stop = d.after e)

namespace CutAt

lemma le (h : CutAt d e stop) : e ≤ stop := by
  cases h with
  | last _ hs => exact le_of_eq hs.symm
  | brace _ _ hs => rw [hs]; exact le_of_lt (lt_after d e)

lemma valid (h : CutAt d e stop) (he : d.Valid e) : d.Valid stop := by
  cases h with
  | last _ hs => rwa [hs]
  | brace hlt _ hs => rw [hs]; exact valid_after he hlt

end CutAt

lemma run_closing (ha : d.Valid a) (he : d.Valid e) (hlt : e < d.stop) (hae : a ≤ e)
    (hc : d.readAt e = '}') (hr : run d r (d.row a (d.after e)) = .ok u) :
    ∃ s, run d r (d.row a e) = .ok s ∧ s.builder.enclosing ≠ [] ∧
      u = s.afterClosing d (d.letter e) := by
  have hva := valid_after he hlt
  obtain ⟨s, hs, hstep⟩ :=
    (run_row_concat ha hva (lt_of_le_of_lt hae (lt_after d e))).1 hr
  rw [prev_after he.2] at hs hstep
  have hshape : (d.letter e).shape = .char '}' := by rw [letter_shape, hc]
  cases hstep with
  | comment h => cases hshape.symm.trans h
  | opening h => exact absurd (hshape.symm.trans h) (by decide)
  | closing h hn => exact ⟨s, hs, hn, rfl⟩
  | semicolon h => exact absurd (hshape.symm.trans h) (by decide)
  | other _ _ h _ => exact absurd hshape h

lemma forestAt_afterClosing :
    (s.afterClosing d l).forestAt d stop = (s.afterClosing d l).builder.closedAt stop := by
  unfold forestAt
  rw [endStatement_of_none (by simp [afterClosing])]

/-- A lookup finds the same in a longer text, if the shorter one is cut after the position. -/
theorem agreeAt_cut (ha : d.Valid a) (he : d.Valid e) (hz : d.Valid z) (hae : a ≤ e) (hpe : p ≤ e)
    (hcut : CutAt d e stop) (hle : stop ≤ z) (hu : run d .start (d.row a stop) = .ok u)
    (hr : run d .start (d.row a z) = .ok r) :
    Forest.AgreeAt p (r.forestAt d z) (u.forestAt d stop) := by
  cases hcut with
  | last hend hs =>
    subst hs
    have hz' : z = stop := le_antisymm (hend ▸ le_stop hz) hle
    subst hz'
    rw [hu] at hr
    cases hr
    exact .refl p _
  | brace hlt hc hs =>
    subst hs
    have hva := valid_after he hlt
    have hp : p < d.after e := lt_of_le_of_lt hpe (lt_after d e)
    obtain ⟨s, -, -, rfl⟩ := run_closing ha he hlt hae hc hu
    obtain ⟨u, hu', hr'⟩ :=
      (run_row_split ha hva hz (hae.trans (le_of_lt (lt_after d e))) hle).1 hr
    rw [hu] at hu'
    cases hu'
    refine (agreeAt_forestAt hr' (ahead_of_none (by simp [afterClosing])) ?_ hp
      (lt_of_lt_of_le hp hle)).symm
    intro l hl
    obtain ⟨h1, h2, -⟩ := bounds_of_mem_row hva hz hle hl
    exact ⟨by order, by order⟩

/-- What a lookup finds in a text that is cut in a block, or after the block, is what it finds in the
block inside the blocks around. -/
theorem agreeAt_block (ha : d.Valid a) (hq : d.Valid q) (he : d.Valid e) (haq : a ≤ q)
    (hqe : q < e) (hpe : p ≤ e) (hs : run d .start (d.row a q) = .ok s) (ho : d.readAt q = '{')
    (ht : run d .start (d.row (d.after q) e) = .ok t) (hcut : CutAt d e stop)
    (hu : run d .start (d.row a stop) = .ok u) :
    Forest.AgreeAt p (u.forestAt d stop)
      (.inside stop (s.opened d (d.letter q) :: s.builder.enclosing) (t.forestAt d stop)) := by
  obtain ⟨v, hv, hal⟩ := run_block ha hq he haq hqe hs ho ht
  rw [← forestAt_under]
  cases hcut with
  | last hend hs =>
    subst hs
    rw [hu] at hv
    cases hv
    exact Forest.agreeAt_of_unnumbered (hal.forestAt stop)
  | brace hlt hc hs =>
    subst hs
    have hp : p < d.after e := lt_of_le_of_lt hpe (lt_after d e)
    obtain ⟨w, hw, -, rfl⟩ := run_closing ha he hlt (haq.trans (le_of_lt hqe)) hc hu
    rw [hv] at hw
    cases hw
    rw [forestAt_afterClosing]
    exact (agreeAt_afterClosing hp hp hp).symm.trans
      (Forest.agreeAt_of_unnumbered (hal.forestAt (d.after e)))

lemma exists_run_cut (ha : d.Valid a) (hq : d.Valid q) (he : d.Valid e) (haq : a ≤ q)
    (hqe : q < e) (hs : run d r (d.row a q) = .ok s) (ho : d.readAt q = '{')
    (ht : run d .start (d.row (d.after q) e) = .ok t) (hcut : CutAt d e stop) :
    ∃ u, run d r (d.row a stop) = .ok u := by
  obtain ⟨v, hv, hal⟩ := run_block ha hq he haq hqe hs ho ht
  cases hcut with
  | last hend hs => exact ⟨v, hs ▸ hv⟩
  | brace hlt hc hs =>
    subst hs
    have hne : v.builder.enclosing ≠ [] := by
      intro hn
      have hd := hal.depth
      simp [depth, hn, under] at hd
    have hstep : Step d v (d.letter e) (v.afterClosing d (d.letter e)) :=
      .closing (by rw [letter_shape, hc]) hne
    rw [← prev_after he.2] at hv hstep
    have hlt' : a < d.after e := lt_of_le_of_lt (haq.trans (le_of_lt hqe)) (lt_after d e)
    exact ⟨_, (run_row_concat ha (valid_after he hlt) hlt').2 ⟨v, hv, hstep⟩⟩

lemma surrounds_opened (ha : d.Valid a) (hq : d.Valid q) (haq : a ≤ q) (hqp : q < p)
    (hs : run d .start (d.row a q) = .ok s) :
    ∀ o ∈ s.opened d (d.letter q) :: s.builder.enclosing, Forest.Surrounds p o := by
  have hw := run_row_within ha hq haq hs
  intro o ho
  rcases List.mem_cons.1 ho with rfl | ho
  · refine ⟨?_, fun t ht => Span.contains_of_stop_lt (lt_of_le_of_lt (hw.finished t ht) hqp)⟩
    refine (Span.between_start_le _ _).trans (le_of_lt (lt_of_le_of_lt ?_ hqp))
    cases hpre : s.prelude with
    | none => exact le_refl q
    | some x => exact (hw.prelude x hpre).1
  · obtain ⟨h1, h2⟩ := hw.enclosing o ho
    exact ⟨le_of_lt (lt_of_le_of_lt h1 hqp),
      fun t ht => Span.contains_of_stop_lt (lt_of_le_of_lt (h2 t ht) hqp)⟩

end AbbrevSite.Sheet.Reading
