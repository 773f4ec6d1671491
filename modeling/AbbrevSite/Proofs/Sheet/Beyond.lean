import AbbrevSite.Proofs.Sheet.Alike
import AbbrevSite.Proofs.Tree.Sight

/-! What has been read up to a place stays before it, and what is read beyond a position is not seen
there: a lookup in the tree of a longer text finds the same. -/
namespace AbbrevSite.Sheet

variable {d : Document} {l : Lexeme} {e p stop stop' : Position}

namespace Prelude

variable {s : Prelude}

@[simp] lemma add_start : (s.add l).start = s.start := by
  unfold add addPlain addColon
  split
  · rfl
  · rfl
  · rfl
  · split_ifs <;> rfl

lemma add_stop : (s.add l).stop = s.stop ∨ (s.add l).stop = l.stop := by
  unfold add addPlain addColon
  split
  · exact .inl rfl
  · exact .inr rfl
  · exact .inr rfl
  · split_ifs <;> simp

lemma ofFirst_start : (ofFirst l).start = l.start := by
  unfold ofFirst
  split_ifs
  · rfl
  · exact add_start

lemma ofFirst_stop : (ofFirst l).stop = l.start ∨ (ofFirst l).stop = l.stop := by
  unfold ofFirst
  split_ifs
  · exact .inr rfl
  · exact add_stop

def Until (e : Position) (s : Prelude) : Prop := s.start ≤ e ∧ s.stop ≤ e

def After (p : Position) (s : Prelude) : Prop := p < s.start ∧ p < s.stop

lemma ends_add {P : Position → Prop} (h : P s.start ∧ P s.stop) (hl : P l.stop) :
    P (s.add l).start ∧ P (s.add l).stop := by
  refine ⟨by rw [add_start]; exact h.1, ?_⟩
  rcases add_stop (s := s) (l := l) with hs | hs
  · rw [hs]; exact h.2
  · rw [hs]; exact hl

lemma ends_ofFirst {P : Position → Prop} (h : P l.start) (hl : P l.stop) :
    P (ofFirst l).start ∧ P (ofFirst l).stop := by
  refine ⟨by rw [ofFirst_start]; exact h, ?_⟩
  rcases ofFirst_stop (l := l) with hs | hs
  · rw [hs]; exact h
  · rw [hs]; exact hl

lemma Until.add (h : s.Until e) (hl : l.stop ≤ e) : (s.add l).Until e := ends_add (P := (· ≤ e)) h hl

lemma until_ofFirst (h : l.start ≤ e) (hl : l.stop ≤ e) : (ofFirst l).Until e := ends_ofFirst (P := (· ≤ e)) h hl

lemma After.add (h : s.After p) (hl : p < l.stop) : (s.add l).After p := ends_add (P := (p < ·)) h hl

lemma after_ofFirst (h : p < l.start) (hl : p < l.stop) : (ofFirst l).After p := ends_ofFirst (P := (p < ·)) h hl

end Prelude

namespace Reading

variable {r s : Reading} {ls : List Lexeme}

lemma addToPrelude_prelude {q : Prelude} (h : q ∈ (r.addToPrelude l).prelude) :
    (∃ q', q' ∈ r.prelude ∧ (q = q'.add l ∨ q = q')) ∨ q = .ofFirst l := by
  unfold addToPrelude at h
  split at h
  · rename_i q' hq
    cases h
    exact .inl ⟨q', hq, .inl rfl⟩
  · split_ifs at h
    · exact .inl ⟨q, h, .inr rfl⟩
    · cases h
      exact .inr rfl
  · cases h
    exact .inr rfl

/-- All that has been read lies before a place. -/
structure Within (e : Position) (r : Reading) : Prop where
  finished : ∀ t ∈ r.builder.finished, t.1.span.stop ≤ e
  enclosing : ∀ o ∈ r.builder.enclosing,
    o.node.span.start ≤ e ∧ ∀ t ∈ o.before, t.1.span.stop ≤ e
  prelude : ∀ q ∈ r.prelude, q.Until e

namespace Within

lemma start (e : Position) : Within e .start := by
  refine ⟨?_, ?_, ?_⟩ <;> intro x hx <;> cases hx

lemma endStatement (h : Within e r) {terminator : Option Token}
    (ht : ∀ t ∈ terminator, t.span.stop ≤ e) : Within e (r.endStatement d terminator) := by
  unfold Reading.endStatement
  split
  · exact h
  · rename_i q hq
    refine ⟨fun t hmem => ?_, h.enclosing, fun q hq => by cases hq⟩
    rcases List.mem_cons.1 hmem with rfl | hmem
    · refine Span.between_stop_le (h.prelude q hq).1 ?_
      cases terminator with
      | none => exact (h.prelude q hq).2
      | some t => exact ht t rfl
    · exact h.finished t hmem

lemma openBlock (h : Within e r) (hl : l.start ≤ e) : Within e (r.openBlock d l) := by
  refine ⟨fun t ht => (List.not_mem_nil ht).elim, fun o ho => ?_, fun q hq => by cases hq⟩
  rcases List.mem_cons.1 ho with rfl | ho
  · refine ⟨(Span.between_start_le _ _).trans ?_, h.finished⟩
    cases hq : r.prelude with
    | none => exact hl
    | some q => exact (h.prelude q hq).1
  · exact h.enclosing o ho

lemma afterClosing (h : Within e r) (hl : l.stop ≤ e) : Within e (r.afterClosing d l) := by
  have hs : Within e (r.endStatement d none) := h.endStatement fun t ht => by cases ht
  cases he : r.builder.enclosing with
  | nil =>
    have hn : r.afterClosing d l = r.endStatement d none := by
      simp only [Reading.afterClosing, Builder.leave, endStatement_enclosing, he]
    rwa [hn]
  | cons o rest =>
    rw [afterClosing_of_cons he]
    have ho := h.enclosing
    rw [he] at ho
    obtain ⟨hstart, hbefore⟩ := ho o (by simp)
    refine ⟨fun t ht => ?_, fun o ho' => ho o (by simp [ho']), hs.prelude⟩
    rcases List.mem_cons.1 ht with rfl | ht
    · exact Span.between_stop_le hstart hl
    · exact hbefore t ht

lemma addToPrelude (h : Within e r) (hl : l.start ≤ e) (hl' : l.stop ≤ e) :
    Within e (r.addToPrelude l) := by
  refine ⟨?_, ?_, fun q hq => ?_⟩
  · rw [addToPrelude_builder]
    exact h.finished
  · rw [addToPrelude_builder]
    exact h.enclosing
  · rcases addToPrelude_prelude hq with ⟨q', hq', rfl | rfl⟩ | rfl
    · exact (h.prelude q' hq').add hl'
    · exact h.prelude q hq'
    · exact Prelude.until_ofFirst hl hl'

end Within

theorem Step.within (h : Step d r l s) (hr : Within e r) (hl : l.start ≤ e) (hl' : l.stop ≤ e) :
    Within e s := by
  cases h with
  | comment hs =>
    refine ⟨hr.finished, hr.enclosing, fun q hq => ?_⟩
    obtain ⟨q', hq', rfl⟩ := Option.map_eq_some_iff.1 hq
    exact (hr.prelude q' hq').add hl'
  | opening hs => exact hr.openBlock hl
  | closing hs hn => exact hr.afterClosing hl'
  | semicolon hs =>
    refine hr.endStatement fun t ht => ?_
    cases ht
    exact Span.between_stop_le hl hl'
  | other => exact hr.addToPrelude hl hl'

theorem run_within (h : run d r ls = .ok s) (hr : Within e r)
    (hl : ∀ l ∈ ls, l.start ≤ e ∧ l.stop ≤ e) : Within e s := by
  induction ls generalizing r with
  | nil =>
    cases h
    exact hr
  | cons l ls ih =>
    obtain ⟨a, ha, hls⟩ := run_cons.1 h
    obtain ⟨h1, h2⟩ := hl l (by simp)
    exact ih hls (ha.within hr h1 h2) fun x hx => hl x (by simp [hx])

open Forest (AgreeAt)

/-- Whether the statement being read, if there is one, lies after a position. -/
def Ahead (p : Position) (r : Reading) : Prop := ∀ q ∈ r.prelude, q.After p

lemma ahead_of_none (h : r.prelude = none) : r.Ahead p := by
  intro q hq
  rw [h] at hq
  cases hq

lemma Ahead.endStatement (terminator : Option Token) : (r.endStatement d terminator).Ahead p :=
  ahead_of_none (by simp)

lemma agreeAt_endStatement (hs : p < stop) (hs' : p < stop') (hr : r.Ahead p)
    {terminator : Option Token} (ht : ∀ t ∈ terminator, p < t.span.stop) :
    AgreeAt p (r.builder.closedAt stop) ((r.endStatement d terminator).builder.closedAt stop') := by
  unfold endStatement
  split
  · exact Builder.agreeAt_closedAt hs hs'
  · rename_i q hq
    refine Builder.agreeAt_leaf hs hs' (Span.lt_between_start (hr q hq).1 ?_)
    cases terminator with
    | none => exact (hr q hq).2
    | some t => exact ht t rfl

lemma agreeAt_afterClosing (hs : p < stop) (hs' : p < stop') (hl : p < l.stop) :
    AgreeAt p ((r.endStatement d none).builder.closedAt stop)
      ((r.afterClosing d l).builder.closedAt stop') := by
  refine Builder.agreeAt_leave hs hs' (fun n => Kind.opened_close _ _) fun n => ?_
  rw [closedBy, Node.endingAt, Span.contains_between_of_lt hl, Span.contains_between_of_lt hs]

theorem Step.agreeAt (h : Step d r l s) (hr : r.Ahead p) (hl : p < l.start) (hl' : p < l.stop)
    (hs : p < stop) (hs' : p < stop') :
    s.Ahead p ∧ AgreeAt p (r.builder.closedAt stop) (s.builder.closedAt stop') := by
  cases h with
  | comment =>
    refine ⟨fun q hq => ?_, Builder.agreeAt_closedAt hs hs'⟩
    obtain ⟨q', hq', rfl⟩ := Option.map_eq_some_iff.1 hq
    exact (hr q' hq').add hl'
  | opening =>
    refine ⟨ahead_of_none rfl, Builder.agreeAt_enter hs hs' (Span.lt_between_start ?_ hl')⟩
    cases hq : r.prelude with
    | none => exact hl
    | some q => exact (hr q hq).1
  | closing =>
    refine ⟨ahead_of_none (by simp [afterClosing]), ?_⟩
    exact (agreeAt_endStatement hs hs hr fun t ht => by cases ht).trans
      (agreeAt_afterClosing hs hs' hl')
  | semicolon =>
    refine ⟨.endStatement _, agreeAt_endStatement hs hs' hr fun t ht => ?_⟩
    cases ht
    exact lt_of_lt_of_le (Span.lt_between_start hl hl') (Span.ordered _)
  | other =>
    refine ⟨fun q hq => ?_, ?_⟩
    · rcases addToPrelude_prelude hq with ⟨q', hq', rfl | rfl⟩ | rfl
      · exact (hr q' hq').add hl'
      · exact hr q hq'
      · exact Prelude.after_ofFirst hl hl'
    · rw [addToPrelude_builder]
      exact Builder.agreeAt_closedAt hs hs'

theorem run_agreeAt (h : run d r ls = .ok s) (hr : r.Ahead p)
    (hl : ∀ l ∈ ls, p < l.start ∧ p < l.stop) (hs : p < stop) (hs' : p < stop') :
    s.Ahead p ∧ AgreeAt p (r.builder.closedAt stop) (s.builder.closedAt stop') := by
  induction ls generalizing r with
  | nil =>
    cases h
    exact ⟨hr, Builder.agreeAt_closedAt hs hs'⟩
  | cons l ls ih =>
    obtain ⟨a, ha, hls⟩ := run_cons.1 h
    obtain ⟨h1, h2⟩ := hl l (by simp)
    obtain ⟨har, hag⟩ := ha.agreeAt hr h1 h2 hs hs
    obtain ⟨hsr, hag'⟩ := ih hls har fun x hx => hl x (by simp [hx])
    exact ⟨hsr, hag.trans hag'⟩

theorem agreeAt_forestAt (h : run d r ls = .ok s) (hr : r.Ahead p)
    (hl : ∀ l ∈ ls, p < l.start ∧ p < l.stop) (hs : p < stop) (hs' : p < stop') :
    AgreeAt p (r.forestAt d stop) (s.forestAt d stop') := by
  obtain ⟨hsr, hag⟩ := run_agreeAt h hr hl hs hs'
  have hr' : AgreeAt p (r.builder.closedAt stop) (r.forestAt d stop) :=
    agreeAt_endStatement hs hs hr fun t ht => by cases ht
  have hs'' : AgreeAt p (s.builder.closedAt stop') (s.forestAt d stop') :=
    agreeAt_endStatement hs' hs' hsr fun t ht => by cases ht
  exact (hr'.symm.trans hag).trans hs''

end Reading
end AbbrevSite.Sheet
