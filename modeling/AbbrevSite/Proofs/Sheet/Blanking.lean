import AbbrevSite.Proofs.Sheet.Balance
import AbbrevSite.Proofs.Text.Blanked
import AbbrevSite.Proofs.Tree.Sketch

/-! Reading a stylesheet whose comments are blanked. A comment interrupts an at-name and does nothing else, and
so do the blanks in its place; every other lexeme is read as it was. -/
namespace AbbrevSite.Sheet

variable {l : Lexeme} {ls ms blanks : List Lexeme} {hidden : Option Nat} {lineComments : Bool} {n : Nat}

def Lexeme.IsBlank (l : Lexeme) : Prop := l.shape = .char ' ' ∨ l.shape = .char '\n'

/-- A row of lexemes with blanks for some of its comments. -/
inductive Blanking : List Lexeme → List Lexeme → Prop
  | same (ls : List Lexeme) : Blanking ls ls
  | keep (l : Lexeme) {ls ms : List Lexeme} (others : Blanking ls ms) : Blanking (l :: ls) (l :: ms)
  | comment {l : Lexeme} {blanks ls ms : List Lexeme} (shape : l.shape = .comment)
      (nonempty : blanks ≠ []) (blank : ∀ b ∈ blanks, b.IsBlank) (others : Blanking ls ms) :
      Blanking (l :: ls) (blanks ++ ms)

lemma nest_cons_congr (h : ∀ n, nest n ls = nest n ms) : nest n (l :: ls) = nest n (l :: ms) := by
  have hcons (ks : List Lexeme) : nest n (l :: ks) = (nest n [l]).bind fun m => nest m ks := by
    rw [← List.singleton_append, nest_append]
  rw [hcons ls, hcons ms, funext h]

lemma nest_blanks_append (h : ∀ b ∈ blanks, b.IsBlank) : nest n (blanks ++ ms) = nest n ms := by
  induction blanks with
  | nil => rfl
  | cons b blanks ih =>
    have hb : b.shape ≠ .char '{' ∧ b.shape ≠ .char '}' := by
      rcases h b (by simp) with hb | hb <;> simp [hb]
    rw [List.cons_append, nest_other hb.1 hb.2]
    exact ih fun x hx => h x (by simp [hx])

theorem Blanking.nest (h : Blanking ls ms) (n : Nat) : nest n ls = nest n ms := by
  induction h generalizing n with
  | same ls => rfl
  | keep l _ ih => exact nest_cons_congr ih
  | comment shape _ blank _ ih =>
    rw [nest_other (by simp [shape]) (by simp [shape]), nest_blanks_append blank]
    exact ih n

namespace Prelude

variable (d d' : Document) (p : Prelude)

lemma untexted_statement (terminator : Option Token) :
    (p.statement d terminator).untexted = (p.statement d' terminator).untexted := by
  unfold statement expression
  cases p.atStop <;> cases p.first <;> cases p.valueStart <;>
    simp [Kind.untexted, Token.untexted, tokenBetween]

lemma untexted_block (opening : Token) :
    (p.block d opening).untexted = (p.block d' opening).untexted := by
  unfold block expression
  cases p.atStop <;> cases p.first <;> simp [Kind.untexted, Token.untexted, tokenBetween]

end Prelude

namespace Reading

variable {d d' : Document} {r r' s s' : Reading}

/-- Two states of readers of two documents, of the same shape: the nodes are the same up to the texts of
their tokens, except for the node of number `hidden`, which may be the statement being read. -/
structure AgreeBut (hidden : Option Nat) (r r' : Reading) : Prop where
  builder : r.builder.mapNodes (Node.sketch hidden) = r'.builder.mapNodes (Node.sketch hidden)
  within : r.prelude.isSome = r'.prelude.isSome
  prelude : hidden = some r.builder.count ∨ r.prelude = r'.prelude

namespace AgreeBut

lemma refl (hidden : Option Nat) (r : Reading) : AgreeBut hidden r r := ⟨rfl, rfl, .inr rfl⟩

lemma depth (h : AgreeBut hidden r r') : r.depth = r'.depth := by
  simpa [Reading.depth] using congrArg List.length (Builder.mapNodes_eq_iff.1 h.builder).2.enclosing

lemma prelude_cases (h : AgreeBut hidden r r') : r.prelude = none ∧ r'.prelude = none ∨
    ∃ p p', r.prelude = some p ∧ r'.prelude = some p' ∧ (hidden = some r.builder.count ∨ p = p') := by
  have hw := h.within
  have hp := h.prelude
  cases hr : r.prelude <;> cases hr' : r'.prelude <;> simp_all

lemma sketch_new {kind kind' : Kind} {span span' : Span}
    (h : hidden = some r.builder.count ∨ kind.untexted = kind'.untexted ∧ span = span') :
    (⟨r.builder.count, kind, span⟩ : Node).sketch hidden =
      (⟨r.builder.count, kind', span'⟩ : Node).sketch hidden :=
  Node.sketch_eq_iff.2 ⟨rfl, h⟩

lemma endStatement (h : AgreeBut hidden r r') (terminator : Option Token) :
    AgreeBut hidden (r.endStatement d terminator) (r'.endStatement d' terminator) := by
  rcases h.prelude_cases with ⟨hr, hr'⟩ | ⟨p, p', hr, hr', hp⟩
  · rwa [endStatement_of_none hr, endStatement_of_none hr']
  · refine ⟨?_, by simp, .inr (by simp)⟩
    simp only [Reading.endStatement, hr, hr']
    refine Builder.mapNodes_leaf_congr h.builder (sketch_new ?_)
    refine hp.imp_right fun hp => ?_
    subst hp
    exact ⟨Prelude.untexted_statement d d' p terminator, rfl⟩

lemma openBlock (h : AgreeBut hidden r r') : AgreeBut hidden (r.openBlock d l) (r'.openBlock d' l) := by
  refine ⟨?_, rfl, .inr rfl⟩
  unfold Reading.openBlock
  rcases h.prelude_cases with ⟨hr, hr'⟩ | ⟨p, p', hr, hr', hp⟩
  · simp only [hr, hr']
    exact Builder.mapNodes_enter_congr h.builder (sketch_new (.inr ⟨Prelude.untexted_block _ _ _ _, rfl⟩))
  · simp only [hr, hr']
    refine Builder.mapNodes_enter_congr h.builder (sketch_new ?_)
    refine hp.imp_right fun hp => ?_
    subst hp
    exact ⟨Prelude.untexted_block _ _ _ _, rfl⟩

lemma afterClosing (h : AgreeBut hidden r r') :
    AgreeBut hidden (r.afterClosing d l) (r'.afterClosing d' l) := by
  refine ⟨Builder.mapNodes_leave_congr (h.endStatement none).builder fun m n hmn => ?_, ?_, .inr ?_⟩
  · rw [Node.sketch_eq_iff] at hmn ⊢
    refine hmn.imp_right (Or.imp_right ?_)
    rintro ⟨hkind, hspan⟩
    simp only [closedBy, Kind.untexted_close, hkind, hspan, and_self]
  · simp [Reading.afterClosing]
  · simp [Reading.afterClosing]

lemma addToPrelude (h : AgreeBut hidden r r') : AgreeBut hidden (r.addToPrelude l) (r'.addToPrelude l) := by
  have hb : (r.addToPrelude l).builder.mapNodes (Node.sketch hidden) =
      (r'.addToPrelude l).builder.mapNodes (Node.sketch hidden) := by
    rw [addToPrelude_builder, addToPrelude_builder, h.builder]
  rcases h.prelude_cases with ⟨hr, hr'⟩ | ⟨p, p', hr, hr', hp⟩
  · have he : (r.addToPrelude l).prelude = (r'.addToPrelude l).prelude := by
      unfold Reading.addToPrelude
      rw [hr, hr']
      split
      · contradiction
      · split_ifs
        · rw [hr, hr']
        · rfl
      · rfl
    exact ⟨hb, by rw [he], .inr he⟩
  · have ha : r.addToPrelude l = { r with prelude := some (p.add l) } := by
      simp [Reading.addToPrelude, hr]
    have ha' : r'.addToPrelude l = { r' with prelude := some (p'.add l) } := by
      simp [Reading.addToPrelude, hr']
    rw [ha, ha']
    refine ⟨h.builder, rfl, hp.imp_right fun hp => ?_⟩
    rw [hp]

lemma finish (h : AgreeBut hidden r r') (window window' : Span) (stop : Position) :
    (r.finish d window stop).forest.mapNodes (Node.sketch hidden) =
      (r'.finish d' window' stop).forest.mapNodes (Node.sketch hidden) := by
  refine Builder.mapNodes_forest_congr ?_
  refine Builder.mapNodes_leaveAll_congr (h.endStatement none).builder fun m n hmn => ?_
  rw [Node.sketch_eq_iff] at hmn ⊢
  refine hmn.imp_right (Or.imp_right ?_)
  rintro ⟨hkind, hspan⟩
  exact ⟨hkind, by rw [hspan]⟩

end AgreeBut

theorem simulates_agreeBut (d d' : Document) (hidden : Option Nat) : Simulates d d' (AgreeBut hidden) where
  depth h := h.depth
  comment _ h := ⟨h.builder, by simpa using h.within, h.prelude.imp_right fun hp => by simp only [hp]⟩
  openBlock _ h := h.openBlock
  afterClosing _ h := h.afterClosing
  endStatement terminator h := h.endStatement terminator
  addToPrelude _ h := h.addToPrelude

/-- What a comment does and what blanks do: an at-name ends. -/
def pause (r : Reading) : Reading :=
  { r with prelude := r.prelude.map fun p => { p with inAtName := false } }

lemma Step.of_isBlank (h : l.IsBlank) : Step d r l r.pause := by
  have hp {c : Char} (hl : l.shape = .char c) (hb : CharClass.isBlank c = true)
      (hc : isAtNameChar c = false) : r.addToPrelude l = r.pause := by
    obtain ⟨b, comments, prelude⟩ := r
    cases prelude <;> simp [addToPrelude, pause, hl, Prelude.add, hb, hc]
  have hr : r.addToPrelude l = r.pause :=
    h.elim (fun h => hp h (by decide) (by decide)) fun h => hp h (by decide) (by decide)
  rw [← hr]
  rcases h with h | h <;> exact .other (by simp [h]) (by simp [h]) (by simp [h]) (by simp [h])

lemma run_blanks (hne : blanks ≠ []) (h : ∀ b ∈ blanks, b.IsBlank) : run d r blanks = .ok r.pause := by
  induction blanks generalizing r with
  | nil => exact absurd rfl hne
  | cons b blanks ih =>
    refine run_cons.2 ⟨_, .of_isBlank (h b (by simp)), ?_⟩
    have hp : r.pause.pause = r.pause := by
      unfold pause
      cases r.prelude <;> rfl
    by_cases hb : blanks = []
    · rw [hb, run_nil]
    · rw [ih hb fun x hx => h x (by simp [hx]), hp]

lemma AgreeBut.pause (h : AgreeBut hidden r r') : AgreeBut hidden r.pause r'.pause :=
  ⟨h.builder, by simpa [Reading.pause] using h.within,
    h.prelude.imp_right fun hp => by rw [Reading.pause, Reading.pause, hp]⟩

theorem run_agreeBut (hr : run d r ls = .ok s) (ha : AgreeBut hidden r r') :
    ∃ s', run d' r' ls = .ok s' ∧ AgreeBut hidden s s' :=
  (simulates_agreeBut d d' hidden).run hr ha

/-- A text with blanks for its comments is read alike. -/
theorem run_blanking (h : Blanking ls ms) (hr : run d r ls = .ok s) (ha : AgreeBut hidden r r') :
    ∃ s', run d' r' ms = .ok s' ∧ AgreeBut hidden s s' := by
  induction h generalizing r r' with
  | same ls => exact run_agreeBut hr ha
  | keep l _ ih =>
    obtain ⟨a, hstep, hls⟩ := run_cons.1 hr
    obtain ⟨a', hstep', ha'⟩ := (simulates_agreeBut d d' hidden).step hstep ha
    obtain ⟨s', hs', hss⟩ := ih hls ha'
    exact ⟨s', run_cons.2 ⟨a', hstep', hs'⟩, hss⟩
  | @comment l blanks ls ms shape nonempty blank _ ih =>
    obtain ⟨a, hstep, hls⟩ := run_cons.1 hr
    have hpause : AgreeBut hidden a r'.pause := by
      have hp := ha.pause
      cases hstep with
      | comment => 
        refine ⟨ha.builder, ?_, ?_⟩
        · simpa [Reading.pause] using ha.within
        · refine hp.prelude.imp_right fun hp => ?_
          rw [← hp]
          simp [Reading.pause, Prelude.add, shape]
      | opening hs | closing hs | semicolon hs => simp [shape] at hs
      | other hs => exact absurd shape hs
    obtain ⟨s', hs', hss⟩ := ih hls hpause
    exact ⟨s', run_append.2 ⟨_, run_blanks nonempty blank, hs'⟩, hss⟩

end Reading
end AbbrevSite.Sheet
