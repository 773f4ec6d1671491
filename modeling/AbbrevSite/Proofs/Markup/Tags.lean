import AbbrevSite.Proofs.Markup.Nodes
import AbbrevSite.Proofs.Markup.Printed
import AbbrevSite.Proofs.Text.Excerpt

/-! The tags and the comments of a markup tree stand in its text: each of them starts with an angle bracket and ends
at a place behind it. So what lies between the tags of an element is a window of the text. -/
namespace AbbrevSite

def Token.LiesIn (t : Token) (d : Document) : Prop := d.Valid t.span.start ∧ d.Valid t.span.stop

/-- The stretches of the text that a node is made of: its tokens, or all of it if it is a comment. -/
def Node.marks (n : Node) : List Span :=
  match n.kind with
  | .comment => [n.span]
  | kind => kind.tokens.map (·.span)

lemma Kind.mem_tokens_close {k : Kind} {t closing : Token} (h : t ∈ (k.close closing).tokens) :
    t ∈ k.tokens ∨ t = closing := by
  cases k <;> simp [close, tokens] at h ⊢ <;> tauto

lemma Kind.close_ne_comment {k : Kind} {closing : Token} (h : k ≠ .comment) : k.close closing ≠ .comment := by
  cases k with
  | comment => exact absurd rfl h
  | _ => exact nofun

lemma Node.marks_of_ne {n : Node} (h : n.kind ≠ .comment) : n.marks = n.kind.tokens.map (·.span) := by
  unfold marks
  split
  · rename_i hk
    exact absurd hk h
  · rfl

namespace Markup

open Document

variable {d : Document} {b x y : Position} {g : Glyph} {gs rest : List Glyph}

/-- A stretch of a document with an angle bracket at its start. -/
structure Marked (d : Document) (s : Span) : Prop where
  valid_start : d.Valid s.start
  valid_stop : d.Valid s.stop
  lt : s.start < s.stop
  angle : d.readAt s.start = '<'

def Piece.marks : Piece → List Span
  | .comment span => [span]
  | .opening _ whole _ body => whole.span :: (body.closing?.map (·.span)).toList
  | .closing _ whole => [whole.span]

lemma RestAt.readAt (hb : d.Valid b) (h : RestAt d b x (g :: gs)) : d.readAt x = g.char := by
  obtain ⟨-, rfl, -⟩ := of_glyphs_eq_cons hb h.glyphs.symm
  rfl

lemma RestAt.marked (hb : d.Valid b) (h : RestAt d b x (g :: gs)) (hg : g.char = '<') (hs : rest <:+ g :: gs)
    (hlength : rest.length ≤ gs.length) : Marked d (tokenUpTo b d (g :: gs) rest).span := by
  obtain ⟨y, hy, -, hlt⟩ := h.suffix hb hs
  have hxy : x < y := hlt (Nat.lt_succ_of_le hlength)
  rw [tokenUpTo_eq hb h hy (le_of_lt hxy)]
  exact ⟨h.valid, hy.valid, hxy, (h.readAt hb).trans hg⟩

lemma angle_of_startsWith {cs : List Char} (h : startsWith ('<' :: cs) (g :: gs) = true) : g.char = '<' := by
  rw [startsWith, Bool.and_eq_true, beq_iff_eq] at h
  exact ((toLower_eq_toLower_iff (by decide) (by decide)).1 h.1).symm

lemma rawBody_marked (hb : d.Valid b) (h : RestAt d b x gs) {name : String} {t : Token}
    (ht : (rawBody b d name gs).1 = some t) : Marked d t.span := by
  induction gs generalizing x with
  | nil => cases ht
  | cons g gs ih =>
    rw [rawBody] at ht
    split_ifs at ht with hs
    · cases ht
      exact h.marked hb (angle_of_startsWith hs) (skipPast_suffix _ _) (length_skipPast_cons (by simp))
    · obtain ⟨y, hy, -, -⟩ := h.suffix hb (List.suffix_cons g gs)
      exact ih hy ht

lemma pieceAt_marked (voids : Bool) (hb : d.Valid b) (h : RestAt d b x (g :: gs)) (hg : g.char = '<') {p : Piece}
    (hp : (pieceAt b voids d g gs).1 = some p) : ∀ s ∈ p.marks, Marked d s := by
  unfold pieceAt at hp
  dsimp only at hp
  split_ifs at hp
  · cases hp
    rw [Piece.marks, List.forall_mem_singleton]
    refine h.marked hb hg ((skipPast_suffix _ _).trans (List.drop_suffix 4 _)) ((length_skipPast _ _).trans ?_)
    simp
  · split at hp
    · rename_i name whole rest hc
      cases hp
      obtain ⟨y, hxy, hy, rfl⟩ := closingTag?_reads hb h hc
      rw [Piece.marks, List.forall_mem_singleton]
      exact ⟨h.valid, hy.valid, hxy, (h.readAt hb).trans hg⟩
    · cases hp
  · split at hp
    · cases hp
    · rename_i name attributes selfClosing rest ho
      obtain ⟨y, hy, hxy, -⟩ := openingTag?_reads hb h ho
      have hwhole : Marked d (tokenUpTo b d (g :: gs) rest).span := by
        rw [tokenUpTo_eq hb h hy (le_of_lt hxy)]
        exact ⟨h.valid, hy.valid, hxy, (h.readAt hb).trans hg⟩
      split_ifs at hp
      · cases hp
        simpa [Piece.marks, Body.closing?] using hwhole
      · cases hp
        simp only [Piece.marks, Body.closing?, List.forall_mem_cons, Option.mem_toList]
        refine ⟨hwhole, fun s hs => ?_⟩
        obtain ⟨t, ht, rfl⟩ := Option.map_eq_some_iff.1 hs
        exact rawBody_marked hb hy ht
      · cases hp
        simpa [Piece.marks, Body.closing?] using hwhole

theorem pieces_marked (voids : Bool) (hb : d.Valid b) {gs : List Glyph} {x : Position} (h : RestAt d b x gs) :
    ∀ p ∈ pieces b voids d gs, ∀ s ∈ p.marks, Marked d s :=
  forall_pieces hb voids (fun h hangle _ hp => pieceAt_marked voids hb h hangle hp) h

lemma gives_marks {P : Span → Prop} {p : Piece} (hp : ∀ s ∈ p.marks, P s) :
    p.Gives (fun n => ∀ s ∈ n.marks, P s) fun n => n.kind ≠ .comment := by
  cases p with
  | comment span => exact fun _ => hp
  | closing name whole =>
    intro n hn hne _ s hs
    rw [Node.marks_of_ne (Kind.close_ne_comment hne)] at hs
    rw [Node.marks_of_ne hne] at hn
    obtain ⟨t, ht, rfl⟩ := List.mem_map.1 hs
    rcases Kind.mem_tokens_close ht with ht | rfl
    · exact hn _ (List.mem_map_of_mem ht)
    · exact hp _ List.mem_cons_self
  | opening name whole attributes body =>
    cases body with
    | «open» => exact fun _ => ⟨hp, nofun⟩
    | empty => exact fun _ => hp
    | raw closing =>
      cases closing with
      | none => exact fun _ => hp
      | some closing => exact fun _ => hp

theorem marked_parse {w : Span} {dialect : Dialect} (hstart : d.Valid w.start) (hstop : d.Valid w.stop) {n : Node}
    (hn : n ∈ (parse (Cursor.within d w.start w) dialect).forest.preorder) : ∀ s ∈ n.marks, Marked d s := by
  have hmarked := pieces_marked dialect.hasVoidElements hstop ⟨hstart, w.ordered, rfl⟩
  exact forall_nodes_parse (fun p hp => gives_marks (hmarked p hp)) n hn

lemma liesIn_of_marks {n : Node} (h : ∀ s ∈ n.marks, Marked d s) : ∀ t ∈ n.kind.tokens, t.LiesIn d := by
  intro t ht
  have hne : n.kind ≠ .comment := by
    intro hk
    rw [hk] at ht
    cases ht
  rw [Node.marks_of_ne hne] at h
  have hmarked := h _ (List.mem_map_of_mem ht)
  exact ⟨hmarked.valid_start, hmarked.valid_stop⟩

/-- What lies between the tags of an element is a window of the document. -/
theorem innerSpan?_valid {w s : Span} {dialect : Dialect} (hstart : d.Valid w.start) (hstop : d.Valid w.stop) {n : Node}
    (hn : n ∈ (parse (Cursor.within d w.start w) dialect).forest.preorder) (hs : n.kind.innerSpan? = some s) :
    d.Valid s.start ∧ d.Valid s.stop := by
  have hin := liesIn_of_marks (marked_parse hstart hstop hn)
  unfold Kind.innerSpan? at hs
  split at hs
  · rename_i name opening closing attributes hk
    cases hs
    have hopening : opening.LiesIn d := hin opening (by rw [hk]; simp [Kind.tokens])
    have hclosing : closing.LiesIn d := hin closing (by rw [hk]; simp [Kind.tokens])
    exact between_valid hopening.2 hclosing.1
  · cases hs

end Markup
end AbbrevSite
