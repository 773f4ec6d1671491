import AbbrevSite.Proofs.Region.Walk
import AbbrevSite.Region.Parse
import AbbrevSite.Proofs.Sheet.Lexing

/-! The search for a region in any document. It stays on the places of the document, and the region ends after
the position it is around. -/
namespace AbbrevSite

open Sheet Document

namespace Document

variable {d : Document}

lemma openingBefore_valid {line column : Nat} {q : Position} (hv : d.Valid ⟨line, column⟩)
    (h : d.openingBefore line column = some q) : d.Valid q := by
  fun_induction openingBefore d line column with
  | case1 line column k hk =>
    cases h
    exact ⟨hv.1, (le_of_lt (lastPair_lt hk)).trans hv.2⟩
  | case2 => cases h
  | case3 column line _ ih =>
    exact ih ⟨(Nat.lt_succ_self line).trans hv.1, le_refl _⟩ h

end Document

namespace RegionSearch

variable {s : RegionSearch} {p : Position}

lemma stepBack_valid (line : Nat) (hp : s.document.Valid p) : s.document.Valid (s.stepBack line p) := by
  refine valid_prev ?_
  unfold leaveLineComment
  split_ifs
  · split
    · split_ifs with hc
      · exact ⟨hp.1, (le_of_lt hc).trans hp.2⟩
      · exact hp
    · exact hp
  · exact hp

lemma leaveBlockComment_valid (hp : s.document.Valid p) : s.document.Valid (s.leaveBlockComment p) := by
  unfold leaveBlockComment
  split_ifs
  · simp only
    split
    · exact openingBefore_valid (valid_prev hp) ‹_›
    · exact valid_origin _
  · exact hp

def Front.place : Front → Position
  | brace p => p
  | edge p => p

lemma findBrace_valid (line depth : Nat) (hp : s.document.Valid p) :
    s.document.Valid (s.findBrace line depth p).place := by
  fun_induction findBrace s line depth p with
  | case1 => exact valid_origin _
  | case2 line p _ q _ => exact stepBack_valid line hp
  | case3 | case5 | case8 | case10 => exact valid_origin _
  | case4 line p _ q _ depth _ ih => exact ih (stepBack_valid line hp)
  | case6 line depth p _ q _ _ _ ih => exact ih (stepBack_valid line hp)
  | case7 line depth p h0 q =>
    exact valid_after (stepBack_valid line hp) (lt_of_lt_of_le (s.stepBack_lt h0) (Document.le_stop hp))
  | case9 line depth p _ q back _ _ ih => exact ih (leaveBlockComment_valid (stepBack_valid line hp))
  | case11 line depth p _ q _ _ _ _ ih => exact ih (stepBack_valid line hp)

lemma selectorStart_valid (hp : s.document.Valid p) : s.document.Valid (s.selectorStart p) := by
  fun_induction selectorStart s p with
  | case1 | case2 | case3 | case4 => exact (skipBlanks_spec hp).1
  | case5 p _ _ q _ _ _ ih => exact ih (valid_prev hp)

lemma beforeBrace_valid {brace : Position} (line nested : Nat) (hb : s.document.Valid brace)
    (hp : s.document.Valid p) : s.document.Valid (s.beforeBrace brace line nested p) := by
  fun_induction beforeBrace s brace line nested p with
  | case1 | case2 | case4 | case6 | case8 | case10 => exact hb
  | case3 line _ p _ q _ _ _ ih => exact ih (stepBack_valid line hp)
  | case5 line _ p _ q back _ _ _ _ ih => exact ih (leaveBlockComment_valid (stepBack_valid line hp))
  | case7 line _ p _ q _ _ _ _ _ ih => exact ih (stepBack_valid line hp)
  | case9 line p => exact selectorStart_valid (stepBack_valid line hp)
  | case11 line p _ q _ _ _ _ _ _ ih => exact ih (stepBack_valid line hp)

theorem start_valid (hp : s.document.Valid s.position) : s.document.Valid s.start := by
  have hv := findBrace_valid s.position.line 0 hp
  cases hf : s.findBrace s.position.line 0 s.position with
  | edge p =>
    rw [hf] at hv
    exact start_of_edge hf ▸ hv
  | brace p =>
    rw [hf] at hv
    exact start_of_brace hf ▸ beforeBrace_valid p.line 0 hv hv

lemma findBrace_le (line depth : Nat) (hp : s.document.Valid p) :
    (s.findBrace line depth p).place ≤ p := by
  fun_induction findBrace s line depth p with
  | case1 | case3 | case5 | case8 | case10 => exact Position.origin_le _
  | case2 line p h0 => exact le_of_lt (s.stepBack_lt h0)
  | case4 line p h0 q _ _ _ ih | case6 line _ p h0 q _ _ _ ih | case11 line _ p h0 q _ _ _ _ ih =>
    exact (ih (stepBack_valid line hp)).trans (le_of_lt (s.stepBack_lt h0))
  | case7 line _ p h0 q => exact after_le hp (s.stepBack_lt h0)
  | case9 line _ p h0 q back _ _ ih =>
    exact (ih (leaveBlockComment_valid (stepBack_valid line hp))).trans
      ((s.leaveBlockComment_le q).trans (le_of_lt (s.stepBack_lt h0)))

lemma beforeBrace_le {brace : Position} (line nested : Nat) (hp : s.document.Valid p) (hb : p ≤ brace) :
    s.beforeBrace brace line nested p ≤ brace := by
  have hback {line : Nat} {p : Position} (h0 : p ≠ .origin) (hb : p ≤ brace) : s.stepBack line p ≤ brace :=
    (le_of_lt (s.stepBack_lt h0)).trans hb
  fun_induction beforeBrace s brace line nested p with
  | case1 | case2 | case4 | case6 | case8 | case10 => exact le_refl _
  | case3 line _ p h0 q _ _ _ ih | case7 line _ p h0 q _ _ _ _ _ ih =>
    exact ih (stepBack_valid line hp) (hback h0 hb)
  | case5 line _ p h0 q back _ _ _ _ ih =>
    exact ih (leaveBlockComment_valid (stepBack_valid line hp)) ((s.leaveBlockComment_le q).trans (hback h0 hb))
  | case9 line p h0 q c hblank =>
    exact (selectorStart_le (stepBack_valid line hp) (by simpa using hblank)).2.1.trans (hback h0 hb)
  | case11 line p h0 q _ _ _ _ _ _ ih => exact ih (stepBack_valid line hp) (hback h0 hb)

theorem start_le (hp : s.document.Valid s.position) : s.start ≤ s.position := by
  have hle := findBrace_le s.position.line 0 hp
  have hv := findBrace_valid s.position.line 0 hp
  cases hf : s.findBrace s.position.line 0 s.position with
  | edge p =>
    rw [hf] at hle
    exact (start_of_edge hf).trans_le hle
  | brace p =>
    rw [hf] at hle hv
    exact (start_of_brace hf).trans_le ((beforeBrace_le p.line 0 hv (le_refl p)).trans hle)

lemma stopAfter_eq (lineComments : Bool) (last : Position) (gs : List Glyph) :
    stopAfter lineComments last gs = last ∨ ∃ g ∈ gs, stopAfter lineComments last gs = g.stop := by
  have hmono : ∀ {us vs : List Glyph} {e : Position}, us ⊆ vs →
      (e = last ∨ ∃ g ∈ us, e = g.stop) → e = last ∨ ∃ g ∈ vs, e = g.stop :=
    fun hsub => Or.imp_right fun ⟨g, hg, h⟩ => ⟨g, hsub hg, h⟩
  fun_induction stopAfter lineComments last gs with
  | case1 | case3 | case5 => exact .inl rfl
  | case2 g rest hc => exact .inr ⟨g, by simp, rfl⟩
  | case4 g _ _ x rest _ ih =>
    exact hmono (fun y hy => .tail g (.tail x ((List.dropWhile_suffix _).subset hy))) ih
  | case6 g _ _ x rest _ _ _ _ hclose ih =>
    exact hmono (fun y hy => .tail g (.tail x ((closeComment_suffix hclose).subset hy))) ih
  | case7 | case8 => exact hmono (List.subset_cons_self _ _) ‹_›

theorem stop_valid (hp : s.document.Valid s.position) : s.document.Valid s.stop := by
  rcases stopAfter_eq s.lineComments s.document.stop
    (s.document.glyphs s.position s.document.stop) with h | ⟨g, hg, h⟩
  · rw [stop, h]
    exact valid_stop _
  · obtain ⟨x, hx, -, hxs, rfl⟩ := (mem_glyphs (valid_stop _) hp (Document.le_stop hp)).1 hg
    rw [stop, h]
    exact valid_after hx hxs

theorem lt_stop (hp : s.document.Valid s.position) (hlt : s.position < s.document.stop) :
    s.position < s.stop := by
  rcases stopAfter_eq s.lineComments s.document.stop
    (s.document.glyphs s.position s.document.stop) with h | ⟨g, hg, h⟩
  · rw [stop, h]
    exact hlt
  · obtain ⟨x, -, hpx, -, rfl⟩ := (mem_glyphs (valid_stop _) hp (le_of_lt hlt)).1 hg
    rw [stop, h]
    exact lt_of_le_of_lt hpx (lt_after _ x)

theorem le_stop (hp : s.document.Valid s.position) : s.position ≤ s.stop := by
  rcases lt_or_eq_of_le (Document.le_stop hp) with hlt | heq
  · exact le_of_lt (lt_stop hp hlt)
  · rw [stop, heq, glyphs_self, stopAfter]

lemma start_le_stop (hp : s.document.Valid s.position) : s.start ≤ s.stop := (start_le hp).trans (le_stop hp)

end RegionSearch

namespace Document

theorem regionAround_valid (d : Document) (limits : Limits) (p : Position) :
    d.Valid (d.regionAround limits p).start ∧ d.Valid (d.regionAround limits p).stop := by
  have hstart : d.Valid (RegionSearch.new d d.sheetDialect limits p).start :=
    RegionSearch.start_valid (d.clamp_valid p)
  have hstop : d.Valid (RegionSearch.new d d.sheetDialect limits p).stop :=
    RegionSearch.stop_valid (d.clamp_valid p)
  unfold regionAround RegionSearch.region Span.between
  split_ifs
  · exact ⟨hstop, hstart⟩
  · exact ⟨hstart, hstop⟩

end Document
end AbbrevSite
