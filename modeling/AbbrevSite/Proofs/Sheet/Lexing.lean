import AbbrevSite.Proofs.Text.Offsets
import AbbrevSite.Sheet.Lexeme

/-! Reading lexemes one after the other. What is read of a window up to a character stays what it is if
the window ends later or earlier, as long as that character is in it. In a text without comments, strings
and groups every character is a lexeme. -/
namespace AbbrevSite.Sheet

variable {lineComments : Bool}

/-- A row of characters starts with some lexemes, and after them come the rest. -/
inductive Reads (lineComments : Bool) : List Glyph → List Lexeme → List Glyph → Prop
  | done (gs : List Glyph) : Reads lineComments gs [] gs
  | next {g : Glyph} {gs mid rest : List Glyph} {l : Lexeme} {ls : List Lexeme}
      (first : lexeme lineComments g gs = .ok (l, mid))
      (others : Reads lineComments mid ls rest) : Reads lineComments (g :: gs) (l :: ls) rest

lemma lexemesOnto_eq (acc : List Lexeme) (gs : List Glyph) :
    lexemesOnto lineComments acc gs =
      (acc.reverse ++ (lexemes lineComments gs).1, (lexemes lineComments gs).2) := by
  unfold lexemes
  match gs with
  | [] => simp [lexemesOnto]
  | g :: gs =>
    rw [lexemesOnto, lexemesOnto]
    split
    · rename_i l rest h
      have := length_lexeme h
      rw [lexemesOnto_eq (l :: acc) rest, lexemesOnto_eq [l] rest]
      simp
    · simp
termination_by gs.length

lemma lexemes_nil : lexemes lineComments [] = ([], none) := by simp [lexemes, lexemesOnto]

lemma lexemes_cons {g : Glyph} {gs rest : List Glyph} {l : Lexeme}
    (h : lexeme lineComments g gs = .ok (l, rest)) :
    lexemes lineComments (g :: gs) =
      (l :: (lexemes lineComments rest).1, (lexemes lineComments rest).2) := by
  rw [lexemes, lexemesOnto]
  split
  · rename_i l' rest' h'
    rw [h, Except.ok.injEq, Prod.mk.injEq] at h'
    obtain ⟨rfl, rfl⟩ := h'
    rw [lexemesOnto_eq]
    rfl
  · rename_i h'
    rw [h] at h'
    cases h'

lemma lexemes_fault {g : Glyph} {gs : List Glyph} {fault : Fault}
    (h : lexeme lineComments g gs = .error fault) :
    lexemes lineComments (g :: gs) = ([], some fault) := by
  rw [lexemes, lexemesOnto]
  split
  · rename_i h'
    rw [h] at h'
    cases h'
  · rename_i h'
    rw [h, Except.error.injEq] at h'
    rw [h']
    rfl

theorem lexemes_of_reads {gs rest : List Glyph} {ls : List Lexeme}
    (h : Reads lineComments gs ls rest) :
    lexemes lineComments gs =
      (ls ++ (lexemes lineComments rest).1, (lexemes lineComments rest).2) := by
  induction h with
  | done => rfl
  | next first _ ih =>
    rw [lexemes_cons first, ih]
    rfl

lemma exists_lexeme_of_lexemes {gs : List Glyph} {l : Lexeme} {ls : List Lexeme}
    (h : (lexemes lineComments gs).1 = l :: ls) :
    ∃ g hs rest, gs = g :: hs ∧ lexeme lineComments g hs = .ok (l, rest) ∧
      lexemes lineComments gs = (l :: (lexemes lineComments rest).1, (lexemes lineComments rest).2) := by
  cases gs with
  | nil =>
    rw [lexemes_nil] at h
    cases h
  | cons g hs =>
    cases hg : lexeme lineComments g hs with
    | error fault =>
      rw [lexemes_fault hg] at h
      cases h
    | ok read =>
      obtain ⟨k, rest⟩ := read
      rw [lexemes_cons hg, List.cons.injEq] at h
      obtain ⟨rfl, -⟩ := h
      exact ⟨g, hs, rest, rfl, hg, lexemes_cons hg⟩

lemma lexeme_of_lexemes {d : Document} {x b : Position} {l : Lexeme} {ls : List Lexeme} (hb : d.Valid b)
    (h : (lexemes lineComments (d.glyphs x b)).1 = l :: ls) :
    x < b ∧ ∃ rest, lexeme lineComments (d.glyphAt x) (d.glyphs (d.after x) b) = .ok (l, rest) ∧
      lexemes lineComments (d.glyphs x b) =
        (l :: (lexemes lineComments rest).1, (lexemes lineComments rest).2) := by
  obtain ⟨g, hs, rest, hgs, hl, heq⟩ := exists_lexeme_of_lexemes h
  obtain ⟨hlt, rfl, rfl⟩ := Document.of_glyphs_eq_cons hb hgs
  exact ⟨hlt, rest, hl, heq⟩

theorem reads_of_lexemes {gs : List Glyph} {ls ms : List Lexeme}
    (h : (lexemes lineComments gs).1 = ls ++ ms) :
    ∃ rest, Reads lineComments gs ls rest ∧ (lexemes lineComments rest).1 = ms := by
  induction ls generalizing gs with
  | nil => exact ⟨gs, .done gs, h⟩
  | cons l ls ih =>
    obtain ⟨g, hs, mid, rfl, hg, heq⟩ := exists_lexeme_of_lexemes h
    rw [heq, List.cons_append, List.cons.injEq] at h
    obtain ⟨rest, hread, hms⟩ := ih h.2
    exact ⟨rest, .next hg hread, hms⟩

def Lexeme.ofGlyph (g : Glyph) : Lexeme := ⟨.char g.char, g.start, g.stop⟩

variable {g x : Glyph}

lemma lexeme_block_comment_iff {gs rest : List Glyph} {l : Lexeme} (hg : g.char = '/')
    (hx : x.char = '*') :
    lexeme lineComments g (x :: gs) = .ok (l, rest) ↔
      ∃ p, closeComment gs = some (p, rest) ∧ l = ⟨.comment, g.start, p⟩ := by
  rcases h : closeComment gs with _ | ⟨q, mid⟩ <;>
    simp [lexeme, hg, hx, h, and_assoc, and_comm, eq_comm]

lemma lexeme_line_comment (gs : List Glyph) (hg : g.char = '/') (hx : x.char = '/')
    (hl : lineComments = true) :
    lexeme lineComments g (x :: gs) =
      .ok (⟨.comment, g.start, (closeLineComment x.stop gs).1⟩, (closeLineComment x.stop gs).2) := by
  simp [lexeme, hg, hx, hl]

lemma lexeme_slash (gs : List Glyph) (hg : g.char = '/') (hx : x.char ≠ '*')
    (hl : ¬(x.char = '/' ∧ lineComments = true)) :
    lexeme lineComments g (x :: gs) = .ok (.ofGlyph g, x :: gs) := by
  simp [lexeme, hg, hx, hl, Lexeme.ofGlyph]

lemma lexeme_string_iff {gs rest : List Glyph} {l : Lexeme} (hg : isQuote g.char = true) :
    lexeme lineComments g gs = .ok (l, rest) ↔
      ∃ p, closeString g.char gs = some (p, rest) ∧ l = ⟨.string, g.start, p⟩ := by
  have hs : g.char ≠ '/' := by
    intro hs
    simp [isQuote, hs] at hg
  rcases h : closeString g.char gs with _ | ⟨q, mid⟩ <;>
    simp [lexeme, hs, hg, h, and_assoc, and_comm, eq_comm]

lemma lexeme_group_iff {gs rest : List Glyph} {l : Lexeme} (hg : g.char = '(') :
    lexeme lineComments g gs = .ok (l, rest) ↔
      ∃ p, closeGroup 0 none g.stop gs = some (p, rest) ∧ l = ⟨.group, g.start, p⟩ := by
  rcases h : closeGroup 0 none g.stop gs with _ | ⟨q, mid⟩ <;>
    simp [lexeme, hg, isQuote, h, and_assoc, and_comm, eq_comm]

/-- A character that starts no comment, string or group. -/
def IsPlain (c : Char) : Prop := c ≠ '"' ∧ c ≠ '\'' ∧ c ≠ '(' ∧ c ≠ '/'

instance : DecidablePred IsPlain := fun c =>
  inferInstanceAs (Decidable (c ≠ '"' ∧ c ≠ '\'' ∧ c ≠ '(' ∧ c ≠ '/'))

lemma isPlain_iff {c : Char} : IsPlain c ↔ isQuote c = false ∧ c ≠ '(' ∧ c ≠ '/' := by
  simp [IsPlain, isQuote, and_assoc]

lemma lexeme_of_isPlain (gs : List Glyph) (h : IsPlain g.char) :
    lexeme lineComments g gs = .ok (.ofGlyph g, gs) := by
  obtain ⟨hq, hp, hs⟩ := isPlain_iff.1 h
  simp [lexeme, hq, hp, hs, Lexeme.ofGlyph]

theorem lexemes_of_isPlain {gs : List Glyph} (h : ∀ g ∈ gs, IsPlain g.char) :
    lexemes lineComments gs = (gs.map .ofGlyph, none) := by
  induction gs with
  | nil => exact lexemes_nil
  | cons g gs ih =>
    rw [lexemes_cons (lexeme_of_isPlain gs (h g (by simp))), ih fun x hx => h x (by simp [hx])]
    rfl

lemma closeComment_suffix {gs rest : List Glyph} {p : Position}
    (h : closeComment gs = some (p, rest)) : rest <:+ gs := by
  fun_induction closeComment gs <;> grind [List.suffix_cons_iff]

lemma closeLineComment_suffix (last : Position) (gs : List Glyph) :
    (closeLineComment last gs).2 <:+ gs := by
  fun_induction closeLineComment last gs <;> grind [List.suffix_cons_iff]

lemma closeString_suffix {quote : Char} {gs rest : List Glyph} {p : Position}
    (h : closeString quote gs = some (p, rest)) : rest <:+ gs := by
  fun_induction closeString quote gs <;> grind [List.suffix_cons_iff]

lemma closeGroup_suffix {depth : Nat} {quote : Option Char} {gs rest : List Glyph}
    {last p : Position} (h : closeGroup depth quote last gs = some (p, rest)) : rest <:+ gs := by
  fun_induction closeGroup depth quote last gs <;> grind [List.suffix_cons_iff]

/-- What a lexeme can be and what follows it. -/
inductive LexemeAt (lineComments : Bool) (g : Glyph) : List Glyph → Lexeme → List Glyph → Prop
  | char (gs : List Glyph) : LexemeAt lineComments g gs (.ofGlyph g) gs
  | blockComment {x : Glyph} {gs rest : List Glyph} {p : Position} (slash : g.char = '/')
      (star : x.char = '*') (closed : closeComment gs = some (p, rest)) :
      LexemeAt lineComments g (x :: gs) ⟨.comment, g.start, p⟩ rest
  | lineComment {x : Glyph} {gs : List Glyph} (slash : g.char = '/') (slash' : x.char = '/')
      (allowed : lineComments = true) :
      LexemeAt lineComments g (x :: gs) ⟨.comment, g.start, (closeLineComment x.stop gs).1⟩
        (closeLineComment x.stop gs).2
  | string {gs rest : List Glyph} {p : Position} (quote : isQuote g.char = true)
      (closed : closeString g.char gs = some (p, rest)) :
      LexemeAt lineComments g gs ⟨.string, g.start, p⟩ rest
  | group {gs rest : List Glyph} {p : Position} (opening : g.char = '(')
      (closed : closeGroup 0 none g.stop gs = some (p, rest)) :
      LexemeAt lineComments g gs ⟨.group, g.start, p⟩ rest

theorem lexemeAt_of_lexeme {gs rest : List Glyph} {l : Lexeme}
    (h : lexeme lineComments g gs = .ok (l, rest)) : LexemeAt lineComments g gs l rest := by
  by_cases hs : g.char = '/'
  · cases gs with
    | nil =>
      simp only [lexeme, if_pos hs, Except.ok.injEq, Prod.mk.injEq] at h
      obtain ⟨rfl, rfl⟩ := h
      exact .char []
    | cons x gs =>
      by_cases hb : x.char = '*'
      · obtain ⟨p, hc, rfl⟩ := (lexeme_block_comment_iff hs hb).1 h
        exact .blockComment hs hb hc
      · by_cases hl : x.char = '/' ∧ lineComments = true
        · rw [lexeme_line_comment _ hs hl.1 hl.2] at h
          cases h
          exact .lineComment hs hl.1 hl.2
        · rw [lexeme_slash _ hs hb hl] at h
          cases h
          exact .char _
  · by_cases hq : isQuote g.char = true
    · obtain ⟨p, hc, rfl⟩ := (lexeme_string_iff hq).1 h
      exact .string hq hc
    · by_cases hg : g.char = '('
      · obtain ⟨p, hc, rfl⟩ := (lexeme_group_iff hg).1 h
        exact .group hg hc
      · rw [lexeme_of_isPlain _ (isPlain_iff.2 ⟨by simpa using hq, hg, hs⟩)] at h
        cases h
        exact .char gs

lemma lexeme_start {gs rest : List Glyph} {l : Lexeme}
    (h : lexeme lineComments g gs = .ok (l, rest)) : l.start = g.start := by
  cases lexemeAt_of_lexeme h <;> rfl

lemma lexeme_suffix {gs rest : List Glyph} {l : Lexeme}
    (h : lexeme lineComments g gs = .ok (l, rest)) : rest <:+ gs := by
  cases lexemeAt_of_lexeme h with
  | char => exact List.suffix_rfl
  | blockComment _ _ closed => exact (closeComment_suffix closed).trans (List.suffix_cons _ _)
  | lineComment => exact (closeLineComment_suffix _ _).trans (List.suffix_cons _ _)
  | string _ closed => exact closeString_suffix closed
  | group _ closed => exact closeGroup_suffix closed

theorem Reads.suffix {gs rest : List Glyph} {ls : List Lexeme}
    (h : Reads lineComments gs ls rest) : rest <:+ gs := by
  induction h with
  | done => exact List.suffix_rfl
  | next first _ ih => exact (ih.trans (lexeme_suffix first)).trans (List.suffix_cons _ _)

lemma closeComment_length {gs rest : List Glyph} {p : Position}
    (h : closeComment gs = some (p, rest)) : rest.length + 2 ≤ gs.length := by
  fun_induction closeComment gs with
  | case1 => cases h
  | case2 => cases h
  | case3 g g' r _ =>
    simp only [Option.some.injEq, Prod.mk.injEq] at h
    simp [h.2]
  | case4 g g' r _ ih =>
    have := ih h
    simp only [List.length_cons] at *
    omega

lemma closeComment_window {us w v : List Glyph} {p : Position}
    (h : closeComment (us ++ w) = some (p, v ++ w)) : closeComment us = some (p, v) := by
  fun_induction closeComment us with
  | case1 =>
    have := closeComment_length h
    simp only [List.nil_append, List.length_append] at this
    omega
  | case2 g =>
    have := closeComment_length h
    simp only [List.singleton_append, List.length_cons, List.length_append] at this
    omega
  | case3 g g' us hc =>
    rw [List.cons_append, List.cons_append, closeComment, if_pos hc] at h
    simpa using h
  | case4 g g' us hc ih =>
    rw [List.cons_append, List.cons_append, closeComment, if_neg hc] at h
    exact ih h

lemma closeLineComment_window {us w v : List Glyph} {last p : Position} (hv : v ≠ [])
    (h : closeLineComment last (us ++ w) = (p, v ++ w)) : closeLineComment last us = (p, v) := by
  induction us generalizing last with
  | nil =>
    have hl := length_closeLineComment last w
    have := List.length_pos_iff.2 hv
    rw [List.nil_append] at h
    rw [h, List.length_append] at hl
    omega
  | cons g us ih =>
    rw [List.cons_append, closeLineComment] at h
    rw [closeLineComment]
    split_ifs at h ⊢ with hc
    · rw [← List.cons_append] at h
      simp only [Prod.mk.injEq, List.append_cancel_right_eq] at h
      rw [h.1, h.2]
    · exact ih h

lemma closeString_escaped {quote : Char} {g x : Glyph} (gs : List Glyph) (h : g.char = '\\') :
    closeString quote (g :: x :: gs) = closeString quote gs := by
  rw [closeString.eq_def]
  simp [h]

lemma closeString_escape_end {quote : Char} {g : Glyph} (h : g.char = '\\') :
    closeString quote [g] = none := by
  rw [closeString.eq_def]
  simp [h]

lemma closeString_cons {quote : Char} {g : Glyph} (gs : List Glyph) (h : g.char ≠ '\\') :
    closeString quote (g :: gs) =
      if g.char = '\n' ∨ g.char = quote then some (g.stop, gs) else closeString quote gs := by
  rw [closeString.eq_def]
  simp [h]

lemma closeString_window {quote : Char} {us w v : List Glyph} {p : Position} (hv : v ≠ [])
    (h : closeString quote (us ++ w) = some (p, v ++ w)) :
    closeString quote us = some (p, v) := by
  have hpos := List.length_pos_iff.2 hv
  fun_induction closeString quote us with
  | case1 =>
    have := length_closeString h
    simp only [List.nil_append, List.length_append] at this
    omega
  | case2 g hg =>
    cases w with
    | nil => cases (closeString_escape_end hg).symm.trans h
    | cons x w =>
      rw [List.cons_append, List.nil_append, closeString_escaped w hg] at h
      have := length_closeString h
      simp only [List.length_append, List.length_cons] at this
      omega
  | case3 g hg x us ih =>
    rw [List.cons_append, List.cons_append, closeString_escaped _ hg] at h
    exact ih h
  | case4 g us hg hq =>
    rw [List.cons_append, closeString_cons _ hg, if_pos hq] at h
    simpa using h
  | case5 g us hg hq ih =>
    rw [List.cons_append, closeString_cons _ hg, if_neg hq] at h
    exact ih h

lemma closeGroup_escaped {depth : Nat} {quote : Char} {last : Position} {g x : Glyph}
    (gs : List Glyph) (h : g.char = '\\') :
    closeGroup depth (some quote) last (g :: x :: gs) =
      closeGroup depth (some quote) x.stop gs := by
  rw [closeGroup.eq_def]
  simp [h]

lemma closeGroup_escape_end {depth : Nat} {quote : Char} {last : Position} {g : Glyph}
    (h : g.char = '\\') : closeGroup depth (some quote) last [g] = none := by
  rw [closeGroup.eq_def]
  simp [h]

lemma closeGroup_quoted {depth : Nat} {quote : Char} {last : Position} {g : Glyph}
    (gs : List Glyph) (h : g.char ≠ '\\') :
    closeGroup depth (some quote) last (g :: gs) =
      closeGroup depth (if g.char = '\n' ∨ g.char = quote then none else some quote) g.stop gs := by
  rw [closeGroup.eq_def]
  split_ifs <;> simp_all

lemma closeGroup_window {depth : Nat} {quote : Option Char} {us w v : List Glyph}
    {last p : Position} (hv : v ≠ [])
    (h : closeGroup depth quote last (us ++ w) = some (p, v ++ w)) :
    closeGroup depth quote last us = some (p, v) := by
  have hpos := List.length_pos_iff.2 hv
  fun_induction closeGroup depth quote last us with
  | case1 | case2 =>
    have := length_closeGroup h
    simp only [List.nil_append, List.length_append] at this
    omega
  | case3 depth last g q hg =>
    cases w with
    | nil => cases (closeGroup_escape_end hg).symm.trans h
    | cons x w =>
      rw [List.cons_append, List.nil_append, closeGroup_escaped w hg] at h
      have := length_closeGroup h
      simp only [List.length_append, List.length_cons] at this
      omega
  | case4 depth last g q hg x us ih =>
    rw [List.cons_append, List.cons_append, closeGroup_escaped _ hg] at h
    exact ih h
  | case5 depth last g us q hg hq ih =>
    rw [List.cons_append, closeGroup_quoted _ hg, if_pos hq] at h
    exact ih h
  | case6 depth last g us q hg hq ih =>
    rw [List.cons_append, closeGroup_quoted _ hg, if_neg hq] at h
    exact ih h
  | _ => all_goals simp_all [closeGroup]

/-- A lexeme after which a window goes on does not depend on where the window ends. -/
theorem lexeme_window {us w v : List Glyph} {l : Lexeme} (hv : v ≠ [])
    (h : lexeme lineComments g (us ++ w) = .ok (l, v ++ w)) :
    lexeme lineComments g us = .ok (l, v) := by
  have hpos := List.length_pos_iff.2 hv
  cases us with
  | nil =>
    have := length_lexeme h
    simp only [List.nil_append, List.length_append] at this
    omega
  | cons x us =>
    by_cases hs : g.char = '/'
    · by_cases hb : x.char = '*'
      · obtain ⟨p, hc, rfl⟩ := (lexeme_block_comment_iff hs hb).1 h
        exact (lexeme_block_comment_iff hs hb).2 ⟨p, closeComment_window hc, rfl⟩
      · by_cases hl : x.char = '/' ∧ lineComments = true
        · rw [List.cons_append, lexeme_line_comment _ hs hl.1 hl.2, Except.ok.injEq,
            Prod.mk.injEq] at h
          rw [lexeme_line_comment _ hs hl.1 hl.2, closeLineComment_window hv (Prod.ext rfl h.2),
            ← h.1]
        · rw [List.cons_append, lexeme_slash _ hs hb hl, ← List.cons_append, Except.ok.injEq,
            Prod.mk.injEq, List.append_cancel_right_eq] at h
          rw [lexeme_slash _ hs hb hl, h.1, h.2]
    · by_cases hq : isQuote g.char = true
      · obtain ⟨p, hc, rfl⟩ := (lexeme_string_iff hq).1 h
        exact (lexeme_string_iff hq).2 ⟨p, closeString_window hv hc, rfl⟩
      · by_cases hg : g.char = '('
        · obtain ⟨p, hc, rfl⟩ := (lexeme_group_iff hg).1 h
          exact (lexeme_group_iff hg).2 ⟨p, closeGroup_window hv hc, rfl⟩
        · have hp : IsPlain g.char := isPlain_iff.2 ⟨by simpa using hq, hg, hs⟩
          rw [lexeme_of_isPlain _ hp, Except.ok.injEq, Prod.mk.injEq,
            List.append_cancel_right_eq] at h
          rw [lexeme_of_isPlain _ hp, h.1, h.2]

/-- What is read before a character of a window does not depend on where the window ends. -/
theorem Reads.window {us w v gs rest : List Glyph} {ls : List Lexeme} (hv : v ≠ [])
    (h : Reads lineComments gs ls rest) (hgs : gs = us ++ w) (hrest : rest = v ++ w) :
    Reads lineComments us ls v := by
  induction h generalizing us with
  | done gs =>
    rw [hgs, List.append_cancel_right_eq] at hrest
    rw [hrest]
    exact .done v
  | @next g gs mid rest l ls first others ih =>
    obtain ⟨front, hfront⟩ := others.suffix
    obtain ⟨front', hfront'⟩ := lexeme_suffix first
    have hmid : mid = (front ++ v) ++ w := by rw [← hfront, hrest, List.append_assoc]
    have hus : us = g :: (front' ++ (front ++ v)) := by
      apply List.append_cancel_right
      rw [← hgs, ← hfront', hmid]
      simp
    subst hus
    rw [← hfront', hmid, ← List.append_assoc] at first
    exact .next (lexeme_window (by simp [hv]) first) (ih hmid hrest)

end AbbrevSite.Sheet
