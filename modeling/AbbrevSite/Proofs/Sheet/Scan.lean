import AbbrevSite.Proofs.Sheet.Flat
import AbbrevSite.Proofs.Text.Ahead
import Mathlib

/-! The scanner reads the lexemes of a text. Between statements, in preludes, in groups and after an at-sign it
meets the characters in its own way, and what comes of it is what the lexemes give one after the other. -/
namespace AbbrevSite.Sheet

variable {c c' : Cursor} {g : Glyph} {gs rest : List Glyph} {p : Position} {lineComments : Bool}

/-- A part of the scanner ends where a part of the lexer does, or fails at the end of the window. -/
def EndsAs (fault : Fault) (c : Cursor) (scanned : Except Failure Cursor) :
    Option (Position × List Glyph) → Prop
  | some (p, rest) => ∃ c', scanned = .ok c' ∧ c.MovesTo c' p rest
  | none => scanned = .error (.malformed fault.complaint c.window.stop)

lemma EndsAs.of_moves {fault : Fault} {scanned : Except Failure Cursor} {o : Option (Position × List Glyph)}
    (h : EndsAs fault c' scanned o) (hc : c.Moves c') : EndsAs fault c scanned o := by
  cases o with
  | none =>
    rw [EndsAs, ← hc.window]
    exact h
  | some read =>
    obtain ⟨c'', heq, hmoves⟩ := h
    exact ⟨c'', heq, hc.trans_movesTo hmoves⟩

lemma EndsAs.of_movesTo {fault : Fault} {scanned : Except Failure Cursor}
    (close : Position → List Glyph → Option (Position × List Glyph)) (hc : c.MovesTo c' p rest)
    (h : EndsAs fault c' scanned (close c'.position c'.ahead)) : EndsAs fault c scanned (close p rest) := by
  rw [← hc.position, ← hc.ahead]
  exact h.of_moves hc.toMoves

lemma EndsAs.of_error {fault : Fault} {failure : Failure} {o : Option (Position × List Glyph)}
    (h : EndsAs fault c (.error failure) o) : o = none ∧ failure = .malformed fault.complaint c.window.stop := by
  cases o with
  | none => exact ⟨rfl, Except.error.inj h⟩
  | some read =>
    obtain ⟨c', hok, -⟩ := h
    cases hok

lemma EndsAs.of_ok {fault : Fault} {o : Option (Position × List Glyph)} (h : EndsAs fault c (.ok c') o) :
    ∃ p rest, o = some (p, rest) ∧ c.MovesTo c' p rest := by
  cases o with
  | none => cases h
  | some read =>
    obtain ⟨_, hok, hmoves⟩ := h
    cases hok
    exact ⟨_, _, rfl, hmoves⟩

lemma endsAs_failure (fault : Fault) (hc : c.position ≤ c.window.stop) (h : c.peek? = none) :
    EndsAs fault c (.error (c.failure fault.complaint)) none := by
  rw [EndsAs, Cursor.failure, Cursor.position_of_ahead_nil hc (Cursor.ahead_of_peek?_none h)]

lemma closeComment_of_ne (h : g.char ≠ '*') : closeComment (g :: gs) = closeComment gs := by
  cases gs with
  | nil => simp [closeComment]
  | cons x gs => simp [closeComment, h]

lemma closeComment_dropWhile (gs : List Glyph) :
    closeComment (gs.dropWhile fun g => decide (g.char ≠ '*')) = closeComment gs := by
  induction gs with
  | nil => rfl
  | cons g gs ih =>
    by_cases h : g.char = '*'
    · simp [h]
    · rw [List.dropWhile_cons_of_pos (by simpa using h), ih, closeComment_of_ne h]

lemma closeComment_star (h : g.char = '*') : closeComment (g :: gs) =
    match gs with
    | [] => none
    | x :: rest => if x.char = '/' then some (x.stop, rest) else closeComment gs := by
  cases gs with
  | nil => simp [closeComment]
  | cons x gs => simp [closeComment, h]

lemma char_of_skipWhile {P : Char → Bool} (h : (c.skipWhile P).ahead = g :: gs) : P g.char = false := by
  have hhead := List.head?_dropWhile_not (fun g : Glyph => P g.char) c.ahead
  rw [← Cursor.ahead_skipWhile, h] at hhead
  exact hhead

lemma endsAs_pastBlockComment (hc : c.position ≤ c.window.stop) :
    EndsAs .openComment c (pastBlockComment c) (closeComment c.ahead) := by
  fun_induction pastBlockComment c with
  | case1 c star hnone =>
    have hstar := Cursor.movesTo_skipWhile (· ≠ '*') hc
    rw [← closeComment_dropWhile, ← hstar.ahead, Cursor.ahead_of_peek?_none hnone]
    exact (endsAs_failure .openComment hstar.within hnone).of_moves hstar.toMoves
  | case2 c star x hx hslash =>
    have hstar := Cursor.movesTo_skipWhile (· ≠ '*') hc
    obtain ⟨g, gs, hahead, rfl⟩ := Cursor.exists_ahead_of_peek? hx
    have hg : g.char = '*' := by simpa using char_of_skipWhile hahead
    have hskip := Cursor.movesTo_skip hahead
    obtain ⟨y, rest, hrest, hy⟩ := Cursor.exists_ahead_of_peek? hslash
    obtain rfl : gs = y :: rest := hskip.ahead.symm.trans hrest
    rw [← closeComment_dropWhile, ← hstar.ahead, hahead, closeComment_star hg]
    simp only [hy, if_true]
    exact ⟨_, rfl, (hstar.toMoves.trans hskip.toMoves).trans_movesTo (Cursor.movesTo_skip hrest)⟩
  | case3 c star x hx hslash ih =>
    have hstar := Cursor.movesTo_skipWhile (· ≠ '*') hc
    obtain ⟨g, gs, hahead, rfl⟩ := Cursor.exists_ahead_of_peek? hx
    have hg : g.char = '*' := by simpa using char_of_skipWhile hahead
    have hskip := Cursor.movesTo_skip hahead
    have hclose : closeComment (g :: gs) = closeComment gs := by
      rw [closeComment_star hg]
      cases gs with
      | nil => rfl
      | cons y rest =>
        rw [Cursor.peek?_of_ahead hskip.ahead, Option.some.injEq] at hslash
        simp only [if_neg hslash]
    rw [← closeComment_dropWhile, ← hstar.ahead, hahead, hclose, ← hskip.ahead]
    exact (ih hskip.within).of_moves (hstar.toMoves.trans hskip.toMoves)

lemma closeLineComment_ahead (c : Cursor) : closeLineComment c.position c.ahead =
    ((c.skipWhile (· ≠ '\n')).position, (c.skipWhile (· ≠ '\n')).ahead) := by
  generalize hP : (fun x : Char => decide (x ≠ '\n')) = P
  fun_induction Cursor.skipWhile P c with
  | case1 c h ih =>
    rw [Cursor.eat_fst] at h
    rw [Cursor.eat, if_pos h] at ih ⊢
    obtain ⟨x, hx, hne⟩ := (Option.any_eq_true _ _).1 h
    obtain ⟨g, gs, hahead, rfl⟩ := Cursor.exists_ahead_of_peek? hx
    have hskip := Cursor.movesTo_skip hahead
    subst hP
    rw [hahead, closeLineComment, if_neg (of_decide_eq_true hne), ← hskip.position, ← hskip.ahead]
    exact ih
  | case2 c h =>
    rw [Cursor.eat_fst, Bool.not_eq_true] at h
    cases hahead : c.ahead with
    | nil => rw [closeLineComment]
    | cons g gs =>
      subst hP
      rw [Cursor.peek?_of_ahead hahead] at h
      rw [closeLineComment, if_pos (by simpa using h)]

lemma skip_of_ahead_nil (h : c.ahead = []) : c.skip = c := by
  rw [Cursor.skip, if_pos (Cursor.atEnd_of_ahead_nil h)]

lemma endsAs_pastQuoted (quote : Char) (hc : c.position ≤ c.window.stop) :
    EndsAs .openString c (pastQuoted quote c) (closeString quote c.ahead) := by
  fun_induction pastQuoted quote c with
  | case1 c hnone =>
    rw [Cursor.ahead_of_peek?_none hnone, closeString]
    exact endsAs_failure .openString hc hnone
  | case2 c hx ih =>
    obtain ⟨g, gs, hahead, hg⟩ := Cursor.exists_ahead_of_peek? hx
    have hskip := Cursor.movesTo_skip hahead
    cases gs with
    | nil =>
      rw [skip_of_ahead_nil hskip.ahead, hskip.ahead, closeString] at ih
      rw [hahead, closeString_escape_end hg, skip_of_ahead_nil hskip.ahead]
      exact (ih hskip.within).of_moves hskip.toMoves
    | cons x gs =>
      have hskip' := Cursor.movesTo_skip hskip.ahead
      rw [hahead, closeString_escaped gs hg, ← hskip'.ahead]
      exact (ih hskip'.within).of_moves (hskip.toMoves.trans hskip'.toMoves)
  | case3 c x hx hne hend =>
    obtain ⟨g, gs, hahead, rfl⟩ := Cursor.exists_ahead_of_peek? hx
    rw [hahead, closeString_cons gs hne, if_pos hend]
    exact ⟨_, rfl, Cursor.movesTo_skip hahead⟩
  | case4 c x hx hne hend ih =>
    obtain ⟨g, gs, hahead, rfl⟩ := Cursor.exists_ahead_of_peek? hx
    have hskip := Cursor.movesTo_skip hahead
    rw [hahead, closeString_cons gs hne, if_neg hend, ← hskip.ahead]
    exact (ih hskip.within).of_moves hskip.toMoves

lemma endsAs_pastString (h : c.ahead = g :: gs) :
    EndsAs .openString c (pastString c) (closeString g.char gs) := by
  have hskip := Cursor.movesTo_skip h
  rw [pastString, Cursor.peek?_of_ahead h, ← hskip.ahead]
  exact (endsAs_pastQuoted g.char hskip.within).of_moves hskip.toMoves

lemma endsAs_pastGroup (depth : Nat) (hc : c.position ≤ c.window.stop) :
    EndsAs .openString c (pastGroup (depth + 1) c) (closeGroup depth none c.position c.ahead) := by
  generalize hn : depth + 1 = n
  fun_induction pastGroup n c generalizing depth with
  | case1 _ c hnone =>
    have hnil := Cursor.ahead_of_peek?_none hnone
    rw [hnil, closeGroup_nil]
    exact ⟨c, rfl, Cursor.moves_self hc, rfl, hnil⟩
  | case2 _ c x hx hq failure hs =>
    obtain ⟨g, gs, hahead, rfl⟩ := Cursor.exists_ahead_of_peek? hx
    obtain ⟨hnone, rfl⟩ := EndsAs.of_error (hs ▸ endsAs_pastString hahead)
    rw [hahead, closeGroup_quote hq, hnone]
    rfl
  | case3 _ c x hx hq c' hs ih =>
    obtain ⟨g, gs, hahead, rfl⟩ := Cursor.exists_ahead_of_peek? hx
    obtain ⟨p, rest, hsome, hmoves⟩ := EndsAs.of_ok (hs ▸ endsAs_pastString hahead)
    rw [hahead, closeGroup_quote hq, hsome]
    exact EndsAs.of_movesTo (closeGroup depth none) hmoves (ih depth hmoves.within hn)
  | case4 _ c hx hq ih =>
    obtain ⟨g, gs, hahead, hg⟩ := Cursor.exists_ahead_of_peek? hx
    have hskip := Cursor.movesTo_skip hahead
    rw [hahead, closeGroup_opening hg]
    exact EndsAs.of_movesTo (closeGroup (depth + 1) none) hskip (ih (depth + 1) hskip.within (by omega))
  | case5 _ c hzero hx _ =>
    obtain ⟨g, gs, hahead, hg⟩ := Cursor.exists_ahead_of_peek? hx
    obtain rfl : depth = 0 := by omega
    rw [hahead, closeGroup_closing_zero hg]
    exact ⟨_, rfl, Cursor.movesTo_skip hahead⟩
  | case6 _ c hzero hx _ _ ih =>
    obtain ⟨g, gs, hahead, hg⟩ := Cursor.exists_ahead_of_peek? hx
    obtain ⟨depth, rfl⟩ : ∃ m, depth = m + 1 := ⟨depth - 1, by omega⟩
    have hskip := Cursor.movesTo_skip hahead
    rw [hahead, closeGroup_closing_succ hg]
    exact EndsAs.of_movesTo (closeGroup depth none) hskip (ih depth hskip.within (by omega))
  | case7 _ c x hx hq ho hcl ih =>
    obtain ⟨g, gs, hahead, rfl⟩ := Cursor.exists_ahead_of_peek? hx
    have hskip := Cursor.movesTo_skip hahead
    rw [hahead, closeGroup_other (by simpa using hq) ho hcl]
    exact EndsAs.of_movesTo (closeGroup depth none) hskip (ih depth hskip.within hn)

/-- A part of the scanner ends where the lexeme does that the cursor stands before, or fails for the same fault. -/
def ScansLexeme (c : Cursor) (scanned : Except Failure Cursor) :
    Except Fault (Lexeme × List Glyph) → Prop
  | .ok (l, rest) => ∃ c', scanned = .ok c' ∧ c.MovesTo c' l.stop rest
  | .error fault => scanned = .error (.malformed fault.complaint c.window.stop)

def lexemeTo (shape : Shape) (start : Position) (fault : Fault) :
    Option (Position × List Glyph) → Except Fault (Lexeme × List Glyph)
  | some (p, rest) => .ok (⟨shape, start, p⟩, rest)
  | none => .error fault

lemma EndsAs.scansLexeme {fault : Fault} {scanned : Except Failure Cursor} {o : Option (Position × List Glyph)}
    (shape : Shape) (start : Position) (h : EndsAs fault c scanned o) :
    ScansLexeme c scanned (lexemeTo shape start fault o) := by
  cases o <;> exact h

lemma lexeme_eq_blockComment {x : Glyph} (hg : g.char = '/') (hx : x.char = '*') :
    lexeme lineComments g (x :: gs) = lexemeTo .comment g.start .openComment (closeComment gs) := by
  rcases h : closeComment gs with _ | ⟨p, rest⟩ <;> simp [lexeme, hg, hx, h, lexemeTo]

lemma lexeme_eq_string (hq : isQuote g.char = true) :
    lexeme lineComments g gs = lexemeTo .string g.start .openString (closeString g.char gs) := by
  have hs : g.char ≠ '/' := fun hs => by simp [isQuote, hs] at hq
  rcases h : closeString g.char gs with _ | ⟨p, rest⟩ <;> simp [lexeme, hs, hq, h, lexemeTo]

lemma lexeme_eq_group (hg : g.char = '(') :
    lexeme lineComments g gs = lexemeTo .group g.start .openString (closeGroup 0 none g.stop gs) := by
  rcases h : closeGroup 0 none g.stop gs with _ | ⟨p, rest⟩ <;> simp [lexeme, hg, isQuote, h, lexemeTo]

lemma atComment_iff (h : c.ahead = g :: gs) : atComment lineComments c = true ↔
    g.char = '/' ∧ ∃ x hs, gs = x :: hs ∧ (x.char = '*' ∨ x.char = '/' ∧ lineComments = true) := by
  rw [atComment, Cursor.peek?_of_ahead h, Cursor.peek?_eq c.skip, (Cursor.movesTo_skip h).ahead]
  cases gs with
  | nil => simp
  | cons x gs =>
    simp only [Option.some.injEq, List.head?_cons, Option.map_some, Bool.and_eq_true, decide_eq_true_eq,
      List.cons.injEq]
    refine and_congr_right fun _ => ⟨fun hx => ⟨x, gs, ⟨rfl, rfl⟩, ?_⟩, ?_⟩
    · split at hx
      · exact .inl (Option.some.inj ‹_›)
      · exact .inr ⟨Option.some.inj ‹_›, hx⟩
      · cases hx
    · rintro ⟨_, _, ⟨rfl, rfl⟩, hx | ⟨hx, hl⟩⟩
      · rw [hx]
        rfl
      · rw [hx]
        exact hl

lemma scansLexeme_comment (h : c.ahead = g :: gs) (hat : atComment lineComments c = true) :
    ScansLexeme c (pastComment c) (lexeme lineComments g gs) := by
  obtain ⟨hg, x, hs, rfl, hx⟩ := (atComment_iff h).1 hat
  have hskip := Cursor.movesTo_skip h
  have hskip' := Cursor.movesTo_skip hskip.ahead
  have hmoves := hskip.toMoves.trans hskip'.toMoves
  rw [pastComment, Cursor.peek?_of_ahead hskip.ahead]
  rcases hx with hx | ⟨hx, hl⟩
  · rw [lexeme_eq_blockComment hg hx, hx, if_neg (by decide), ← hskip'.ahead]
    exact ((endsAs_pastBlockComment hskip'.within).of_moves hmoves).scansLexeme .comment g.start
  · rw [lexeme_line_comment hs hg hx hl, ← hskip'.position, ← hskip'.ahead, closeLineComment_ahead, hx]
    exact ⟨_, rfl, hmoves.trans_movesTo ⟨(Cursor.movesTo_skipWhile _ hskip'.within).toMoves, rfl, rfl⟩⟩

lemma pastGroup_opening (h : c.ahead = g :: gs) (hg : g.char = '(') (depth : Nat) :
    pastGroup depth c = pastGroup (depth + 1) c.skip := by
  rw [pastGroup.eq_def]
  split
  · rename_i hnone
    cases (Cursor.peek?_of_ahead h).symm.trans hnone
  · rename_i x hx
    obtain rfl : g.char = x := Option.some.inj ((Cursor.peek?_of_ahead h).symm.trans hx)
    simp [hg, isQuote]

lemma scansLexeme_significant (h : c.ahead = g :: gs) (hat : ¬ atComment lineComments c = true) :
    ScansLexeme c (pastSignificant c) (lexeme lineComments g gs) := by
  have hskip := Cursor.movesTo_skip h
  rw [pastSignificant, Cursor.peek?_of_ahead h]
  by_cases hq : isQuote g.char = true
  · simp only [hq, if_true]
    rw [lexeme_eq_string hq]
    exact (endsAs_pastString h).scansLexeme .string g.start
  · by_cases hg : g.char = '('
    · simp only [hg, if_true]
      rw [lexeme_eq_group hg, pastGroup_opening h hg, ← hskip.position, ← hskip.ahead]
      exact ((endsAs_pastGroup 0 hskip.within).of_moves hskip.toMoves).scansLexeme .group g.start
    · simp only [hq, hg, if_false]
      rw [lexeme_char (by simpa using hq) hg fun hs => hat ((atComment_iff h).2 (startsComment_iff.1 hs))]
      exact ⟨_, rfl, hskip⟩

lemma shape_of_atComment {l : Lexeme} (h : c.ahead = g :: gs) (hat : atComment lineComments c = true)
    (hl : lexeme lineComments g gs = .ok (l, rest)) : l.shape = .comment := by
  obtain ⟨hg, x, hs, rfl, hx | ⟨hx, hline⟩⟩ := (atComment_iff h).1 hat
  · obtain ⟨p, -, rfl⟩ := (lexeme_block_comment_iff hg hx).1 hl
    rfl
  · rw [lexeme_line_comment hs hg hx hline] at hl
    cases hl
    rfl

lemma shape_of_not_atComment {l : Lexeme} (h : c.ahead = g :: gs) (hat : ¬ atComment lineComments c = true)
    (hl : lexeme lineComments g gs = .ok (l, rest)) :
    l.shape = .string ∨ l.shape = .group ∨ l.shape = .char g.char := by
  cases lexemeAt_of_lexeme hl with
  | char => exact .inr (.inr rfl)
  | blockComment slash star _ => exact absurd ((atComment_iff h).2 ⟨slash, _, _, rfl, .inl star⟩) hat
  | lineComment slash slash' allowed =>
    exact absurd ((atComment_iff h).2 ⟨slash, _, _, rfl, .inr ⟨slash', allowed⟩⟩) hat
  | string => exact .inl rfl
  | group => exact .inr (.inl rfl)

namespace Reading

variable {r s : Reading} {l : Lexeme} {b : Builder} {comments comments' : List Span} {q q' : Prelude}
  {failure : Failure}

def readAhead (lineComments : Bool) (r : Reading) (c : Cursor) : Except Failure Tree :=
  r.readLexemes lineComments c.document c.window c.window.stop c.ahead

lemma readAhead_of_moves (h : c.Moves c') :
    r.readLexemes lineComments c.document c.window c.window.stop c'.ahead = readAhead lineComments r c' := by
  rw [readAhead, h.document, h.window]

lemma readAhead_of_step (h : c.ahead = g :: gs) (hl : lexeme lineComments g gs = .ok (l, c'.ahead))
    (hc : c.Moves c') (hs : r.step c.document l = .ok s) :
    readAhead lineComments r c = readAhead lineComments s c' := by
  rw [← readAhead_of_moves hc, readAhead, h, readLexemes_of_step hl hs]

lemma readAhead_char (h : c.ahead = g :: gs) (hl : lexeme lineComments g gs = .ok (.ofGlyph g, gs))
    (hs : r.step c.document (.ofGlyph g) = .ok s) :
    readAhead lineComments r c = readAhead lineComments s c.skip := by
  have hskip := Cursor.movesTo_skip h
  exact readAhead_of_step h (by rw [hl, hskip.ahead]) hskip.toMoves hs

lemma readAhead_of_fault {fault : Fault} (h : c.ahead = g :: gs)
    (hl : lexeme lineComments g gs = .error fault) :
    readAhead lineComments r c = .error (.malformed fault.complaint c.window.stop) := by
  rw [readAhead, h, readLexemes_fault hl]

lemma readAhead_nil (hc : c.position ≤ c.window.stop) (h : c.ahead = []) :
    readAhead lineComments r c = .ok (r.finish c.document c.window c.position) := by
  rw [readAhead, h, readLexemes_nil, Cursor.position_of_ahead_nil hc h]

/-- A part of the scanner that passes over one lexeme does what the lexeme does, or fails as it does. -/
lemma readAhead_of_scansLexeme {scanned : Except Failure Cursor} {next : Lexeme → Reading}
    (h : c.ahead = g :: gs) (hscan : ScansLexeme c scanned (lexeme lineComments g gs))
    (hs : ∀ l rest, lexeme lineComments g gs = .ok (l, rest) → r.step c.document l = .ok (next l)) :
    (∀ c', scanned = .ok c' → c.Moves c' ∧ ∃ l rest, lexeme lineComments g gs = .ok (l, rest) ∧
      l.stop = c'.position ∧ readAhead lineComments r c = readAhead lineComments (next l) c') ∧
    ∀ failure, scanned = .error failure → readAhead lineComments r c = .error failure := by
  cases hl : lexeme lineComments g gs with
  | error fault =>
    rw [hl] at hscan
    have hscan : scanned = .error _ := hscan
    refine ⟨fun c' h' => ?_, fun failure h' => ?_⟩
    · cases hscan.symm.trans h'
    · cases hscan.symm.trans h'
      exact readAhead_of_fault h hl
  | ok read =>
    obtain ⟨l, rest⟩ := read
    rw [hl] at hscan
    obtain ⟨c'', hok, hmoves⟩ := hscan
    refine ⟨fun c' h' => ?_, fun failure h' => ?_⟩
    · cases hok.symm.trans h'
      exact ⟨hmoves.toMoves, l, rest, rfl, hmoves.position.symm,
        readAhead_of_step h (hl.trans (by rw [hmoves.ahead])) hmoves.toMoves (hs l rest hl)⟩
    · cases hok.symm.trans h'

lemma step_comment {d : Document} (hl : l.shape = .comment) :
    r.step d l = .ok { r with
      comments := .between l.start l.stop :: r.comments
      prelude := r.prelude.map (·.add l) } := by
  rw [step, hl]

lemma step_of_not_isDelimiter {d : Document} {x : Char} (hx : ¬ IsDelimiter x)
    (hl : l.shape = .string ∨ l.shape = .group ∨ l.shape = .char x) : r.step d l = .ok (r.addToPrelude l) := by
  rcases hl with hl | hl | hl
  · rw [step, hl]
  · rw [step, hl]
  · rw [step, hl]
    split <;> simp_all [IsDelimiter]

lemma readAhead_pastComment {o : Option Prelude} (h : c.ahead = g :: gs)
    (hat : atComment lineComments c = true) (ho : ∀ q ∈ o, q.inAtName = false) :
    (∀ c', pastComment c = .ok c' → c.Moves c' ∧
      readAhead lineComments ⟨b, comments, o⟩ c =
        readAhead lineComments ⟨b, .between c.position c'.position :: comments, o⟩ c') ∧
    ∀ failure, pastComment c = .error failure →
      readAhead lineComments ⟨b, comments, o⟩ c = .error failure := by
  have hstep : ∀ l rest, lexeme lineComments g gs = .ok (l, rest) →
      step c.document ⟨b, comments, o⟩ l = .ok ⟨b, .between l.start l.stop :: comments, o⟩ := by
    intro l rest hl
    have hshape := shape_of_atComment h hat hl
    have hadd : o.map (·.add l) = o := by
      cases o with
      | none => rfl
      | some q =>
        have hq := ho q rfl
        simp only [Option.map_some, Prelude.add, hshape, ← hq]
    rw [step_comment hshape, hadd]
  obtain ⟨hok, herror⟩ := readAhead_of_scansLexeme h (scansLexeme_comment h hat) hstep
  refine ⟨fun c' hc' => ?_, herror⟩
  obtain ⟨hmoves, l, rest, hl, hstop, heq⟩ := hok c' hc'
  rw [lexeme_start hl, Cursor.start_of_ahead h, hstop] at heq
  exact ⟨hmoves, heq⟩

lemma readAhead_blanks (hc : c.position ≤ c.window.stop) : readAhead lineComments ⟨b, comments, none⟩ c =
    readAhead lineComments ⟨b, comments, none⟩ (c.skipWhile CharClass.isBlank) := by
  fun_induction Cursor.skipWhile CharClass.isBlank c with
  | case1 c h ih =>
    rw [Cursor.eat_fst] at h
    rw [Cursor.eat, if_pos h] at ih ⊢
    obtain ⟨x, hx, hblank⟩ := (Option.any_eq_true _ _).1 h
    obtain ⟨g, gs, hahead, rfl⟩ := Cursor.exists_ahead_of_peek? hx
    have hskip := Cursor.movesTo_skip hahead
    have hplain := isPlain_of_isBlank hblank
    have hstep : step c.document ⟨b, comments, none⟩ (.ofGlyph g) = .ok ⟨b, comments, none⟩ := by
      rw [step_of_not_isDelimiter hplain.2 (.inr (.inr rfl))]
      simp [addToPrelude, Lexeme.ofGlyph, hblank]
    rw [← ih hskip.within]
    exact readAhead_char hahead (lexeme_of_isPlain gs hplain.1) hstep
  | case2 c h => rfl

lemma readAhead_pastBlanks (hc : c.position ≤ c.window.stop) :
    (∀ comments' c', pastBlanks lineComments comments c = .ok (comments', c') → c.Moves c' ∧
      atComment lineComments c' = false ∧ c'.peek?.any CharClass.isBlank = false ∧
      readAhead lineComments ⟨b, comments, none⟩ c = readAhead lineComments ⟨b, comments', none⟩ c') ∧
    ∀ failure, pastBlanks lineComments comments c = .error failure →
      readAhead lineComments ⟨b, comments, none⟩ c = .error failure := by
  fun_induction pastBlanks lineComments comments c with
  | case1 comments c c' hat failure hcomment =>
    have hmoves := (Cursor.movesTo_skipWhile CharClass.isBlank hc).toMoves
    obtain ⟨g, gs, hahead, -⟩ := Cursor.exists_ahead_of_peek? (peek?_of_atComment hat)
    refine ⟨fun _ _ h => (by cases h), fun failure' h => ?_⟩
    cases h
    rw [readAhead_blanks hc]
    exact (readAhead_pastComment hahead hat (by simp)).2 _ hcomment
  | case2 comments c c' hat c'' hcomment ih =>
    have hmoves := (Cursor.movesTo_skipWhile CharClass.isBlank hc).toMoves
    obtain ⟨g, gs, hahead, -⟩ := Cursor.exists_ahead_of_peek? (peek?_of_atComment hat)
    obtain ⟨hmoves', heq⟩ := (readAhead_pastComment (b := b) (o := none) hahead hat (by simp)).1 _ hcomment
    obtain ⟨hok, herror⟩ := ih hmoves'.within
    rw [readAhead_blanks hc, heq]
    refine ⟨fun comments' e h => ?_, herror⟩
    obtain ⟨hmoves'', hrest⟩ := hok comments' e h
    exact ⟨(hmoves.trans hmoves').trans hmoves'', hrest⟩
  | case3 comments c c' hat =>
    have hmoves := (Cursor.movesTo_skipWhile CharClass.isBlank hc).toMoves
    refine ⟨fun comments' c'' h => ?_, fun _ h => (by cases h)⟩
    simp only [Except.ok.injEq, Prod.mk.injEq] at h
    obtain ⟨rfl, rfl⟩ := h
    refine ⟨hmoves, by simpa using hat, ?_, readAhead_blanks hc⟩
    cases hpeek : c'.peek? with
    | none => rfl
    | some x =>
      obtain ⟨g, gs, hahead, rfl⟩ := Cursor.exists_ahead_of_peek? hpeek
      exact char_of_skipWhile hahead

lemma step_prelude {d : Document} {x : Char} (hx : ¬ IsDelimiter x)
    (hl : l.shape = .string ∨ l.shape = .group ∨ l.shape = .char x) :
    step d ⟨b, comments, some q⟩ l = .ok ⟨b, comments, some (q.add l)⟩ := by
  rw [step_of_not_isDelimiter hx hl, addToPrelude_of_some rfl]

lemma add_blank {x : Char} (hq : q.inAtName = false) (hl : l.shape = .char x)
    (hx : CharClass.isBlank x = true) : q.add l = q := by
  simp only [Prelude.add, hl, hq, hx, Bool.false_and, Bool.false_eq_true, if_false, if_true]
  rw [← hq]

lemma add_colon (hq : q.inAtName = false) (hl : l.shape = .char ':') (hcolon : q.colon = none) :
    q.add l = { q with
      stop := l.stop
      first := q.first.or (some l.start)
      colon := some l.start
      nameStop := some q.stop } := by
  have hblank : CharClass.isBlank ':' = false := by decide
  simp only [Prelude.add, hl, hq, hblank, hcolon, Bool.false_and, Bool.false_eq_true, if_false, and_self,
    if_true, Prelude.addColon]

lemma add_significant {x : Char} (hq : q.inAtName = false)
    (hl : l.shape = .string ∨ l.shape = .group ∨ l.shape = .char x) (hx : ¬ CharClass.isBlank x = true)
    (hcolon : ¬ (x = ':' ∧ q.colon = none)) :
    q.add l = { q with
      stop := l.stop
      first := q.first.or (some l.start)
      valueStart := if q.colon.isSome then q.valueStart.or (some l.start) else q.valueStart } := by
  rcases hl with hl | hl | hl
  · simp only [Prelude.add, hl, Prelude.addPlain, hq]
  · simp only [Prelude.add, hl, Prelude.addPlain, hq]
  · simp only [Prelude.add, hl, hq, hx, hcolon, Bool.false_and, Bool.false_eq_true, if_false, Prelude.addPlain]

/-- The lexemes of a prelude amount to what a scan of it finds and to the lexemes after it. -/
def ScansPrelude (lineComments : Bool) (b : Builder) (before : Except Failure Tree) (c : Cursor)
    (scanned : Except Failure (Prelude × List Span × Cursor)) : Prop :=
  (∀ q comments c', scanned = .ok (q, comments, c') → c.Moves c' ∧
    c'.peek?.all (IsDelimiter ·) = true ∧ before = readAhead lineComments ⟨b, comments, some q⟩ c') ∧
  ∀ failure, scanned = .error failure → before = .error failure

lemma ScansPrelude.of_moves {before : Except Failure Tree}
    {scanned : Except Failure (Prelude × List Span × Cursor)}
    (h : ScansPrelude lineComments b before c' scanned) (hc : c.Moves c') :
    ScansPrelude lineComments b before c scanned := by
  refine ⟨fun q comments c'' hok => ?_, h.2⟩
  obtain ⟨hmoves, hrest⟩ := h.1 q comments c'' hok
  exact ⟨hc.trans hmoves, hrest⟩

lemma scansPrelude_end (hc : c.position ≤ c.window.stop) (hends : c.peek?.all (IsDelimiter ·) = true) :
    ScansPrelude lineComments b (readAhead lineComments ⟨b, comments, some q⟩ c) c (.ok (q, comments, c)) := by
  refine ⟨fun q' comments' c' h => ?_, fun _ h => (by cases h)⟩
  cases h
  exact ⟨Cursor.moves_self hc, hends, rfl⟩

lemma scansPrelude_scanPreludeOn (hq : q.inAtName = false) (hc : c.position ≤ c.window.stop) :
    ScansPrelude lineComments b (readAhead lineComments ⟨b, comments, some q⟩ c) c
      (scanPreludeOn lineComments comments q c) := by
  fun_induction scanPreludeOn lineComments comments q c with
  | case1 comments q c hnone => exact scansPrelude_end hc (by rw [hnone]; rfl)
  | case2 comments q c x hx hends => exact scansPrelude_end hc (by rw [hx]; exact decide_eq_true hends)
  | case3 comments q c x hx hends hat failure hcomment =>
    obtain ⟨g, gs, hahead, -⟩ := Cursor.exists_ahead_of_peek? hx
    refine ⟨fun _ _ _ h => (by cases h), fun failure' h => ?_⟩
    cases h
    exact (readAhead_pastComment hahead hat (by simpa using hq)).2 _ hcomment
  | case4 comments q c x hx hends hat c' hcomment ih =>
    obtain ⟨g, gs, hahead, -⟩ := Cursor.exists_ahead_of_peek? hx
    obtain ⟨hmoves, heq⟩ := (readAhead_pastComment (o := some q) hahead hat (by simpa using hq)).1 _ hcomment
    rw [heq]
    exact (ih hq hmoves.within).of_moves hmoves
  | case5 comments q c x hx hends hat hblank ih =>
    obtain ⟨g, gs, hahead, rfl⟩ := Cursor.exists_ahead_of_peek? hx
    have hskip := Cursor.movesTo_skip hahead
    have hstep : step c.document ⟨b, comments, some q⟩ (.ofGlyph g) = .ok ⟨b, comments, some q⟩ := by
      rw [step_prelude hends (.inr (.inr rfl)), add_blank hq rfl hblank]
    rw [readAhead_char hahead (lexeme_of_isPlain gs (isPlain_of_isBlank hblank).1) hstep]
    exact (ih hq hskip.within).of_moves hskip.toMoves
  | case6 comments q c x hx hends hat hblank hcolon ih =>
    obtain ⟨g, gs, hahead, rfl⟩ := Cursor.exists_ahead_of_peek? hx
    have hskip := Cursor.movesTo_skip hahead
    have hplain : IsPlain g.char := by
      rw [hcolon.1]
      decide
    have hstep : step c.document ⟨b, comments, some q⟩ (.ofGlyph g) =
        .ok ⟨b, comments, some (q.add (.ofGlyph g))⟩ := step_prelude hends (.inr (.inr rfl))
    rw [add_colon hq (congrArg Shape.char hcolon.1) hcolon.2] at hstep
    rw [readAhead_char hahead (lexeme_of_isPlain gs hplain) hstep]
    simp only [Lexeme.ofGlyph, Cursor.start_of_ahead hahead, ← hskip.position]
    exact (ih hq hskip.within).of_moves hskip.toMoves
  | case7 comments q c x hx hends hat hblank hcolon failure hsig =>
    obtain ⟨g, gs, hahead, rfl⟩ := Cursor.exists_ahead_of_peek? hx
    refine ⟨fun _ _ _ h => (by cases h), fun failure' h => ?_⟩
    cases h
    exact (readAhead_of_scansLexeme hahead (scansLexeme_significant hahead hat) fun l rest hl =>
      step_prelude hends (shape_of_not_atComment hahead hat hl)).2 _ hsig
  | case8 comments q c x hx hends hat hblank hcolon c' hsig ih =>
    obtain ⟨g, gs, hahead, rfl⟩ := Cursor.exists_ahead_of_peek? hx
    obtain ⟨hmoves, l, rest, hl, hstop, heq⟩ :=
      (readAhead_of_scansLexeme hahead (scansLexeme_significant hahead hat) fun l rest hl =>
        step_prelude hends (shape_of_not_atComment hahead hat hl)).1 _ hsig
    rw [add_significant hq (shape_of_not_atComment hahead hat hl) hblank hcolon, lexeme_start hl,
      Cursor.start_of_ahead hahead, hstop] at heq
    rw [heq]
    exact (ih hq hmoves.within).of_moves hmoves

lemma readAhead_congr (h : c.ahead = g :: gs)
    (hs : ∀ l rest, lexeme lineComments g gs = .ok (l, rest) → r.step c.document l = s.step c.document l) :
    readAhead lineComments r c = readAhead lineComments s c := by
  cases hl : lexeme lineComments g gs with
  | error fault => rw [readAhead_of_fault h hl, readAhead_of_fault h hl]
  | ok read =>
    obtain ⟨l, rest⟩ := read
    rw [readAhead, readAhead, h, readLexemes_cons hl, readLexemes_cons hl, hs l rest hl]

/-- The character that starts a statement starts its prelude. -/
lemma readAhead_startAt (h : c.ahead = g :: gs) (hat : ¬ atComment lineComments c = true)
    (hblank : CharClass.isBlank g.char = false) (hsign : g.char ≠ '@') (hclosing : g.char ≠ '}')
    (hsemicolon : g.char ≠ ';') :
    readAhead lineComments ⟨b, comments, none⟩ c =
      readAhead lineComments ⟨b, comments, some (.startAt c.position)⟩ c := by
  refine readAhead_congr h fun l rest hl => ?_
  have hstart : c.position = l.start := by rw [lexeme_start hl, Cursor.start_of_ahead h]
  have hshape := shape_of_not_atComment h hat hl
  rw [hstart]
  by_cases hopening : g.char = '{'
  · have hplain : IsPlain g.char := by
      rw [hopening]
      decide
    rw [lexeme_of_isPlain gs hplain] at hl
    cases hl
    simp only [step, Lexeme.ofGlyph, hopening]
    rfl
  · have hdel : ¬ IsDelimiter g.char := by
      rintro (h | h | h) <;> contradiction
    rw [step_prelude hdel hshape, step_of_not_isDelimiter hdel hshape]
    have hfirst : l.shape ≠ .char '@' := by
      intro hs
      rcases hshape with h | h | h <;> rw [hs] at h
      · cases h
      · cases h
      · exact hsign (Shape.char.inj h).symm
    have hadd : (Prelude.startAt l.start).add l = .ofFirst l := by rw [Prelude.ofFirst, if_neg hfirst]
    rw [hadd, addToPrelude]
    rcases hshape with hs | hs | hs <;> simp [hs, hblank]

/-- An at-name ends at the first character that cannot belong to it. -/
lemma readAhead_leaveAtName (h : c.peek?.any isAtNameChar = false) :
    readAhead lineComments ⟨b, comments, some q⟩ c =
      readAhead lineComments ⟨b, comments, some { q with inAtName := false }⟩ c := by
  cases hahead : c.ahead with
  | nil =>
    rw [readAhead, readAhead, hahead, readLexemes_nil, readLexemes_nil]
    rfl
  | cons g gs =>
    rw [Cursor.peek?_of_ahead hahead, Option.any_some] at h
    refine readAhead_congr hahead fun l rest hl => ?_
    have hadd : q.add l = { q with inAtName := false : Prelude }.add l := by
      cases lexemeAt_of_lexeme hl with
      | char =>
        simp only [Prelude.add, Lexeme.ofGlyph, h, Bool.and_false, Bool.false_eq_true, if_false]
        rfl
      | blockComment | lineComment | string | group => rfl
    rw [step, step]
    split
    · simp only [Option.map_some, hadd]
    · rfl
    · rfl
    · rfl
    · rw [addToPrelude_of_some rfl, addToPrelude_of_some rfl, hadd]

lemma readAhead_atName (hq : q.inAtName = true) (hstop : q.stop = c.position)
    (hat : q.atStop = some c.position) (hc : c.position ≤ c.window.stop) :
    readAhead lineComments ⟨b, comments, some q⟩ c =
      readAhead lineComments
        ⟨b, comments, some { q with
          stop := (c.skipWhile isAtNameChar).position
          atStop := some (c.skipWhile isAtNameChar).position
          inAtName := false }⟩
        (c.skipWhile isAtNameChar) := by
  fun_induction Cursor.skipWhile isAtNameChar c generalizing q with
  | case1 c h ih =>
    rw [Cursor.eat_fst] at h
    rw [Cursor.eat, if_pos h] at ih ⊢
    obtain ⟨x, hx, hname⟩ := (Option.any_eq_true _ _).1 h
    obtain ⟨g, gs, hahead, rfl⟩ := Cursor.exists_ahead_of_peek? hx
    have hskip := Cursor.movesTo_skip hahead
    obtain ⟨hplain, hdel⟩ := isPlain_of_isAtNameChar hname
    have hadd : q.add (.ofGlyph g) = { q with stop := g.stop, atStop := some g.stop } := by
      simp only [Prelude.add, Lexeme.ofGlyph, hq, hname, Bool.and_self, if_true]
    have hstep : step c.document ⟨b, comments, some q⟩ (.ofGlyph g) =
        .ok ⟨b, comments, some (q.add (.ofGlyph g))⟩ := step_prelude hdel (.inr (.inr rfl))
    rw [hadd] at hstep
    rw [readAhead_char hahead (lexeme_of_isPlain gs hplain) hstep]
    exact ih (q := { q with stop := g.stop, atStop := some g.stop }) hq hskip.position.symm
      (congrArg some hskip.position.symm) hskip.within
  | case2 c h =>
    rw [Cursor.eat_fst, Bool.not_eq_true] at h
    rw [readAhead_leaveAtName h, ← hat, ← hstop]

lemma scansPrelude_scanPrelude (h : c.ahead = g :: gs) (hc : c.position ≤ c.window.stop)
    (hat : ¬ atComment lineComments c = true) (hblank : CharClass.isBlank g.char = false)
    (hclosing : g.char ≠ '}') (hsemicolon : g.char ≠ ';') :
    ScansPrelude lineComments b (readAhead lineComments ⟨b, comments, none⟩ c) c
      (scanPrelude lineComments comments c) := by
  rw [scanPrelude, Cursor.peek?_of_ahead h]
  by_cases hsign : g.char = '@'
  · have hskip := Cursor.movesTo_skip h
    have hname := Cursor.movesTo_skipWhile isAtNameChar hskip.within
    have hplain : IsPlain g.char ∧ ¬ IsDelimiter g.char := by
      rw [hsign]
      decide
    have hstep : step c.document ⟨b, comments, none⟩ (.ofGlyph g) =
        .ok ⟨b, comments, some { Prelude.startAt c.position with
          stop := c.skip.position, atStop := some c.skip.position, inAtName := true }⟩ := by
      rw [step_of_not_isDelimiter hplain.2 (.inr (.inr rfl)), ← Cursor.start_of_ahead h, hskip.position]
      rw [hsign] at hblank
      simp [addToPrelude, Lexeme.ofGlyph, hblank, Prelude.ofFirst, hsign]
    rw [readAhead_char h (lexeme_of_isPlain gs hplain.1) hstep, readAhead_atName rfl rfl rfl hskip.within,
      hsign, if_pos rfl]
    exact (scansPrelude_scanPreludeOn rfl hname.within).of_moves (hskip.toMoves.trans hname.toMoves)
  · rw [readAhead_startAt h hat hblank hsign hclosing hsemicolon, if_neg (by simpa using hsign)]
    exact scansPrelude_scanPreludeOn rfl hc

lemma readAhead_endStatement (hc : c.position ≤ c.window.stop)
    (h : c.peek?.all (· = '}') = true) :
    readAhead lineComments r c = readAhead lineComments (r.endStatement c.document none) c := by
  have hend := endStatement_of_none (d := c.document) (endStatement_prelude c.document r none) none
  cases hahead : c.ahead with
  | nil =>
    rw [readAhead_nil hc hahead, readAhead_nil hc hahead]
    simp only [finish, hend]
  | cons g gs =>
    rw [Cursor.peek?_of_ahead hahead, Option.all_some, decide_eq_true_eq] at h
    refine readAhead_congr hahead fun l rest hl => ?_
    have hplain : IsPlain g.char := by
      rw [h]
      decide
    rw [lexeme_of_isPlain gs hplain] at hl
    cases hl
    simp only [step, Lexeme.ofGlyph, h, closeBlock, hend]

lemma charLexeme_of_ahead (h : c.ahead = g :: gs) : charLexeme g.char c = .ofGlyph g := by
  rw [charLexeme, Lexeme.ofGlyph, ← Cursor.start_of_ahead h, (Cursor.movesTo_skip h).position]

lemma readAhead_delimiter (lineComments : Bool) {x : Char} (hx : c.peek? = some x) (hplain : IsPlain x)
    (hs : r.step c.document (charLexeme x c) = .ok s) :
    readAhead lineComments r c = readAhead lineComments s c.skip ∧ c.Moves c.skip := by
  obtain ⟨g, gs, hahead, rfl⟩ := Cursor.exists_ahead_of_peek? hx
  rw [charLexeme_of_ahead hahead] at hs
  exact ⟨readAhead_char hahead (lexeme_of_isPlain gs hplain) hs, (Cursor.movesTo_skip hahead).toMoves⟩

lemma readAhead_strayBrace (hx : c.peek? = some '}')
    (hs : r.step c.document (charLexeme '}' c) = .error failure) :
    readAhead lineComments r c = .error failure := by
  obtain ⟨g, gs, hahead, hg⟩ := Cursor.exists_ahead_of_peek? hx
  have hplain : IsPlain g.char := by
    rw [hg]
    decide
  rw [← hg, charLexeme_of_ahead hahead] at hs
  rw [readAhead, hahead, readLexemes_cons (lexeme_of_isPlain gs hplain), hs]
  rfl

lemma prelude_of_closeBlock {d : Document} (h : r.closeBlock d l = .ok s) : s.prelude = none := by
  simp only [closeBlock] at h
  split at h
  · cases h
  · cases h
    exact endStatement_prelude d r none

lemma moves_pastBlanks (hr : r.prelude = none) (hc : c.position ≤ c.window.stop)
    (hb : pastBlanks lineComments r.comments c = .ok (comments, c')) : c.Moves c' ∧
      readAhead lineComments r c = readAhead lineComments { r with comments } c' := by
  obtain ⟨hmoves, -, -, heq⟩ := (readAhead_pastBlanks (b := r.builder) hc).1 comments c' hb
  rw [← hr] at heq
  exact ⟨hmoves, heq⟩

lemma scansPrelude_afterBlanks {x : Char} (hr : r.prelude = none) (hc : c.position ≤ c.window.stop)
    (hb : pastBlanks lineComments r.comments c = .ok (comments, c')) (hx : c'.peek? = some x)
    (hclosing : x ≠ '}') (hsemicolon : x ≠ ';') :
    ScansPrelude lineComments r.builder (readAhead lineComments r c) c
      (scanPrelude lineComments comments c') := by
  obtain ⟨hmoves, hat, hblank, heq⟩ := (readAhead_pastBlanks (b := r.builder) hc).1 comments c' hb
  obtain ⟨g, gs, hahead, rfl⟩ := Cursor.exists_ahead_of_peek? hx
  rw [hx, Option.any_some] at hblank
  rw [← hr] at heq
  rw [heq, hr]
  exact (scansPrelude_scanPrelude hahead hmoves.within (by simpa using hat) hblank hclosing
    hsemicolon).of_moves hmoves

/-- The statements from a cursor on are read as the lexemes ahead of it. -/
theorem readStatements_eq (hr : r.prelude = none) (hc : c.position ≤ c.window.stop) :
    readStatements lineComments r c = readAhead lineComments r c := by
  fun_induction readStatements lineComments r c with
  | case1 r c failure hb =>
    have heq := (readAhead_pastBlanks (b := r.builder) hc).2 failure hb
    rw [← hr] at heq
    exact heq.symm
  | case2 r c comments c' hb r' hnone =>
    obtain ⟨hmoves, heq⟩ := moves_pastBlanks hr hc hb
    rw [heq, readAhead_nil hmoves.within (Cursor.ahead_of_peek?_none hnone), hmoves.document, hmoves.window]
  | case3 r c comments c' hb r' failure hclose hx =>
    obtain ⟨hmoves, heq⟩ := moves_pastBlanks hr hc hb
    rw [← hmoves.document] at hclose
    rw [heq]
    exact (readAhead_strayBrace hx hclose).symm
  | case4 r c comments c' hb r' s hclose hx ih =>
    obtain ⟨hmoves, heq⟩ := moves_pastBlanks hr hc hb
    rw [← hmoves.document] at hclose
    obtain ⟨hstep, hskip⟩ := readAhead_delimiter lineComments hx (by decide) hclose
    rw [ih (prelude_of_closeBlock hclose) hskip.within, heq, hstep]
  | case5 r c comments c' hb r' hx _ ih =>
    obtain ⟨hmoves, heq⟩ := moves_pastBlanks hr hc hb
    obtain ⟨hstep, hskip⟩ := readAhead_delimiter (r := r') lineComments hx (by decide) rfl
    rw [ih hr hskip.within, heq, hstep, endStatement_of_none (r := r') hr]
  | case6 r c comments c' hb x hx hclosing hsemicolon failure hp =>
    exact ((scansPrelude_afterBlanks hr hc hb hx hclosing hsemicolon).2 failure hp).symm
  | case7 r c comments c' hb _ x hx hclosing hsemicolon p comments' c'' hp r' hopening ih =>
    obtain ⟨hmoves, -, heq⟩ := (scansPrelude_afterBlanks hr hc hb hx hclosing hsemicolon).1 p comments' c'' hp
    rw [← hmoves.document] at ih ⊢
    obtain ⟨hstep, hskip⟩ := readAhead_delimiter (r := r') lineComments hopening (by decide) rfl
    rw [ih rfl hskip.within, heq]
    exact hstep.symm
  | case8 r c comments c' hb _ x hx hclosing hsemicolon p comments' c'' hp r' _ hend ih =>
    obtain ⟨hmoves, -, heq⟩ := (scansPrelude_afterBlanks hr hc hb hx hclosing hsemicolon).1 p comments' c'' hp
    rw [← hmoves.document] at ih ⊢
    obtain ⟨hstep, hskip⟩ := readAhead_delimiter (r := r') lineComments hend (by decide) rfl
    rw [ih rfl hskip.within, heq]
    exact hstep.symm
  | case9 r c comments c' hb _ x hx hclosing hsemicolon p comments' c'' hp r' hopening hend ih =>
    obtain ⟨hmoves, hends, heq⟩ :=
      (scansPrelude_afterBlanks hr hc hb hx hclosing hsemicolon).1 p comments' c'' hp
    rw [← hmoves.document] at ih ⊢
    have hall : c''.peek?.all (· = '}') = true := by
      cases hpeek : c''.peek? with
      | none => rfl
      | some y =>
        rw [hpeek] at hends hopening hend
        rw [Option.all_some, decide_eq_true_eq] at hends ⊢
        rcases hends with rfl | rfl | rfl
        · exact absurd rfl hopening
        · rfl
        · exact absurd rfl hend
    rw [ih (endStatement_prelude _ _ _) hmoves.within, heq]
    exact (readAhead_endStatement hmoves.within hall).symm

end Reading

lemma pastBlanks_of_ahead_nil {comments : List Span} (h : c.ahead = []) :
    pastBlanks lineComments comments c = .ok (comments, c) := by
  have hpeek := Cursor.peek?_of_ahead_nil h
  have hblanks : c.skipWhile CharClass.isBlank = c := Cursor.skipWhile_of_neg (by rw [hpeek]; rfl)
  have hat : atComment lineComments c = false := by simp [atComment, hpeek]
  rw [pastBlanks]
  simp [hblanks, hat]

lemma readStatements_of_ahead_nil (r : Reading) (h : c.ahead = []) :
    readStatements lineComments r c = .ok (r.finish c.document c.window c.position) := by
  rw [readStatements]
  split
  · rename_i hb
    cases (pastBlanks_of_ahead_nil h).symm.trans hb
  · rename_i hb
    cases (pastBlanks_of_ahead_nil h).symm.trans hb
    split
    · rfl
    · rename_i hx
      cases (Cursor.peek?_of_ahead_nil h).symm.trans hx

theorem parse_eq_parseLexemes (c : Cursor) (dialect : Dialect) : parse c dialect = parseLexemes c dialect := by
  rw [parseLexemes]
  cases hend : c.atEnd with
  | false =>
    exact Reading.readStatements_eq rfl (Position.le_of_lt (Position.not_le.1 (of_decide_eq_false hend)))
  | true =>
    have hnil := Cursor.ahead_of_atEnd hend
    rw [parse, readStatements_of_ahead_nil _ hnil, hnil, Reading.readLexemes_nil]
    rfl

end AbbrevSite.Sheet
