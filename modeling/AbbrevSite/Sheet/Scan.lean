import AbbrevSite.Sheet.Prelude
import AbbrevSite.Text.Cursor

/-! Scanning a stylesheet with a cursor: the comments between statements, the prelude of a statement with
the comments, strings and groups in it, and its at-name. -/
namespace AbbrevSite.Sheet

def charLexeme (x : Char) (c : Cursor) : Lexeme := ⟨.char x, c.position, c.skip.position⟩

/-- Whether the cursor is before a block comment, or before a line comment where these count. -/
def atComment (lineComments : Bool) (c : Cursor) : Bool :=
  c.peek? = some '/' && match c.skip.peek? with
    | some '*' => true
    | some '/' => lineComments
    | _ => false

def pastBlockComment (c : Cursor) : Except Failure Cursor :=
  let star := c.skipWhile (· ≠ '*')
  match _h : star.peek? with
  | none => .error (star.failure Fault.openComment.complaint)
  | some _ => if star.skip.peek? = some '/' then .ok star.skip.skip else pastBlockComment star.skip
termination_by c.ahead.length
decreasing_by
  exact Nat.lt_of_lt_of_le (Cursor.length_ahead_skip_lt ‹_›) (Cursor.length_ahead_skipWhile _ c)

/-- Moves behind the comment the cursor is before. A line comment ends before its newline. -/
def pastComment (c : Cursor) : Except Failure Cursor :=
  if c.skip.peek? = some '/' then .ok (c.skip.skip.skipWhile (· ≠ '\n'))
  else pastBlockComment c.skip.skip

/-- Moves behind the string the cursor is in. An unescaped newline ends a broken string. -/
def pastQuoted (quote : Char) (c : Cursor) : Except Failure Cursor :=
  match _h : c.peek? with
  | none => .error (c.failure Fault.openString.complaint)
  | some x =>
    if x = '\\' then pastQuoted quote c.skip.skip
    else if x = '\n' ∨ x = quote then .ok c.skip
    else pastQuoted quote c.skip
termination_by c.ahead.length
decreasing_by
  · exact Nat.lt_of_le_of_lt (Cursor.length_ahead_skip _) (Cursor.length_ahead_skip_lt ‹_›)
  · exact Cursor.length_ahead_skip_lt ‹_›

/-- Moves behind the string the cursor is before. -/
def pastString (c : Cursor) : Except Failure Cursor :=
  match c.peek? with
  | none => .ok c
  | some quote => pastQuoted quote c.skip

theorem length_pastBlockComment {c c' : Cursor} (h : pastBlockComment c = .ok c') :
    c'.ahead.length ≤ c.ahead.length := by
  fun_induction pastBlockComment c with
  | case1 => cases h
  | case2 c star _ _ _ =>
    cases h
    exact Nat.le_trans (Cursor.length_ahead_skip _)
      (Nat.le_trans (Cursor.length_ahead_skip _) (Cursor.length_ahead_skipWhile _ c))
  | case3 c star _ _ _ ih =>
    exact Nat.le_trans (ih h)
      (Nat.le_trans (Cursor.length_ahead_skip _) (Cursor.length_ahead_skipWhile _ c))

theorem length_pastComment {c c' : Cursor} (h : pastComment c = .ok c') :
    c'.ahead.length ≤ c.skip.ahead.length := by
  unfold pastComment at h
  split at h
  · cases h
    exact Nat.le_trans (Cursor.length_ahead_skipWhile _ _) (Cursor.length_ahead_skip _)
  · exact Nat.le_trans (length_pastBlockComment h) (Cursor.length_ahead_skip _)

theorem length_pastQuoted {quote : Char} {c c' : Cursor} (h : pastQuoted quote c = .ok c') :
    c'.ahead.length ≤ c.ahead.length := by
  fun_induction pastQuoted quote c with
  | case1 => cases h
  | case2 c _ ih =>
    exact Nat.le_trans (ih h) (Nat.le_trans (Cursor.length_ahead_skip _) (Cursor.length_ahead_skip _))
  | case3 c x _ _ _ =>
    cases h
    exact Cursor.length_ahead_skip c
  | case4 c x _ _ _ ih => exact Nat.le_trans (ih h) (Cursor.length_ahead_skip c)

theorem length_pastString {c c' : Cursor} (h : pastString c = .ok c') :
    c'.ahead.length ≤ c.skip.ahead.length := by
  unfold pastString at h
  split at h
  · rename_i hnone
    cases h
    simp [Cursor.ahead_of_peek?_none hnone]
  · exact length_pastQuoted h

/-- Moves behind the group the cursor is in, to the end if it is not closed. `depth` counts the parentheses
open around the cursor. -/
def pastGroup (depth : Nat) (c : Cursor) : Except Failure Cursor :=
  match _h : c.peek? with
  | none => .ok c
  | some x =>
    if isQuote x then
      match _hs : pastString c with
      | .error failure => .error failure
      | .ok c' => pastGroup depth c'
    else if x = '(' then pastGroup (depth + 1) c.skip
    else if x = ')' then
      if depth - 1 = 0 then .ok c.skip else pastGroup (depth - 1) c.skip
    else pastGroup depth c.skip
termination_by c.ahead.length
decreasing_by
  · exact Nat.lt_of_le_of_lt (length_pastString ‹_›) (Cursor.length_ahead_skip_lt ‹_›)
  all_goals exact Cursor.length_ahead_skip_lt ‹_›

theorem length_pastGroup {depth : Nat} {c c' : Cursor} (h : pastGroup depth c = .ok c') :
    c'.ahead.length ≤ c.skip.ahead.length := by
  fun_induction pastGroup depth c with
  | case1 _ _ hnone =>
    cases h
    simp [Cursor.ahead_of_peek?_none hnone]
  | case2 => cases h
  | case3 _ _ _ _ _ _ hs ih =>
    exact Nat.le_trans (ih h) (Nat.le_trans (Cursor.length_ahead_skip _) (length_pastString hs))
  | case4 _ _ _ _ ih => exact Nat.le_trans (ih h) (Cursor.length_ahead_skip _)
  | case5 =>
    cases h
    exact Nat.le_refl _
  | case6 _ _ _ _ _ _ ih => exact Nat.le_trans (ih h) (Cursor.length_ahead_skip _)
  | case7 _ _ _ _ _ _ _ ih => exact Nat.le_trans (ih h) (Cursor.length_ahead_skip _)

/-- Moves behind a string, a group or a single character. -/
def pastSignificant (c : Cursor) : Except Failure Cursor :=
  match c.peek? with
  | none => .ok c
  | some x =>
    if isQuote x then pastString c
    else if x = '(' then pastGroup 0 c
    else .ok c.skip

theorem length_pastSignificant {c c' : Cursor} (h : pastSignificant c = .ok c') :
    c'.ahead.length ≤ c.skip.ahead.length := by
  unfold pastSignificant at h
  split at h
  · rename_i hnone
    cases h
    simp [Cursor.ahead_of_peek?_none hnone]
  · split at h
    · exact length_pastString h
    · split at h
      · exact length_pastGroup h
      · cases h
        exact Nat.le_refl _

theorem peek?_of_atComment {lineComments : Bool} {c : Cursor} (h : atComment lineComments c = true) :
    c.peek? = some '/' := by
  simp only [atComment, Bool.and_eq_true, decide_eq_true_eq] at h
  exact h.1

theorem length_pastComment_lt {lineComments : Bool} {c c' : Cursor}
    (h : atComment lineComments c = true) (hc : pastComment c = .ok c') :
    c'.ahead.length < c.ahead.length :=
  Nat.lt_of_le_of_lt (length_pastComment hc) (Cursor.length_ahead_skip_lt (peek?_of_atComment h))

/-- Moves behind blanks and comments and notes the comments, last first. -/
def pastBlanks (lineComments : Bool) (comments : List Span) (c : Cursor) :
    Except Failure (List Span × Cursor) :=
  let c' := c.skipWhile CharClass.isBlank
  if _h : atComment lineComments c' then
    match _hc : pastComment c' with
    | .error failure => .error failure
    | .ok c'' => pastBlanks lineComments (.between c'.position c''.position :: comments) c''
  else .ok (comments, c')
termination_by c.ahead.length
decreasing_by
  exact Nat.lt_of_lt_of_le (length_pastComment_lt ‹_› ‹_›) (Cursor.length_ahead_skipWhile _ _)

theorem length_pastBlanks {lineComments : Bool} {comments comments' : List Span} {c c' : Cursor}
    (h : pastBlanks lineComments comments c = .ok (comments', c')) :
    c'.ahead.length ≤ c.ahead.length := by
  fun_induction pastBlanks lineComments comments c with
  | case1 => cases h
  | case2 _ c _ hat _ hc ih =>
    exact Nat.le_trans (ih h) (Nat.le_trans (Nat.le_of_lt (length_pastComment_lt hat hc))
      (Cursor.length_ahead_skipWhile _ c))
  | case3 _ c =>
    simp only [Except.ok.injEq, Prod.mk.injEq] at h
    rw [← h.2]
    exact Cursor.length_ahead_skipWhile _ c

def IsDelimiter (c : Char) : Prop := c = '{' ∨ c = '}' ∨ c = ';'

instance : DecidablePred IsDelimiter := fun c => inferInstanceAs (Decidable (c = '{' ∨ c = '}' ∨ c = ';'))

/-- Reads a prelude on up to the character that ends it, and notes the comments in it. -/
def scanPreludeOn (lineComments : Bool) (comments : List Span) (p : Prelude) (c : Cursor) :
    Except Failure (Prelude × List Span × Cursor) :=
  match _h : c.peek? with
  | none => .ok (p, comments, c)
  | some x =>
    if IsDelimiter x then .ok (p, comments, c)
    else if _hat : atComment lineComments c then
      match _hc : pastComment c with
      | .error failure => .error failure
      | .ok c' => scanPreludeOn lineComments (.between c.position c'.position :: comments) p c'
    else if CharClass.isBlank x then scanPreludeOn lineComments comments p c.skip
    else if x = ':' ∧ p.colon = none then
      scanPreludeOn lineComments comments
        { p with
          stop := c.skip.position
          first := p.first.or (some c.position)
          colon := some c.position
          nameStop := some p.stop }
        c.skip
    else
      match _hc : pastSignificant c with
      | .error failure => .error failure
      | .ok c' =>
        scanPreludeOn lineComments comments
          { p with
            stop := c'.position
            first := p.first.or (some c.position)
            valueStart := if p.colon.isSome then p.valueStart.or (some c.position) else p.valueStart }
          c'
termination_by c.ahead.length
decreasing_by
  · exact length_pastComment_lt ‹_› ‹_›
  · exact Cursor.length_ahead_skip_lt ‹_›
  · exact Cursor.length_ahead_skip_lt ‹_›
  · exact Nat.lt_of_le_of_lt (length_pastSignificant ‹_›) (Cursor.length_ahead_skip_lt ‹_›)

theorem length_scanPreludeOn {lineComments : Bool} {comments comments' : List Span} {p p' : Prelude}
    {c c' : Cursor} (h : scanPreludeOn lineComments comments p c = .ok (p', comments', c')) :
    c'.ahead.length < c.ahead.length ∨ c' = c ∧ c.peek?.all (IsDelimiter ·) = true := by
  have further {a b : Cursor} (hab : a.ahead.length < b.ahead.length)
      (ih : c'.ahead.length < a.ahead.length ∨ c' = a ∧ a.peek?.all (IsDelimiter ·) = true) :
      c'.ahead.length < b.ahead.length := by
    rcases ih with hlt | ⟨rfl, -⟩
    · exact Nat.lt_trans hlt hab
    · exact hab
  fun_induction scanPreludeOn lineComments comments p c with
  | case1 _ _ _ hx =>
    cases h
    exact .inr ⟨rfl, by rw [hx]; rfl⟩
  | case2 _ _ _ _ hx hends =>
    cases h
    exact .inr ⟨rfl, by rw [hx]; exact decide_eq_true hends⟩
  | case3 => cases h
  | case4 _ _ _ _ _ _ hat _ hc ih => exact .inl (further (length_pastComment_lt hat hc) (ih h))
  | case5 _ _ _ _ hx _ _ _ ih => exact .inl (further (Cursor.length_ahead_skip_lt hx) (ih h))
  | case6 _ _ _ _ hx _ _ _ _ ih => exact .inl (further (Cursor.length_ahead_skip_lt hx) (ih h))
  | case7 => cases h
  | case8 _ _ _ _ hx _ _ _ _ _ hc ih =>
    exact .inl (further (Nat.lt_of_le_of_lt (length_pastSignificant hc) (Cursor.length_ahead_skip_lt hx)) (ih h))

def scanPrelude (lineComments : Bool) (comments : List Span) (c : Cursor) :
    Except Failure (Prelude × List Span × Cursor) :=
  let start := Prelude.startAt c.position
  if c.peek? = some '@' then
    let c' := c.skip.skipWhile isAtNameChar
    scanPreludeOn lineComments comments
      { start with stop := c'.position, atStop := some c'.position } c'
  else scanPreludeOn lineComments comments start c

theorem length_scanPrelude {lineComments : Bool} {comments comments' : List Span} {p : Prelude}
    {c c' : Cursor} (h : scanPrelude lineComments comments c = .ok (p, comments', c')) :
    c'.ahead.length < c.ahead.length ∨ c' = c ∧ c.peek?.all (IsDelimiter ·) = true := by
  unfold scanPrelude at h
  split at h
  · rename_i hat
    have hname : (c.skip.skipWhile isAtNameChar).ahead.length < c.ahead.length :=
      Nat.lt_of_le_of_lt (Cursor.length_ahead_skipWhile _ _) (Cursor.length_ahead_skip_lt hat)
    rcases length_scanPreludeOn h with hlt | ⟨rfl, -⟩
    · exact .inl (Nat.lt_trans hlt hname)
    · exact .inl hname
  · exact length_scanPreludeOn h

theorem length_ahead_le_of_scanPrelude {lineComments : Bool} {comments comments' : List Span}
    {p : Prelude} {c c' : Cursor} (h : scanPrelude lineComments comments c = .ok (p, comments', c')) :
    c'.ahead.length ≤ c.ahead.length := by
  rcases length_scanPrelude h with hlt | ⟨rfl, -⟩
  · exact Nat.le_of_lt hlt
  · exact Nat.le_refl _

/-- A prelude that is not followed by the brace it starts with takes a character. -/
theorem length_scanPrelude_lt {lineComments : Bool} {comments comments' : List Span} {p : Prelude}
    {c c' : Cursor} {x : Char} (h : scanPrelude lineComments comments c = .ok (p, comments', c'))
    (hx : c.peek? = some x) (hclosing : x ≠ '}') (hsemicolon : x ≠ ';')
    (hopening : ¬ c'.peek? = some '{') : c'.ahead.length < c.ahead.length := by
  rcases length_scanPrelude h with hlt | ⟨rfl, hends⟩
  · exact hlt
  · rw [hx] at hends hopening
    rw [Option.all_some, decide_eq_true_eq] at hends
    rcases hends with rfl | rfl | rfl
    · exact absurd rfl hopening
    · exact absurd rfl hclosing
    · exact absurd rfl hsemicolon

end AbbrevSite.Sheet
