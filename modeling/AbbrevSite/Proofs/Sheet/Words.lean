import AbbrevSite.Proofs.Sheet.Lexing

/-! The words of a stylesheet: what the text of a lexeme can be and what may follow it, said without saying
how it is read. Each word is read as the lexeme it is, and what starts a word that does not end is a fault. -/
namespace AbbrevSite.Sheet

/-- The text between the quotes of a string. A backslash hides the character after it; a quote or a newline
that is not hidden ends the string. -/
inductive QuotedText (quote : Char) : List Char → Prop
  | nil : QuotedText quote []
  | plain {c : Char} {cs : List Char} (noBackslash : c ≠ '\\') (noNewline : c ≠ '\n')
      (noQuote : c ≠ quote) (others : QuotedText quote cs) : QuotedText quote (c :: cs)
  | hidden {c : Char} {cs : List Char} (others : QuotedText quote cs) :
      QuotedText quote ('\\' :: c :: cs)

/-- A quote up to the next quote of its kind or the next newline. -/
def StringText (text : List Char) : Prop :=
  ∃ quote body last, isQuote quote = true ∧ QuotedText quote body ∧ (last = '\n' ∨ last = quote) ∧
    text = quote :: (body ++ [last])

/-- A text inside a group: `m` parentheses are open in the group before it and `n` after it. Strings hide the
parentheses in them. -/
inductive GroupText : Nat → List Char → Nat → Prop
  | nil (n : Nat) : GroupText n [] n
  | char {m n : Nat} {c : Char} {cs : List Char} (noQuote : isQuote c = false) (noOpening : c ≠ '(')
      (noClosing : c ≠ ')') (others : GroupText m cs n) : GroupText m (c :: cs) n
  | string {m n : Nat} {text cs : List Char} (first : StringText text) (others : GroupText m cs n) :
      GroupText m (text ++ cs) n
  | opening {m n : Nat} {cs : List Char} (others : GroupText (m + 1) cs n) : GroupText m ('(' :: cs) n
  | closing {m n : Nat} {cs : List Char} (others : GroupText m cs n) : GroupText (m + 1) (')' :: cs) n

/-- Whether a comment starts with the first two characters of a text. -/
def StartsComment (lineComments : Bool) (cs : List Char) : Prop :=
  ['/', '*'] <+: cs ∨ lineComments = true ∧ ['/', '/'] <+: cs

/-- A word of a shape and the text that may follow it. -/
inductive Word (lineComments : Bool) : Shape → List Char → List Char → Prop
  | blockComment {body rest : List Char} (firstEnd : ¬ ['*', '/'] <:+: body ++ ['*']) :
      Word lineComments .comment ('/' :: '*' :: (body ++ ['*', '/'])) rest
  | lineComment {body rest : List Char} (allowed : lineComments = true) (inLine : '\n' ∉ body)
      (ends : ∀ c ∈ rest.head?, c = '\n') : Word lineComments .comment ('/' :: '/' :: body) rest
  | string {text rest : List Char} (string : StringText text) : Word lineComments .string text rest
  | group {body rest : List Char} (inside : GroupText 0 body 0) :
      Word lineComments .group ('(' :: (body ++ [')'])) rest
  | openGroup {body : List Char} {n : Nat} (inside : GroupText 0 body n) :
      Word lineComments .group ('(' :: body) []
  | char {c : Char} {rest : List Char} (noQuote : isQuote c = false) (noGroup : c ≠ '(')
      (noComment : ¬ StartsComment lineComments (c :: rest)) : Word lineComments (.char c) [c] rest

/-- A text that starts with a quote and ends before the string does. -/
def OpenString (cs : List Char) : Prop :=
  (∃ quote ∈ cs.head?, isQuote quote = true) ∧ ∀ text, text <+: cs → ¬ StringText text

/-- A text that starts with a comment or string that it ends in, or with a group that has such a string. -/
inductive Unended : Fault → List Char → Prop
  | comment {cs : List Char} (noEnd : ¬ ['*', '/'] <:+: cs) : Unended .openComment ('/' :: '*' :: cs)
  | string {cs : List Char} (openString : OpenString cs) : Unended .openString cs
  | group {body cs : List Char} {n : Nat} (inside : GroupText 0 body n) (openString : OpenString cs) :
      Unended .openString ('(' :: (body ++ cs))

def chars (gs : List Glyph) : List Char := gs.map (·.char)

section Chars

variable {g : Glyph} {gs hs : List Glyph} {c : Char} {cs ds : List Char}

@[simp] lemma chars_nil : chars [] = [] := rfl

@[simp] lemma chars_cons : chars (g :: gs) = g.char :: chars gs := rfl

@[simp] lemma chars_append : chars (gs ++ hs) = chars gs ++ chars hs := List.map_append

lemma chars_eq_nil_iff : chars gs = [] ↔ gs = [] := List.map_eq_nil_iff

lemma chars_eq_cons_iff : chars gs = c :: cs ↔ ∃ g hs, gs = g :: hs ∧ g.char = c ∧ chars hs = cs :=
  List.map_eq_cons_iff

lemma chars_eq_append_iff :
    chars gs = cs ++ ds ↔ ∃ hs ks, gs = hs ++ ks ∧ chars hs = cs ∧ chars ks = ds :=
  List.map_eq_append_iff

end Chars

def endOf (p : Position) (gs : List Glyph) : Position := (gs.getLast?.map (·.stop)).getD p

section EndOf

variable {p q : Position} {g : Glyph} {gs hs : List Glyph}

@[simp] lemma endOf_nil : endOf p [] = p := rfl

@[simp] lemma endOf_cons : endOf p (g :: gs) = endOf g.stop gs := by
  cases gs with
  | nil => rfl
  | cons h gs => simp [endOf, List.getLast?_eq_some_getLast]

@[simp] lemma endOf_append : endOf p (gs ++ hs) = endOf (endOf p gs) hs := by
  induction gs generalizing p with
  | nil => rfl
  | cons g gs ih => simp only [List.cons_append, endOf_cons, ih]

end EndOf

variable {g x : Glyph} {gs hs body rest : List Glyph} {p last : Position} {quote : Char} {depth m n : Nat}

lemma not_infix_cons {a b c : Char} {cs : List Char} :
    ¬ [a, b] <:+: c :: cs ↔ ¬ (c = a ∧ cs.head? = some b) ∧ ¬ [a, b] <:+: cs := by
  rw [List.infix_cons_iff, not_or]
  refine and_congr_left fun _ => not_congr ?_
  cases cs with
  | nil => simp
  | cons e cs => simp [List.cons_prefix_cons, eq_comm]

lemma closeComment_append_end (h : ¬ ['*', '/'] <:+: chars body ++ ['*']) (hg : g.char = '*')
    (hx : x.char = '/') : closeComment (body ++ g :: x :: rest) = some (x.stop, rest) := by
  induction body with
  | nil => rw [List.nil_append, closeComment, if_pos ⟨hg, hx⟩]
  | cons b body ih =>
    rw [chars_cons, List.cons_append, not_infix_cons] at h
    cases body with
    | nil =>
      have hne : ¬ (b.char = '*' ∧ g.char = '/') := by simp [hg]
      rw [List.cons_append, List.nil_append, closeComment, if_neg hne]
      exact ih h.2
    | cons c body =>
      have hne : ¬ (b.char = '*' ∧ c.char = '/') := by simpa using h.1
      rw [List.cons_append, List.cons_append, closeComment, if_neg hne]
      exact ih h.2

lemma exists_of_closeComment (h : closeComment gs = some (p, rest)) :
    ∃ body g x, gs = body ++ g :: x :: rest ∧ g.char = '*' ∧ x.char = '/' ∧ x.stop = p ∧
      ¬ ['*', '/'] <:+: chars body ++ ['*'] := by
  fun_induction closeComment gs with
  | case1 | case2 => cases h
  | case3 g x gs hc =>
    cases h
    refine ⟨[], g, x, rfl, hc.1, hc.2, rfl, ?_⟩
    rw [chars_nil, List.nil_append, not_infix_cons]
    simp
  | case4 g x gs hc ih =>
    obtain ⟨body, y, z, hgs, hy, hz, hp, hno⟩ := ih h
    refine ⟨g :: body, y, z, by rw [hgs]; rfl, hy, hz, hp, ?_⟩
    rw [chars_cons, List.cons_append, not_infix_cons]
    refine ⟨?_, hno⟩
    cases body with
    | nil => simp
    | cons b body =>
      rw [List.cons_append, List.cons.injEq] at hgs
      rw [hgs.1] at hc
      simpa using hc

lemma closeComment_eq_none_iff : closeComment gs = none ↔ ¬ ['*', '/'] <:+: chars gs := by
  constructor
  · intro h
    fun_induction closeComment gs with
    | case1 | case2 => simp [List.infix_cons_iff]
    | case3 => cases h
    | case4 g x gs hc ih =>
      rw [chars_cons, not_infix_cons]
      exact ⟨by simpa using hc, ih h⟩
  · intro h
    cases hc : closeComment gs with
    | none => rfl
    | some read =>
      obtain ⟨p, rest⟩ := read
      obtain ⟨body, g, x, rfl, hg, hx, -, -⟩ := exists_of_closeComment hc
      refine absurd ⟨chars body, chars rest, ?_⟩ h
      simp [hg, hx]

lemma closeLineComment_append (h : '\n' ∉ chars body) (ends : ∀ c ∈ (chars rest).head?, c = '\n') :
    closeLineComment last (body ++ rest) = (endOf last body, rest) := by
  induction body generalizing last with
  | nil =>
    cases rest with
    | nil => rfl
    | cons g rest => rw [List.nil_append, closeLineComment, if_pos (by simpa using ends), endOf_nil]
  | cons b body ih =>
    rw [chars_cons, List.mem_cons, not_or] at h
    rw [List.cons_append, closeLineComment, if_neg (Ne.symm h.1), ih h.2, endOf_cons]

lemma exists_of_closeLineComment (h : closeLineComment last gs = (p, rest)) :
    ∃ body, gs = body ++ rest ∧ '\n' ∉ chars body ∧ (∀ c ∈ (chars rest).head?, c = '\n') ∧
      endOf last body = p := by
  induction gs generalizing last with
  | nil =>
    cases h
    exact ⟨[], rfl, by simp, by simp, rfl⟩
  | cons g gs ih =>
    rw [closeLineComment] at h
    split_ifs at h with hg
    · cases h
      exact ⟨[], rfl, by simp, by simp [hg], rfl⟩
    · obtain ⟨body, rfl, hno, hend, hp⟩ := ih h
      exact ⟨g :: body, rfl, by simp [hno, Ne.symm hg], hend, by rw [endOf_cons, hp]⟩

lemma closeString_append (h : QuotedText quote (chars body)) (hq : quote ≠ '\\')
    (hx : x.char = '\n' ∨ x.char = quote) :
    closeString quote (body ++ x :: rest) = some (x.stop, rest) := by
  generalize hcs : chars body = cs at h
  induction h generalizing body with
  | nil =>
    rw [chars_eq_nil_iff] at hcs
    have hne : x.char ≠ '\\' := by
      rcases hx with hx | hx
      · rw [hx]
        decide
      · rwa [hx]
    rw [hcs, List.nil_append, closeString_cons rest hne, if_pos hx]
  | plain hb hn hc _ ih =>
    obtain ⟨g, body, rfl, rfl, hbody⟩ := chars_eq_cons_iff.1 hcs
    rw [List.cons_append, closeString_cons _ hb, if_neg (by simp [hn, hc])]
    exact ih hbody
  | hidden _ ih =>
    obtain ⟨g, others, rfl, hg, hothers⟩ := chars_eq_cons_iff.1 hcs
    obtain ⟨y, body, rfl, rfl, hbody⟩ := chars_eq_cons_iff.1 hothers
    rw [List.cons_append, List.cons_append, closeString_escaped _ hg]
    exact ih hbody

lemma exists_of_closeString (h : closeString quote gs = some (p, rest)) :
    ∃ body x, gs = body ++ x :: rest ∧ QuotedText quote (chars body) ∧
      (x.char = '\n' ∨ x.char = quote) ∧ x.stop = p := by
  fun_induction closeString quote gs with
  | case1 | case2 => cases h
  | case3 g hg y gs ih =>
    obtain ⟨body, x, rfl, hbody, hx, hp⟩ := ih h
    refine ⟨g :: y :: body, x, rfl, ?_, hx, hp⟩
    rw [chars_cons, chars_cons, hg]
    exact .hidden hbody
  | case4 g gs hg hc =>
    cases h
    exact ⟨[], g, rfl, .nil, hc, rfl⟩
  | case5 g gs hg hc ih =>
    obtain ⟨body, x, rfl, hbody, hx, hp⟩ := ih h
    rw [not_or] at hc
    exact ⟨g :: body, x, rfl, .plain hg hc.1 hc.2 hbody, hx, hp⟩

lemma ne_backslash_of_isQuote {c : Char} (h : isQuote c = true) : c ≠ '\\' := by
  rintro rfl
  exact absurd h (by decide)

lemma exists_of_stringText {t : List Glyph} (h : StringText (chars t)) :
    ∃ g u, t = g :: u ∧ isQuote g.char = true ∧
      ∀ rest, closeString g.char (u ++ rest) = some (endOf g.stop u, rest) := by
  obtain ⟨quote, body, last, hq, hbody, hlast, ht⟩ := h
  obtain ⟨g, u, rfl, rfl, hu⟩ := chars_eq_cons_iff.1 ht
  obtain ⟨v, w, rfl, rfl, hw⟩ := chars_eq_append_iff.1 hu
  obtain ⟨x, w', rfl, rfl, hnil⟩ := chars_eq_cons_iff.1 hw
  rw [chars_eq_nil_iff] at hnil
  subst hnil
  refine ⟨g, v ++ [x], rfl, hq, fun rest => ?_⟩
  rw [List.append_assoc, List.singleton_append,
    closeString_append hbody (ne_backslash_of_isQuote hq) hlast]
  simp

lemma exists_stringText_of_closeString (hq : isQuote g.char = true)
    (h : closeString g.char gs = some (p, rest)) :
    ∃ u, gs = u ++ rest ∧ StringText (chars (g :: u)) ∧ endOf g.stop u = p := by
  obtain ⟨body, x, rfl, hbody, hx, hp⟩ := exists_of_closeString h
  exact ⟨body ++ [x], by simp, ⟨g.char, chars body, x.char, hq, hbody, hx, by simp⟩, by simp [hp]⟩

lemma closeString_eq_none_iff (hq : isQuote g.char = true) :
    closeString g.char gs = none ↔ OpenString (chars (g :: gs)) := by
  constructor
  · refine fun h => ⟨⟨g.char, by simp, hq⟩, fun text hpre htext => ?_⟩
    obtain ⟨ds, hds⟩ := hpre
    obtain ⟨t, rest, hgs, rfl, -⟩ := chars_eq_append_iff.1 hds.symm
    obtain ⟨x, u, rfl, -, hread⟩ := exists_of_stringText htext
    rw [List.cons_append, List.cons.injEq] at hgs
    obtain ⟨rfl, rfl⟩ := hgs
    rw [hread] at h
    cases h
  · rintro ⟨-, hno⟩
    cases h : closeString g.char gs with
    | none => rfl
    | some read =>
      obtain ⟨p, rest⟩ := read
      obtain ⟨u, rfl, htext, -⟩ := exists_stringText_of_closeString hq h
      refine absurd htext (hno _ ?_)
      exact ⟨chars rest, by simp⟩

section Group

lemma closeGroup_nil : closeGroup depth none last [] = some (last, []) := by
  rw [closeGroup.eq_def]
  rfl

lemma closeGroup_string : closeGroup depth (some quote) last gs =
    (closeString quote gs).bind fun read => closeGroup depth none read.1 read.2 := by
  fun_induction closeString quote gs generalizing last with
  | case1 => rw [closeGroup.eq_def]; rfl
  | case2 g hg => rw [closeGroup_escape_end hg]; rfl
  | case3 g hg x gs ih => rw [closeGroup_escaped gs hg, ih]
  | case4 g gs hg hc => rw [closeGroup_quoted gs hg, if_pos hc]; rfl
  | case5 g gs hg hc ih => rw [closeGroup_quoted gs hg, if_neg hc, ih]

lemma closeGroup_quote (hq : isQuote g.char = true) : closeGroup depth none last (g :: gs) =
    (closeString g.char gs).bind fun read => closeGroup depth none read.1 read.2 := by
  rw [closeGroup.eq_def]
  simp only [hq, if_true]
  exact closeGroup_string

lemma closeGroup_opening (h : g.char = '(') :
    closeGroup depth none last (g :: gs) = closeGroup (depth + 1) none g.stop gs := by
  rw [closeGroup.eq_def]
  simp [h, isQuote]

lemma closeGroup_closing_zero (h : g.char = ')') :
    closeGroup 0 none last (g :: gs) = some (g.stop, gs) := by
  rw [closeGroup.eq_def]
  simp [h, isQuote]

lemma closeGroup_closing_succ (h : g.char = ')') :
    closeGroup (depth + 1) none last (g :: gs) = closeGroup depth none g.stop gs := by
  rw [closeGroup.eq_def]
  simp [h, isQuote]

lemma closeGroup_other (hq : isQuote g.char = false) (ho : g.char ≠ '(') (hc : g.char ≠ ')') :
    closeGroup depth none last (g :: gs) = closeGroup depth none g.stop gs := by
  rw [closeGroup.eq_def]
  simp [hq, ho, hc]

/-- A text inside a group is passed over. -/
lemma closeGroup_append (h : GroupText m (chars body) n) :
    closeGroup m none last (body ++ gs) = closeGroup n none (endOf last body) gs := by
  generalize hcs : chars body = cs at h
  induction h generalizing body last with
  | nil n =>
    rw [chars_eq_nil_iff] at hcs
    rw [hcs, List.nil_append, endOf_nil]
  | char hq ho hc _ ih =>
    obtain ⟨g, others, rfl, rfl, hbody⟩ := chars_eq_cons_iff.1 hcs
    rw [List.cons_append, closeGroup_other hq ho hc, ih hbody, endOf_cons]
  | string ht _ ih =>
    obtain ⟨t, others, rfl, rfl, hbody⟩ := chars_eq_append_iff.1 hcs
    obtain ⟨g, u, rfl, hq, hread⟩ := exists_of_stringText ht
    rw [List.append_assoc, List.cons_append, closeGroup_quote hq, hread, Option.bind_some, ih hbody,
      endOf_append, endOf_cons]
  | opening _ ih =>
    obtain ⟨g, others, rfl, hg, hbody⟩ := chars_eq_cons_iff.1 hcs
    rw [List.cons_append, closeGroup_opening hg, ih hbody, endOf_cons]
  | closing _ ih =>
    obtain ⟨g, others, rfl, hg, hbody⟩ := chars_eq_cons_iff.1 hcs
    rw [List.cons_append, closeGroup_closing_succ hg, ih hbody, endOf_cons]

/-- What can follow a text inside a group: the parenthesis that closes the group, the end of the text or a
string without an end. -/
inductive GroupEnd : Nat → List Glyph → Prop
  | closing {g : Glyph} {rest : List Glyph} (closes : g.char = ')') : GroupEnd 0 (g :: rest)
  | last (n : Nat) : GroupEnd n []
  | openString (n : Nat) {g : Glyph} {rest : List Glyph} (quote : isQuote g.char = true)
      (noEnd : closeString g.char rest = none) : GroupEnd n (g :: rest)

/-- Every text has a longest part inside a group. -/
lemma exists_groupEnd (m : Nat) (gs : List Glyph) :
    ∃ body rest n, gs = body ++ rest ∧ GroupText m (chars body) n ∧ GroupEnd n rest := by
  match gs with
  | [] => exact ⟨[], [], m, rfl, .nil m, .last m⟩
  | g :: gs =>
    cases hq : isQuote g.char with
    | true =>
      cases hc : closeString g.char gs with
      | none => exact ⟨[], g :: gs, m, rfl, .nil m, .openString m hq hc⟩
      | some read =>
        obtain ⟨p, after⟩ := read
        obtain ⟨u, hgs, htext, -⟩ := exists_stringText_of_closeString hq hc
        have := length_closeString hc
        obtain ⟨body, rest, n, hrest, hbody, hend⟩ := exists_groupEnd m after
        refine ⟨g :: u ++ body, rest, n, ?_, ?_, hend⟩
        · rw [hgs, hrest, List.cons_append, List.cons_append, List.append_assoc]
        · rw [chars_append]
          exact .string htext hbody
    | false =>
      by_cases ho : g.char = '('
      · obtain ⟨body, rest, n, rfl, hbody, hend⟩ := exists_groupEnd (m + 1) gs
        refine ⟨g :: body, rest, n, rfl, ?_, hend⟩
        rw [chars_cons, ho]
        exact .opening hbody
      · by_cases hc : g.char = ')'
        · cases m with
          | zero => exact ⟨[], g :: gs, 0, rfl, .nil 0, .closing hc⟩
          | succ m =>
            obtain ⟨body, rest, n, rfl, hbody, hend⟩ := exists_groupEnd m gs
            refine ⟨g :: body, rest, n, rfl, ?_, hend⟩
            rw [chars_cons, hc]
            exact .closing hbody
        · obtain ⟨body, rest, n, rfl, hbody, hend⟩ := exists_groupEnd m gs
          exact ⟨g :: body, rest, n, rfl, .char hq ho hc hbody, hend⟩
termination_by gs.length

lemma closeGroup_eq_none_iff : closeGroup 0 none last gs = none ↔
    ∃ body rest n, chars gs = body ++ rest ∧ GroupText 0 body n ∧ OpenString rest := by
  constructor
  · intro h
    obtain ⟨body, after, n, rfl, hbody, hend⟩ := exists_groupEnd 0 gs
    rw [closeGroup_append hbody] at h
    cases hend with
    | closing hy => simp [closeGroup_closing_zero hy] at h
    | last => simp [closeGroup_nil] at h
    | openString _ hquote hnone =>
      exact ⟨chars body, _, n, chars_append .., hbody, (closeString_eq_none_iff hquote).1 hnone⟩
  · rintro ⟨_, _, n, hgs, hbody, hopen⟩
    obtain ⟨body, after, rfl, rfl, rfl⟩ := chars_eq_append_iff.1 hgs
    cases after with
    | nil => simp [OpenString] at hopen
    | cons y after =>
      have hq : isQuote y.char = true := by simpa using hopen.1
      rw [closeGroup_append hbody, closeGroup_quote hq, (closeString_eq_none_iff hq).2 hopen]
      rfl

end Group

section Lexeme

variable {lineComments : Bool} {shape : Shape} {l : Lexeme} {fault : Fault}

lemma startsComment_iff : StartsComment lineComments (chars (g :: gs)) ↔
    g.char = '/' ∧ ∃ x hs, gs = x :: hs ∧ (x.char = '*' ∨ x.char = '/' ∧ lineComments = true) := by
  cases gs with
  | nil => simp [StartsComment, List.cons_prefix_cons]
  | cons x gs =>
    simp only [StartsComment, chars_cons, List.cons_prefix_cons, List.nil_prefix, and_true,
      List.cons.injEq, eq_comm (a := '/'), eq_comm (a := '*')]
    constructor
    · rintro (⟨hg, hx⟩ | ⟨hl, hg, hx⟩)
      · exact ⟨hg, x, gs, ⟨rfl, rfl⟩, .inl hx⟩
      · exact ⟨hg, x, gs, ⟨rfl, rfl⟩, .inr ⟨hx, hl⟩⟩
    · rintro ⟨hg, y, hs, ⟨rfl, rfl⟩, hx | ⟨hx, hl⟩⟩
      · exact .inl ⟨hg, hx⟩
      · exact .inr ⟨hl, hg, hx⟩

lemma lexeme_char (hq : isQuote g.char = false) (hg : g.char ≠ '(')
    (hc : ¬ StartsComment lineComments (chars (g :: gs))) :
    lexeme lineComments g gs = .ok (.ofGlyph g, gs) := by
  by_cases hs : g.char = '/'
  · rw [startsComment_iff] at hc
    cases gs with
    | nil => simp [lexeme, hs, Lexeme.ofGlyph]
    | cons x gs =>
      exact lexeme_slash gs hs (fun hx => hc ⟨hs, x, gs, rfl, .inl hx⟩)
        fun hx => hc ⟨hs, x, gs, rfl, .inr hx⟩
  · exact lexeme_of_isPlain gs (isPlain_iff.2 ⟨hq, hg, hs⟩)

/-- A word is read as a lexeme of its shape. -/
theorem lexeme_of_word {u : List Glyph} (h : Word lineComments shape (chars (g :: u)) (chars rest)) :
    lexeme lineComments g (u ++ rest) = .ok (⟨shape, g.start, endOf g.stop u⟩, rest) := by
  generalize ht : chars (g :: u) = text at h
  generalize hr : chars rest = after at h
  rw [chars_cons] at ht
  cases h with
  | blockComment first =>
    obtain ⟨hg, hu⟩ := List.cons.inj ht
    obtain ⟨x, v, rfl, hx, hv⟩ := chars_eq_cons_iff.1 hu
    obtain ⟨body, w, rfl, rfl, hw⟩ := chars_eq_append_iff.1 hv
    obtain ⟨y, w, rfl, hy, hw⟩ := chars_eq_cons_iff.1 hw
    obtain ⟨z, w, rfl, hz, hw⟩ := chars_eq_cons_iff.1 hw
    obtain rfl := chars_eq_nil_iff.1 hw
    refine (lexeme_block_comment_iff hg hx).2 ⟨z.stop, ?_, by simp⟩
    show closeComment ((body ++ [y, z]) ++ rest) = _
    rw [List.append_assoc]
    exact closeComment_append_end first hy hz
  | lineComment allowed inLine ends =>
    obtain ⟨hg, hu⟩ := List.cons.inj ht
    obtain ⟨x, body, rfl, hx, rfl⟩ := chars_eq_cons_iff.1 hu
    rw [← hr] at ends
    rw [List.cons_append, lexeme_line_comment _ hg hx allowed, closeLineComment_append inLine ends,
      endOf_cons]
  | string string =>
    obtain ⟨y, v, hyv, hq, hread⟩ := exists_of_stringText (t := g :: u) (by rwa [chars_cons, ht])
    obtain ⟨rfl, rfl⟩ := List.cons.inj hyv
    exact (lexeme_string_iff hq).2 ⟨_, hread rest, rfl⟩
  | group inside =>
    obtain ⟨hg, hu⟩ := List.cons.inj ht
    obtain ⟨body, v, rfl, rfl, hv⟩ := chars_eq_append_iff.1 hu
    obtain ⟨y, v, rfl, hy, hv⟩ := chars_eq_cons_iff.1 hv
    obtain rfl := chars_eq_nil_iff.1 hv
    refine (lexeme_group_iff hg).2 ⟨y.stop, ?_, by simp⟩
    rw [List.append_assoc, closeGroup_append inside]
    exact closeGroup_closing_zero hy
  | openGroup inside =>
    obtain ⟨hg, rfl⟩ := List.cons.inj ht
    obtain rfl := chars_eq_nil_iff.1 hr
    refine (lexeme_group_iff hg).2 ⟨_, ?_, rfl⟩
    rw [closeGroup_append inside]
    exact closeGroup_nil
  | char noQuote noGroup noComment =>
    obtain ⟨rfl, hu⟩ := List.cons.inj ht
    obtain rfl := chars_eq_nil_iff.1 hu
    rw [← hr, ← chars_cons] at noComment
    exact lexeme_char noQuote noGroup noComment

/-- What is read is a word. -/
theorem exists_word_of_lexeme (h : lexeme lineComments g gs = .ok (l, rest)) :
    ∃ u, gs = u ++ rest ∧ Word lineComments l.shape (chars (g :: u)) (chars rest) ∧
      l = ⟨l.shape, g.start, endOf g.stop u⟩ := by
  by_cases hc : StartsComment lineComments (chars (g :: gs))
  · obtain ⟨hg, x, hs, rfl, hx | ⟨hx, hl⟩⟩ := startsComment_iff.1 hc
    · obtain ⟨p, hread, rfl⟩ := (lexeme_block_comment_iff hg hx).1 h
      obtain ⟨body, y, z, rfl, hy, hz, rfl, hfirst⟩ := exists_of_closeComment hread
      refine ⟨x :: (body ++ [y, z]), by simp, ?_, by simp⟩
      have hw : Word lineComments .comment _ (chars rest) := .blockComment hfirst
      simpa [hg, hx, hy, hz] using hw
    · rw [lexeme_line_comment _ hg hx hl] at h
      cases h
      obtain ⟨body, hhs, hline, hend, hp⟩ := exists_of_closeLineComment (rfl : closeLineComment x.stop hs = _)
      refine ⟨x :: body, by rw [List.cons_append, ← hhs], ?_, by simp [hp]⟩
      have hw := Word.lineComment hl hline hend
      simpa [hg, hx] using hw
  · cases hq : isQuote g.char with
    | true =>
      obtain ⟨p, hread, rfl⟩ := (lexeme_string_iff hq).1 h
      obtain ⟨u, rfl, htext, rfl⟩ := exists_stringText_of_closeString hq hread
      exact ⟨u, rfl, .string htext, rfl⟩
    | false =>
      by_cases hg : g.char = '('
      · obtain ⟨p, hread, rfl⟩ := (lexeme_group_iff hg).1 h
        obtain ⟨body, after, n, rfl, hbody, hend⟩ := exists_groupEnd 0 gs
        rw [closeGroup_append hbody] at hread
        cases hend with
        | @closing y after hy =>
          rw [closeGroup_closing_zero hy, Option.some.injEq, Prod.mk.injEq] at hread
          obtain ⟨rfl, rfl⟩ := hread
          refine ⟨body ++ [y], by simp, ?_, by simp⟩
          have hw : Word lineComments .group _ (chars after) := .group hbody
          simpa [hg, hy] using hw
        | last =>
          rw [closeGroup_nil, Option.some.injEq, Prod.mk.injEq] at hread
          obtain ⟨rfl, rfl⟩ := hread
          refine ⟨body, rfl, ?_, rfl⟩
          have hw : Word lineComments .group _ _ := .openGroup hbody
          simpa [hg] using hw
        | openString _ hquote hnone =>
          rw [closeGroup_quote hquote, hnone] at hread
          cases hread
      · rw [lexeme_char hq hg hc] at h
        cases h
        exact ⟨[], rfl, .char hq hg (by simpa using hc), rfl⟩

/-- A fault is met where a word starts that does not end. -/
theorem lexeme_eq_error_iff : lexeme lineComments g gs = .error fault ↔ Unended fault (chars (g :: gs)) := by
  constructor
  · intro h
    by_cases hc : StartsComment lineComments (chars (g :: gs))
    · obtain ⟨hg, x, hs, rfl, hx | ⟨hx, hl⟩⟩ := startsComment_iff.1 hc
      · cases hread : closeComment hs with
        | none =>
          have hf : fault = .openComment := by simpa [lexeme, hg, hx, hread, eq_comm] using h
          rw [hf, chars_cons, chars_cons, hg, hx]
          exact .comment (closeComment_eq_none_iff.1 hread)
        | some read => simp [lexeme, hg, hx, hread] at h
      · rw [lexeme_line_comment _ hg hx hl] at h
        cases h
    · cases hq : isQuote g.char with
      | true =>
        have hs : g.char ≠ '/' := fun hs => absurd hq (by rw [hs]; decide)
        cases hread : closeString g.char gs with
        | none =>
          have hf : fault = .openString := by simpa [lexeme, hs, hq, hread, eq_comm] using h
          rw [hf]
          exact .string ((closeString_eq_none_iff hq).1 hread)
        | some read => simp [lexeme, hs, hq, hread] at h
      | false =>
        by_cases hg : g.char = '('
        · cases hread : closeGroup 0 none g.stop gs with
          | some read => simp [lexeme, hg, isQuote, hread] at h
          | none =>
            have hf : fault = .openString := by simpa [lexeme, hg, isQuote, hread, eq_comm] using h
            obtain ⟨body, rest, n, hgs, hbody, hopen⟩ := closeGroup_eq_none_iff.1 hread
            rw [hf, chars_cons, hg, hgs]
            exact .group hbody hopen
        · rw [lexeme_char hq hg hc] at h
          cases h
  · intro h
    generalize ht : chars (g :: gs) = text at h
    rw [chars_cons] at ht
    cases h with
    | comment noEnd =>
      obtain ⟨hg, hu⟩ := List.cons.inj ht
      obtain ⟨x, v, rfl, hx, rfl⟩ := chars_eq_cons_iff.1 hu
      simp [lexeme, hg, hx, closeComment_eq_none_iff.2 noEnd]
    | string openString =>
      rw [← ht, ← chars_cons] at openString
      have hq : isQuote g.char = true := by simpa using openString.1
      have hs : g.char ≠ '/' := fun hs => absurd hq (by rw [hs]; decide)
      simp [lexeme, hs, hq, (closeString_eq_none_iff hq).2 openString]
    | group inside openString =>
      obtain ⟨hg, hu⟩ := List.cons.inj ht
      have hread : closeGroup 0 none g.stop gs = none :=
        closeGroup_eq_none_iff.2 ⟨_, _, _, hu, inside, openString⟩
      simp [lexeme, hg, isQuote, hread]

end Lexeme

end AbbrevSite.Sheet
