import AbbrevSite.Proofs.Sheet.Scan

/-! Runs of the stylesheet reader. Each step is one of five; only braces change how many blocks are open,
so whether a row of lexemes can be read depends on its braces alone, and blocks that stay open around a
row have no part in reading it. -/
namespace AbbrevSite.Sheet

/-- The number of open blocks after a row of lexemes. None if one is closed that is not open. -/
def nest : Nat → List Lexeme → Option Nat
  | n, [] => some n
  | n, l :: ls =>
    if l.shape = .char '{' then nest (n + 1) ls
    else if l.shape = .char '}' then
      match n with
      | 0 => none
      | n + 1 => nest n ls
    else nest n ls

section Nest

variable {l : Lexeme} {ls xs ys : List Lexeme} {m n : Nat}

@[simp] lemma nest_nil : nest n [] = some n := rfl

lemma nest_opening (h : l.shape = .char '{') : nest n (l :: ls) = nest (n + 1) ls := by
  simp [nest, h]

lemma nest_closing_zero (h : l.shape = .char '}') : nest 0 (l :: ls) = none := by
  simp [nest, h]

lemma nest_closing_succ (h : l.shape = .char '}') : nest (n + 1) (l :: ls) = nest n ls := by
  simp [nest, h]

lemma nest_other (h : l.shape ≠ .char '{') (h' : l.shape ≠ .char '}') :
    nest n (l :: ls) = nest n ls := by
  simp [nest, h, h']

theorem nest_append : nest n (xs ++ ys) = (nest n xs).bind fun m => nest m ys := by
  induction xs generalizing n with
  | nil => rfl
  | cons l xs ih =>
    by_cases ho : l.shape = .char '{'
    · rw [List.cons_append, nest_opening ho, nest_opening ho, ih]
    · by_cases hc : l.shape = .char '}'
      · cases n with
        | zero => rw [List.cons_append, nest_closing_zero hc, nest_closing_zero hc]; rfl
        | succ n => rw [List.cons_append, nest_closing_succ hc, nest_closing_succ hc, ih]
      · rw [List.cons_append, nest_other ho hc, nest_other ho hc, ih]

lemma nest_append_of (h : nest n xs = some m) : nest n (xs ++ ys) = nest m ys := by
  rw [nest_append, h]
  rfl

lemma nest_of_no_closing (h : ∀ l ∈ ls, l.shape ≠ .char '}') :
    ∃ k, nest n ls = some (n + k) := by
  induction ls generalizing n with
  | nil => exact ⟨0, rfl⟩
  | cons l ls ih =>
    have hls : ∀ l ∈ ls, l.shape ≠ .char '}' := fun x hx => h x (by simp [hx])
    by_cases ho : l.shape = .char '{'
    · obtain ⟨k, hk⟩ := ih (n := n + 1) hls
      exact ⟨k + 1, by rw [nest_opening ho, hk]; congr 1; omega⟩
    · obtain ⟨k, hk⟩ := ih (n := n) hls
      exact ⟨k, by rw [nest_other ho (h l (by simp)), hk]⟩

lemma nest_of_no_brace (ho : ∀ l ∈ ls, l.shape ≠ .char '{')
    (hc : ∀ l ∈ ls, l.shape ≠ .char '}') : nest n ls = some n := by
  induction ls with
  | nil => rfl
  | cons l ls ih =>
    rw [nest_other (ho l (by simp)) (hc l (by simp))]
    exact ih (fun x hx => ho x (by simp [hx])) fun x hx => hc x (by simp [hx])

end Nest

namespace Reading

variable {d : Document} {r r' s t : Reading} {l : Lexeme} {ls xs ys : List Lexeme}

def depth (r : Reading) : Nat := r.builder.enclosing.length

def closedBy (l : Lexeme) (n : Node) : Node :=
  { n with kind := n.kind.close (charToken '}' l), span := .between n.span.start l.stop }

def afterClosing (d : Document) (r : Reading) (l : Lexeme) : Reading :=
  let s := r.endStatement d none
  { s with builder := s.builder.leave (closedBy l) }

/-- What a lexeme can do. -/
inductive Step (d : Document) (r : Reading) (l : Lexeme) : Reading → Prop
  | comment (shape : l.shape = .comment) :
      Step d r l { r with
        comments := .between l.start l.stop :: r.comments, prelude := r.prelude.map (·.add l) }
  | opening (shape : l.shape = .char '{') : Step d r l (r.openBlock d l)
  | closing (shape : l.shape = .char '}') (inside : r.builder.enclosing ≠ []) :
      Step d r l (r.afterClosing d l)
  | semicolon (shape : l.shape = .char ';') :
      Step d r l (r.endStatement d (some (charToken ';' l)))
  | other (noComment : l.shape ≠ .comment) (noOpening : l.shape ≠ .char '{')
      (noClosing : l.shape ≠ .char '}') (noSemicolon : l.shape ≠ .char ';') :
      Step d r l (r.addToPrelude l)

lemma closeBlock_of_ne_nil (h : r.builder.enclosing ≠ []) :
    r.closeBlock d l = .ok (r.afterClosing d l) := by
  unfold closeBlock afterClosing
  obtain ⟨o, rest, ho⟩ := List.exists_cons_of_ne_nil h
  simp only [endStatement_enclosing, ho]
  rfl

lemma closeBlock_of_nil (h : r.builder.enclosing = []) :
    r.closeBlock d l = .error (.malformed Fault.strayBrace.complaint l.start) := by
  unfold closeBlock
  simp only [endStatement_enclosing, h]

theorem step_iff : step d r l = .ok s ↔ Step d r l s := by
  constructor
  · intro h
    unfold step at h
    split at h
    · rename_i hs
      cases h
      exact .comment hs
    · rename_i hs
      cases h
      exact .opening hs
    · rename_i hs
      by_cases hn : r.builder.enclosing = []
      · rw [closeBlock_of_nil hn] at h
        cases h
      · rw [closeBlock_of_ne_nil hn] at h
        cases h
        exact .closing hs hn
    · rename_i hs
      cases h
      exact .semicolon hs
    · rename_i h1 h2 h3 h4
      cases h
      exact .other h1 h2 h3 h4
  · intro h
    cases h with
    | comment hs => simp [step, hs]
    | opening hs => simp [step, hs]
    | closing hs hn => simp [step, hs, closeBlock_of_ne_nil hn]
    | semicolon hs => simp [step, hs]
    | other h1 h2 h3 h4 =>
      unfold step
      split <;> first | contradiction | rfl

lemma Step.unique (h : Step d r l s) (h' : Step d r l t) : s = t :=
  Except.ok.inj ((step_iff.2 h).symm.trans (step_iff.2 h'))

lemma Step.eq_afterClosing (h : Step d r l s) (hl : l.shape = .char '}') : s = r.afterClosing d l := by
  cases h with
  | closing => rfl
  | comment hs => simp [hl] at hs
  | opening hs => simp [hl] at hs
  | semicolon hs => simp [hl] at hs
  | other _ _ hs _ => exact absurd hl hs

lemma endStatement_depth (terminator : Option Token) :
    (r.endStatement d terminator).depth = r.depth := by simp [depth]

lemma addToPrelude_builder : (r.addToPrelude l).builder = r.builder := by
  unfold addToPrelude
  split
  · rfl
  · split <;> rfl
  · rfl

lemma addToPrelude_comments : (r.addToPrelude l).comments = r.comments := by
  unfold addToPrelude
  split
  · rfl
  · split <;> rfl
  · rfl

lemma afterClosing_of_cons {o : OpenNode} {rest : List OpenNode}
    (h : r.builder.enclosing = o :: rest) :
    r.afterClosing d l =
      { (r.endStatement d none) with
        builder := ⟨(r.endStatement d none).builder.count,
          (closedBy l o.node, .ofReversed (r.endStatement d none).builder.finished) :: o.before,
          rest⟩ } := by
  simp only [afterClosing, Builder.leave, endStatement_enclosing, h]

lemma Step.nest (h : Step d r l s) : Sheet.nest r.depth [l] = some s.depth := by
  cases h with
  | comment hs => rw [nest_other (by simp [hs]) (by simp [hs])]; rfl
  | opening hs => rw [nest_opening hs]; rfl
  | closing hs hn =>
    obtain ⟨o, rest, ho⟩ := List.exists_cons_of_ne_nil hn
    have hr : r.depth = rest.length + 1 := by simp [depth, ho]
    rw [hr, nest_closing_succ hs, afterClosing_of_cons ho]
    rfl
  | semicolon hs =>
    rw [nest_other (by simp [hs]) (by simp [hs]), endStatement_depth]
    rfl
  | other _ h2 h3 _ =>
    rw [nest_other h2 h3, depth, depth, addToPrelude_builder]
    rfl

lemma exists_step {n : Nat} (h : Sheet.nest r.depth [l] = some n) : ∃ s, Step d r l s := by
  by_cases h1 : l.shape = .comment
  · exact ⟨_, .comment h1⟩
  · by_cases h2 : l.shape = .char '{'
    · exact ⟨_, .opening h2⟩
    · by_cases h3 : l.shape = .char '}'
      · refine ⟨_, .closing h3 fun hn => ?_⟩
        have hr : r.depth = 0 := by simp [depth, hn]
        rw [hr, nest_closing_zero h3] at h
        cases h
      · by_cases h4 : l.shape = .char ';'
        · exact ⟨_, .semicolon h4⟩
        · exact ⟨_, .other h1 h2 h3 h4⟩

def run (d : Document) (r : Reading) (ls : List Lexeme) : Except Failure Reading :=
  ls.foldlM (step d) r

@[simp] lemma run_nil : run d r [] = .ok r := rfl

theorem run_cons : run d r (l :: ls) = .ok t ↔ ∃ s, Step d r l s ∧ run d s ls = .ok t := by
  simp only [← step_iff]
  show (step d r l >>= fun s => run d s ls) = .ok t ↔ _
  cases step d r l with
  | error failure => simp [bind, Except.bind]
  | ok s => simp [bind, Except.bind]

theorem run_append :
    run d r (xs ++ ys) = .ok t ↔ ∃ s, run d r xs = .ok s ∧ run d s ys = .ok t := by
  induction xs generalizing r with
  | nil => simp
  | cons l xs ih =>
    simp only [List.cons_append, run_cons, ih]
    constructor
    · rintro ⟨a, ha, b, hb, ht⟩
      exact ⟨b, ⟨a, ha, hb⟩, ht⟩
    · rintro ⟨b, ⟨a, ha, hb⟩, ht⟩
      exact ⟨a, ha, b, hb, ht⟩

theorem run_concat : run d r (ls ++ [l]) = .ok t ↔ ∃ s, run d r ls = .ok s ∧ Step d s l t := by
  simp [run_append, run_cons]

theorem run_nest (h : run d r ls = .ok s) : Sheet.nest r.depth ls = some s.depth := by
  induction ls generalizing r with
  | nil =>
    cases h
    rfl
  | cons l ls ih =>
    obtain ⟨a, ha, hls⟩ := run_cons.1 h
    rw [← List.singleton_append, nest_append_of ha.nest, ih hls]

theorem exists_run {n : Nat} (h : Sheet.nest r.depth ls = some n) : ∃ s, run d r ls = .ok s := by
  induction ls generalizing r with
  | nil => exact ⟨r, rfl⟩
  | cons l ls ih =>
    rw [← List.singleton_append, nest_append] at h
    obtain ⟨m, hm, hls⟩ := Option.bind_eq_some_iff.1 h
    obtain ⟨a, ha⟩ := exists_step (d := d) hm
    rw [← Option.some_inj.1 (ha.nest.symm.trans hm)] at hls
    obtain ⟨s, hs⟩ := ih hls
    exact ⟨s, run_cons.2 ⟨a, ha, hs⟩⟩

/-- A relation between the states of readings in two documents that every operation keeps. -/
structure Simulates (d d' : Document) (R : Reading → Reading → Prop) : Prop where
  depth {r r' : Reading} : R r r' → r.depth = r'.depth
  comment {r r' : Reading} (l : Lexeme) : R r r' →
    R { r with comments := .between l.start l.stop :: r.comments, prelude := r.prelude.map (·.add l) }
      { r' with comments := .between l.start l.stop :: r'.comments, prelude := r'.prelude.map (·.add l) }
  openBlock {r r' : Reading} (l : Lexeme) : R r r' → R (r.openBlock d l) (r'.openBlock d' l)
  afterClosing {r r' : Reading} (l : Lexeme) : R r r' → R (r.afterClosing d l) (r'.afterClosing d' l)
  endStatement {r r' : Reading} (terminator : Option Token) : R r r' →
    R (r.endStatement d terminator) (r'.endStatement d' terminator)
  addToPrelude {r r' : Reading} (l : Lexeme) : R r r' → R (r.addToPrelude l) (r'.addToPrelude l)

section Simulates

variable {d' : Document} {R : Reading → Reading → Prop}

theorem Simulates.step (hR : Simulates d d' R) (h : Step d r l s) (hr : R r r') :
    ∃ s', Step d' r' l s' ∧ R s s' := by
  cases h with
  | comment hs => exact ⟨_, .comment hs, hR.comment l hr⟩
  | opening hs => exact ⟨_, .opening hs, hR.openBlock l hr⟩
  | closing hs hn =>
    refine ⟨_, .closing hs fun hn' => hn ?_, hR.afterClosing l hr⟩
    have hd := hR.depth hr
    rw [Reading.depth, Reading.depth, hn', List.length_nil] at hd
    exact List.length_eq_zero_iff.1 hd
  | semicolon hs => exact ⟨_, .semicolon hs, hR.endStatement _ hr⟩
  | other h1 h2 h3 h4 => exact ⟨_, .other h1 h2 h3 h4, hR.addToPrelude l hr⟩

theorem Simulates.run (hR : Simulates d d' R) (h : run d r ls = .ok s) (hr : R r r') :
    ∃ s', Reading.run d' r' ls = .ok s' ∧ R s s' := by
  induction ls generalizing r r' with
  | nil =>
    cases h
    exact ⟨r', rfl, hr⟩
  | cons l ls ih =>
    obtain ⟨a, hstep, hls⟩ := run_cons.1 h
    obtain ⟨a', hstep', ha⟩ := hR.step hstep hr
    obtain ⟨s', hs', hss⟩ := ih hls ha
    exact ⟨s', run_cons.2 ⟨a', hstep', hs'⟩, hss⟩

end Simulates

/-- The same state inside further blocks. -/
def under (base : List OpenNode) (r : Reading) : Reading :=
  { r with builder := { r.builder with enclosing := r.builder.enclosing ++ base } }

@[simp] lemma under_prelude (base : List OpenNode) : (r.under base).prelude = r.prelude := rfl

lemma endStatement_under (base : List OpenNode) (terminator : Option Token) :
    (r.under base).endStatement d terminator = (r.endStatement d terminator).under base := by
  unfold endStatement
  rw [under_prelude]
  split <;> rfl

lemma addToPrelude_under (base : List OpenNode) :
    (r.under base).addToPrelude l = (r.addToPrelude l).under base := by
  unfold addToPrelude
  rw [under_prelude]
  split
  · rfl
  · split <;> rfl
  · rfl

/-- A step that is possible without the blocks around is the same inside them. -/
theorem Step.under (base : List OpenNode) (h : Step d r l s) :
    Step d (r.under base) l (s.under base) := by
  cases h with
  | comment hs => exact .comment hs
  | opening hs => exact .opening hs
  | closing hs hn =>
    obtain ⟨o, rest, ho⟩ := List.exists_cons_of_ne_nil hn
    have ho' : (r.under base).builder.enclosing = o :: (rest ++ base) := by
      simp [Reading.under, ho]
    have he : (r.afterClosing d l).under base = (r.under base).afterClosing d l := by
      rw [afterClosing_of_cons ho, afterClosing_of_cons ho', endStatement_under]
      rfl
    rw [he]
    exact .closing hs (by simp [ho'])
  | semicolon hs =>
    rw [← endStatement_under]
    exact .semicolon hs
  | other h1 h2 h3 h4 =>
    rw [← addToPrelude_under]
    exact .other h1 h2 h3 h4

theorem run_under (base : List OpenNode) (h : run d r ls = .ok s) :
    run d (r.under base) ls = .ok (s.under base) := by
  induction ls generalizing r with
  | nil =>
    cases h
    rfl
  | cons l ls ih =>
    obtain ⟨a, ha, hls⟩ := run_cons.1 h
    exact run_cons.2 ⟨_, ha.under base, ih hls⟩

end Reading
lemma toOption_eq_some {e : Except Failure Tree} {t : Tree} : e.toOption = some t ↔ e = .ok t := by
  cases e <;> simp [Except.toOption]

/-- What can be read is a row of lexemes without fault that can be run. -/
theorem parse_eq_ok_iff {c : Cursor} {dialect : Dialect} {t : Tree} :
    parse c dialect = .ok t ↔
      ∃ ls r, lexemes dialect.hasLineComments (c.document.glyphs c.position c.window.stop) =
          (ls, none) ∧ Reading.run c.document .start ls = .ok r ∧
        r.finish c.document c.window (if c.atEnd then c.position else c.window.stop) = t := by
  rw [parse_eq_parseLexemes, parseLexemes, Reading.readLexemes]
  unfold Cursor.ahead
  generalize lexemes dialect.hasLineComments
    (c.document.glyphs c.position c.window.stop) = read
  obtain ⟨ls, fault⟩ := read
  cases hr : Reading.run c.document .start ls with
  | error failure =>
    have hr' : ls.foldlM (Reading.step c.document) .start = .error failure := hr
    simp only [hr', reduceCtorEq, false_iff]
    rintro ⟨_, r, he, hok, -⟩
    cases he
    rw [hr] at hok
    cases hok
  | ok r =>
    have hr' : ls.foldlM (Reading.step c.document) .start = .ok r := hr
    cases fault with
    | some fault => simp [hr']
    | none => simp [hr', hr]

end AbbrevSite.Sheet
