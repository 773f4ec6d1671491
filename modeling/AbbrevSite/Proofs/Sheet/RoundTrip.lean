import AbbrevSite.Proofs.Sheet.Written
import AbbrevSite.Proofs.Sheet.Statement
import AbbrevSite.Proofs.Tree.Pushed

/-! Reading undoes writing: a text that was written out for a row of statements and blocks is read as that row, in every
dialect of stylesheets and with any blanks between them. -/
namespace AbbrevSite.Sheet

open Document

variable {d : Document} {x : Position} {c : Char} {cs ds : List Char}

/-- A character that is a lexeme of its own, part of a prelude and not dropped with the end of a line. -/
def IsOrdinary (c : Char) : Prop := IsPlain c ∧ ¬ IsDelimiter c ∧ c ≠ '\r'

lemma isOrdinary_iff : IsOrdinary c ↔ c ∉ ['{', '}', ';', '(', '/', '"', '\'', '\r'] := by
  simp only [IsOrdinary, IsPlain, IsDelimiter, List.mem_cons, List.not_mem_nil, or_false]
  tauto

instance : DecidablePred IsOrdinary := fun _ => decidable_of_iff' _ isOrdinary_iff

lemma isOrdinary_of_isAtNameChar (h : isAtNameChar c = true) : IsOrdinary c := by
  rw [isOrdinary_iff]
  intro hc
  have hnone : ['{', '}', ';', '(', '/', '"', '\'', '\r'].all (!isAtNameChar ·) = true := by decide
  simpa [h] using List.all_eq_true.1 hnone c hc

namespace Header

variable {h : Header}

lemma exists_print_eq (hh : h.WellFormed) : ∃ c cs, h.print = c :: cs ∧ CharClass.isBlank c = false := by
  cases h with
  | declaration name value =>
    obtain ⟨c, tail, rfl, hb⟩ := hh.1.exists_eq_cons
    exact ⟨c, _, rfl, hb⟩
  | rule selector => exact hh.1.exists_eq_cons
  | atRule name expression => exact ⟨'@', _, rfl, by decide⟩

lemma isOrdinary (hh : h.WellFormed) (hc : c ∈ h.print) : IsOrdinary c := by
  have hphrase {cs : List Char} (h : IsPhrase cs) (hc : c ∈ cs) : IsOrdinary c := isOrdinary_iff.2 (h.plain c hc)
  cases h with
  | declaration name value =>
    rw [print, List.mem_append, List.mem_cons, List.mem_cons] at hc
    rcases hc with hc | rfl | rfl | hc
    · exact hphrase hh.1 hc
    · decide
    · decide
    · exact hphrase hh.2.1 hc
  | rule selector => exact hphrase hh.1 hc
  | atRule name expression =>
    rw [print, List.mem_cons, List.mem_append, List.mem_cons] at hc
    rcases hc with rfl | hc | rfl | hc
    · decide
    · exact isOrdinary_of_isAtNameChar (List.all_eq_true.1 hh.1 c hc)
    · decide
    · exact hphrase hh.2 hc

end Header

lemma tokenBetween_along (h : d.Spells x cs) : tokenBetween d x (x.along cs) = .along x cs := by
  unfold tokenBetween
  rw [Span.between_along]
  exact congrArg (Token.mk _) h.textOf_along

lemma charToken_along : charToken c ⟨.char c, x, x.advance c⟩ = .along x [c] := by
  unfold charToken
  rw [show x.advance c = x.along [c] from rfl, Span.between_along]
  rfl

namespace Prelude.OfHeader

variable {h : Header} {p : Prelude}

lemma add_space (hp : OfHeader h x p) {y : Position} : OfHeader h x (p.add ⟨.char ' ', y, y.advance ' '⟩) := by
  rw [Prelude.add_space]
  exact ⟨hp.start, hp.stop, by cases h <;> exact hp.parts⟩

section AtRule

variable {name expression : List Char}

lemma atRule (hp : OfHeader (.atRule name expression) x p) (hd : d.Spells x (Header.atRule name expression).print) :
    p.atStop = some (x.along ('@' :: name)) ∧ tokenBetween d p.start (x.along ('@' :: name)) = .along x ('@' :: name) ∧
      p.expression d = some (Header.expressionAt x name expression) := by
  obtain ⟨hstart, hstop, hat, hfirst⟩ := hp
  have hprint : (Header.atRule name expression).print = ('@' :: (name ++ [' '])) ++ expression := by simp [Header.print]
  have hname : (Header.atRule name expression).print = ('@' :: name) ++ (' ' :: expression) := by simp [Header.print]
  refine ⟨hat, ?_, ?_⟩
  · rw [hname] at hd
    rw [hstart, tokenBetween_along hd.left]
  · rw [hprint] at hd hstop
    rw [Prelude.expression, hfirst, hstop, Position.along_append, Option.map_some, tokenBetween_along hd.right]
    rfl

end AtRule

/-- The statement of a header in front of a semicolon. -/
lemma statement (hp : OfHeader h x p) (hs : h.IsStatement) (hd : d.Spells x h.print) :
    p.statement d (some (.along (x.along h.print) [';'])) = h.statementAt x := by
  cases h with
  | rule selector => exact hs.elim
  | atRule name expression =>
    obtain ⟨hat, hname, hexpression⟩ := hp.atRule hd
    rw [Prelude.statement, hat]
    simp only [hname, hexpression]
    rfl
  | declaration name value =>
    obtain ⟨hstart, hstop, hat, hname, hcolon, hvalue⟩ := hp
    have hprint : (Header.declaration name value).print = (name ++ [':', ' ']) ++ value := by simp [Header.print]
    have hseparator : (⟨.between (x.along name) ⟨(x.along name).line, (x.along name).column + 1⟩, ":"⟩ : Token) =
        .along (x.along name) [':'] := charToken_along (c := ':')
    have hname' : tokenBetween d x (x.along name) = .along x name := tokenBetween_along hd.left
    rw [hprint] at hd hstop
    have hvalue' := tokenBetween_along hd.right
    rw [← Position.along_append] at hvalue'
    rw [Prelude.statement, hat]
    simp only [hstart, hname, hcolon, hvalue, hstop, Option.map_some, Option.getD_some, hseparator, hname', hvalue']
    rfl

lemma block (hp : OfHeader h x p) (ho : h.IsOpening) (hd : d.Spells x h.print) (opening : Token) :
    p.block d opening = h.blockAt x opening none := by
  cases h with
  | declaration name value => exact ho.elim
  | atRule name expression =>
    obtain ⟨hat, hname, hexpression⟩ := hp.atRule hd
    rw [Prelude.block, hat]
    simp only [hname, hexpression]
    rfl
  | rule selector =>
    obtain ⟨hstart, hstop, hat⟩ := hp
    rw [Prelude.block, hat]
    simp only [hstart, hstop, tokenBetween_along hd]
    rfl

end Prelude.OfHeader

namespace Reading

variable {r s : Reading} {l : Lexeme} {ls ms : List Lexeme} {h : Header} {b : Builder} {comments : List Span}

lemma run_of_step (h : Step d r l s) : run d r (l :: ls) = run d s ls := by
  show (step d r l >>= fun s => run d s ls) = _
  rw [step_iff.2 h]
  rfl

lemma run_append_of (h : run d r ls = .ok s) : run d r (ls ++ ms) = run d s ms := by
  unfold run at *
  rw [List.foldlM_append, h]
  rfl

lemma run_gap (hcs : cs.all CharClass.isBlank = true) (hr : r.prelude = none) : run d r (letters x cs) = .ok r := by
  induction cs generalizing x with
  | nil => rfl
  | cons c cs ih =>
    rw [List.all_cons, Bool.and_eq_true] at hcs
    have hblank : r.addToPrelude ⟨.char c, x, x.advance c⟩ = r := by
      unfold addToPrelude
      rw [hr]
      exact if_pos hcs.1
    rw [letters_cons, run_of_step (step_char (isPlain_of_isBlank hcs.1).2), hblank, ih hcs.2]

lemma run_prelude {p : Prelude} (hcs : ∀ c ∈ cs, ¬ IsDelimiter c) :
    run d ⟨b, comments, some p⟩ (letters x cs) = .ok ⟨b, comments, some (p.reads x cs)⟩ := by
  induction cs generalizing x p with
  | nil => rfl
  | cons c cs ih =>
    rw [List.forall_mem_cons] at hcs
    rw [letters_cons, run_of_step (step_char hcs.1), addToPrelude_of_some rfl, ih hcs.2, Prelude.reads_cons]

lemma run_printHeader (hh : h.WellFormed) :
    run d ⟨b, comments, none⟩ (letters x h.print) = .ok ⟨b, comments, some (.ofChars x h.print)⟩ := by
  have hordinary (c : Char) (hc : c ∈ h.print) : ¬ IsDelimiter c := (Header.isOrdinary hh hc).2.1
  obtain ⟨c, cs, hprint, hblank⟩ := Header.exists_print_eq hh
  rw [hprint] at hordinary ⊢
  rw [List.forall_mem_cons] at hordinary
  have hfirst : addToPrelude ⟨b, comments, none⟩ ⟨.char c, x, x.advance c⟩ =
      ⟨b, comments, some (.ofFirst ⟨.char c, x, x.advance c⟩)⟩ := if_neg (by simp [hblank])
  rw [letters_cons, run_of_step (step_char hordinary.1), hfirst, run_prelude hordinary.2]
  rfl

lemma run_printStatement (hh : h.WellFormed) (hs : h.IsStatement) (hd : d.Spells x h.print) :
    run d ⟨b, comments, none⟩ (letters x (h.print ++ [';'])) =
      .ok ⟨b.leaf (h.statementAt x) (.along x (h.print ++ [';'])), comments, none⟩ := by
  have hp := Prelude.ofHeader_print (x := x) hh
  rw [letters_append, run_append_of (run_printHeader hh), letters_cons, run_of_step (.semicolon rfl), charToken_along]
  have hspan : (Prelude.ofChars x h.print).statementSpan (some (.along (x.along h.print) [';'])) =
      .along x (h.print ++ [';']) := by
    show Span.between (Prelude.ofChars x h.print).start ((x.along h.print).along [';']) = _
    rw [hp.start, ← Position.along_append, Span.between_along]
  show Except.ok (⟨b.leaf _ _, comments, none⟩ : Reading) = _
  rw [hp.statement hs hd, hspan]

lemma run_printOpening (hh : h.WellFormed) (ho : h.IsOpening) (hd : d.Spells x h.print) :
    run d ⟨b, comments, none⟩ (letters x (h.print ++ [' ', '{'])) =
      .ok ⟨b.enter (h.blockAt x (.along (x.along (h.print ++ [' '])) ['{']) none) (.along x (h.print ++ [' ', '{'])),
        comments, none⟩ := by
  have hp := (Prelude.ofHeader_print (x := x) hh).add_space (y := x.along h.print)
  have hspace : ¬ IsDelimiter ' ' := by simp [IsDelimiter]
  have hplace : (x.along h.print).advance ' ' = x.along (h.print ++ [' ']) := by rw [Position.along_append]; rfl
  rw [letters_append, run_append_of (run_printHeader hh), letters_cons, run_of_step (step_char hspace),
    addToPrelude_of_some rfl, letters_cons, run_of_step (.opening rfl), letters_nil, run_nil, openBlock]
  dsimp only [Option.getD_some]
  rw [charToken_along, hp.block ho hd, hp.start, hplace]
  refine congrArg (fun s => Except.ok (⟨b.enter _ s, comments, none⟩ : Reading)) ?_
  have hend : (x.along (h.print ++ [' '])).advance '{' = x.along (h.print ++ [' ', '{']) := by
    rw [Position.along_append, Position.along_append]
    rfl
  rw [hend, Span.between_along]

lemma run_printClosing (h : b.enclosing ≠ []) : run d ⟨b, comments, none⟩ (letters x ['}']) =
    .ok ⟨b.leave (closedBy ⟨.char '}', x, x.advance '}'⟩), comments, none⟩ := by
  rw [letters_cons, run_of_step (.closing rfl h)]
  rfl

end Reading

namespace Source

lemma size_forest (s : Source) (n : Nat) (x : Position) : (s.forest n x).size = s.size := by
  induction s generalizing n x with
  | nil => rfl
  | statement gap header next ih => simp [forest, Forest.size, size, ih]
  | block gap header inner next ih ih' => simp [forest, Forest.size, size, ih, ih']

lemma closedBy_blockAt (n : Nat) (x : Position) (header : Header) (content : List Char) :
    let y := x.along (header.print ++ ([' ', '{'] ++ content))
    Reading.closedBy ⟨.char '}', y, y.advance '}'⟩
      ⟨n, header.blockAt x (.along (x.along (header.print ++ [' '])) ['{']) none,
        .along x (header.print ++ [' ', '{'])⟩ =
      closedAt n x header content := by
  intro y
  have hkind (opening closing : Token) :
      (header.blockAt x opening none).close closing = header.blockAt x opening (some closing) := by
    cases header <;> rfl
  have hstop : y.advance '}' = x.along (header.print ++ ([' ', '{'] ++ (content ++ ['}']))) := by
    show y.along ['}'] = _
    simp only [y, ← Position.along_append, List.append_assoc]
  unfold Reading.closedBy closedAt
  refine congrArg₂ (Node.mk n) ?_ ?_
  · rw [hkind, charToken_along]
  · show Span.between x (y.advance '}') = _
    rw [hstop, Span.between_along]

/-- Reading a row of statements and blocks adds their trees. -/
theorem run_print {s : Source} (hs : s.WellFormed) (hd : d.Spells x s.print) (b : Builder) (comments : List Span) :
    Reading.run d ⟨b, comments, none⟩ (letters x s.print) = .ok ⟨b.push (s.forest b.count x), comments, none⟩ := by
  induction s generalizing x b with
  | nil gap => exact Reading.run_gap hs rfl
  | statement gap header next ih =>
    obtain ⟨⟨hgap, hheader, hstatement⟩, hnext⟩ := hs
    have hprint : print (statement gap header next) = gap ++ ((header.print ++ [';']) ++ next.print) := by simp [print]
    rw [hprint] at hd ⊢
    rw [letters_append, Reading.run_append_of (Reading.run_gap hgap rfl), letters_append,
      Reading.run_append_of (Reading.run_printStatement hheader hstatement hd.right.left.left),
      ih hnext hd.right.right, Builder.push_leaf, ← Position.along_append]
    rfl
  | block gap header inner next ih ih' =>
    obtain ⟨⟨hgap, hheader, hopening⟩, hinner, hnext⟩ := hs
    have hprint : print (block gap header inner next) =
        gap ++ ((header.print ++ [' ', '{']) ++ (inner.print ++ (['}'] ++ next.print))) := by simp [print]
    have hplace : ((x.along gap).along (header.print ++ [' ', '{'])).along inner.print =
        (x.along gap).along (header.print ++ ([' ', '{'] ++ inner.print)) := by
      simp only [← Position.along_append, List.append_assoc]
    rw [hprint] at hd ⊢
    have hinner' := ih hinner hd.right.right.left
      (b.enter (header.blockAt (x.along gap) (.along ((x.along gap).along (header.print ++ [' '])) ['{']) none)
        (.along (x.along gap) (header.print ++ [' ', '{'])))
    rw [letters_append, Reading.run_append_of (Reading.run_gap hgap rfl), letters_append,
      Reading.run_append_of (Reading.run_printOpening hheader hopening hd.right.left.left), letters_append,
      Reading.run_append_of hinner', letters_append,
      Reading.run_append_of (Reading.run_printClosing (by simp [Builder.push, Builder.enter])),
      ih' hnext hd.right.right.right.right, Builder.push_leave, Builder.count_leave, Builder.count_push, size_forest,
      hplace, closedBy_blockAt]
    simp only [forest, Position.along_append]
    rfl

lemma exists_dropReturns_gap {gap : List Char} (hgap : gap.all CharClass.isBlank = true) (ds : List Char) :
    ∃ gap', gap'.all CharClass.isBlank = true ∧ dropReturns (gap ++ ds) = gap' ++ dropReturns ds := by
  induction gap with
  | nil => exact ⟨[], rfl, rfl⟩
  | cons c gap ih =>
    rw [List.all_cons, Bool.and_eq_true] at hgap
    obtain ⟨gap', hblank, hdrop⟩ := ih hgap.2
    rw [List.cons_append, dropReturns]
    split_ifs
    · exact ⟨gap', hblank, hdrop⟩
    · exact ⟨c :: gap', by rw [List.all_cons, hgap.1, hblank, Bool.and_self], by rw [hdrop, List.cons_append]⟩

lemma dropReturns_header {h : Header} (hh : h.WellFormed) {cs : List Char} (hcs : '\r' ∉ cs) (ds : List Char) :
    dropReturns ((h.print ++ cs) ++ ds) = (h.print ++ cs) ++ dropReturns ds := by
  refine dropReturns_append fun hc => ?_
  rcases List.mem_append.1 hc with hc | hc
  · exact (Header.isOrdinary hh hc).2.2 rfl
  · exact hcs hc

/-- Carriage returns are dropped from the blanks between statements alone. -/
theorem exists_dropReturns {s : Source} (hs : s.WellFormed) (ds : List Char) :
    ∃ s' : Source, s'.WellFormed ∧ dropReturns (s.print ++ ds) = s'.print ++ dropReturns ds ∧ s'.size = s.size ∧
      ∀ n x y, (s'.forest n x).mapNodes Node.unplaced = (s.forest n y).mapNodes Node.unplaced := by
  induction s generalizing ds with
  | nil gap =>
    obtain ⟨gap', hblank, hdrop⟩ := exists_dropReturns_gap hs ds
    exact ⟨.nil gap', hblank, hdrop, rfl, fun _ _ _ => rfl⟩
  | statement gap header next ih =>
    obtain ⟨⟨hgap, hheader, hstatement⟩, hnext⟩ := hs
    obtain ⟨next', hwell, hdrop, hsize, hforest⟩ := ih hnext ds
    obtain ⟨gap', hblank, hdrop'⟩ := exists_dropReturns_gap hgap ((header.print ++ [';']) ++ (next.print ++ ds))
    refine ⟨.statement gap' header next', ⟨⟨hblank, hheader, hstatement⟩, hwell⟩, ?_, by simp [size, hsize], ?_⟩
    · rw [dropReturns_header hheader (by simp), hdrop] at hdrop'
      simpa [print] using hdrop'
    · intro n x y
      have hnode (x y : Position) :
          (header.statementAt x).mapTokens .unplaced = (header.statementAt y).mapTokens .unplaced := by
        cases header <;> rfl
      simp only [forest, Forest.mapNodes, Node.unplaced, hnode _ (y.along gap),
        hforest _ _ (y.along (gap ++ (header.print ++ [';'])))]
  | block gap header inner next ih ih' =>
    obtain ⟨⟨hgap, hheader, hopening⟩, hinner, hnext⟩ := hs
    obtain ⟨next', hwell, hdrop, hsize, hforest⟩ := ih' hnext ds
    obtain ⟨inner', hwell', hdrop', hsize', hforest'⟩ := ih hinner ('}' :: (next.print ++ ds))
    obtain ⟨gap', hblank, hdrop''⟩ := exists_dropReturns_gap hgap
      ((header.print ++ [' ', '{']) ++ (inner.print ++ ('}' :: (next.print ++ ds))))
    refine ⟨.block gap' header inner' next', ⟨⟨hblank, hheader, hopening⟩, hwell', hwell⟩, ?_,
      by simp [size, hsize, hsize'], ?_⟩
    · have hclosing : dropReturns ('}' :: (next.print ++ ds)) = '}' :: dropReturns (next.print ++ ds) :=
        if_neg (by simp)
      rw [dropReturns_header hheader (by simp), hdrop', hclosing, hdrop] at hdrop''
      simpa [print] using hdrop''
    · intro n x y
      have hnode (x y : Position) (content content' : List Char) :
          (closedAt n x header content).unplaced = (closedAt n y header content').unplaced := by
        cases header <;> rfl
      simp only [forest, Forest.mapNodes, hsize', hnode _ (y.along gap) _ inner.print,
        hforest' _ _ (y.along (gap ++ (header.print ++ [' ', '{']))),
        hforest _ _ (y.along (gap ++ (header.print ++ ([' ', '{'] ++ (inner.print ++ ['}'])))))]

lemma isPlain_of_mem_print {s : Source} (hs : s.WellFormed) (hc : c ∈ s.print) : IsPlain c := by
  have hgap {gap : List Char} (hgap : gap.all CharClass.isBlank = true) (hc : c ∈ gap) : IsPlain c :=
    (isPlain_of_isBlank (List.all_eq_true.1 hgap c hc)).1
  induction s with
  | nil gap => exact hgap hs hc
  | statement gap header next ih =>
    rw [print, List.mem_append, List.mem_append, List.mem_cons] at hc
    rcases hc with hc | hc | rfl | hc
    · exact hgap hs.1.1 hc
    · exact (Header.isOrdinary hs.1.2.1 hc).1
    · decide
    · exact ih hs.2 hc
  | block gap header inner next ih ih' =>
    rw [print, List.mem_append, List.mem_append, List.mem_cons, List.mem_cons, List.mem_append, List.mem_cons] at hc
    rcases hc with hc | hc | rfl | rfl | hc | rfl | hc
    · exact hgap hs.1.1 hc
    · exact (Header.isOrdinary hs.1.2.1 hc).1
    · decide
    · decide
    · exact ih hs.2.1 hc
    · decide
    · exact ih' hs.2.2 hc

end Source

lemma parse?_of_spells {dialect : Dialect} (hdialect : dialect.isStylesheet = true) {s : Source} (hs : s.WellFormed)
    (hd : d.Spells .origin s.print) (hstop : Position.origin.along s.print = d.stop) :
    d.parse? dialect = some ⟨⟨0, .stylesheet, d.span⟩, s.forest 1 .origin, []⟩ := by
  have hglyphs : d.glyphs .origin d.stop = glyphsFrom .origin s.print := hstop ▸ hd.glyphs
  have hplain : d.Plain := by
    intro c hc
    rw [toList_text, hglyphs, map_char_glyphsFrom] at hc
    exact Source.isPlain_of_mem_print hs hc
  have hrow : d.row .origin d.stop = letters .origin s.print := congrArg (List.map Lexeme.ofGlyph) hglyphs
  rw [hplain.parse?_eq_some_iff hdialect, hrow]
  refine ⟨_, Source.run_print hs hd .start [], ?_⟩
  exact congrArg (fun f => (⟨_, f, []⟩ : Tree)) (Builder.forest_leaveAll_push _)

/-- Reading a text that was written out for a row of statements and blocks gives that row, in every dialect of
stylesheets; without carriage returns every token and node is where it was written. -/
theorem parse?_print_sheet (languageId : String) {dialect : Dialect} (hdialect : dialect.isStylesheet = true)
    {s : Source} (hs : s.WellFormed) :
    let d := ofText languageId (.ofList s.print)
    ∃ forest, d.parse? dialect = some ⟨⟨0, .stylesheet, d.span⟩, forest, []⟩ ∧
      forest.mapNodes Node.unplaced = (s.forest 1 .origin).mapNodes Node.unplaced ∧
      ('\r' ∉ s.print → forest = s.forest 1 .origin) := by
  intro d
  have hspells := spells_ofText languageId (.ofList s.print)
  rw [String.toList_ofList] at hspells
  obtain ⟨s', hs', hdrop, -, hforest⟩ := Source.exists_dropReturns hs []
  rw [List.append_nil, dropReturns, List.append_nil] at hdrop
  by_cases hr : '\r' ∈ s.print
  · rw [hdrop] at hspells
    exact ⟨_, parse?_of_spells hdialect hs' hspells.1 hspells.2, hforest 1 _ _, fun h => absurd hr h⟩
  · rw [dropReturns_eq hr] at hspells
    exact ⟨_, parse?_of_spells hdialect hs hspells.1 hspells.2, rfl, fun _ => rfl⟩

/-- An at-rule on a line that ends with a carriage return, and a rule with a colon in its selector around a declaration
with a newline in its name and another colon in its value and around an at-rule without content. -/
theorem parse?_print_nested_rules :
    let inner : Source := .statement [' '] (.declaration ['c', '\n', 'd'] ['@', ':', 'e'])
      (.block [] (.atRule ['m', '-'] ['f', ')']) (.nil ['\t']) (.nil []))
    let s : Source := .statement [] (.atRule ['i'] ['x', ' ', 'y'])
      (.block ['\r', '\n'] (.rule ['a', ':', 'b']) inner (.nil ['\r']))
    let d := ofText "scss" (.ofList s.print)
    Dialect.scss.isStylesheet = true ∧ s.WellFormed ∧
      ∃ forest, d.parse? .scss = some ⟨⟨0, .stylesheet, d.span⟩, forest, []⟩ ∧
        forest.mapNodes Node.unplaced = (s.forest 1 .origin).mapNodes Node.unplaced ∧
        ('\r' ∉ s.print → forest = s.forest 1 .origin) := by
  intro inner s d
  have hs : s.WellFormed := by decide +kernel
  exact ⟨rfl, hs, parse?_print_sheet "scss" rfl hs⟩

end AbbrevSite.Sheet
