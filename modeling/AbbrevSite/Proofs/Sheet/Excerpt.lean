import AbbrevSite.Proofs.Sheet.Balance
import AbbrevSite.Proofs.Sheet.Prelude
import AbbrevSite.Proofs.Tree.Behind

/-! Reading an excerpt. Which lexemes a text has and what each of them does depends on its characters alone, so a window
is read as a document with its text is, every place moved behind the start of the window. -/
namespace AbbrevSite.Sheet

open Document

variable {o : Position} {lineComments : Bool} {g : Glyph} {gs : List Glyph}

def Lexeme.behind (l : Lexeme) (o : Position) : Lexeme := ⟨l.shape, l.start.behind o, l.stop.behind o⟩

/-- What was read up to a place and what is left, moved. -/
abbrev restBehind (o : Position) (r : Position × List Glyph) : Position × List Glyph :=
  (r.1.behind o, r.2.map (·.behind o))

lemma closeComment_behind : closeComment (gs.map (·.behind o)) = (closeComment gs).map (restBehind o) := by
  fun_induction closeComment gs with
  | case1 | case2 => rfl
  | case3 g h rest hend => simp [closeComment, hend]
  | case4 g h rest hend ih => simpa [closeComment, hend] using ih

lemma closeLineComment_behind (last : Position) :
    closeLineComment (last.behind o) (gs.map (·.behind o)) = restBehind o (closeLineComment last gs) := by
  fun_induction closeLineComment last gs with
  | case1 => rfl
  | case2 last g rest hend => simp [closeLineComment, hend]
  | case3 last g rest hend ih => simpa [closeLineComment, hend] using ih

lemma closeString_behind (quote : Char) :
    closeString quote (gs.map (·.behind o)) = (closeString quote gs).map (restBehind o) := by
  fun_induction closeString quote gs with
  | case1 => rfl
  | case2 g hescape => simp [closeString, hescape]
  | case3 g hescape h rest ih => simpa [closeString, hescape] using ih
  | case4 g rest hescape hend =>
    rw [List.map_cons, closeString_cons (g := g.behind o) _ hescape]
    exact if_pos hend
  | case5 g rest hescape hend ih =>
    rw [List.map_cons, closeString_cons (g := g.behind o) _ hescape]
    exact (if_neg hend).trans ih

lemma closeGroup_behind (depth : Nat) (quote : Option Char) (last : Position) :
    closeGroup depth quote (last.behind o) (gs.map (·.behind o)) =
      (closeGroup depth quote last gs).map (restBehind o) := by
  fun_induction closeGroup depth quote last gs with
  | case5 depth last g rest q hescape hend ih =>
    rw [List.map_cons, closeGroup_quoted (g := g.behind o) _ hescape]
    simpa [hend] using ih
  | case6 depth last g rest q hescape hend ih =>
    rw [List.map_cons, closeGroup_quoted (g := g.behind o) _ hescape]
    simpa [hend] using ih
  | _ => simp_all [closeGroup]

abbrev lexemeBehind (o : Position) (r : Lexeme × List Glyph) : Lexeme × List Glyph :=
  (r.1.behind o, r.2.map (·.behind o))

lemma lexeme_behind :
    lexeme lineComments (g.behind o) (gs.map (·.behind o)) = (lexeme lineComments g gs).map (lexemeBehind o) := by
  unfold lexeme
  dsimp only
  split_ifs
  · cases gs with
    | nil => rfl
    | cons h rest =>
      simp only [List.map_cons]
      split_ifs
      · rw [closeComment_behind]
        cases closeComment rest <;> rfl
      · rw [closeLineComment_behind]
        rfl
      · rfl
  · rw [closeString_behind]
    cases closeString g.char gs <;> rfl
  · rw [closeGroup_behind]
    cases closeGroup 0 none g.stop gs <;> rfl
  · rfl

theorem lexemes_behind (gs : List Glyph) : lexemes lineComments (gs.map (·.behind o)) =
    ((lexemes lineComments gs).1.map (·.behind o), (lexemes lineComments gs).2) := by
  match gs with
  | [] => rw [List.map_nil, lexemes_nil, List.map_nil]
  | g :: gs =>
    rw [List.map_cons]
    cases hg : lexeme lineComments g gs with
    | error fault =>
      have hg' : lexeme lineComments (g.behind o) (gs.map (·.behind o)) = .error fault := by rw [lexeme_behind, hg]; rfl
      rw [lexemes_fault hg, lexemes_fault hg', List.map_nil]
    | ok read =>
      obtain ⟨l, rest⟩ := read
      have hg' : lexeme lineComments (g.behind o) (gs.map (·.behind o)) = .ok (l.behind o, rest.map (·.behind o)) := by
        rw [lexeme_behind, hg]
        rfl
      have := length_lexeme hg
      rw [lexemes_cons hg, lexemes_cons hg', lexemes_behind rest]
      rfl
termination_by gs.length

namespace Prelude

variable {p : Prelude} {l : Lexeme} {x : Position}

def behind (p : Prelude) (o : Position) : Prelude where
  start := p.start.behind o
  stop := p.stop.behind o
  atStop := p.atStop.map (·.behind o)
  inAtName := p.inAtName
  first := p.first.map (·.behind o)
  colon := p.colon.map (·.behind o)
  nameStop := p.nameStop.map (·.behind o)
  valueStart := p.valueStart.map (·.behind o)

lemma addPlain_behind : (p.addPlain l).behind o = (p.behind o).addPlain (l.behind o) := by
  obtain ⟨start, stop, atStop, inAtName, first, colon, nameStop, valueStart⟩ := p
  cases first <;> cases colon <;> cases valueStart <;> rfl

lemma addColon_behind : (p.addColon l).behind o = (p.behind o).addColon (l.behind o) := by
  obtain ⟨start, stop, atStop, inAtName, first, colon, nameStop, valueStart⟩ := p
  cases first <;> rfl

lemma add_behind : (p.add l).behind o = (p.behind o).add (l.behind o) := by
  have hcolon : (p.behind o).colon = none ↔ p.colon = none := Option.map_eq_none_iff
  obtain ⟨shape, x, y⟩ := l
  cases shape with
  | comment => rfl
  | string | group => exact addPlain_behind
  | char c =>
    dsimp only [add, Lexeme.behind]
    by_cases hname : (p.inAtName && isAtNameChar c) = true
    · rw [if_pos hname, if_pos (show ((p.behind o).inAtName && isAtNameChar c) = true from hname)]
      rfl
    · rw [if_neg hname, if_neg (show ¬ ((p.behind o).inAtName && isAtNameChar c) = true from hname)]
      by_cases hblank : CharClass.isBlank c = true
      · rw [if_pos hblank, if_pos hblank]
        rfl
      · rw [if_neg hblank, if_neg hblank]
        by_cases hfirst : c = ':' ∧ p.colon = none
        · rw [if_pos hfirst, if_pos (hfirst.imp_right hcolon.2)]
          exact addColon_behind
        · rw [if_neg hfirst, if_neg (mt (And.imp_right hcolon.1) hfirst)]
          exact addPlain_behind

lemma ofFirst_behind : (ofFirst l).behind o = ofFirst (l.behind o) := by
  unfold ofFirst
  by_cases h : l.shape = .char '@'
  · rw [if_pos h, if_pos (show (l.behind o).shape = .char '@' from h)]
    rfl
  · rw [if_neg h, if_neg (show ¬ (l.behind o).shape = .char '@' from h)]
    exact add_behind

def places (p : Prelude) : List Position :=
  p.start :: p.stop ::
    (p.atStop.toList ++ (p.first.toList ++ (p.colon.toList ++ (p.nameStop.toList ++ p.valueStart.toList))))

/-- A prelude learns the places of what is added to it alone. -/
lemma mem_places_add (hx : x ∈ (p.add l).places) : x ∈ p.places ∨ x = l.start ∨ x = l.stop := by
  have hor {a : Option Position} (ha : x ∈ (a.or (some l.start)).toList) : x ∈ a.toList ∨ x = l.start := by
    cases a with
    | none => exact .inr (by simpa using ha)
    | some y => exact .inl ha
  rcases add_cases p l with ⟨-, he⟩ | ⟨-, he⟩ | ⟨-, -, he⟩ | he <;> rw [he] at hx
  · exact .inl hx
  · simp only [places, List.mem_cons, List.mem_append, Option.toList_some, List.not_mem_nil, or_false] at hx ⊢
    tauto
  · simp only [places, addColon, List.mem_cons, List.mem_append, Option.toList_some, List.not_mem_nil, or_false] at hx ⊢
    have := @hor p.first
    tauto
  · have hvalue (hv : x ∈ (p.addPlain l).valueStart.toList) : x ∈ p.valueStart.toList ∨ x = l.start := by
      unfold addPlain at hv
      dsimp only at hv
      split_ifs at hv
      · exact hor hv
      · exact .inl hv
    simp only [places, List.mem_cons, List.mem_append] at hx ⊢
    have := @hor p.first
    tauto

lemma mem_places_ofFirst (hx : x ∈ (ofFirst l).places) : x = l.start ∨ x = l.stop := by
  unfold ofFirst at hx
  split_ifs at hx
  · simpa [places, startAt] using hx
  · rcases mem_places_add hx with hx | hx
    · left
      simpa [places, startAt] using hx
    · exact hx

end Prelude

lemma charToken_behind (c : Char) (l : Lexeme) : charToken c (l.behind o) = (charToken c l).behind o :=
  congrArg (fun s => Token.mk s c.toString) Span.between_behind

lemma Prelude.statementSpan_behind {p : Prelude} (terminator : Option Token) :
    (p.behind o).statementSpan (terminator.map (·.behind o)) = (p.statementSpan terminator).behind o := by
  unfold statementSpan
  rw [← Span.between_behind]
  cases terminator <;> rfl

def Reading.behind (r : Reading) (o : Position) : Reading :=
  ⟨r.builder.behind o, r.comments.map (·.behind o), r.prelude.map (·.behind o)⟩

section Excerpt

variable {d e : Document} {w : Span} (h : d.Excerpt w e)
include h

lemma tokenBetween_behind {p q : Position} (hp : e.Valid p) (hq : e.Valid q) :
    tokenBetween d (p.behind w.start) (q.behind w.start) = (tokenBetween e p q).behind w.start := by
  unfold tokenBetween
  dsimp only
  rw [Span.between_behind, h.textOf _ (between_valid hp hq).1 (between_valid hp hq).2]
  rfl

namespace Prelude

variable {p : Prelude} (hp : ∀ x ∈ p.places, e.Valid x)
include hp

lemma expression_behind : (p.behind w.start).expression d = (p.expression e).map (·.behind w.start) := by
  have hfirst : (p.behind w.start).first = p.first.map (·.behind w.start) := rfl
  unfold expression
  rw [hfirst]
  cases hf : p.first with
  | none => rfl
  | some x =>
    exact congrArg some (tokenBetween_behind h (hp x (by simp [places, hf])) (hp p.stop (by simp [places])))

lemma block_behind (opening : Token) :
    (p.behind w.start).block d (opening.behind w.start) = (p.block e opening).behind w.start := by
  have hat : (p.behind w.start).atStop = p.atStop.map (·.behind w.start) := rfl
  have hstart : e.Valid p.start := hp _ (by simp [places])
  unfold block
  rw [hat, expression_behind h hp]
  cases hs : p.atStop with
  | none =>
    show Kind.rule (tokenBetween d (p.start.behind w.start) (p.stop.behind w.start)) _ none = _
    rw [tokenBetween_behind h hstart (hp _ (by simp [places]))]
    rfl
  | some x =>
    show Kind.atRule (tokenBetween d (p.start.behind w.start) (x.behind w.start)) _ _ none = _
    rw [tokenBetween_behind h hstart (hp x (by simp [places, hs]))]
    rfl

lemma statement_behind (terminator : Option Token) :
    (p.behind w.start).statement d (terminator.map (·.behind w.start)) =
      (p.statement e terminator).behind w.start := by
  have hat : (p.behind w.start).atStop = p.atStop.map (·.behind w.start) := rfl
  have hstart : e.Valid p.start := hp _ (by simp [places])
  have hstop : e.Valid p.stop := hp _ (by simp [places])
  unfold statement
  rw [hat, expression_behind h hp]
  cases hs : p.atStop with
  | some x =>
    show Kind.atRule (tokenBetween d (p.start.behind w.start) (x.behind w.start)) _ none none = _
    rw [tokenBetween_behind h hstart (hp x (by simp [places, hs]))]
    rfl
  | none =>
    refine congr (congr (congr (congrArg Kind.property ?_) ?_) ?_) rfl
    · -- the name ends at the colon or with the statement
      have hname : (p.behind w.start).nameStop.getD (p.behind w.start).stop =
          (p.nameStop.getD p.stop).behind w.start := by
        show (p.nameStop.map (·.behind w.start)).getD (p.stop.behind w.start) = _
        cases p.nameStop <;> rfl
      rw [hname]
      refine tokenBetween_behind h hstart ?_
      cases hn : p.nameStop with
      | none => exact hstop
      | some x => exact hp x (by simp [places, hn])
    · show (p.colon.map (·.behind w.start)).map _ = _
      cases p.colon with
      | none => rfl
      | some c =>
        refine congrArg (fun s => some (Token.mk s ":")) ?_
        show Span.between (c.behind w.start) ⟨(c.behind w.start).line, (c.behind w.start).column + 1⟩ = _
        rw [← Position.behind_column, Span.between_behind]
    · show (p.valueStart.map (·.behind w.start)).map _ = _
      cases hv : p.valueStart with
      | none => rfl
      | some x => exact congrArg some (tokenBetween_behind h (hp x (by simp [places, hv])) hstop)

end Prelude
namespace Reading

variable {r s : Reading} {l : Lexeme} {ls : List Lexeme}

omit h in
lemma closedBy_behind (n : Node) : (closedBy l n).behind o = closedBy (l.behind o) (n.behind o) := by
  refine congrArg₂ (Node.mk n.id) ?_ ?_
  · rw [charToken_behind]
    exact Kind.mapTokens_close _ _ _
  · exact Span.between_behind.symm

/-- The statement being read knows places of the text alone. -/
def Known (e : Document) (r : Reading) : Prop := ∀ p, r.prelude = some p → ∀ x ∈ p.places, e.Valid x

lemma endStatement_behind (hr : r.Known e) (terminator : Option Token) :
    (r.behind w.start).endStatement d (terminator.map (·.behind w.start)) =
      (r.endStatement e terminator).behind w.start := by
  have hprelude : (r.behind w.start).prelude = r.prelude.map (·.behind w.start) := rfl
  unfold endStatement
  rw [hprelude]
  cases hp : r.prelude with
  | none =>
    show r.behind w.start = r.behind w.start
    rfl
  | some p =>
    dsimp only [Option.map_some]
    rw [Prelude.statement_behind h (hr p hp), Prelude.statementSpan_behind]
    rfl

lemma openBlock_behind (hr : r.Known e) (hl : e.Valid l.start) :
    (r.behind w.start).openBlock d (l.behind w.start) = (r.openBlock e l).behind w.start := by
  have hprelude : (r.behind w.start).prelude.getD (.startAt (l.behind w.start).start) =
      (r.prelude.getD (.startAt l.start)).behind w.start := by
    show (r.prelude.map (·.behind w.start)).getD _ = _
    cases r.prelude <;> rfl
  have hknown : ∀ x ∈ (r.prelude.getD (.startAt l.start)).places, e.Valid x := by
    cases hp : r.prelude with
    | none => simpa [Prelude.places, Prelude.startAt] using hl
    | some p => exact hr p hp
  unfold openBlock
  dsimp only
  rw [hprelude, charToken_behind, Prelude.block_behind h hknown]
  refine congrArg (fun s => (⟨Builder.enter _ _ s, _, none⟩ : Reading)) ?_
  exact Span.between_behind

lemma closeBlock_behind (hr : r.Known e) : (r.behind w.start).closeBlock d (l.behind w.start) =
    ((r.closeBlock e l).map (·.behind w.start)).mapError (·.behind w.start) := by
  have hnil : (r.behind w.start).builder.enclosing = [] ↔ r.builder.enclosing = [] := List.map_eq_nil_iff
  by_cases hn : r.builder.enclosing = []
  · rw [closeBlock_of_nil hn, closeBlock_of_nil (hnil.2 hn)]
    rfl
  · rw [closeBlock_of_ne_nil hn, closeBlock_of_ne_nil (mt hnil.1 hn)]
    have hended := endStatement_behind h hr none
    unfold afterClosing
    dsimp only
    rw [← Option.map_none, hended]
    refine congrArg (fun b => Except.ok (⟨b, _, _⟩ : Reading)) ?_
    exact (Builder.mapNodes_leave closedBy_behind).symm

omit h in
lemma addToPrelude_behind : (r.behind o).addToPrelude (l.behind o) = (r.addToPrelude l).behind o := by
  obtain ⟨b, comments, prelude⟩ := r
  cases prelude with
  | some p => exact congrArg (fun p => (⟨_, _, some p⟩ : Reading)) Prelude.add_behind.symm
  | none =>
    have hfirst := congrArg (fun p => (⟨b.behind o, comments.map (·.behind o), some p⟩ : Reading))
      (Prelude.ofFirst_behind (l := l) (o := o)).symm
    obtain ⟨shape, x, y⟩ := l
    cases shape with
    | char c =>
      unfold addToPrelude
      dsimp only [behind, Lexeme.behind, Option.map_none]
      split_ifs
      · rfl
      · exact hfirst
    | comment | string | group => exact hfirst

/-- A step on a moved lexeme is the step, moved. -/
theorem step_behind (hr : r.Known e) (hl : e.Valid l.start) : step d (r.behind w.start) (l.behind w.start) =
    ((step e r l).map (·.behind w.start)).mapError (·.behind w.start) := by
  by_cases h1 : l.shape = .comment
  · rw [step_iff.2 (.comment h1), step_iff.2 (.comment (l := l.behind w.start) h1)]
    have hspan : Span.between (l.behind w.start).start (l.behind w.start).stop =
        (Span.between l.start l.stop).behind w.start := Span.between_behind
    have hprelude : (r.prelude.map (·.behind w.start)).map (·.add (l.behind w.start)) =
        (r.prelude.map (·.add l)).map (·.behind w.start) := by
      cases r.prelude with
      | none => rfl
      | some p => exact congrArg some Prelude.add_behind.symm
    exact congrArg₂ (fun c p => Except.ok (⟨_, c :: r.comments.map (·.behind w.start), p⟩ : Reading)) hspan hprelude
  by_cases h2 : l.shape = .char '{'
  · rw [step_iff.2 (.opening h2), step_iff.2 (.opening (l := l.behind w.start) h2), openBlock_behind h hr hl]
    rfl
  by_cases h3 : l.shape = .char '}'
  · have hclose (d : Document) (r : Reading) (l : Lexeme) (hc : l.shape = .char '}') :
        step d r l = r.closeBlock d l := by
      simp [step, hc]
    rw [hclose e r l h3, hclose d _ (l.behind w.start) h3, closeBlock_behind h hr]
  by_cases h4 : l.shape = .char ';'
  · rw [step_iff.2 (.semicolon h4), step_iff.2 (.semicolon (l := l.behind w.start) h4), charToken_behind]
    exact congrArg Except.ok (endStatement_behind h hr (some _))
  · rw [step_iff.2 (.other h1 h2 h3 h4), step_iff.2 (.other (l := l.behind w.start) h1 h2 h3 h4), addToPrelude_behind]
    rfl

omit h in
lemma Known.addToPrelude (hr : r.Known e) (hl : e.Valid l.start) (hl' : e.Valid l.stop) :
    (r.addToPrelude l).Known e := by
  have hfirst : ∀ x ∈ (Prelude.ofFirst l).places, e.Valid x := fun x hx =>
    (Prelude.mem_places_ofFirst hx).elim (fun hx => hx ▸ hl) fun hx => hx ▸ hl'
  intro p hp
  unfold Reading.addToPrelude at hp
  split at hp
  · rename_i q hq
    cases hp
    intro x hx
    rcases Prelude.mem_places_add hx with hx | rfl | rfl
    · exact hr q hq x hx
    · exact hl
    · exact hl'
  · split_ifs at hp
    · exact hr p hp
    · cases hp
      exact hfirst
  · cases hp
    exact hfirst

omit h in
lemma Known.step (hr : r.Known e) (hl : e.Valid l.start) (hl' : e.Valid l.stop) (hs : Step e r l s) : s.Known e := by
  cases hs with
  | comment _ =>
    intro p hp x hx
    obtain ⟨q, hq, rfl⟩ := Option.map_eq_some_iff.1 hp
    rcases Prelude.mem_places_add hx with hx | rfl | rfl
    · exact hr q hq x hx
    · exact hl
    · exact hl'
  | opening _ =>
    intro p hp
    cases hp
  | closing _ _ =>
    intro p hp
    rw [show (r.afterClosing e l).prelude = none from endStatement_prelude e r none] at hp
    cases hp
  | semicolon _ =>
    intro p hp
    rw [endStatement_prelude] at hp
    cases hp
  | other => exact hr.addToPrelude hl hl'

omit h in
lemma Known.run (hr : r.Known e) (hls : ∀ l ∈ ls, e.Valid l.start ∧ e.Valid l.stop) (hs : run e r ls = .ok s) :
    s.Known e := by
  induction ls generalizing r with
  | nil =>
    cases hs
    exact hr
  | cons l ls ih =>
    rw [List.forall_mem_cons] at hls
    obtain ⟨t, ht, hs⟩ := run_cons.1 hs
    exact ih (hr.step hls.1.1 hls.1.2 ht) hls.2 hs

/-- A run over moved lexemes is the run, moved. -/
theorem run_behind (hr : r.Known e) (hls : ∀ l ∈ ls, e.Valid l.start ∧ e.Valid l.stop) :
    run d (r.behind w.start) (ls.map (·.behind w.start)) =
      ((run e r ls).map (·.behind w.start)).mapError (·.behind w.start) := by
  induction ls generalizing r with
  | nil => rfl
  | cons l ls ih =>
    rw [List.forall_mem_cons] at hls
    show (step d (r.behind w.start) (l.behind w.start) >>= fun s => run d s (ls.map (·.behind w.start))) =
      ((step e r l >>= fun s => run e s ls).map _).mapError _
    rw [step_behind h hr hls.1.1]
    cases hs : step e r l with
    | error failure => rfl
    | ok s => exact ih (hr.step hls.1.1 hls.1.2 (step_iff.1 hs)) hls.2

lemma finish_behind (hr : r.Known e) :
    (r.behind w.start).finish d w w.stop = (r.finish e e.span e.stop).behind w.start := by
  have hended : (r.behind w.start).endStatement d none = (r.endStatement e none).behind w.start :=
    endStatement_behind h hr none
  have hclose (n : Node) : (n.endingAt e.stop).behind w.start = (n.behind w.start).endingAt w.stop := by
    rw [← h.stop]
    exact congrArg (Node.mk _ _) Span.between_behind.symm
  unfold finish
  rw [hended]
  generalize r.endStatement e none = s
  refine congr (congr (congrArg Tree.mk ?_) ?_) ?_
  · exact congrArg (Node.mk 0 .stylesheet) h.span_behind.symm
  · show (Builder.leaveAll (s.builder.behind w.start) (·.endingAt w.stop)).forest =
      (s.builder.leaveAll (·.endingAt e.stop)).forest.mapNodes (·.behind w.start)
    rw [Builder.mapNodes_forest, Builder.mapNodes_leaveAll hclose]
  · exact List.map_reverse.symm

end Reading

/-- The window is read as the excerpt is, every place moved behind the start of the window. -/
theorem parse_excerpt (dialect : Dialect) : parse (Cursor.within d w.start w) dialect =
    ((parse (Cursor.whole e .origin) dialect).map (·.behind w.start)).mapError (·.behind w.start) := by
  have hvalid : ∀ l ∈ (lexemes dialect.hasLineComments (e.glyphs .origin e.stop)).1,
      e.Valid l.start ∧ e.Valid l.stop := by
    obtain ⟨rest, hread, -⟩ := reads_lexemes dialect.hasLineComments (e.glyphs .origin e.stop)
    obtain ⟨x, -, -, -, -, htiles⟩ := hread.tiles e.valid_origin e.valid_stop (Position.origin_le _)
    exact fun l hl => ⟨htiles.start_valid hl, htiles.stop_valid hl⟩
  have hstart : Reading.start.Known e := by
    intro p hp
    cases hp
  have hrun := Reading.run_behind h hstart hvalid
  rw [show Reading.start.behind w.start = .start from rfl] at hrun
  have hwhole : Cursor.whole e .origin = Cursor.within e e.span.start e.span := rfl
  rw [parse_within_eq, hwhole, parse_within_eq, show e.span.start = .origin from rfl,
    show e.span.stop = e.stop from rfl, h.glyphs, lexemes_behind, hrun]
  cases hr : Reading.run e .start (lexemes dialect.hasLineComments (e.glyphs .origin e.stop)).1 with
  | error failure => rfl
  | ok r =>
    have hknown := hstart.run hvalid hr
    cases (lexemes dialect.hasLineComments (e.glyphs .origin e.stop)).2 with
    | some fault => exact congrArg (fun x => Except.error (Failure.malformed fault.complaint x)) h.stop.symm
    | none => exact congrArg Except.ok (Reading.finish_behind h hknown)

end Excerpt

end AbbrevSite.Sheet
