import AbbrevSite.Parse
import AbbrevSite.Proofs.Markup.Nesting
import AbbrevSite.Proofs.Markup.Printed
import AbbrevSite.Proofs.Tree.Pushed

/-! Reading undoes writing: a text that was written out for a row of markup is read as that row. -/
namespace AbbrevSite.Markup

open Document

variable {d : Document} {b x : Position} {cs ds : List Char}

section

variable {limit : Position} {voids : Bool} {g : Glyph} {gs : List Glyph}

lemma startsWith_second {c e : Glyph} {a : Char} (ha : ¬ ('A'.val ≤ a.val ∧ a.val ≤ 'Z'.val))
    (ha' : ¬ ('a'.val ≤ a.val ∧ a.val ≤ 'z'.val)) (hne : a ≠ e.char) :
    startsWith ('<' :: a :: cs) (c :: e :: gs) = false := by
  have h : (a.toLower == e.char.toLower) = false :=
    beq_eq_false_iff_ne.2 fun h => hne ((toLower_eq_toLower_iff ha ha').1 h)
  simp [startsWith, h]

lemma pieceAt_comment (h : startsWith ['<', '!', '-', '-'] (g :: gs) = true) :
    pieceAt limit voids d g gs =
      (some (.comment (.between (place limit (g :: gs)) (place limit (skipPast ['-', '-', '>'] ((g :: gs).drop 4))))),
        skipPast ['-', '-', '>'] ((g :: gs).drop 4)) := by
  unfold pieceAt
  exact if_pos h

lemma pieceAt_closing {e : Glyph} (hg : g.char = '<') (he : e.char = '/') {name whole : Token} {rest : List Glyph}
    (hc : closingTag? limit d (g :: e :: gs) = some (name, whole, rest)) :
    pieceAt limit voids d g (e :: gs) = (some (.closing name whole), rest) := by
  have hbang (cs : List Char) : startsWith ('<' :: '!' :: cs) (g :: e :: gs) = false :=
    startsWith_second (by decide) (by decide) (by rw [he]; decide)
  have hquestion : startsWith ['<', '?'] (g :: e :: gs) = false :=
    startsWith_second (by decide) (by decide) (by rw [he]; decide)
  have hslash : startsWith ['<', '/'] (g :: e :: gs) = true := by simp [startsWith, hg, he]
  unfold pieceAt
  simp only [hbang, hquestion, hslash, hc, Bool.or_self, Bool.false_eq_true, if_false, if_true]

lemma pieceAt_opening {e : Glyph} (he : CharClass.isAlphabetic e.char = true) {name : Token}
    {attributes : List Attribute} {selfClosing : Bool} {rest : List Glyph}
    (ho : openingTag? limit d (g :: e :: gs) = some (name, attributes, selfClosing, rest)) :
    pieceAt limit voids d g (e :: gs) =
      if (selfClosing || voids && voidElements.contains name.text.toLower) = true then
        (some (.opening name (tokenUpTo limit d (g :: e :: gs) rest) attributes .empty), rest)
      else if rawElements.contains name.text.toLower = true then
        (some (.opening name (tokenUpTo limit d (g :: e :: gs) rest) attributes
          (.raw (rawBody limit d name.text.toLower rest).1)), (rawBody limit d name.text.toLower rest).2)
      else (some (.opening name (tokenUpTo limit d (g :: e :: gs) rest) attributes .open), rest) := by
  have hne (a : Char) (ha : CharClass.isAlphabetic a = false) : a ≠ e.char := by
    rintro rfl
    rw [he] at ha
    cases ha
  have hbang (cs : List Char) : startsWith ('<' :: '!' :: cs) (g :: e :: gs) = false :=
    startsWith_second (by decide) (by decide) (hne '!' (by decide))
  have hquestion : startsWith ['<', '?'] (g :: e :: gs) = false :=
    startsWith_second (by decide) (by decide) (hne '?' (by decide))
  have hslash : startsWith ['<', '/'] (g :: e :: gs) = false :=
    startsWith_second (by decide) (by decide) (hne '/' (by decide))
  unfold pieceAt
  simp only [hbang, hquestion, hslash, ho, Bool.or_self, Bool.false_eq_true, if_false]

end

lemma pieces_text (b : Position) (voids : Bool) (d : Document) (hcs : '<' ∉ cs) :
    pieces b voids d (glyphsFrom x (cs ++ ds)) = pieces b voids d (glyphsFrom (x.along cs) ds) := by
  induction cs generalizing x with
  | nil => rfl
  | cons c cs ih =>
    rw [List.mem_cons, not_or] at hcs
    exact (pieces_of_ne (Ne.symm hcs.1)).trans (ih hcs.2)

lemma pieces_found {p : Piece} {voids : Bool} {gs : List Glyph}
    (h : pieceAt b voids d ⟨'<', x, x.advance '<'⟩ (glyphsFrom (x.advance '<') cs) = (some p, gs)) :
    pieces b voids d (glyphsFrom x ('<' :: cs)) = p :: pieces b voids d gs := by
  rw [glyphsFrom, pieces_of_angle rfl, h]
  rfl

lemma firstBehind_commentEnd (hcs : ¬ ['-', '-', '>'] <:+: cs) : FirstBehind ['-', '-', '>'] cs := by
  refine ⟨List.cons_ne_nil _ _, fun hi => hcs ?_, ?_⟩
  · obtain ⟨row, hrow, he⟩ := List.infix_map_iff.1 hi
    rwa [eq_of_map_toLower (by simp) he]
  · rintro (_ | _ | _ | k) hk hlt
    · exact absurd hk (by decide)
    · decide
    · decide
    · exact absurd hlt (by simp)

theorem pieces_comment (voids : Bool) (hb : d.Valid b) (hcs : ¬ ['-', '-', '>'] <:+: cs)
    (h : Reads d b x (Source.printComment cs ++ ds)) :
    pieces b voids d (glyphsFrom x (Source.printComment cs ++ ds)) =
      .comment (.along x (Source.printComment cs)) ::
        pieces b voids d (glyphsFrom (x.along (Source.printComment cs)) ds) := by
  have hplace := h.place_eq hb
  have hend := RestAt.place_eq hb (h.append hb)
  have hskip : skipPast ['-', '-', '>'] (glyphsFrom (x.along ['<', '!', '-', '-']) (cs ++ (['-', '-', '>'] ++ ds))) =
      glyphsFrom ((x.along ['<', '!', '-', '-']).along (cs ++ ['-', '-', '>'])) ds :=
    skipPast_glyphsFrom (firstBehind_commentEnd hcs)
  have hrest : (x.along ['<', '!', '-', '-']).along (cs ++ ['-', '-', '>']) = x.along (Source.printComment cs) := by
    simp [Source.printComment, Position.along_append]
  have hprint : Source.printComment cs ++ ds = '<' :: (['!', '-', '-'] ++ (cs ++ (['-', '-', '>'] ++ ds))) := by
    simp [Source.printComment]
  have hdrop : (glyphsFrom x ('<' :: (['!', '-', '-'] ++ (cs ++ (['-', '-', '>'] ++ ds))))).drop 4 =
      glyphsFrom (x.along ['<', '!', '-', '-']) (cs ++ (['-', '-', '>'] ++ ds)) := rfl
  rw [hrest, ← hdrop] at hskip
  rw [hprint] at hplace ⊢
  refine pieces_found ((pieceAt_comment rfl).trans ?_)
  rw [glyphsFrom] at hplace hskip
  rw [hplace, hskip, hend, Span.between_along]

section Tag

variable {name : List Char} {attributes : List SourceAttribute} {slash : Bool}

theorem pieces_closing (voids : Bool) (hb : d.Valid b) (hn : IsName name) (h : Reads d b x (closeTag name ++ ds)) :
    pieces b voids d (glyphsFrom x (closeTag name ++ ds)) =
      .closing (.along (x.along ['<', '/']) name) (.along x (closeTag name)) ::
        pieces b voids d (glyphsFrom (x.along (closeTag name)) ds) :=
  pieces_found (pieceAt_closing rfl rfl (closingTag?_print hb hn.all h))

def openingAt (x : Position) (name : List Char) (attributes : List SourceAttribute) (slash : Bool) (body : Body) :
    Piece :=
  .opening (.along (x.advance '<') name) (.along x (openTag name attributes slash))
    (SourceAttribute.placedFrom ((x.advance '<').along name) attributes) body

/-- The name of an opening tag tells what follows the tag. -/
lemma pieces_openTagWith {ending : List Char} (hb : d.Valid b) (hn : IsName name) (ha : ∀ a ∈ attributes, a.WellFormed)
    (he : TagEnding ending slash) (h : Reads d b x (openTagWith name attributes ending ++ ds)) :
    let lower := (String.ofList name).toLower
    let rest := glyphsFrom (x.along (openTagWith name attributes ending)) ds
    let opening := Piece.opening (.along (x.advance '<') name) (.along x (openTagWith name attributes ending))
      (SourceAttribute.placedFrom ((x.advance '<').along name) attributes)
    pieces b true d (glyphsFrom x (openTagWith name attributes ending ++ ds)) =
      if (slash || voidElements.contains lower) = true then opening .empty :: pieces b true d rest
      else if rawElements.contains lower = true then
        opening (.raw (rawBody b d lower rest).1) :: pieces b true d (rawBody b d lower rest).2
      else opening .open :: pieces b true d rest := by
  have hread := openingTag?_print hb hn ha he h
  have htoken := h.token hb
  obtain ⟨c, hc, hfirst⟩ := hn.first
  obtain ⟨tail, htail⟩ : ∃ tail, openTagWith name attributes ending ++ ds = '<' :: c :: tail := by
    cases name with
    | nil => cases hc
    | cons e name =>
      cases hc
      exact ⟨_, rfl⟩
  rw [htail] at hread htoken ⊢
  dsimp only
  have htext : (Token.along (x.advance '<') name).text = .ofList name := rfl
  simp only [glyphsFrom] at hread htoken ⊢
  rw [pieces_of_angle rfl, pieceAt_opening hfirst hread, htoken]
  simp only [htext, Bool.true_and]
  split_ifs <;> rfl

lemma pieces_openTag (hb : d.Valid b) (hn : IsName name) (ha : ∀ a ∈ attributes, a.WellFormed)
    (h : Reads d b x (openTag name attributes slash ++ ds)) :
    let lower := (String.ofList name).toLower
    let rest := glyphsFrom (x.along (openTag name attributes slash)) ds
    pieces b true d (glyphsFrom x (openTag name attributes slash ++ ds)) =
      if (slash || voidElements.contains lower) = true then
        openingAt x name attributes slash .empty :: pieces b true d rest
      else if rawElements.contains lower = true then
        openingAt x name attributes slash (.raw (rawBody b d lower rest).1) ::
          pieces b true d (rawBody b d lower rest).2
      else openingAt x name attributes slash .open :: pieces b true d rest :=
  pieces_openTagWith hb hn ha (tagEnding_tagEnd slash) h

theorem pieces_empty (hb : d.Valid b) (hn : IsName name) (ha : ∀ a ∈ attributes, a.WellFormed)
    (hempty : slash = true ∨ IsVoid name) (h : Reads d b x (openTag name attributes slash ++ ds)) :
    pieces b true d (glyphsFrom x (openTag name attributes slash ++ ds)) =
      openingAt x name attributes slash .empty ::
        pieces b true d (glyphsFrom (x.along (openTag name attributes slash)) ds) := by
  have hcond : (slash || voidElements.contains (String.ofList name).toLower) = true := by
    simpa [IsVoid] using hempty
  rw [pieces_openTag hb hn ha h, if_pos hcond]

theorem pieces_open (hb : d.Valid b) (hn : IsName name) (ha : ∀ a ∈ attributes, a.WellFormed)
    (hvoid : ¬ IsVoid name) (hraw : ¬ IsRaw name) (h : Reads d b x (openTag name attributes false ++ ds)) :
    pieces b true d (glyphsFrom x (openTag name attributes false ++ ds)) =
      openingAt x name attributes false .open ::
        pieces b true d (glyphsFrom (x.along (openTag name attributes false)) ds) := by
  rw [pieces_openTag hb hn ha h, if_neg (by simpa [IsVoid] using hvoid), if_neg (by simpa [IsRaw] using hraw)]

lemma IsRaw.not_isVoid (h : IsRaw name) : ¬ IsVoid name := by
  unfold IsRaw IsVoid at *
  rw [rawElements, List.mem_cons, List.mem_singleton] at h
  rcases h with h | h <;> rw [h] <;> decide

theorem pieces_raw (hb : d.Valid b) (hn : IsName name) (ha : ∀ a ∈ attributes, a.WellFormed) (hraw : IsRaw name)
    (hcs : ¬ ('<' :: '/' :: name).map Char.toLower <:+: cs.map Char.toLower)
    (h : Reads d b x (openTag name attributes false ++ (cs ++ (closeTag name ++ ds)))) :
    pieces b true d (glyphsFrom x (openTag name attributes false ++ (cs ++ (closeTag name ++ ds)))) =
      openingAt x name attributes false
          (.raw (some (.along (x.along (openTag name attributes false ++ cs)) (closeTag name)))) ::
        pieces b true d (glyphsFrom (x.along (openTag name attributes false ++ cs ++ closeTag name)) ds) := by
  have hbody := rawBody_print hb hn.all (firstBehind_closing hn.all hcs) (h.append hb)
  have hvoid : ¬ (false || voidElements.contains (String.ofList name).toLower) = true := by
    simpa [IsVoid] using hraw.not_isVoid
  have hcond : rawElements.contains (String.ofList name).toLower = true := by simpa [IsRaw] using hraw
  rw [pieces_openTag hb hn ha h, if_neg hvoid, if_pos hcond, hbody]
  simp only [Position.along_append]

end Tag

namespace Source

lemma size_forest (s : Source) (n : Nat) (x : Position) : (s.forest n x).size = s.size := by
  induction s generalizing n x with
  | nil => rfl
  | text run next ih => exact ih n _
  | comment _ next ih | empty _ _ _ next ih | raw _ _ _ next ih => simp [forest, Forest.size, size, ih]
  | element name attributes inner next ih ih' => simp [forest, Forest.size, size, ih, ih']

lemma closeNode_elementAt (n : Nat) (x : Position) (name : List Char) (attributes : List SourceAttribute)
    (content : List Char) :
    closeNode (.along (x.along (openTag name attributes false ++ content)) (closeTag name))
      ⟨n, elementAt x name attributes false none, .along x (openTag name attributes false)⟩ =
      closedAt n x name attributes content := by
  unfold closeNode closedAt
  refine congrArg₂ (Node.mk n) rfl ?_
  show Span.between x ((x.along (openTag name attributes false ++ content)).along (closeTag name)) = _
  rw [← Position.along_append, Span.between_along]

lemma addPiece_open {B : Builder} {name : List Char} {attributes : List SourceAttribute} :
    addPiece B (openingAt x name attributes false .open) =
      B.enter (elementAt x name attributes false none) (.along x (openTag name attributes false)) := rfl

lemma addPiece_closing {B : Builder} {name : List Char} {attributes : List SourceAttribute} {span : Span} {f : Forest}
    (whole : Token) (y : Position) :
    addPiece ((B.enter (elementAt x name attributes false none) span).push f) (.closing (.along y name) whole) =
      ((B.enter (elementAt x name attributes false none) span).push f).leave (closeNode whole) := by
  have hnamed : (elementAt x name attributes false none).isElementNamed (Token.along y name).text = true := by
    simp [elementAt, Kind.isElementNamed, Kind.elementName?, Token.along, sameIgnoringCase]
  unfold addPiece closeElement
  dsimp only
  rw [if_pos, Builder.abandonWhile_of_neg rfl]
  · simp [hnamed]
  · simp [Builder.push, Builder.enter, hnamed]

lemma addPiece_raw {B : Builder} {name : List Char} {attributes : List SourceAttribute} {body : List Char} :
    addPiece B (openingAt x name attributes false
      (.raw (some (.along (x.along (openTag name attributes false ++ body)) (closeTag name))))) =
      B.leaf (closedAt B.count x name attributes body).kind (closedAt B.count x name attributes body).span := by
  have hspan : Span.between x ((x.along (openTag name attributes false ++ body)).along (closeTag name)) =
      .along x (openTag name attributes false ++ body ++ closeTag name) := by
    rw [← Position.along_append, Span.between_along]
  exact congrArg (B.leaf _) hspan

/-- Reading a row of markup adds its trees. -/
theorem foldl_addPiece_print (hb : d.Valid b) {s : Source} (hs : s.WellFormed) (h : Reads d b x (s.print ++ ds))
    (B : Builder) :
    (pieces b true d (glyphsFrom x (s.print ++ ds))).foldl addPiece B =
      (pieces b true d (glyphsFrom (x.along s.print) ds)).foldl addPiece (B.push (s.forest B.count x)) := by
  induction s generalizing x ds B with
  | nil => rfl
  | text run next ih =>
    rw [print, List.append_assoc] at h ⊢
    rw [pieces_text b true d hs.1, ih hs.2 (h.append hb), Position.along_append]
    rfl
  | comment body next ih =>
    have hpush : (addPiece B (.comment (.along x (printComment body)))).push
        (next.forest (B.count + 1) (x.along (printComment body))) = B.push ((comment body next).forest B.count x) :=
      Builder.push_leaf
    rw [print, List.append_assoc] at h ⊢
    rw [pieces_comment true hb hs.1 h, List.foldl_cons, ih hs.2 (h.append hb), Position.along_append, ← hpush]
    rfl
  | empty name attributes slash next ih =>
    obtain ⟨⟨hn, ha, hempty⟩, hnext⟩ := hs
    have hpush : (addPiece B (openingAt x name attributes slash .empty)).push
        (next.forest (B.count + 1) (x.along (openTag name attributes slash))) =
        B.push ((empty name attributes slash next).forest B.count x) := Builder.push_leaf
    rw [print, List.append_assoc] at h ⊢
    rw [pieces_empty hb hn ha hempty h, List.foldl_cons, ih hnext (h.append hb), Position.along_append, ← hpush]
    rfl
  | raw name attributes body next ih =>
    obtain ⟨⟨hn, ha, hraw⟩, hbody, hnext⟩ := hs
    have hprint : print (raw name attributes body next) ++ ds =
        openTag name attributes false ++ (body ++ (closeTag name ++ (next.print ++ ds))) := by simp [print]
    have hwhole : print (raw name attributes body next) =
        openTag name attributes false ++ body ++ closeTag name ++ next.print := by simp [print]
    rw [hprint] at h ⊢
    have hrest : Reads d b (x.along (openTag name attributes false ++ body ++ closeTag name)) (next.print ++ ds) := by
      simpa only [Position.along_append] using ((h.append hb).append hb).append hb
    have hend : x.along (openTag name attributes false ++ body ++ closeTag name ++ next.print) =
        (x.along (openTag name attributes false ++ body ++ closeTag name)).along next.print := Position.along_append
    rw [pieces_raw hb hn ha hraw hbody h, List.foldl_cons, addPiece_raw, ih hnext hrest, hwhole, hend,
      Builder.push_leaf]
    rfl
  | element name attributes inner next ih ih' =>
    obtain ⟨⟨hn, ha, hvoid, hraw⟩, hinner, hnext⟩ := hs
    have hprint : print (element name attributes inner next) ++ ds =
        openTag name attributes false ++ (inner.print ++ (closeTag name ++ (next.print ++ ds))) := by simp [print]
    have hwhole : print (element name attributes inner next) =
        openTag name attributes false ++ inner.print ++ closeTag name ++ next.print := by simp [print]
    rw [hprint] at h ⊢
    have hin := h.append hb
    have hclose := hin.append hb
    rw [pieces_open hb hn ha hvoid hraw h, List.foldl_cons, ih hinner hin, pieces_closing true hb hn hclose,
      List.foldl_cons, ih' hnext (hclose.append hb), hwhole, addPiece_open, addPiece_closing, Builder.push_leave,
      Builder.count_leave, Builder.count_push, size_forest, ← Position.along_append, closeNode_elementAt]
    simp only [forest, Position.along_append]
    rfl

end Source

lemma reads_ofText (languageId : String) {text : List Char} (htext : dropReturns text = cs) :
    Reads (ofText languageId (.ofList text)) (ofText languageId (.ofList text)).stop .origin cs := by
  refine ⟨valid_origin _, Position.origin_le _, ?_⟩
  rw [glyphs_ofText, String.toList_ofList, htext]

lemma parse?_of_foldl (hreads : Reads d d.stop .origin cs) {f : Forest}
    (hfold : (pieces d.stop true d (glyphsFrom .origin cs)).foldl addPiece .start = Builder.start.push f) :
    d.parse? .html = some ⟨⟨0, .document, d.span⟩, f, []⟩ := by
  have hparse := parse_within_eq d d.span .html
  rw [show d.span.start = .origin from rfl, show d.span.stop = d.stop from rfl] at hparse
  show some (parse (Cursor.within d .origin d.span) .html) = _
  rw [hparse, ← hreads.glyphs, forestOf]
  show some (⟨_, (List.foldl addPiece .start (pieces d.stop true d _)).abandonAll.forest, []⟩ : Tree) = _
  rw [hfold]
  exact congrArg (fun f => some (⟨_, f, []⟩ : Tree)) Builder.forest_abandonAll_push

lemma parse?_ofText_print (languageId : String) {s : Source} {text : List Char} (hs : s.WellFormed)
    (htext : dropReturns text = s.print) : (ofText languageId (.ofList text)).parse? .html =
      some ⟨⟨0, .document, (ofText languageId (.ofList text)).span⟩, s.forest 1 .origin, []⟩ := by
  have hreads := reads_ofText languageId htext
  refine parse?_of_foldl hreads ?_
  have hprint : s.print = s.print ++ [] := (List.append_nil _).symm
  rw [hprint] at hreads ⊢
  rw [Source.foldl_addPiece_print (valid_stop _) hs hreads .start, glyphsFrom, pieces, piecesOnto, List.reverse_nil]
  rfl

/-- Reading a text that was written out for a row of markup gives the comments and elements of the row. The inside of
an element with content is what was written between its tags. -/
theorem parse?_print (languageId : String) {s : Source} (hs : s.WellFormed) (hr : '\r' ∉ s.print) :
    (ofText languageId (.ofList s.print)).parse? .html =
        some ⟨⟨0, .document, (ofText languageId (.ofList s.print)).span⟩, s.forest 1 .origin, []⟩ ∧
      ∀ n x name attributes content, (Source.closedAt n x name attributes content).kind.innerSpan? =
        some (.along (x.along (openTag name attributes false)) content) :=
  ⟨parse?_ofText_print languageId hs (dropReturns_eq hr), Source.innerSpan?_closedAt⟩

/-- `<div a="x>y" b>1<!--<div>--><DIV><br></DIV></div><script>x</y</script><p/>`: equal names in each other, a comment
with a tag in it, a quoted end of a tag, and raw text with another closing tag. -/
theorem parse?_print_nested_elements :
    let inner : Source :=
      .comment ['<', 'd', 'i', 'v', '>'] (.element ['D', 'I', 'V'] [] (.empty ['b', 'r'] [] false .nil) .nil)
    let s : Source := .element ['d', 'i', 'v'] [⟨['a'], some ['x', '>', 'y']⟩, ⟨['b'], none⟩] (.text ['1'] inner)
      (.raw ['s', 'c', 'r', 'i', 'p', 't'] [] ['x', '<', '/', 'y'] (.empty ['p'] [] true .nil))
    s.WellFormed ∧ '\r' ∉ s.print ∧ (ofText "html" (.ofList s.print)).parse? .html =
      some ⟨⟨0, .document, (ofText "html" (.ofList s.print)).span⟩, s.forest 1 .origin, []⟩ := by
  intro inner s
  have hs : s.WellFormed := by decide +kernel
  have hr : '\r' ∉ s.print := by decide +kernel
  exact ⟨hs, hr, (parse?_print "html" hs hr).1⟩

end AbbrevSite.Markup
