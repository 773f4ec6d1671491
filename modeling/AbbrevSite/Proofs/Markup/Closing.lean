import AbbrevSite.Proofs.Markup.Nodes
import AbbrevSite.Proofs.Markup.Printed
import Mathlib

/-! The closing tags of elements. Markup is closed by a tag that is complete and has the name of its element. Raw text is
closed wherever the tag starts as its own closing tag does: the name may go on behind the one of the element, and the
tag may be cut off by the end of the text. -/
namespace AbbrevSite.Markup

open Document

/-- A text that starts as the closing tag of an element does, with the name of the element in any case of its ASCII
letters and a rest behind the name. There is no closing bracket in it but at its end. -/
structure StartsClosing (name text rest : List Char) : Prop where
  split : ∃ written, text = '<' :: '/' :: (written ++ rest) ∧ written.map Char.toLower = name.map Char.toLower
  bracket : '>' ∉ text.dropLast

/-- What stands behind the name in a closing tag that is complete. -/
structure EndsName (rest : List Char) : Prop where
  boundary : ∃ c ∈ rest.head?, isNameChar c = false
  last : rest.getLast? = some '>'

/-- The closing token of an element of a name, in a window that ends at `limit`. -/
def IsClosing (limit : Position) (name : List Char) (t : Token) : Prop :=
  ∃ rest, StartsClosing name t.text.toList rest ∧ (¬ IsRaw name → EndsName rest) ∧
    (IsRaw name → rest.getLast? = some '>' ∨ t.span.stop = limit)

variable {d : Document} {b x : Position} {gs front rest : List Glyph} {g : Glyph} {name whole t : Token}

lemma RestAt.toList_text (hb : d.Valid b) (h : RestAt d b x (front ++ rest)) :
    (tokenUpTo b d (front ++ rest) rest).text.toList = front.map (·.char) := by
  obtain ⟨y, hy, hxy, hyb, hfront, hrest⟩ := exists_glyphs_split h.valid hb h.le h.glyphs.symm
  rw [tokenUpTo_eq hb h ⟨hy, hyb, hrest.symm⟩ hxy]
  show (String.ofList (d.charsBetween x y)).toList = _
  rw [String.toList_ofList, ← map_char_glyphs h.valid hy hxy, hfront]

lemma RestAt.stop_of_nil (hb : d.Valid b) (h : RestAt d b x gs) : (tokenUpTo b d gs []).span.stop = b := by
  rw [tokenUpTo_eq hb h (.nil hb) h.le]

lemma skipWhile_split (p : Char → Bool) (gs : List Glyph) : ∃ front, gs = front ++ skipWhile p gs ∧
    (∀ g ∈ front, p g.char = true) ∧ ∀ g ∈ (skipWhile p gs).head?, p g.char = false := by
  induction gs with
  | nil => exact ⟨[], rfl, List.forall_mem_nil _, nofun⟩
  | cons g gs ih =>
    cases hg : p g.char with
    | true =>
      obtain ⟨front, hsplit, hfront, hhead⟩ := ih
      have hskip : skipWhile p (g :: gs) = skipWhile p gs := List.dropWhile_cons_of_pos hg
      rw [hskip]
      exact ⟨g :: front, congrArg (g :: ·) hsplit, List.forall_mem_cons.2 ⟨hg, hfront⟩, hhead⟩
    | false =>
      have hskip : skipWhile p (g :: gs) = g :: gs := List.dropWhile_cons_of_neg (by simp [hg])
      rw [hskip]
      refine ⟨[], rfl, List.forall_mem_nil _, ?_⟩
      rintro _ ⟨⟩
      exact hg

/-- A closing tag is complete: a name, then no more of it, then a bracket. -/
lemma closingTag?_eq_some (hc : closingTag? b d gs = some (name, whole, rest)) :
    ∃ word body g, gs.drop 2 = word ++ (body ++ g :: rest) ∧ (∀ e ∈ word, isNameChar e.char = true) ∧
      (∀ e ∈ (body ++ [g]).head?, isNameChar e.char = false) ∧ (∀ e ∈ body, e.char ≠ '>') ∧ g.char = '>' ∧
      name = tokenUpTo b d (gs.drop 2) (body ++ g :: rest) ∧ whole = tokenUpTo b d gs rest := by
  obtain ⟨word, hword, hwordChars, hend⟩ := skipWhile_split isNameChar (gs.drop 2)
  obtain ⟨body, hbody, hbodyChars, -⟩ :=
    skipWhile_split (fun c => c != '>' && c != '<') (skipWhile isNameChar (gs.drop 2))
  unfold closingTag? at hc
  dsimp only at hc
  split at hc
  · rename_i g after hskip
    split_ifs at hc with hg
    cases hc
    rw [hskip] at hbody
    rw [hbody] at hword hend
    refine ⟨word, body, g, hword, hwordChars, ?_, fun e he => ?_, hg, by rw [hbody], rfl⟩
    · cases body with
      | nil => exact hend
      | cons e body => exact hend
    · have hchars := hbodyChars e he
      simp only [Bool.and_eq_true, bne_iff_ne] at hchars
      exact hchars.1
  · cases hc

lemma closingTag?_text (hb : d.Valid b) (h : RestAt d b x gs) (hs : startsWith ['<', '/'] gs = true)
    (hc : closingTag? b d gs = some (name, whole, rest)) :
    ∃ cs, whole.text.toList = '<' :: '/' :: (name.text.toList ++ cs) ∧ EndsName cs ∧
      '>' ∉ whole.text.toList.dropLast := by
  obtain ⟨l, hl, hlower⟩ := List.prefix_map_iff.1 (startsWith_iff.1 hs)
  obtain ⟨front, ⟨behind, rfl⟩, rfl⟩ := List.prefix_map_iff.1 hl
  have hfront : front.map (·.char) = ['<', '/'] := (eq_of_map_toLower (by simp) hlower).symm
  have hlength : front.length = 2 := by
    rw [← List.length_map, hfront]
    rfl
  obtain ⟨word, body, g, hsplit, hword, hend, hbody, hg, rfl, rfl⟩ := closingTag?_eq_some hc
  rw [← hlength, List.drop_left] at hsplit ⊢
  subst hsplit
  obtain ⟨y, hy, -, -⟩ := h.suffix hb (List.suffix_append front _)
  have hsplit : front ++ (word ++ (body ++ g :: rest)) = front ++ (word ++ (body ++ [g])) ++ rest := by simp
  rw [hy.toList_text hb]
  rw [hsplit] at h ⊢
  rw [h.toList_text hb]
  have hchars : (front ++ (word ++ (body ++ [g]))).map (·.char) =
      '<' :: '/' :: (word.map (·.char) ++ (body.map (·.char) ++ ['>'])) := by
    simp [hfront, hg]
  rw [hchars]
  refine ⟨_, rfl, ⟨?_, by simp⟩, ?_⟩
  · cases body with
    | nil => exact ⟨'>', rfl, by decide⟩
    | cons e body => exact ⟨e.char, rfl, hend e rfl⟩
  · have hnone : '>' ∉ word.map (·.char) ++ body.map (·.char) := by
      simp only [List.mem_append, List.mem_map, not_or, not_exists, not_and]
      refine ⟨fun e he hc => ?_, hbody⟩
      have hname := hword e he
      rw [hc] at hname
      exact absurd hname (by decide)
    have hdrop : ('<' :: '/' :: (word.map (·.char) ++ (body.map (·.char) ++ ['>']))).dropLast =
        '<' :: '/' :: (word.map (·.char) ++ body.map (·.char)) := by
      rw [← List.append_assoc, ← List.cons_append, ← List.cons_append, List.dropLast_concat]
    rw [hdrop]
    simpa using hnone

lemma skipPast_angle (gs : List Glyph) : ∃ front, gs = front ++ skipPast ['>'] gs ∧
    '>' ∉ (front.map (·.char)).dropLast ∧ ((front.map (·.char)).getLast? = some '>' ∨ skipPast ['>'] gs = []) := by
  induction gs with
  | nil => exact ⟨[], rfl, by simp, .inr rfl⟩
  | cons g gs ih =>
    have hstarts : startsWith ['>'] (g :: gs) = true ↔ '>' = g.char := by
      rw [← toLower_eq_toLower_iff (by decide) (by decide)]
      simp [startsWith]
    rw [skipPast]
    split_ifs with hs
    · exact ⟨[g], rfl, by simp, .inl (congrArg some (hstarts.1 hs).symm)⟩
    · obtain ⟨front, hsplit, hbefore, hend⟩ := ih
      refine ⟨g :: front, congrArg (g :: ·) hsplit, ?_, hend.imp_left fun hlast => ?_⟩
      · cases front with
        | nil => simp
        | cons e front => simpa [mt hstarts.2 hs] using hbefore
      · cases front with
        | nil => cases hlast
        | cons e front => simpa using hlast

lemma prefix_of_notMem {row cs ds : List Char} (h : row <+: cs ++ ds) (hrow : '>' ∉ row)
    (hend : cs.getLast? = some '>' ∨ ds = []) : row <+: cs := by
  rcases hend with hlast | rfl
  · have hcs : cs <+: cs ++ ds := List.prefix_append cs ds
    rcases le_total row.length cs.length with hle | hle
    · exact List.prefix_of_prefix_length_le h hcs hle
    · have hmem : '>' ∈ cs := List.mem_of_getLast? hlast
      exact absurd ((List.prefix_of_prefix_length_le hcs h hle).subset hmem) hrow
  · rwa [List.append_nil] at h

section

variable {word cs ds : List Char}

lemma angle_notMem_map_toLower (hword : ∀ c ∈ word, isNameChar c = true) :
    '>' ∉ ('<' :: '/' :: word).map Char.toLower := by
  intro hmem
  obtain ⟨c, hc, hlower⟩ := List.mem_map.1 hmem
  obtain rfl : '>' = c := (toLower_eq_toLower_iff (by decide) (by decide)).1 hlower.symm
  have hmem : '>' ∈ word := by simpa using hc
  exact absurd (hword _ hmem) (by decide)

/-- The start of the closing tag of a name, up to the first bracket or to the end of the text. -/
lemma startsClosing_of_prefix (hword : ∀ c ∈ word, isNameChar c = true)
    (h : ('<' :: '/' :: word).map Char.toLower <+: (cs ++ ds).map Char.toLower) (hbefore : '>' ∉ cs.dropLast)
    (hend : cs.getLast? = some '>' ∨ ds = []) :
    ∃ rest, StartsClosing word cs rest ∧ (cs.getLast? = some '>' → rest.getLast? = some '>') := by
  have hangle := angle_notMem_map_toLower hword
  have hlowered : (cs.map Char.toLower).getLast? = some '>' ∨ ds.map Char.toLower = [] := by
    refine hend.imp (fun hlast => ?_) fun hnil => by rw [hnil, List.map_nil]
    rw [List.getLast?_map, hlast]
    rfl
  rw [List.map_append] at h
  obtain ⟨row, ⟨rest, rfl⟩, hrow⟩ := List.prefix_map_iff.1 (prefix_of_notMem h hangle hlowered)
  obtain ⟨written, rfl, hwritten⟩ : ∃ written, row = '<' :: '/' :: written ∧
      written.map Char.toLower = word.map Char.toLower := by
    obtain ⟨a, row', rfl, ha, hrow'⟩ := List.map_eq_cons_iff.1 hrow.symm
    obtain ⟨c, written, rfl, hc, hwritten⟩ := List.map_eq_cons_iff.1 hrow'
    obtain rfl : '<' = a := (toLower_eq_toLower_iff (by decide) (by decide)).1 ha.symm
    obtain rfl : '/' = c := (toLower_eq_toLower_iff (by decide) (by decide)).1 hc.symm
    exact ⟨written, rfl, hwritten⟩
  refine ⟨rest, ⟨⟨written, rfl, hwritten⟩, hbefore⟩, fun hlast => ?_⟩
  cases rest with
  | nil =>
    rw [List.append_nil] at hlast
    have hmem := List.mem_map_of_mem (f := Char.toLower) (List.mem_of_getLast? hlast)
    rw [← hrow] at hmem
    exact absurd hmem hangle
  | cons c rest => rwa [List.getLast?_append_of_ne_nil _ (List.cons_ne_nil c rest)] at hlast

end

/-- What closes raw text: it starts as a closing tag of the name, and goes on to a bracket or to the end. -/
lemma rawBody_isClosing (hb : d.Valid b) (h : RestAt d b x gs) {word : List Char}
    (hword : ∀ c ∈ word, isNameChar c = true) (hraw : IsRaw word)
    (ht : (rawBody b d (String.ofList word).toLower gs).1 = some t) : IsClosing b word t := by
  induction gs generalizing x with
  | nil => cases ht
  | cons g gs ih =>
    rw [rawBody] at ht
    split_ifs at ht with hs
    · cases ht
      obtain ⟨front, hsplit, hbefore, hend⟩ := skipPast_angle (g :: gs)
      rw [startsWith_closing, startsWith_iff] at hs
      generalize skipPast ['>'] (g :: gs) = rest at *
      rw [hsplit] at h hs ⊢
      rw [List.map_append] at hs
      obtain ⟨cs, hstarts, hlast⟩ :=
        startsClosing_of_prefix hword hs hbefore (hend.imp_right fun hnil => by rw [hnil, List.map_nil])
      rw [← h.toList_text hb] at hstarts
      refine ⟨cs, hstarts, fun hnot => absurd hraw hnot, fun _ => hend.imp hlast fun hnil => ?_⟩
      subst hnil
      exact h.stop_of_nil hb
    · obtain ⟨y, hy, -, -⟩ := h.suffix hb (List.suffix_cons g gs)
      exact ih hy ht

def ClosedBy (limit : Position) (n : Node) : Prop :=
  ∀ name opening closing attributes, n.kind = .element name opening (some closing) attributes →
    IsClosing limit name.text.toList closing

def HoldsMarkup (n : Node) : Prop :=
  ∃ name opening closing attributes, n.kind = .element name opening closing attributes ∧ ¬ IsRaw name.text.toList

lemma closedBy_of_none {limit : Position} {id : Nat} {name opening : Token} {attributes : List Attribute} {span : Span} :
    ClosedBy limit ⟨id, .element name opening none attributes, span⟩ := by
  rintro _ _ _ _ ⟨⟩

lemma gives_closing {limit : Position} {cs : List Char} (htext : whole.text.toList = '<' :: '/' :: (name.text.toList ++ cs))
    (hends : EndsName cs) (hbracket : '>' ∉ whole.text.toList.dropLast) :
    (Piece.closing name whole).Gives (ClosedBy limit) HoldsMarkup := by
  rintro ⟨id, kind, span⟩ - ⟨named, opening, closing, attributes, rfl, hraw⟩ hnamed
  rintro _ _ _ _ ⟨⟩
  have hlower : name.text.toLower = named.text.toLower := eq_of_beq hnamed
  refine ⟨cs, ⟨⟨_, htext, ?_⟩, hbracket⟩, fun _ => hends, fun h => absurd h hraw⟩
  rw [← toList_toLower, ← toList_toLower, hlower]

lemma openingTag?_name (hb : d.Valid b) (h : RestAt d b x gs) {attributes : List Attribute} {selfClosing : Bool}
    (ho : openingTag? b d gs = some (name, attributes, selfClosing, rest)) :
    ∀ c ∈ name.text.toList, isNameChar c = true := by
  obtain ⟨y, hy, -, -⟩ := h.suffix hb (List.drop_suffix 1 gs)
  unfold openingTag? at ho
  dsimp only at ho
  split at ho
  · cases ho
  · rename_i g behind hgs
    split_ifs at ho
    obtain ⟨r, -, hr⟩ := Option.map_eq_some_iff.1 ho
    cases hr
    obtain ⟨front, hsplit, hfront, -⟩ := skipWhile_split isNameChar (gs.drop 1)
    generalize skipWhile isNameChar (gs.drop 1) = behind at *
    rw [hsplit] at hy ⊢
    rw [hy.toList_text hb]
    exact List.forall_mem_map.2 hfront

lemma pieceAt_gives (voids : Bool) (hb : d.Valid b) (h : RestAt d b x (g :: gs)) {p : Piece}
    (hp : p ∈ (pieceAt b voids d g gs).1) : p.Gives (ClosedBy b) HoldsMarkup := by
  unfold pieceAt at hp
  dsimp only at hp
  split_ifs at hp with hcomment hcdata hdecl hclose
  · cases hp
    rintro id _ _ _ _ ⟨⟩
  · cases hp
  · cases hp
  · split at hp
    · rename_i name whole rest hc
      cases hp
      obtain ⟨cs, htext, hends, hbracket⟩ := closingTag?_text hb h hclose hc
      exact gives_closing htext hends hbracket
    · cases hp
  · split at hp
    · cases hp
    · rename_i name attributes selfClosing rest ho
      have hname := openingTag?_name hb h ho
      obtain ⟨y, hy, -, -⟩ := openingTag?_reads hb h ho
      have hraw : rawElements.contains name.text.toLower ↔ IsRaw name.text.toList := by
        rw [IsRaw, String.ofList_toList, List.contains_iff_mem]
      split_ifs at hp with hempty hcontains
      · cases hp
        exact fun _ => closedBy_of_none
      · cases hp
        cases ht : (rawBody b d name.text.toLower rest).1 with
        | none => exact fun _ => closedBy_of_none
        | some closing =>
          rw [← String.ofList_toList (s := name.text)] at ht
          have hclosing := rawBody_isClosing hb hy hname (hraw.1 hcontains) ht
          rintro id _ _ _ _ ⟨⟩
          exact hclosing
      · cases hp
        exact fun _ => ⟨closedBy_of_none, _, _, _, _, rfl, mt hraw.2 hcontains⟩

/-- The closing tokens of a markup tree: that of an element that holds markup is a complete closing tag of its name,
and that of an element with raw text in it starts as one. -/
theorem closedBy_parse {window : Span} (dialect : Dialect) (ha : d.Valid window.start) (hb : d.Valid window.stop) :
    ∀ n ∈ (parse (Cursor.within d window.start window) dialect).preorder, ClosedBy window.stop n := by
  intro n hn
  rcases List.mem_cons.1 hn with rfl | hn
  · -- the root is no element
    rw [parse_within_eq]
    rintro _ _ _ _ ⟨⟩
  · have hpieces := forall_pieces hb dialect.hasVoidElements
      (fun h _ _ hp => pieceAt_gives dialect.hasVoidElements hb h hp) ⟨ha, window.ordered, rfl⟩
    exact forall_nodes_parse hpieces n hn

/-- In `<style></stylex><p></P >` the closing tag of `p` is complete, and the one that `style` is closed by is that of
another name. -/
theorem closedBy_stylex_and_p :
    let d := Document.ofText "html" "<style></stylex><p></P >"
    let window : Span := ⟨⟨0, 0⟩, ⟨0, 24⟩, by decide⟩
    let t := parse (Cursor.within d window.start window) .html
    let style : Kind := .element ⟨.between ⟨0, 1⟩ ⟨0, 6⟩, "style"⟩ ⟨.between ⟨0, 0⟩ ⟨0, 7⟩, "<style>"⟩
      (some ⟨.between ⟨0, 7⟩ ⟨0, 16⟩, "</stylex>"⟩) []
    let p : Kind := .element ⟨.between ⟨0, 17⟩ ⟨0, 18⟩, "p"⟩ ⟨.between ⟨0, 16⟩ ⟨0, 19⟩, "<p>"⟩
      (some ⟨.between ⟨0, 19⟩ ⟨0, 24⟩, "</P >"⟩) []
    d.Valid window.start ∧ d.Valid window.stop ∧
      ((∃ n ∈ t.preorder, n.kind = style) ∧
        (∃ rest, StartsClosing "style".toList "</stylex>".toList rest ∧ rest.getLast? = some '>') ∧
        ¬ ∃ rest, StartsClosing "style".toList "</stylex>".toList rest ∧ EndsName rest) ∧
      (∃ n ∈ t.preorder, n.kind = p) ∧ ∃ rest, StartsClosing "p".toList "</P >".toList rest ∧ EndsName rest := by
  intro d window t style p
  have ha : d.Valid window.start := by decide
  have hb : d.Valid window.stop := by decide
  have hread : t.preorder.map (·.kind) = [.document, style, p] := by cbv
  have hmem {k : Kind} (hk : k ∈ t.preorder.map (·.kind)) : ∃ n ∈ t.preorder, n.kind = k := List.mem_map.1 hk
  obtain ⟨n, hn, hstyle⟩ := hmem (k := style) (by simp [hread])
  obtain ⟨n', hn', hp⟩ := hmem (k := p) (by simp [hread])
  have hraw : IsRaw "style".toList := by decide +kernel
  have hmarkup : ¬ IsRaw "p".toList := by decide +kernel
  obtain ⟨rest, hstarts, -, hend⟩ := closedBy_parse .html ha hb n hn _ _ _ _ hstyle
  obtain ⟨rest', hstarts', hends, -⟩ := closedBy_parse .html ha hb n' hn' _ _ _ _ hp
  have hlast : rest.getLast? = some '>' := (hend hraw).resolve_right (by decide)
  refine ⟨ha, hb, ⟨⟨n, hn, hstyle⟩, ⟨rest, hstarts, hlast⟩, ?_⟩, ⟨n', hn', hp⟩, rest', hstarts', hends hmarkup⟩
  rintro ⟨rest, ⟨⟨written, htext, hwritten⟩, -⟩, ⟨⟨c, hc, hboundary⟩, -⟩⟩
  have hlength : written.length = 5 := by simpa using congrArg List.length hwritten
  have hdrop : List.drop 7 (('<' :: '/' :: written) ++ rest) = rest := List.drop_left' (by simp [hlength])
  have hrest : ['x', '>'] = rest := (congrArg (List.drop 7) htext).trans hdrop
  rw [← hrest] at hc
  cases hc
  exact absurd hboundary (by decide)

end AbbrevSite.Markup
