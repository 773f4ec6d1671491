import AbbrevSite.Location
import AbbrevSite.Parse
import Mathlib

/-! Which bracket of a text decides about an abbreviation behind it. Some brackets are dead: escaped ones, the end of an
arrow, and a `<` that opens no tag. The last one that is not dead decides, against the abbreviation if it is a `<` with a
blank behind it. So a longer window of the text before the abbreviation cannot turn a rejection into an acceptance, unless
it is the first character of the window that decides. -/
namespace AbbrevSite

def BlankFrom (t : List Char) (i : Nat) : Prop := (t.drop i).any CharClass.isBlank = true

/-- A bracket that decides nothing: it is escaped, or it is the `>` of an arrow, or a `<` in front of `?` or of a blank
that is not the last blank of the text. -/
def DeadBracket (t : List Char) (i : Nat) : Prop :=
  (t[i]? = some '>' ∧ 0 < i ∧ (t[i - 1]? = some '\\' ∨ t[i - 1]? = some '=')) ∨
    (t[i]? = some '<' ∧ (0 < i ∧ t[i - 1]? = some '\\' ∨ t[i + 1]? = some '?' ∨
      t[i + 1]?.any CharClass.isBlank = true ∧ BlankFrom t (i + 2)))

/-- Any other bracket. -/
structure LiveBracket (t : List Char) (i : Nat) : Prop where
  bracket : t[i]? = some '<' ∨ t[i]? = some '>'
  not_dead : ¬ DeadBracket t i

/-- The last bracket of a text that is not dead. -/
structure LastLive (t : List Char) (i : Nat) : Prop where
  live : LiveBracket t i
  dead (j : Nat) (h : i < j) : ¬ LiveBracket t j

/-- The bracket that decides about an abbreviation behind a text: a `<` right before it, else the last live one. -/
def Decides (t : List Char) (i : Nat) : Prop :=
  if t.getLast? = some '<' then i + 1 = t.length else LastLive t i

section Brackets

variable {t u v w x cs read : List Char} {c : Char} {i j n : Nat}

lemma LiveBracket.lt_length (h : LiveBracket t i) : i < t.length := by
  rcases h.bracket with h | h <;> exact (List.getElem?_eq_some_iff.1 h).1

lemma getElem?_split (h : u.length = n) : (u ++ c :: v)[n]? = some c := by simp [← h]

lemma getElem?_split_succ (h : u.length = n) : (u ++ c :: v)[n + 1]? = v.head? := by
  rw [List.getElem?_append_right (by omega), show n + 1 - u.length = 0 + 1 by omega, List.getElem?_cons_succ,
    List.head?_eq_getElem?]

lemma getElem?_split_pred (h : u.length = n) (h0 : 0 < n) : (u ++ c :: v)[n - 1]? = u.getLast? := by
  rw [List.getElem?_append_left (by omega), List.getLast?_eq_getElem?, h]

lemma blankFrom_split (h : u.length = n) (k : Nat) :
    BlankFrom (u ++ c :: v) (n + 1 + k) ↔ (v.drop k).any CharClass.isBlank = true := by
  rw [BlankFrom, List.drop_append, List.drop_of_length_le (by omega), List.nil_append,
    show n + 1 + k - u.length = k + 1 by omega, List.drop_succ_cons]

def OpensNoTag (v : List Char) : Prop :=
  v.head? = some '?' ∨ v.head?.any CharClass.isBlank = true ∧ v.tail.any CharClass.isBlank = true

lemma not_opensNoTag_nil : ¬ OpensNoTag [] := by simp [OpensNoTag]

lemma not_opensNoTag_cons (hq : c ≠ '?') (hb : CharClass.isBlank c = true → v.any CharClass.isBlank = false) :
    ¬ OpensNoTag (c :: v) := by
  rintro (h | ⟨h, h'⟩)
  · exact hq (Option.some_inj.1 h)
  · rw [List.tail_cons, hb h] at h'
    cases h'

lemma liveBracket_close_iff (h : u.length = n) :
    LiveBracket (u ++ '>' :: v) n ↔ u.getLast? ≠ some '\\' ∧ u.getLast? ≠ some '=' := by
  have hc : (u ++ '>' :: v)[n]? = some '>' := getElem?_split h
  have hdead : DeadBracket (u ++ '>' :: v) n ↔ u.getLast? = some '\\' ∨ u.getLast? = some '=' := by
    rcases Nat.eq_zero_or_pos n with rfl | h0
    · obtain rfl := List.length_eq_zero_iff.1 h
      simp [DeadBracket]
    · simp [DeadBracket, hc, getElem?_split_pred h h0, h0]
  rw [← not_or, ← hdead]
  exact ⟨fun hlive => hlive.not_dead, fun hdead => ⟨.inr hc, hdead⟩⟩

lemma liveBracket_open_iff (h : u.length = n) :
    LiveBracket (u ++ '<' :: v) n ↔ u.getLast? ≠ some '\\' ∧ ¬ OpensNoTag v := by
  have hc : (u ++ '<' :: v)[n]? = some '<' := getElem?_split h
  have hblank : BlankFrom (u ++ '<' :: v) (n + 2) ↔ v.tail.any CharClass.isBlank = true := by
    rw [← List.drop_one]
    exact blankFrom_split h 1
  have hdead : DeadBracket (u ++ '<' :: v) n ↔ u.getLast? = some '\\' ∨ OpensNoTag v := by
    rw [DeadBracket, hblank, hc, getElem?_split_succ h, OpensNoTag]
    rcases Nat.eq_zero_or_pos n with rfl | h0
    · obtain rfl := List.length_eq_zero_iff.1 h
      simp
    · simp [getElem?_split_pred h h0, h0]
  rw [← not_or, ← hdead]
  exact ⟨fun hlive => hlive.not_dead, fun hdead => ⟨.inl hc, hdead⟩⟩

lemma not_liveBracket_split (h : u.length = n) (ho : c ≠ '<') (hc : c ≠ '>') :
    ¬ LiveBracket (u ++ c :: v) n := by
  rintro ⟨hb, -⟩
  rw [getElem?_split h, Option.some_inj, Option.some_inj] at hb
  exact hb.elim ho hc

/-- Among the first characters of a text the last live bracket is a `<` with a blank somewhere behind it. -/
def RefusesWithin (t : List Char) (n : Nat) : Prop :=
  ∃ i < n, LiveBracket t i ∧ t[i]? = some '<' ∧ BlankFrom t (i + 1) ∧ ∀ j < n, i < j → ¬ LiveBracket t j

lemma not_refusesWithin_zero : ¬ RefusesWithin t 0 := by
  rintro ⟨i, hi, -⟩
  exact Nat.not_lt_zero i hi

lemma refusesWithin_succ_of_dead (h : ¬ LiveBracket t n) : RefusesWithin t (n + 1) ↔ RefusesWithin t n := by
  constructor
  · rintro ⟨i, hi, hlive, hopen, hblank, hlast⟩
    have hin : i ≠ n := by
      rintro rfl
      exact h hlive
    exact ⟨i, by omega, hlive, hopen, hblank, fun j hj => hlast j (by omega)⟩
  · rintro ⟨i, hi, hlive, hopen, hblank, hlast⟩
    refine ⟨i, by omega, hlive, hopen, hblank, fun j hj hij => ?_⟩
    rcases Nat.lt_succ_iff_lt_or_eq.1 hj with hj | rfl
    · exact hlast j hj hij
    · exact h

lemma refusesWithin_succ_of_live (h : LiveBracket t n) :
    RefusesWithin t (n + 1) ↔ t[n]? = some '<' ∧ BlankFrom t (n + 1) := by
  constructor
  · rintro ⟨i, hi, -, hopen, hblank, hlast⟩
    have hin : i = n := by
      by_contra hne
      exact hlast n (Nat.lt_succ_self n) (by omega) h
    subst hin
    exact ⟨hopen, hblank⟩
  · rintro ⟨hopen, hblank⟩
    exact ⟨n, Nat.lt_succ_self n, h, hopen, hblank, fun j hj hnj => by omega⟩

lemma refusesWithin_length_iff :
    RefusesWithin t t.length ↔ ∃ i, LastLive t i ∧ t[i]? = some '<' ∧ BlankFrom t (i + 1) := by
  constructor
  · rintro ⟨i, -, hlive, hopen, hblank, hlast⟩
    exact ⟨i, ⟨hlive, fun j hij hj => hlast j hj.lt_length hij hj⟩, hopen, hblank⟩
  · rintro ⟨i, hlast, hopen, hblank⟩
    exact ⟨i, hlast.live.lt_length, hlast.live, hopen, hblank, fun j _ hij => hlast.dead j hij⟩

/-- What the search finds when it has read a text up to its end and `cs` is what stands before that, last character
first. -/
def Refuses (cs read : List Char) : Prop := RefusesWithin (cs.reverse ++ read) cs.length

lemma not_refuses_nil : ¬ Refuses [] read := not_refusesWithin_zero

lemma refuses_cons : Refuses (c :: cs) read ↔ RefusesWithin (cs.reverse ++ c :: read) (cs.length + 1) := by
  rw [Refuses, List.reverse_cons, List.append_assoc, List.singleton_append, List.length_cons]

lemma refuses_cons_of_dead (h : ¬ LiveBracket (cs.reverse ++ c :: read) cs.length) :
    Refuses (c :: cs) read ↔ Refuses cs (c :: read) := refuses_cons.trans (refusesWithin_succ_of_dead h)

lemma refuses_cons_of_live (h : LiveBracket (cs.reverse ++ c :: read) cs.length) :
    Refuses (c :: cs) read ↔ c = '<' ∧ read.any CharClass.isBlank = true := by
  have hblank : BlankFrom (cs.reverse ++ c :: read) (cs.length + 1) ↔ read.any CharClass.isBlank = true :=
    blankFrom_split List.length_reverse 0
  rw [refuses_cons, refusesWithin_succ_of_live h, getElem?_split List.length_reverse, hblank, Option.some_inj]

lemma refuses_cons_other (ho : c ≠ '<') (hc : c ≠ '>') : Refuses (c :: cs) read ↔ Refuses cs (c :: read) :=
  refuses_cons_of_dead (not_liveBracket_split List.length_reverse ho hc)

lemma refuses_cons_close_of_dead (h : cs.head? = some '\\' ∨ cs.head? = some '=') :
    Refuses ('>' :: cs) read ↔ Refuses cs ('>' :: read) := by
  refine refuses_cons_of_dead fun hlive => ?_
  rw [liveBracket_close_iff List.length_reverse, List.getLast?_reverse] at hlive
  exact h.elim hlive.1 hlive.2

lemma not_refuses_cons_close (h : cs.head? ≠ some '\\') (h' : cs.head? ≠ some '=') : ¬ Refuses ('>' :: cs) read := by
  rw [refuses_cons_of_live ((liveBracket_close_iff List.length_reverse).2 (by simpa using ⟨h, h'⟩))]
  exact fun h => absurd h.1 (by decide)

lemma refuses_cons_open_of_dead (h : cs.head? = some '\\' ∨ OpensNoTag read) :
    Refuses ('<' :: cs) read ↔ Refuses cs ('<' :: read) := by
  refine refuses_cons_of_dead fun hlive => ?_
  rw [liveBracket_open_iff List.length_reverse, List.getLast?_reverse] at hlive
  exact h.elim hlive.1 hlive.2

lemma refuses_cons_open (h : cs.head? ≠ some '\\') (h' : ¬ OpensNoTag read) :
    Refuses ('<' :: cs) read ↔ read.any CharClass.isBlank = true := by
  rw [refuses_cons_of_live ((liveBracket_open_iff List.length_reverse).2 ⟨by simpa using h, h'⟩)]
  exact and_iff_right rfl

lemma not_isBlank_open : CharClass.isBlank '<' = false := by decide

lemma not_isBlank_backslash : CharClass.isBlank '\\' = false := by decide

lemma ne_of_isBlank (h : CharClass.isBlank c = true) : c ≠ '<' ∧ c ≠ '>' ∧ c ≠ '?' := by
  refine ⟨?_, ?_, ?_⟩ <;> (rintro rfl; revert h; decide)

lemma spaced_cons {spaced : Bool} (h : spaced = read.any CharClass.isBlank)
    (hc : ¬ (!spaced && CharClass.isBlank c) = true) : spaced = (c :: read).any CharClass.isBlank := by
  rw [List.any_cons, ← h]
  cases spaced <;> simp_all

/-- The search backward from any place of a text. A `<` that comes next opens a tag as far as what is read already
shows, for else it would have been passed over. -/
theorem backtrack_eq_false_iff {spaced : Bool} (hspaced : spaced = read.any CharClass.isBlank)
    (hnext : cs.head? = some '<' → ¬ OpensNoTag read) : backtrack spaced cs = false ↔ Refuses cs read := by
  fun_induction backtrack spaced cs generalizing read with
  | case1 => simpa using not_refuses_nil
  | case2 spaced c rest hblank ih =>
    obtain ⟨hnew, hc⟩ : spaced = false ∧ CharClass.isBlank c = true := by simpa using hblank
    obtain ⟨ho, hcl, hq⟩ := ne_of_isBlank hc
    rw [refuses_cons_other ho hcl]
    refine ih (by simp [hc]) fun _ => not_opensNoTag_cons hq fun _ => ?_
    rw [← hspaced, hnew]
  | case3 spaced =>
    rw [refuses_cons_open (by simp) (hnext rfl), ← hspaced]
    simp
  | case4 spaced c hblank ho =>
    refine iff_of_false (by simp) ?_
    by_cases hcl : c = '>'
    · subst hcl
      exact not_refuses_cons_close nofun nofun
    · rw [refuses_cons_other ho hcl]
      exact not_refuses_nil
  | case5 spaced c hblank prev rest hskip ih =>
    have hread := spaced_cons hspaced hblank
    simp only [Bool.and_eq_true, Bool.or_eq_true, decide_eq_true_eq] at hskip
    obtain ⟨hc, rfl⟩ := hskip
    have hdead : OpensNoTag (c :: read) := by
      refine hc.imp (congrArg some) fun hc : CharClass.isBlank c = true => ⟨hc, ?_⟩
      rw [hc, Bool.and_true, Bool.not_eq_true, Bool.not_eq_false'] at hblank
      rwa [List.tail_cons, ← hspaced]
    have hne : c ≠ '<' ∧ c ≠ '>' := by
      rcases hc with rfl | hc
      · decide
      · exact ⟨(ne_of_isBlank hc).1, (ne_of_isBlank hc).2.1⟩
    rw [refuses_cons_other hne.1 hne.2, refuses_cons_open_of_dead (.inr hdead)]
    exact ih (spaced_cons hread (by simp [not_isBlank_open])) fun _ =>
      not_opensNoTag_cons (by decide) (by simp [not_isBlank_open])
  | case6 spaced c hblank prev rest hskip hne ih =>
    rw [refuses_cons_other hne.1 hne.2]
    refine ih (spaced_cons hspaced hblank) fun hprev => ?_
    have hc : c ≠ '?' ∧ CharClass.isBlank c = false := by simpa [Option.some_inj.1 hprev] using hskip
    exact not_opensNoTag_cons hc.1 (by simp [hc.2])
  | case7 spaced c hblank rest hne hskip ih =>
    have hread := spaced_cons hspaced hblank
    have hdead : Refuses (c :: '\\' :: rest) read ↔ Refuses ('\\' :: rest) (c :: read) := by
      rcases Decidable.or_iff_not_imp_left.2 fun ho => not_not.1 fun hcl => hne ⟨ho, hcl⟩ with rfl | rfl
      · exact refuses_cons_open_of_dead (.inl rfl)
      · exact refuses_cons_close_of_dead (.inl rfl)
    rw [hdead, refuses_cons_other (by decide) (by decide)]
    exact ih (spaced_cons hread (by simp [not_isBlank_backslash])) fun _ =>
      not_opensNoTag_cons (by decide) (by simp [not_isBlank_backslash])
  | case8 spaced rest hblank hne hslash hskip ih =>
    rw [refuses_cons_close_of_dead (.inr rfl)]
    exact ih (spaced_cons hspaced hblank) fun h => absurd h (by simp)
  | case9 spaced prev rest hslash hequals hblank hskip hne =>
    exact iff_of_false (by simp) (not_refuses_cons_close (by simpa using hslash) (by simpa using hequals))
  | case10 spaced c hblank prev rest hskip hne hslash hend =>
    obtain rfl : c = '<' := by
      by_contra ho
      exact hne ⟨ho, hend⟩
    rw [refuses_cons_open (by simpa using hslash) (hnext rfl), ← hspaced]
    simp

lemma acceptsAfter_reverse_eq_false_iff : acceptsAfter t.reverse = false ↔
    t.getLast? = some '<' ∨ ∃ i, LastLive t i ∧ t[i]? = some '<' ∧ BlankFrom t (i + 1) := by
  have hsearch : backtrack false t.reverse = false ↔ Refuses t.reverse [] :=
    backtrack_eq_false_iff rfl fun _ => not_opensNoTag_nil
  rw [Refuses, List.reverse_reverse, List.append_nil, List.length_reverse, refusesWithin_length_iff] at hsearch
  rw [acceptsAfter, List.head?_reverse]
  split_ifs with h
  · simp [h]
  · simpa [h] using hsearch

lemma liveBracket_append_iff (h : 0 < i) : LiveBracket (x ++ w) (x.length + i) ↔ LiveBracket w i := by
  have hat (k : Nat) : (x ++ w)[x.length + k]? = w[k]? := by
    rw [List.getElem?_append_right (Nat.le_add_right _ _), Nat.add_sub_cancel_left]
  have hpred : (x ++ w)[x.length + i - 1]? = w[i - 1]? := by
    rw [Nat.add_sub_assoc h, hat]
  have hblank : BlankFrom (x ++ w) (x.length + i + 2) ↔ BlankFrom w (i + 2) := by
    rw [BlankFrom, BlankFrom, Nat.add_assoc, List.drop_append, List.drop_of_length_le (Nat.le_add_right _ _),
      List.nil_append, Nat.add_sub_cancel_left]
  have hdead : DeadBracket (x ++ w) (x.length + i) ↔ DeadBracket w i := by
    rw [DeadBracket, DeadBracket, hpred, hblank, hat, Nat.add_assoc, hat]
    simp [h, Nat.add_pos_right x.length h]
  constructor
  · rintro ⟨hb, hd⟩
    exact ⟨by rwa [hat] at hb, fun hdw => hd (hdead.2 hdw)⟩
  · rintro ⟨hb, hd⟩
    exact ⟨by rwa [hat], fun hdx => hd (hdead.1 hdx)⟩

lemma LastLive.append (h : LastLive w i) (h0 : 0 < i) : LastLive (x ++ w) (x.length + i) := by
  refine ⟨(liveBracket_append_iff h0).2 h.live, fun j hj hlive => ?_⟩
  obtain ⟨k, rfl⟩ := Nat.exists_eq_add_of_le ((Nat.le_add_right x.length i).trans (le_of_lt hj))
  exact h.dead k (by omega) ((liveBracket_append_iff (by omega)).1 hlive)

lemma acceptsAfter_append_eq_false (h : acceptsAfter w.reverse = false) (hfirst : ¬ Decides w 0) :
    acceptsAfter (x ++ w).reverse = false := by
  rw [acceptsAfter_reverse_eq_false_iff] at h ⊢
  by_cases hlast : w.getLast? = some '<'
  · exact .inl (by rw [List.getLast?_append, hlast, Option.some_or])
  · obtain ⟨i, hi, hopen, hblank⟩ := h.resolve_left hlast
    rw [Decides, if_neg hlast] at hfirst
    have h0 : 0 < i := by
      refine Nat.pos_of_ne_zero ?_
      rintro rfl
      exact hfirst hi
    refine .inr ⟨x.length + i, hi.append h0, ?_, ?_⟩
    · rwa [List.getElem?_append_right (Nat.le_add_right _ _), Nat.add_sub_cancel_left]
    · rw [BlankFrom, Nat.add_assoc, List.drop_append, List.drop_of_length_le (Nat.le_add_right _ _), List.nil_append,
        Nat.add_sub_cancel_left]
      exact hblank

end Brackets

/-- The text before an abbreviation decides about it: there is no node at its position, or one that is no `script`
element and has the position inside. -/
def InText (found : Option Found) (p : Position) : Prop :=
  ∀ f ∈ found, f.node.kind.isElementNamed "script" = false ∧ ∃ inner ∈ f.node.kind.innerSpan?, inner.contains p = true

/-- The text before an abbreviation: from the start of the document on, or inside an element, there behind the last of
its children that has ended. -/
def textBefore (d : Document) (found : Option Found) (p : Position) (abbreviation : Span) : List Char :=
  let start := match found with
    | none => .origin
    | some f =>
      ((f.children.takeWhile fun n => n.span.stop ≤ p).getLast?.map (·.span.stop)).getD
        ((f.node.kind.innerSpan?.map (·.start)).getD .origin)
  let text := Span.between start abbreviation.start
  d.charsBetween text.start text.stop

/-- Settings with another bound on the text looked at before an abbreviation. -/
def Settings.withBacktrack (s : Settings) (chars : Nat) : Settings :=
  { s with limits := { s.limits with backtrackChars := chars } }

section Windows

variable {d : Document} {tree : Option Tree} {found : Option Found} {dialect : Dialect} {p : Position}
  {abbreviation : Span} {s : Settings} {chars more : Nat}

lemma markupAccepts_withBacktrack (h : InText found p) :
    markupAccepts d found p abbreviation (s.withBacktrack chars) =
      (((textBefore d found p abbreviation).rtake chars).all CharClass.isBlank ||
        acceptsAfter ((textBefore d found p abbreviation).rtake chars).reverse) := by
  rw [List.rtake_eq_reverse_take_reverse, List.reverse_reverse, List.all_reverse]
  cases found with
  | none => rfl
  | some f =>
    obtain ⟨hscript, inner, hinner, hp⟩ := h f rfl
    have hinner : f.node.kind.innerSpan? = some inner := hinner
    simp only [markupAccepts, textBefore, hscript, hinner, hp, if_true, Bool.false_eq_true, if_false, Option.map_some,
      Option.getD_some]
    rfl

/-- Anywhere else no window does. -/
lemma markupAccepts_of_not_inText (h : ¬ InText found p) :
    markupAccepts d found p abbreviation (s.withBacktrack more) =
      markupAccepts d found p abbreviation (s.withBacktrack chars) := by
  cases found with
  | none => exact absurd (fun f hf => nomatch hf) h
  | some f =>
    unfold markupAccepts
    dsimp only
    cases hscript : f.node.kind.isElementNamed "script" with
    | true => rfl
    | false =>
      rw [if_neg Bool.false_ne_true, if_neg Bool.false_ne_true]
      split
      · rfl
      · rename_i inner hinner
        have hp : inner.contains p = false := by
          by_contra hp
          refine h fun g hg => ?_
          obtain rfl := Option.some_inj.1 hg
          exact ⟨hscript, inner, hinner, eq_true_of_ne_false hp⟩
        rw [hp]
        rfl

lemma exists_rtake_eq_append (cs : List Char) (h : chars ≤ more) :
    ∃ front, cs.rtake more = front ++ cs.rtake chars := by
  obtain ⟨front, hfront⟩ : cs.rtake chars <:+ cs.rtake more := List.drop_suffix_drop_left cs (by omega)
  exact ⟨front, hfront.symm⟩

lemma markupAccepts_of_window (hmore : chars ≤ more)
    (hfirst : ¬ Decides ((textBefore d found p abbreviation).rtake chars) 0)
    (hrejects : markupAccepts d found p abbreviation (s.withBacktrack chars) = false) :
    markupAccepts d found p abbreviation (s.withBacktrack more) = false := by
  by_cases h : InText found p
  · rw [markupAccepts_withBacktrack h, Bool.or_eq_false_iff] at hrejects ⊢
    obtain ⟨hblank, hafter⟩ := hrejects
    obtain ⟨front, hfront⟩ := exists_rtake_eq_append (textBefore d found p abbreviation) hmore
    rw [hfront]
    refine ⟨?_, acceptsAfter_append_eq_false hafter hfirst⟩
    rw [List.all_append, hblank, Bool.and_false]
  · rwa [markupAccepts_of_not_inText h]

end Windows

/-- A text rejects an abbreviation behind it exactly if it ends in `<`, or if its last live bracket is a `<` with a blank
behind it. So where a window of the text before an abbreviation leads to a rejection, every longer one does, unless it is
the first character of the window that decides. -/
theorem acceptsAbbreviation_by_lastLive :
    (∀ t : List Char, acceptsAfter t.reverse = false ↔
      t.getLast? = some '<' ∨ ∃ i, LastLive t i ∧ t[i]? = some '<' ∧ BlankFrom t (i + 1)) ∧
    ∀ (d : Document) (tree : Option Tree) (found : Option Found) (dialect : Dialect) (p : Position)
      (abbreviation : Span) (s : Settings) (chars more : Nat),
      dialect.isStylesheet = false → chars ≤ more →
      ¬ Decides ((textBefore d found p abbreviation).rtake chars) 0 →
      acceptsAbbreviation d tree found dialect p abbreviation (s.withBacktrack chars) = false →
      acceptsAbbreviation d tree found dialect p abbreviation (s.withBacktrack more) = false := by
  refine ⟨fun t => acceptsAfter_reverse_eq_false_iff, ?_⟩
  intro d tree found dialect p abbreviation s chars more hdialect hmore hfirst hrejects
  rw [acceptsAbbreviation, hdialect, if_neg Bool.false_ne_true] at hrejects ⊢
  exact markupAccepts_of_window hmore hfirst hrejects

/-- Before the `b` of `x\<y <a ? =>z b` every bracket behind the `<` of `<a` is dead, and so is the one before it. A window
that starts in front of ` <a` decides by that `<`, and the whole text as well. -/
theorem acceptsAbbreviation_by_lastLive_in_tag :
    let d := Document.ofText "html" "x\\<y <a ? =>z b"
    let abbreviation : Span := ⟨⟨0, 14⟩, ⟨0, 15⟩, by decide⟩
    ∃ t, d.parse? .html = some t ∧
      ¬ Decides ((textBefore d (t.nodeAt ⟨0, 15⟩ true) ⟨0, 15⟩ abbreviation).rtake 10) 0 ∧
      acceptsAbbreviation d (some t) (t.nodeAt ⟨0, 15⟩ true) .html ⟨0, 15⟩ abbreviation
        (Settings.standard.withBacktrack 10) = false ∧
      acceptsAbbreviation d (some t) (t.nodeAt ⟨0, 15⟩ true) .html ⟨0, 15⟩ abbreviation
        (Settings.standard.withBacktrack 500) = false := by
  intro d abbreviation
  have hread : (d.parse? .html).any (fun t => t.nodeAt ⟨0, 15⟩ true == none) = true := by cbv
  obtain ⟨t, ht, hnode⟩ := (Option.any_eq_true _ _).1 hread
  rw [beq_iff_eq] at hnode
  have hwindow : (textBefore d none ⟨0, 15⟩ abbreviation).rtake 10 = " <a ? =>z ".toList := by cbv
  have hfirst : ¬ Decides " <a ? =>z ".toList 0 := by
    rw [Decides, if_neg (by decide)]
    rintro ⟨⟨hbracket, -⟩, -⟩
    revert hbracket
    decide
  have hrejects : acceptsAbbreviation d (some t) none .html ⟨0, 15⟩ abbreviation
      (Settings.standard.withBacktrack 10) = false := by cbv
  rw [← hwindow] at hfirst
  refine ⟨t, ht, ?_⟩
  rw [hnode]
  exact ⟨hfirst, hrejects, acceptsAbbreviation_by_lastLive.2 d (some t) none .html ⟨0, 15⟩ abbreviation
    Settings.standard 10 500 rfl (by decide) hfirst hrejects⟩

end AbbrevSite
