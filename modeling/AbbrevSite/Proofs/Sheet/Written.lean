import AbbrevSite.Proofs.Sheet.Plain
import AbbrevSite.Proofs.Sheet.Source

/-! The prelude of a statement that was written out. Behind its first character a prelude only grows: what it knows of
its start, its name and its colon stays, and it ends behind the last character that is not blank. -/
namespace AbbrevSite.Sheet

def letters (x : Position) (cs : List Char) : List Lexeme := (glyphsFrom x cs).map .ofGlyph

section

variable {x : Position} {c : Char} {cs ds : List Char}

@[simp] lemma letters_nil : letters x [] = [] := rfl

lemma letters_cons : letters x (c :: cs) = ⟨.char c, x, x.advance c⟩ :: letters (x.advance c) cs := rfl

lemma letters_append : letters x (cs ++ ds) = letters x cs ++ letters (x.along cs) ds := by
  rw [letters, glyphsFrom_append, List.map_append]
  rfl

end

namespace Prelude

variable {p q : Prelude} {x : Position} {c : Char} {cs : List Char}

/-- A prelude that has read some characters, each a lexeme of its own. -/
def reads (p : Prelude) (x : Position) (cs : List Char) : Prelude := (letters x cs).foldl add p

lemma reads_cons : p.reads x (c :: cs) = (p.add ⟨.char c, x, x.advance c⟩).reads (x.advance c) cs := rfl

lemma reads_append {ds : List Char} : p.reads x (cs ++ ds) = (p.reads x cs).reads (x.along cs) ds := by
  rw [reads, letters_append, List.foldl_append]
  rfl

lemma add_blank (hin : p.inAtName = false) (hc : CharClass.isBlank c = true) :
    p.add ⟨.char c, x, x.advance c⟩ = p := by
  simp [add, hin, hc]
  rw [← hin]

lemma add_space : p.add ⟨.char ' ', x, x.advance ' '⟩ = { p with inAtName := false } := by
  have hc : isAtNameChar ' ' = false := by decide
  have hb : CharClass.isBlank ' ' = true := by decide
  simp [add, hc, hb]

lemma add_colon (hin : p.inAtName = false) (hnone : p.colon = none) :
    p.add ⟨.char ':', x, x.advance ':'⟩ = p.addColon ⟨.char ':', x, x.advance ':'⟩ := by
  have hc : CharClass.isBlank ':' = false := by decide
  simp [add, hin, hc, hnone]

lemma add_plain (hin : p.inAtName = false) (hc : CharClass.isBlank c = false) (h : c = ':' → p.colon ≠ none) :
    p.add ⟨.char c, x, x.advance c⟩ = p.addPlain ⟨.char c, x, x.advance c⟩ := by
  have hcolon : ¬ (c = ':' ∧ p.colon = none) := fun hc' => h hc'.1 hc'.2
  simp [add, hin, hc, hcolon]

/-- What a prelude keeps while it reads further characters, and where it then ends. -/
structure Grows (p : Prelude) (x : Position) (cs : List Char) (q : Prelude) : Prop where
  inAtName : q.inAtName = false
  start : q.start = p.start
  atStop : q.atStop = p.atStop
  stop : ∀ c ∈ cs.getLast?, CharClass.isBlank c = false → q.stop = x.along cs
  first : p.first.isSome = true → q.first = p.first
  colon : p.colon.isSome = true ∨ ':' ∉ cs → q.colon = p.colon ∧ q.nameStop = p.nameStop
  valueStart : p.valueStart.isSome = true ∨ p.colon = none ∧ ':' ∉ cs → q.valueStart = p.valueStart

lemma grows_addPlain : Grows p x [c] (p.addPlain ⟨.char c, x, x.advance c⟩) where
  inAtName := rfl
  start := rfl
  atStop := rfl
  stop _ _ _ := rfl
  first hf := by
    obtain ⟨f, hf⟩ := Option.isSome_iff_exists.1 hf
    simp [addPlain, hf]
  colon _ := ⟨rfl, rfl⟩
  valueStart hv := by
    simp only [addPlain]
    rcases hv with hv | hv
    · obtain ⟨v, hv⟩ := Option.isSome_iff_exists.1 hv
      simp [hv]
    · simp [hv.1]

lemma grows_addColon (hnone : p.colon = none) : Grows p x [':'] (p.addColon ⟨.char ':', x, x.advance ':'⟩) where
  inAtName := rfl
  start := rfl
  atStop := rfl
  stop _ _ _ := rfl
  first hf := by
    obtain ⟨f, hf⟩ := Option.isSome_iff_exists.1 hf
    simp [addColon, hf]
  colon hc := by simp [hnone] at hc
  valueStart _ := rfl

lemma grows_add (hin : p.inAtName = false) : Grows p x [c] (p.add ⟨.char c, x, x.advance c⟩) := by
  cases hb : CharClass.isBlank c with
  | true =>
    rw [add_blank hin hb]
    refine ⟨hin, rfl, rfl, ?_, fun _ => rfl, fun _ => ⟨rfl, rfl⟩, fun _ => rfl⟩
    simp [hb]
  | false =>
    by_cases hc : c = ':' ∧ p.colon = none
    · obtain ⟨rfl, hnone⟩ := hc
      rw [add_colon hin hnone]
      exact grows_addColon hnone
    · rw [add_plain hin hb fun he hnone => hc ⟨he, hnone⟩]
      exact grows_addPlain

theorem grows_reads (hin : p.inAtName = false) : Grows p x cs (p.reads x cs) := by
  induction cs generalizing p x with
  | nil => exact ⟨hin, rfl, rfl, by simp, fun _ => rfl, fun _ => ⟨rfl, rfl⟩, fun _ => rfl⟩
  | cons c cs ih =>
    have h := grows_add (x := x) (c := c) hin
    have hs := ih (x := x.advance c) h.inAtName
    have hmem (hm : ':' ∉ c :: cs) : ':' ∉ [c] ∧ ':' ∉ cs := by simpa [not_or] using hm
    rw [reads_cons]
    refine ⟨hs.inAtName, hs.start.trans h.start, hs.atStop.trans h.atStop, ?_, fun hf => ?_, fun hc => ?_, fun hv => ?_⟩
    · cases cs with
      | nil => exact h.stop
      | cons e cs =>
        rw [List.getLast?_cons_cons]
        exact hs.stop
    · have hf' := h.first hf
      exact (hs.first (hf' ▸ hf)).trans hf'
    · obtain ⟨h1, h2⟩ := h.colon (hc.imp_right fun hm => (hmem hm).1)
      obtain ⟨h3, h4⟩ := hs.colon (hc.imp (h1 ▸ ·) fun hm => (hmem hm).2)
      exact ⟨h3.trans h1, h4.trans h2⟩
    · have hv' := h.valueStart (hv.imp_right fun hm => ⟨hm.1, (hmem hm.2).1⟩)
      refine (hs.valueStart (hv.imp (hv' ▸ ·) fun hm => ⟨?_, (hmem hm.2).2⟩)).trans hv'
      rw [(h.colon (.inr (hmem hm.2).1)).1, hm.1]

lemma ofFirst_eq (h : c ≠ '@') : ofFirst ⟨.char c, x, x.advance c⟩ = (startAt x).add ⟨.char c, x, x.advance c⟩ := by
  unfold ofFirst
  rw [if_neg (by simpa using h)]

def ofChars (x : Position) : List Char → Prelude
  | [] => startAt x
  | c :: cs => (ofFirst ⟨.char c, x, x.advance c⟩).reads (x.advance c) cs

lemma ofChars_eq (h : cs.head? ≠ some '@') : ofChars x cs = (startAt x).reads x cs := by
  cases cs with
  | nil => rfl
  | cons c cs => rw [ofChars, ofFirst_eq (by simpa using h), reads_cons]

lemma reads_atName (hcs : ∀ c ∈ cs, isAtNameChar c = true) (hin : p.inAtName = true) (hat : p.atStop = some x)
    (hstop : p.stop = x) :
    p.reads x cs = { p with stop := x.along cs, atStop := some (x.along cs) } := by
  induction cs generalizing p x with
  | nil =>
    subst hstop
    rw [Position.along_nil, ← hat]
    rfl
  | cons c cs ih =>
    rw [List.forall_mem_cons] at hcs
    have hadd : p.add ⟨.char c, x, x.advance c⟩ = { p with stop := x.advance c, atStop := some (x.advance c) } := by
      simp [add, hin, hcs.1]
    rw [reads_cons, hadd]
    exact ih (p := { p with stop := x.advance c, atStop := some (x.advance c) }) hcs.2 hin rfl rfl

def PartsOf (x : Position) (p : Prelude) : Header → Prop
  | .declaration name _ => p.atStop = none ∧ p.nameStop = some (x.along name) ∧ p.colon = some (x.along name) ∧
      p.valueStart = some (x.along (name ++ [':', ' ']))
  | .rule _ => p.atStop = none
  | .atRule name _ => p.atStop = some (x.along ('@' :: name)) ∧ p.first = some (x.along ('@' :: (name ++ [' '])))

/-- What the prelude of a header knows. -/
structure OfHeader (h : Header) (x : Position) (p : Prelude) : Prop where
  start : p.start = x
  stop : p.stop = x.along h.print
  parts : PartsOf x p h

lemma ofHeader_rule {selector : List Char} (h : (Header.rule selector).WellFormed) :
    OfHeader (.rule selector) x (ofChars x selector) := by
  obtain ⟨hphrase, hat⟩ := h
  obtain ⟨e, he, hlast⟩ := hphrase.last
  have hgrows : Grows (startAt x) x selector ((startAt x).reads x selector) := grows_reads rfl
  rw [ofChars_eq hat]
  exact ⟨hgrows.start, hgrows.stop e he hlast, hgrows.atStop⟩

/-- The first character of a phrase is significant. -/
lemma reads_phrase (h : IsPhrase cs) (hin : p.inAtName = false) :
    Grows p x cs (p.reads x cs) ∧ (p.reads x cs).stop = x.along cs ∧ (p.reads x cs).first = p.first.or (some x) ∧
      (p.colon.isSome = true → (p.reads x cs).valueStart = p.valueStart.or (some x)) := by
  obtain ⟨e, he, hlast⟩ := h.last
  have hgrows : Grows p x cs (p.reads x cs) := grows_reads hin
  refine ⟨hgrows, hgrows.stop e he hlast, ?_⟩
  obtain ⟨c, cs, rfl, hb⟩ := h.exists_eq_cons
  rw [reads_cons]
  have hrest (q : Prelude) (hq : q.inAtName = false) : Grows q (x.advance c) cs (q.reads (x.advance c) cs) :=
    grows_reads hq
  by_cases hcolon : c = ':' ∧ p.colon = none
  · obtain ⟨rfl, hnone⟩ := hcolon
    rw [add_colon hin hnone]
    have hr := hrest (p.addColon ⟨.char ':', x, x.advance ':'⟩) rfl
    refine ⟨hr.first ?_, fun hs => by simp [hnone] at hs⟩
    simp [addColon]
  · rw [add_plain hin hb fun he hnone => hcolon ⟨he, hnone⟩]
    have hr := hrest (p.addPlain ⟨.char c, x, x.advance c⟩) rfl
    refine ⟨hr.first ?_, fun hs => (hr.valueStart (.inl ?_)).trans ?_⟩
    · simp [addPlain]
    · simp [addPlain, hs]
    · simp [addPlain, hs]

lemma ofHeader_declaration {name value : List Char} (h : (Header.declaration name value).WellFormed) :
    OfHeader (.declaration name value) x (ofChars x (Header.declaration name value).print) := by
  obtain ⟨hname, hvalue, hcolon, hat⟩ := h
  have hhead : (Header.declaration name value).print.head? ≠ some '@' := by
    obtain ⟨c, hc, -⟩ := hname.first
    simpa [Header.print, List.head?_append, Option.mem_def.1 hc] using hat
  obtain ⟨hgrows, hstop, -, -⟩ := reads_phrase (p := startAt x) (x := x) hname rfl
  have hnone : ((startAt x).reads x name).colon = none := (hgrows.colon (.inr hcolon)).1
  have hfresh : ((startAt x).reads x name).valueStart = none := hgrows.valueStart (.inr ⟨rfl, hcolon⟩)
  generalize hp : (startAt x).reads x name = p at *
  obtain ⟨hgrows', hstop', -, hvalue'⟩ := reads_phrase
    (p := p.addColon ⟨.char ':', x.along name, (x.along name).advance ':'⟩)
    (x := ((x.along name).advance ':').advance ' ') hvalue rfl
  have hreads : ofChars x (Header.declaration name value).print =
      (p.addColon ⟨.char ':', x.along name, (x.along name).advance ':'⟩).reads
        (((x.along name).advance ':').advance ' ') value := by
    rw [ofChars_eq hhead, Header.print, reads_append, hp, reads_cons, reads_cons, add_colon hgrows.inAtName hnone,
      add_blank rfl (by decide)]
  have hname' := hgrows'.colon (.inl rfl)
  rw [hreads]
  refine ⟨hgrows'.start.trans hgrows.start, ?_, hgrows'.atStop.trans hgrows.atStop, ?_, hname'.1, ?_⟩
  · simpa [Header.print, Position.along_append] using hstop'
  · rw [hname'.2, ← hstop]
    rfl
  · rw [hvalue' rfl]
    simp [addColon, hfresh, Position.along_append]

lemma ofHeader_atRule {name expression : List Char} (h : (Header.atRule name expression).WellFormed) :
    OfHeader (.atRule name expression) x (ofChars x (Header.atRule name expression).print) := by
  obtain ⟨hname, hexpression⟩ := h
  rw [List.all_eq_true] at hname
  let p : Prelude := { startAt x with stop := x.along ('@' :: name), atStop := some (x.along ('@' :: name)) }
  have hreads : ofChars x (Header.atRule name expression).print =
      p.reads (x.along ('@' :: (name ++ [' ']))) expression := by
    have hat := reads_atName (p := ofFirst ⟨.char '@', x, x.advance '@'⟩) (x := x.advance '@') hname rfl rfl rfl
    rw [Header.print, ofChars, reads_append, hat, reads_cons, add_space, Position.along_cons, Position.along_append]
    rfl
  obtain ⟨hgrows, hstop, hfirst, -⟩ := reads_phrase (p := p) (x := x.along ('@' :: (name ++ [' ']))) hexpression rfl
  rw [hreads]
  refine ⟨hgrows.start, ?_, hgrows.atStop, hfirst⟩
  simpa [Header.print, Position.along_append] using hstop

theorem ofHeader_print {h : Header} (hh : h.WellFormed) : OfHeader h x (ofChars x h.print) := by
  cases h with
  | declaration name value => exact ofHeader_declaration hh
  | rule selector => exact ofHeader_rule hh
  | atRule name expression => exact ofHeader_atRule hh

end Prelude
end AbbrevSite.Sheet
