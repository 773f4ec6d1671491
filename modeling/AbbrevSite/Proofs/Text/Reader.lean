import AbbrevSite.Proofs.Text.Offsets
import Mathlib

/-! A cursor reads a text as an index would. Lines and columns, the newline that stands after every line and the ends
of the window do not show: whatever is done with a cursor, its answers and its place are those of an index into the
characters of the text. -/
namespace AbbrevSite

namespace Reader

/-- What can be done with a reader. -/
inductive Action where
  | peek
  | next
  | back (n : UInt64)
  | eat (b : Char → Bool)
  | eatWhile (b : Char → Bool)
  | eatBlanks
  | mark
  | token

/-- What a reader answers. -/
inductive Reply where
  | char (c : Option Char)
  | moved (b : Bool)
  | text (s : String)
  | done
deriving DecidableEq

/-- A count that goes back is not negative as a signed word. -/
def Action.Signed : Action → Prop
  | .back n => n.toNat < 2 ^ 63
  | _ => True

def run {σ : Type} (act : σ → Action → Reply × σ) : List Action → σ → List Reply × σ
  | [], x => ([], x)
  | a :: rest, x => ((act x a).1 :: (run act rest (act x a).2).1, (run act rest (act x a).2).2)

end Reader

open Reader

def Cursor.act (c : Cursor) : Action → Reply × Cursor
  | .peek => (.char c.peek?, c)
  | .next =>
    match c.next? with
    | none => (.char none, c)
    | some (ch, c') => (.char (some ch), c')
  | .back n => (.char (c.back n).peek?, c.back n)
  | .eat b => (.moved (c.eat b).1, (c.eat b).2)
  | .eatWhile b => (.moved (c.eatWhile b).1, (c.eatWhile b).2)
  | .eatBlanks => (.moved c.eatBlanks.1, c.eatBlanks.2)
  | .mark => (.done, c.setMark)
  | .token => (.text c.token, c)

abbrev Cursor.run (c : Cursor) (actions : List Action) : List Reply × Cursor := Reader.run act actions c

/-- A reader of a list of characters: the index of the next one, the index at which reading ends and the one at which
the token starts. -/
structure IndexReader where
  text : List Char
  bound : Nat
  index : Nat
  mark : Nat

namespace IndexReader

def ahead (r : IndexReader) : List Char := (r.text.take r.bound).drop r.index

def peek? (r : IndexReader) : Option Char := if r.index < r.bound then r.text[r.index]? else none

def skip (r : IndexReader) : IndexReader := { r with index := min (r.index + 1) r.bound }

def back (r : IndexReader) (n : Nat) : IndexReader := { r with index := r.index - n }

def eat (r : IndexReader) (b : Char → Bool) : Bool × IndexReader :=
  if r.peek?.any b then (true, r.skip) else (false, r)

/-- Moves over the longest run of characters satisfying `b`, and says whether there is one. -/
def eatWhile (r : IndexReader) (b : Char → Bool) : Bool × IndexReader :=
  let run := r.ahead.takeWhile b
  (!run.isEmpty, { r with index := r.index + run.length })

/-- The characters between the start of the token and the index, whichever comes first. -/
def token (r : IndexReader) : String :=
  .ofList ((r.text.take (max r.mark r.index)).drop (min r.mark r.index))

def act (r : IndexReader) : Action → Reply × IndexReader
  | .peek => (.char r.peek?, r)
  | .next => (.char r.peek?, r.skip)
  | .back n => (.char (r.back n.toNat).peek?, r.back n.toNat)
  | .eat b => (.moved (r.eat b).1, (r.eat b).2)
  | .eatWhile b => (.moved (r.eatWhile b).1, (r.eatWhile b).2)
  | .eatBlanks => (.moved (r.eatWhile CharClass.isBlank).1, (r.eatWhile CharClass.isBlank).2)
  | .mark => (.done, { r with mark := r.index })
  | .token => (.text r.token, r)

abbrev run (r : IndexReader) (actions : List Action) : List Reply × IndexReader := Reader.run act actions r

variable {r : IndexReader} {b : Char → Bool} {c : Char} {rest : List Char}

lemma head?_ahead (r : IndexReader) : r.ahead.head? = r.peek? := by
  rw [ahead, List.head?_drop, List.getElem?_take]
  rfl

lemma ahead_of_bound_le (h : r.bound ≤ r.index) : r.ahead = [] :=
  List.drop_of_length_le ((List.length_take_le _ _).trans h)

lemma tail_ahead (r : IndexReader) : r.ahead.tail = r.skip.ahead := by
  rcases lt_or_ge r.index r.bound with h | h
  · rw [ahead, ahead, List.tail_drop, skip, Nat.min_eq_left h]
  · rw [ahead_of_bound_le h, ahead_of_bound_le (r := r.skip) (le_min (Nat.le_succ_of_le h) (le_refl _)), List.tail_nil]

lemma ahead_eq_cons (h : c ∈ r.peek?) : r.ahead = c :: r.skip.ahead ∧ r.skip.index = r.index + 1 := by
  have hlt : r.index < r.bound := by
    by_contra hlt
    rw [peek?, if_neg hlt] at h
    cases h
  rw [← head?_ahead] at h
  exact ⟨by rw [← tail_ahead, List.cons_head?_tail h], Nat.min_eq_left hlt⟩

lemma eat_fst (r : IndexReader) (b : Char → Bool) : (r.eat b).1 = r.peek?.any b := by
  unfold eat
  cases r.peek?.any b <;> rfl

lemma eatWhile_of_eat (h : (r.eat b).1 = true) : (r.eatWhile b).2 = (r.skip.eatWhile b).2 := by
  rw [eat_fst, Option.any_eq_true] at h
  obtain ⟨c, hc, hb⟩ := h
  obtain ⟨hahead, hindex⟩ := ahead_eq_cons hc
  simp only [eatWhile, hahead, hindex, List.takeWhile_cons_of_pos hb, List.length_cons]
  rw [Nat.add_assoc, Nat.add_comm 1]
  rfl

lemma eatWhile_of_not_eat (h : (r.eat b).1 = false) : (r.eatWhile b).2 = r := by
  rw [eat_fst, ← head?_ahead] at h
  have hrun : r.ahead.takeWhile b = [] := by
    cases hahead : r.ahead with
    | nil => rfl
    | cons c rest =>
      rw [hahead, List.head?_cons, Option.any_some] at h
      exact List.takeWhile_cons_of_neg (by rw [h]; exact Bool.false_ne_true)
  rw [eatWhile, hrun]
  rfl

lemma length_ahead (h : r.bound ≤ r.text.length) : r.ahead.length = r.bound - r.index := by
  rw [ahead, List.length_drop, List.length_take_of_le h]

lemma run_replicate_next {n : Nat} (h : r.index + n ≤ r.bound) :
    (r.run (List.replicate n .next)).2 = { r with index := r.index + n } := by
  induction n generalizing r with
  | zero => rfl
  | succ n ih =>
    have hskip : r.skip.index = r.index + 1 := Nat.min_eq_left (by omega)
    have hrest := ih (r := r.skip) (by rw [hskip]; show _ ≤ r.bound; omega)
    rw [hskip] at hrest
    rw [List.replicate_succ, run, Reader.run]
    refine hrest.trans ?_
    rw [Nat.add_assoc, Nat.add_comm 1]
    rfl

/-- Reading to the end answers with the characters ahead, and then with none. -/
lemma run_to_end (hi : r.index ≤ r.bound) (hb : r.bound ≤ r.text.length) :
    r.run (List.replicate (r.ahead.length + 1) .next) =
      (r.ahead.map (fun c => .char (some c)) ++ [.char none], { r with index := r.bound }) := by
  induction hahead : r.ahead generalizing r with
  | nil =>
    have hindex : r.index = r.bound := by
      have hlength := length_ahead hb
      rw [hahead, List.length_nil] at hlength
      omega
    have hpeek : r.peek? = none := by rw [← head?_ahead, hahead]; rfl
    have hskip : r.skip = { r with index := r.bound } := by
      rw [skip, hindex, Nat.min_eq_right (Nat.le_succ _)]
    show ([Reply.char r.peek?], r.skip) = _
    rw [hpeek, hskip]
    rfl
  | cons c rest ih =>
    have hpeek : r.peek? = some c := by rw [← head?_ahead, hahead]; rfl
    have hrest : r.skip.ahead = rest := by rw [← tail_ahead, hahead]; rfl
    have hlast := ih (r := r.skip) (Nat.min_le_right _ _) hb hrest
    rw [List.length_cons, List.replicate_succ, run, Reader.run]
    show (Reply.char r.peek? :: (r.skip.run _).1, (r.skip.run _).2) = _
    rw [hlast, hpeek]
    rfl

end IndexReader

namespace Reader

variable {σ τ : Type} {act : σ → Action → Reply × σ} {act' : τ → Action → Reply × τ} {view : σ → τ}

/-- Where each action commutes with a view, so does a list of them. -/
theorem run_view (inv : σ → Prop) {actions : List Action}
    (hact : ∀ x, ∀ a ∈ actions, inv x → act' (view x) a = ((act x a).1, view (act x a).2) ∧ inv (act x a).2)
    {x : σ} (hx : inv x) :
    run act' actions (view x) = ((run act actions x).1, view (run act actions x).2) ∧ inv (run act actions x).2 := by
  induction actions generalizing x with
  | nil => exact ⟨rfl, hx⟩
  | cons a rest ih =>
    obtain ⟨ha, hinv⟩ := hact x a List.mem_cons_self hx
    obtain ⟨hrest, hlast⟩ := ih (fun x a ha => hact x a (List.mem_cons_of_mem _ ha)) hinv
    simp only [run, ha, hrest]
    exact ⟨trivial, hlast⟩

end Reader

open Document

namespace Cursor

/-- A cursor in its window, or before it: the cursor, the start of the token and the end of the window are places of
the document, and the end is the last of them. -/
structure Stands (c : Cursor) : Prop where
  stop : c.document.Valid c.window.stop
  position : c.document.Valid c.position
  mark : c.document.Valid c.mark
  position_le : c.position ≤ c.window.stop
  mark_le : c.mark ≤ c.window.stop

def indexed (c : Cursor) : IndexReader :=
  ⟨c.document.text.toList, c.document.offsetAt c.window.stop, c.document.offsetAt c.position, c.document.offsetAt c.mark⟩

def placedAt (c : Cursor) (r : IndexReader) : Cursor :=
  { c with position := c.document.positionAt r.index, mark := c.document.positionAt r.mark }

/-- Two cursors read the same window of the same document. -/
structure Alongside (c c' : Cursor) : Prop where
  document : c'.document = c.document
  window : c'.window = c.window

variable {c c' : Cursor}

lemma alongside_refl (c : Cursor) : c.Alongside c := ⟨rfl, rfl⟩

lemma Alongside.trans {c'' : Cursor} (h : c.Alongside c') (h' : c'.Alongside c'') : c.Alongside c'' :=
  ⟨h'.document.trans h.document, h'.window.trans h.window⟩

lemma alongside_skip (c : Cursor) : c.Alongside c.skip := by
  unfold skip
  split_ifs <;> exact ⟨rfl, rfl⟩

lemma alongside_eat (c : Cursor) (b : Char → Bool) : c.Alongside (c.eat b).2 := by
  unfold eat
  split_ifs
  · exact c.alongside_skip
  · exact c.alongside_refl

lemma alongside_skipWhile (c : Cursor) (b : Char → Bool) : c.Alongside (c.skipWhile b) := by
  fun_induction skipWhile b c with
  | case1 c _ ih => exact (c.alongside_eat b).trans ih
  | case2 c _ => exact c.alongside_refl

lemma act_next (c : Cursor) : c.act .next = (.char c.peek?, c.skip) := by
  unfold act next? peek? skip
  split_ifs <;> rfl

lemma alongside_act (c : Cursor) (a : Action) : c.Alongside (c.act a).2 := by
  cases a with
  | next =>
    rw [act_next]
    exact c.alongside_skip
  | eat b => exact c.alongside_eat b
  | eatWhile b => exact c.alongside_skipWhile b
  | eatBlanks => exact c.alongside_skipWhile CharClass.isBlank
  | peek | back | mark | token => exact ⟨rfl, rfl⟩

namespace Stands

lemma index_le (h : c.Stands) : c.indexed.index ≤ c.indexed.bound :=
  (le_iff_offsetAt_le h.position h.stop).1 h.position_le

lemma bound_le (h : c.Stands) : c.indexed.bound ≤ c.indexed.text.length := by
  have hlength := offsetAt_add_length_charsBetween c.document.valid_origin c.document.valid_stop (Position.origin_le _)
  rw [offsetAt_origin, Nat.zero_add, offsetAt_stop] at hlength
  have htext : c.indexed.text.length = c.document.length := by
    rw [indexed, toList_text, map_char_glyphs c.document.valid_origin c.document.valid_stop (Position.origin_le _),
      hlength]
  rw [htext]
  exact offsetAt_le_length h.stop

lemma placedAt_indexed (h : c.Stands) : c.placedAt c.indexed = c := by
  simp only [placedAt, indexed, positionAt_offsetAt h.position, positionAt_offsetAt h.mark]

lemma ahead_eq (h : c.Stands) : c.indexed.ahead = c.document.charsBetween c.position c.window.stop :=
  slice_text h.position h.stop h.position_le

lemma peek?_eq (h : c.Stands) : c.indexed.peek? = c.peek? := by
  rw [← IndexReader.head?_ahead, h.ahead_eq, Cursor.peek?, atEnd]
  rcases lt_or_ge c.position c.window.stop with hlt | hle
  · rw [charsBetween_cons h.position h.stop hlt, decide_eq_false (not_le.2 hlt)]
    rfl
  · rw [charsBetween_of_le h.position h.stop hle, decide_eq_true hle]
    rfl

lemma skip (h : c.Stands) : c.indexed.skip = c.skip.indexed ∧ c.skip.Stands := by
  unfold Cursor.skip atEnd
  rcases lt_or_ge c.position c.window.stop with hlt | hle
  · have hbefore := hlt.trans_le (le_stop h.stop)
    have hnext := offsetAt_after h.position hbefore
    have hle := after_le h.stop hlt
    have hvalid := valid_after h.position hbefore
    have hmin := (le_iff_offsetAt_le hvalid h.stop).1 hle
    rw [decide_eq_false (not_le.2 hlt), if_neg Bool.false_ne_true, afterWithin_of_valid h.stop hlt]
    refine ⟨?_, h.stop, hvalid, h.mark, hle, h.mark_le⟩
    simp only [IndexReader.skip, indexed, hnext]
    rw [Nat.min_eq_left (hnext ▸ hmin)]
  · have hoffset := (le_iff_offsetAt_le h.stop h.position).1 hle
    have heq : c.indexed.index = c.indexed.bound := le_antisymm h.index_le hoffset
    rw [decide_eq_true hle, if_pos rfl]
    refine ⟨?_, h⟩
    rw [IndexReader.skip, heq, Nat.min_eq_right (Nat.le_succ _)]
    exact congrArg (fun i => { c.indexed with index := i }) heq.symm

lemma eat (h : c.Stands) (b : Char → Bool) :
    c.indexed.eat b = ((c.eat b).1, (c.eat b).2.indexed) ∧ (c.eat b).2.Stands := by
  rw [IndexReader.eat, Cursor.eat, h.peek?_eq, h.skip.1]
  split_ifs
  · exact ⟨rfl, h.skip.2⟩
  · exact ⟨rfl, h⟩

lemma skipWhile (h : c.Stands) (b : Char → Bool) :
    (c.indexed.eatWhile b).2 = (c.skipWhile b).indexed ∧ (c.skipWhile b).Stands := by
  fun_induction Cursor.skipWhile b c with
  | case1 c heat ih =>
    obtain ⟨hview, hstands⟩ := h.eat b
    have hskip : c.indexed.skip = (c.eat b).2.indexed := by
      rw [h.skip.1]
      unfold Cursor.eat at heat ⊢
      split_ifs at heat ⊢
      rfl
    rw [IndexReader.eatWhile_of_eat (by rw [hview]; exact heat), hskip]
    exact ih hstands
  | case2 c heat =>
    rw [IndexReader.eatWhile_of_not_eat (by rw [(h.eat b).1]; simpa using heat)]
    exact ⟨rfl, h⟩

lemma eatWhile (h : c.Stands) (b : Char → Bool) :
    c.indexed.eatWhile b = ((c.eatWhile b).1, (c.eatWhile b).2.indexed) ∧ (c.eatWhile b).2.Stands := by
  obtain ⟨hview, hstands⟩ := h.skipWhile b
  have hvalid := hstands.position
  rw [(c.alongside_skipWhile b).document] at hvalid
  have hoffset : c.document.offsetAt (c.skipWhile b).position =
      c.document.offsetAt c.position + (c.indexed.ahead.takeWhile b).length := by
    have hindex : _ = (c.skipWhile b).document.offsetAt (c.skipWhile b).position :=
      congrArg IndexReader.index hview
    rw [(c.alongside_skipWhile b).document] at hindex
    exact hindex.symm
  have hmoved : (c.skipWhile b).position = c.position ↔ c.indexed.ahead.takeWhile b = [] := by
    rw [← List.length_eq_zero_iff]
    constructor
    · intro heq
      rw [heq] at hoffset
      omega
    · intro hzero
      rw [hzero, Nat.add_zero] at hoffset
      rw [← positionAt_offsetAt hvalid, hoffset, positionAt_offsetAt h.position]
  refine ⟨Prod.ext ?_ hview, hstands⟩
  show (!(c.indexed.ahead.takeWhile b).isEmpty) = ((c.skipWhile b).position != c.position)
  rw [Bool.eq_iff_iff]
  simp [hmoved]

end Stands

/-- A column counted from a line leads as far as the offset does, and not before the origin. -/
lemma valid_backFrom {d : Document} {l : Nat} {k : Int} (hl : l < d.lineCount) (hk : k ≤ d.lineLength l) :
    d.Valid (backFrom d l k) ∧ d.offsetAt (backFrom d l k) = (d.lineStart l + k).toNat := by
  induction l generalizing k with
  | zero =>
    rw [backFrom]
    split_ifs with h
    · have hv : d.Valid ⟨0, k.toNat⟩ := ⟨hl, by show k.toNat ≤ d.lineLength 0; omega⟩
      refine ⟨hv, ?_⟩
      rw [offsetAt_of_valid hv, lineStart_zero]
      dsimp only
      omega
    · refine ⟨d.valid_origin, ?_⟩
      rw [offsetAt_origin, lineStart_zero]
      omega
  | succ l ih =>
    rw [backFrom]
    split_ifs with h
    · have hv : d.Valid ⟨l + 1, k.toNat⟩ := ⟨hl, by show k.toNat ≤ d.lineLength (l + 1); omega⟩
      refine ⟨hv, ?_⟩
      rw [offsetAt_of_valid hv]
      dsimp only
      omega
    · obtain ⟨hv, he⟩ := ih (k := k + (d.lineLength l + 1)) (by omega) (by omega)
      refine ⟨hv, ?_⟩
      have hline := lineStart_succ (d := d) (n := l) (by omega)
      rw [he, hline]
      omega

lemma toInt_column (k : Nat) (n : UInt64) :
    (Int64.ofNat k - n.toInt64).toInt = ((k : Int) - n.toNat).bmod (2 ^ 64) := by
  have hn : n.toInt64.toInt = (n.toNat : Int).bmod (2 ^ 64) := BitVec.toInt_eq_toNat_bmod _
  rw [Int64.toInt_sub, hn, Int64.toInt_ofNat']
  exact (Int.sub_bmod _ _ _).symm

lemma toInt_column_of_lt {k : Nat} {n : UInt64} (hk : k < 2 ^ 63) (hn : n.toNat ≤ k + 2 ^ 63) :
    (Int64.ofNat k - n.toInt64).toInt = (k : Int) - n.toNat := by
  rw [toInt_column]
  exact Int.bmod_eq_of_le (by omega) (by omega)

lemma toInt_column_of_gt {k : Nat} {n : UInt64} (hn : k + 2 ^ 63 < n.toNat) :
    (Int64.ofNat k - n.toInt64).toInt = k + (2 ^ 64 - n.toNat : Nat) := by
  have hlt := n.toNat_lt
  rw [toInt_column, ← Int.add_bmod_right]
  refine (Int.bmod_eq_of_le (by omega) (by omega)).trans (by omega)

namespace Stands

lemma column_le (h : c.Stands) : c.position.column ≤ c.document.length := by
  have hoffset := offsetAt_le_length h.position
  rw [offsetAt_of_valid h.position] at hoffset
  omega

lemma back_of_le (h : c.Stands) (hd : c.document.length < 2 ^ 63) {n : UInt64}
    (hn : n.toNat ≤ c.position.column + 2 ^ 63) :
    c.indexed.back n.toNat = (c.back n).indexed ∧ (c.back n).Stands := by
  obtain ⟨hline, hcolumn⟩ := h.position
  obtain ⟨hvalid, hoffset⟩ := valid_backFrom (k := (c.position.column : Int) - n.toNat) hline (by omega)
  have hback : (c.back n).position = backFrom c.document c.position.line ((c.position.column : Int) - n.toNat) := by
    rw [Cursor.back, toInt_column_of_lt (h.column_le.trans_lt hd) hn]
  rw [← hback] at hvalid hoffset
  have hindex : c.document.offsetAt (c.back n).position = c.document.offsetAt c.position - n.toNat := by
    rw [hoffset, offsetAt_of_valid h.position]
    omega
  have hle := (le_iff_offsetAt_le h.position h.stop).1 h.position_le
  refine ⟨?_, h.stop, hvalid, h.mark, (le_iff_offsetAt_le hvalid h.stop).2 (by rw [hindex]; exact Nat.le_trans (Nat.sub_le _ _) hle), h.mark_le⟩
  show (⟨_, _, c.document.offsetAt c.position - n.toNat, _⟩ : IndexReader) = _
  rw [← hindex]
  rfl

/-- Going back puts the characters gone over ahead again. -/
theorem ahead_back (h : c.Stands) (hd : c.document.length < 2 ^ 63) {n : UInt64}
    (hn : n.toNat ≤ c.position.column + 2 ^ 63) :
    ∃ gs, (c.back n).ahead = gs ++ c.ahead ∧ gs.length = min n.toNat c.indexed.index := by
  obtain ⟨hview, hstands⟩ := h.back_of_le hd hn
  have hvalid : c.document.Valid (c.back n).position := hstands.position
  have hindex : c.document.offsetAt (c.back n).position = c.document.offsetAt c.position - n.toNat :=
    (congrArg IndexReader.index hview).symm
  have hle : (c.back n).position ≤ c.position := by
    rw [le_iff_offsetAt_le hvalid h.position]
    omega
  have hlength := offsetAt_add_length_glyphs hvalid h.position hle
  refine ⟨_, glyphs_append hvalid h.position h.stop hle h.position_le, ?_⟩
  show (c.document.glyphs (c.back n).position c.position).length = min n.toNat (c.document.offsetAt c.position)
  omega

lemma back_of_large (h : c.Stands) (hd : c.document.length < 2 ^ 63) {n : UInt64} (hn : 2 ^ 63 ≤ n.toNat) :
    (c.back n).position = if c.position.column + 2 ^ 63 < n.toNat
      then ⟨c.position.line, c.position.column + (2 ^ 64 - n.toNat)⟩ else .origin := by
  split_ifs with hlarge
  · rw [Cursor.back, toInt_column_of_gt hlarge]
    unfold backFrom
    rw [if_pos (by omega)]
    rfl
  · obtain ⟨hview, hstands⟩ := h.back_of_le hd (not_lt.1 hlarge)
    have hindex : c.document.offsetAt (c.back n).position = c.document.offsetAt c.position - n.toNat :=
      (congrArg IndexReader.index hview).symm
    have hlength := offsetAt_le_length h.position
    have hvalid : c.document.Valid (c.back n).position := hstands.position
    rw [← positionAt_offsetAt hvalid, hindex, Nat.sub_eq_zero_of_le (by omega), ← offsetAt_origin (d := c.document),
      positionAt_offsetAt c.document.valid_origin]

lemma token (h : c.Stands) : c.indexed.token = c.token := by
  have slice {p q : Position} (hp : c.document.Valid p) (hq : c.document.Valid q) (hle : p ≤ q) :
      String.ofList ((c.document.text.toList.take (max (c.document.offsetAt p) (c.document.offsetAt q))).drop
        (min (c.document.offsetAt p) (c.document.offsetAt q))) = c.document.textOf (.between p q) := by
    have hoffset := (le_iff_offsetAt_le hp hq).1 hle
    rw [max_eq_right hoffset, min_eq_left hoffset, slice_text hp hq hle, Span.between_of_le hle]
    rfl
  rcases le_total c.mark c.position with hle | hle
  · exact slice h.mark h.position hle
  · rw [Cursor.token, Cursor.textBetween, Span.between_comm, ← slice h.position h.mark hle, max_comm, min_comm]
    rfl

/-- Each action takes a cursor and its index the same way. -/
theorem act (h : c.Stands) (hd : c.document.length < 2 ^ 63) {a : Action} (ha : a.Signed) :
    c.indexed.act a = ((c.act a).1, (c.act a).2.indexed) ∧ (c.act a).2.Stands := by
  cases a with
  | peek => exact ⟨by rw [IndexReader.act, h.peek?_eq]; rfl, h⟩
  | next =>
    rw [act_next]
    exact ⟨by rw [IndexReader.act, h.peek?_eq, h.skip.1], h.skip.2⟩
  | back n =>
    obtain ⟨hview, hstands⟩ := h.back_of_le hd (Nat.le_add_left_of_le (le_of_lt ha))
    refine ⟨?_, hstands⟩
    rw [IndexReader.act, hview, hstands.peek?_eq]
    rfl
  | eat b =>
    obtain ⟨hview, hstands⟩ := h.eat b
    refine ⟨?_, hstands⟩
    rw [IndexReader.act, hview]
    rfl
  | eatWhile b =>
    obtain ⟨hview, hstands⟩ := h.eatWhile b
    refine ⟨?_, hstands⟩
    rw [IndexReader.act, hview]
    rfl
  | eatBlanks =>
    obtain ⟨hview, hstands⟩ := h.eatWhile CharClass.isBlank
    refine ⟨?_, hstands⟩
    rw [IndexReader.act, hview]
    rfl
  | mark => exact ⟨rfl, h.stop, h.position, h.position, h.position_le, h.position_le⟩
  | token => exact ⟨by rw [IndexReader.act, h.token]; rfl, h⟩

lemma run_view (h : c.Stands) (hd : c.document.length < 2 ^ 63) {actions : List Action}
    (ha : ∀ a ∈ actions, a.Signed) :
    c.indexed.run actions = ((c.run actions).1, (c.run actions).2.indexed) ∧ (c.run actions).2.Stands ∧
      c.Alongside (c.run actions).2 := by
  refine Reader.run_view (fun c' => c'.Stands ∧ c.Alongside c') ?_ ⟨h, c.alongside_refl⟩
  rintro c' a hmem ⟨hstands, hc'⟩
  obtain ⟨hview, hnext⟩ := hstands.act (hc'.document.symm ▸ hd) (ha a hmem)
  exact ⟨hview, hnext, hc'.trans (c'.alongside_act a)⟩

lemma run_eq (h : c.Stands) (hd : c.document.length < 2 ^ 63) {actions : List Action}
    (ha : ∀ a ∈ actions, a.Signed) :
    c.run actions = ((c.indexed.run actions).1, c.placedAt (c.indexed.run actions).2) := by
  obtain ⟨hview, hstands, hc⟩ := h.run_view hd ha
  rw [hview]
  generalize c.run actions = answer at hstands hc ⊢
  obtain ⟨replies, d, window, p, m⟩ := answer
  obtain ⟨rfl, rfl⟩ := hc
  exact Prod.ext rfl hstands.placedAt_indexed.symm

lemma index_run_le (h : c.Stands) (hd : c.document.length < 2 ^ 63) {actions : List Action}
    (ha : ∀ a ∈ actions, a.Signed) : (c.indexed.run actions).2.index ≤ c.indexed.bound := by
  obtain ⟨hview, hstands, hc⟩ := h.run_view hd ha
  have hle := hstands.index_le
  have hbound : (c.run actions).2.indexed.bound = c.indexed.bound := by
    rw [indexed, indexed, hc.document, hc.window]
  rw [hview]
  rwa [hbound] at hle

lemma run_back_next (h : c.Stands) (hd : c.document.length < 2 ^ 63) {n : UInt64}
    (hn : n.toNat ≤ c.indexed.index) :
    (c.run (.back n :: List.replicate n.toNat .next)).2 = c := by
  have hindex : (c.indexed.back n.toNat).index + n.toNat = c.indexed.index := Nat.sub_add_cancel hn
  have hrun := IndexReader.run_replicate_next (r := c.indexed.back n.toNat) (n := n.toNat)
    (hindex.trans_le h.index_le)
  rw [hindex] at hrun
  have hback : (c.indexed.run (.back n :: List.replicate n.toNat .next)).2 = c.indexed := hrun
  have hsigned : ∀ a ∈ Action.back n :: List.replicate n.toNat .next, a.Signed := by
    refine List.forall_mem_cons.2 ⟨hn.trans_lt ((offsetAt_le_length h.position).trans_lt hd), fun a ha => ?_⟩
    rw [List.eq_of_mem_replicate ha]
    trivial
  rw [h.run_eq hd hsigned, hback, h.placedAt_indexed]

lemma run_to_end (h : c.Stands) (hd : c.document.length < 2 ^ 63) :
    c.run (List.replicate (c.indexed.ahead.length + 1) .next) =
      (c.indexed.ahead.map (fun ch => .char (some ch)) ++ [.char none], { c with position := c.window.stop }) := by
  have hsigned : ∀ a ∈ List.replicate (c.indexed.ahead.length + 1) Action.next, a.Signed := fun a ha => by
    rw [List.eq_of_mem_replicate ha]
    trivial
  rw [h.run_eq hd hsigned, IndexReader.run_to_end h.index_le h.bound_le]
  simp only [placedAt, indexed, positionAt_offsetAt h.stop, positionAt_offsetAt h.mark]

end Stands

/-- A cursor answers every list of actions as its index in the text does, and ends at the place that index names, in its
window or before it, as long as the counts it goes back by are signed words. Backing up and reading as many characters
again leads back, and reading to the end answers with the rest of the window. A larger count leads forward on the line or
to the origin. -/
theorem run_indexed (h : c.Stands) (hd : c.document.length < 2 ^ 63) (actions : List Action)
    (ha : ∀ a ∈ actions, a.Signed) :
    c.run actions = ((c.indexed.run actions).1, c.placedAt (c.indexed.run actions).2) ∧
      (c.indexed.run actions).2.index ≤ c.indexed.bound ∧
      (∀ n : UInt64, n.toNat ≤ c.indexed.index → (c.run (.back n :: List.replicate n.toNat .next)).2 = c) ∧
      c.run (List.replicate (c.indexed.ahead.length + 1) .next) =
        (c.indexed.ahead.map (fun ch => .char (some ch)) ++ [.char none], { c with position := c.window.stop }) ∧
      ∀ n : UInt64, 2 ^ 63 ≤ n.toNat → (c.back n).position = if c.position.column + 2 ^ 63 < n.toNat
        then ⟨c.position.line, c.position.column + (2 ^ 64 - n.toNat)⟩ else .origin :=
  ⟨h.run_eq hd ha, h.index_run_le hd ha, fun _ => h.run_back_next hd, h.run_to_end hd, fun _ => h.back_of_large hd⟩

/-- Three lines, the second of them empty, and a window from inside the first to inside the last: going back leads out of
the window, reading on ends where the window does, three characters back and on again cross both line ends, and the
largest count leads one column on. -/
theorem run_indexed_across_lines :
    let d := Document.ofText "css" "ab\r\n\ncd"
    let c : Cursor := ⟨d, ⟨⟨0, 1⟩, ⟨2, 1⟩, by decide⟩, ⟨2, 0⟩, ⟨0, 2⟩⟩
    let actions : List Action := [.back 9, .token, .next, .eatWhile (· != 'd'), .token, .peek]
    c.Stands ∧ d.length < 2 ^ 63 ∧ (∀ a ∈ actions, a.Signed) ∧
      (c.run actions).1 = [.char (some 'a'), .text "ab", .char (some 'a'), .moved true, .text "\n\nc", .char none] ∧
      (c.run actions).2.position = ⟨2, 1⟩ ∧ (c.run [.back 3, .next, .next, .next]).2 = c ∧
      (c.back 18446744073709551615).position = ⟨2, 1⟩ := by
  intro d c actions
  have hc : c.Stands := ⟨by decide, by decide, by decide, by decide, by decide⟩
  have hd : c.document.length < 2 ^ 63 := Nat.lt_of_le_of_lt (by decide : d.length ≤ 6) (by omega)
  have ha : ∀ a ∈ actions, a.Signed := by simp [actions, Action.Signed]
  obtain ⟨hrun, -, hback, -, hlarge⟩ := run_indexed hc hd actions ha
  refine ⟨hc, hd, ha, ?_, ?_, hback 3 (by decide), ?_⟩
  · rw [hrun]
    decide
  · rw [hrun]
    decide
  · rw [hlarge _ (by simp)]
    simp [c]

end Cursor
end AbbrevSite
