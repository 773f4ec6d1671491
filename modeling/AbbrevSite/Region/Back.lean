import AbbrevSite.Text.Cursor

/-! Going back in a document: by one character, and to the comment a line holds or a position ends.
Each step ends at or before where it starts, and a step of one character strictly before. -/
namespace AbbrevSite

/-- Where a pair of characters first stands in a row of characters. -/
def firstPair (a b : Char) (n : Nat) : List Char → Option Nat
  | [] => none
  | [_] => none
  | c :: d :: rest => if c = a ∧ d = b then some n else firstPair a b (n + 1) (d :: rest)

/-- Where a pair of characters last stands before a bound. -/
def lastPair (a b : Char) (cs : Array Char) : (bound : Nat) → Option Nat
  | 0 => none
  | 1 => none
  | n + 2 => if cs[n]? = some a ∧ cs[n + 1]? = some b then some n else lastPair a b cs (n + 1)

theorem lastPair_lt {a b : Char} {cs : Array Char} {bound n : Nat}
    (h : lastPair a b cs bound = some n) : n < bound := by
  fun_induction lastPair a b cs bound with
  | case1 => simp at h
  | case2 => simp at h
  | case3 => simp only [Option.some.injEq] at h; omega
  | case4 _ _ ih => have := ih h; omega

namespace Document

/-- The position one character back: from the start of a line, before the newline above. -/
def prev (d : Document) (p : Position) : Position := Cursor.backFrom d p.line (p.column - 1)

theorem prev_mk_succ (d : Document) (l c : Nat) : d.prev ⟨l, c + 1⟩ = ⟨l, c⟩ := by
  unfold prev Cursor.backFrom
  simp

theorem prev_mk_zero (d : Document) (l : Nat) : d.prev ⟨l + 1, 0⟩ = ⟨l, d.lineLength l⟩ := by
  have hcolumn : -1 + ((d.lineLength l : Int) + 1) = d.lineLength l := by omega
  unfold prev Cursor.backFrom Cursor.backFrom
  simp [hcolumn]

theorem prev_origin (d : Document) : d.prev .origin = .origin := rfl

theorem prev_lt {d : Document} {p : Position} (h : p ≠ .origin) : d.prev p < p := by
  obtain ⟨l, c⟩ := p
  cases c with
  | succ c =>
    rw [prev_mk_succ]
    exact .inr ⟨rfl, Nat.lt_succ_self c⟩
  | zero =>
    cases l with
    | zero => exact absurd rfl h
    | succ l =>
      rw [prev_mk_zero]
      exact .inl (Nat.lt_succ_self l)

theorem prev_le (d : Document) (p : Position) : d.prev p ≤ p := by
  by_cases h : p = .origin
  · subst h
    exact (prev_origin d).symm ▸ Position.le_refl _
  · exact Position.le_of_lt (prev_lt h)

def lineCommentColumn (d : Document) (line : Nat) : Option Nat :=
  firstPair '/' '/' 0 (d.line line).toList

/-- The last `/*` that starts before column `column` of a line or on a line above it. -/
def openingBefore (d : Document) : (line column : Nat) → Option Position
  | line, column =>
    match lastPair '/' '*' (d.line line) column with
    | some column => some ⟨line, column⟩
    | none =>
      match line with
      | 0 => none
      | line + 1 => openingBefore d line (d.lineLength line)

theorem openingBefore_le {d : Document} {line column : Nat} {p : Position}
    (h : d.openingBefore line column = some p) : p ≤ ⟨line, column⟩ := by
  fun_induction openingBefore d line column with
  | case1 line column k hk =>
    have := lastPair_lt hk
    simp only [Option.some.injEq] at h
    subst h
    simp [Position.le_def]; omega
  | case2 => simp at h
  | case3 column line _ ih =>
    have := ih h
    simp only [Position.le_def] at *; omega

end Document

end AbbrevSite
