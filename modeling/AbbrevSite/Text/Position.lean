/-! Positions of a text as line and column, and the spans between them. A span is stored with its
ends in order, so every statement about spans may use `start ≤ stop`. -/
namespace AbbrevSite

/-- A place between two characters, counted from zero in lines and in characters of the line. -/
structure Position where
  line : Nat
  column : Nat
deriving DecidableEq, Repr, Inhabited

namespace Position

def origin : Position := ⟨0, 0⟩

instance : LT Position := ⟨fun p q => p.line < q.line ∨ (p.line = q.line ∧ p.column < q.column)⟩

instance : LE Position := ⟨fun p q => p.line < q.line ∨ (p.line = q.line ∧ p.column ≤ q.column)⟩

theorem lt_def {p q : Position} :
    p < q ↔ p.line < q.line ∨ (p.line = q.line ∧ p.column < q.column) := Iff.rfl

theorem le_def {p q : Position} :
    p ≤ q ↔ p.line < q.line ∨ (p.line = q.line ∧ p.column ≤ q.column) := Iff.rfl

instance (p q : Position) : Decidable (p < q) :=
  inferInstanceAs (Decidable (p.line < q.line ∨ (p.line = q.line ∧ p.column < q.column)))

instance (p q : Position) : Decidable (p ≤ q) :=
  inferInstanceAs (Decidable (p.line < q.line ∨ (p.line = q.line ∧ p.column ≤ q.column)))

theorem eq_of {p q : Position} (h : p.line = q.line) (h' : p.column = q.column) : p = q := by
  cases p; cases q; simp_all

theorem le_refl (p : Position) : p ≤ p := by simp [le_def]

theorem le_trans {p q r : Position} (h : p ≤ q) (h' : q ≤ r) : p ≤ r := by
  simp only [le_def] at *; omega

theorem lt_of_lt_of_le {p q r : Position} (h : p < q) (h' : q ≤ r) : p < r := by
  simp only [le_def, lt_def] at *; omega

theorem lt_of_le_of_lt {p q r : Position} (h : p ≤ q) (h' : q < r) : p < r := by
  simp only [le_def, lt_def] at *; omega

theorem le_of_lt {p q : Position} (h : p < q) : p ≤ q := by
  simp only [le_def, lt_def] at *; omega

theorem lt_irrefl (p : Position) : ¬ p < p := by simp [lt_def]

theorem not_le {p q : Position} : ¬ p ≤ q ↔ q < p := by
  simp only [le_def, lt_def]; omega

theorem not_lt {p q : Position} : ¬ p < q ↔ q ≤ p := by
  simp only [le_def, lt_def]; omega

theorem le_antisymm {p q : Position} (h : p ≤ q) (h' : q ≤ p) : p = q := by
  simp only [le_def] at *; exact eq_of (by omega) (by omega)

theorem origin_le (p : Position) : origin ≤ p := by
  simp only [le_def, origin]; omega

theorem lex_of_lt {p q : Position} (h : p < q) :
    Prod.Lex (· < ·) (· < ·) (p.line, p.column) (q.line, q.column) := by
  rcases h with h | ⟨h, h'⟩
  · exact Prod.Lex.left _ _ h
  · rw [h]; exact Prod.Lex.right _ h'

/-- How one position stands to another in reading order. -/
def order (p q : Position) : Ordering :=
  if p < q then .lt else if q < p then .gt else .eq

def render (p : Position) : String := s!"{p.line}:{p.column}"

end Position

/-- The stretch of text between two positions. -/
structure Span where
  start : Position
  stop : Position
  ordered : start ≤ stop
deriving DecidableEq, Repr

namespace Span

/-- The span between two positions given in either order. -/
def between (p q : Position) : Span :=
  if h : q < p then ⟨q, p, Position.le_of_lt h⟩ else ⟨p, q, Position.not_lt.1 h⟩

def emptyAt (p : Position) : Span := ⟨p, p, Position.le_refl p⟩

instance : Inhabited Span := ⟨emptyAt .origin⟩

theorem between_of_le {p q : Position} (h : p ≤ q) : between p q = ⟨p, q, h⟩ := by
  simp [between, Position.not_lt.2 h]

theorem between_comm (p q : Position) : between p q = between q p := by
  unfold between
  split <;> split
  · rename_i h h'; exact absurd (Position.le_of_lt h) (Position.not_le.2 h')
  · rfl
  · rfl
  · rename_i h h'
    have : p = q := Position.le_antisymm (Position.not_lt.1 h) (Position.not_lt.1 h')
    subst this; rfl

/-- `lt` before the span, `gt` after it, `eq` from one end to the other. -/
def locate (s : Span) (p : Position) : Ordering :=
  if p < s.start then .lt else if s.stop < p then .gt else .eq

/-- Within the span, the ends included. -/
def contains (s : Span) (p : Position) : Bool := s.locate p == .eq

/-- Within the span, the ends excluded. -/
def encloses (s : Span) (p : Position) : Bool := decide (s.start < p) && decide (p < s.stop)

def isEmpty (s : Span) : Bool := s.start == s.stop

theorem contains_iff {s : Span} {p : Position} :
    s.contains p = true ↔ s.start ≤ p ∧ p ≤ s.stop := by
  unfold contains locate
  split
  · rename_i h; simp [Position.not_le.2 h]
  · rename_i h
    split
    · rename_i h'; simp [Position.not_le.2 h']
    · rename_i h'; simp [Position.not_lt.1 h, Position.not_lt.1 h']

theorem encloses_iff {s : Span} {p : Position} :
    s.encloses p = true ↔ s.start < p ∧ p < s.stop := by
  simp [encloses]

/-- Written as its two ends with a dash between. -/
def render (s : Span) : String := s!"{s.start.render}-{s.stop.render}"

end Span
end AbbrevSite
