import AbbrevSite.Proofs.Sheet.Words
import AbbrevSite.Sheet.Parse

/-! A stylesheet read lexeme by lexeme. What a lexeme does depends on the statement and the blocks it stands
in, not on where the reader met it. -/
namespace AbbrevSite.Sheet

lemma isPlain_of_notMem {c : Char} (h : c ∉ ['{', '}', ';', '(', '/', '"', '\'']) : IsPlain c ∧ ¬ IsDelimiter c := by
  simp only [List.mem_cons, List.not_mem_nil, or_false] at h
  simp only [IsPlain, IsDelimiter]
  tauto

lemma isPlain_of_isBlank {c : Char} (h : CharClass.isBlank c = true) : IsPlain c ∧ ¬ IsDelimiter c := by
  refine isPlain_of_notMem fun hc => ?_
  have hnone : ['{', '}', ';', '(', '/', '"', '\''].all (!CharClass.isBlank ·) = true := by decide
  simpa [h] using List.all_eq_true.1 hnone c hc

lemma isPlain_of_isAtNameChar {c : Char} (h : isAtNameChar c = true) : IsPlain c ∧ ¬ IsDelimiter c := by
  refine isPlain_of_notMem fun hc => ?_
  have hnone : ['{', '}', ';', '(', '/', '"', '\''].all (!isAtNameChar ·) = true := by decide
  simpa [h] using List.all_eq_true.1 hnone c hc

namespace Reading

/-- Reads a lexeme that is no comment and none of the characters that delimit statements. -/
def addToPrelude (r : Reading) (l : Lexeme) : Reading :=
  match r.prelude, l.shape with
  | some p, _ => { r with prelude := some (p.add l) }
  | none, .char c =>
    if CharClass.isBlank c then r else { r with prelude := some (.ofFirst l) }
  | none, _ => { r with prelude := some (.ofFirst l) }

def step (d : Document) (r : Reading) (l : Lexeme) : Except Failure Reading :=
  match l.shape with
  | .comment =>
    .ok { r with
      comments := .between l.start l.stop :: r.comments
      prelude := r.prelude.map (·.add l) }
  | .char '{' => .ok (r.openBlock d l)
  | .char '}' => r.closeBlock d l
  | .char ';' => .ok (r.endStatement d (some (charToken ';' l)))
  | _ => .ok (r.addToPrelude l)

/-- The tree of a text that ends at `stop`, by its lexemes and the fault after them. -/
def readLexemes (lineComments : Bool) (d : Document) (window : Span) (stop : Position) (r : Reading)
    (gs : List Glyph) : Except Failure Tree :=
  let (ls, fault) := lexemes lineComments gs
  match ls.foldlM (step d) r with
  | .error failure => .error failure
  | .ok r =>
    match fault with
    | some fault => .error (.malformed fault.complaint stop)
    | none => .ok (r.finish d window stop)

variable {lineComments : Bool} {d : Document} {window : Span} {stop : Position} {r s : Reading}
  {g : Glyph} {gs rest : List Glyph} {l : Lexeme}

section EndStatement

variable (d r) (terminator : Option Token)

@[simp] lemma endStatement_prelude : (r.endStatement d terminator).prelude = none := by
  unfold endStatement
  split
  · assumption
  · rfl

@[simp] lemma endStatement_comments : (r.endStatement d terminator).comments = r.comments := by
  unfold endStatement
  split <;> rfl

@[simp] lemma endStatement_enclosing :
    (r.endStatement d terminator).builder.enclosing = r.builder.enclosing := by
  unfold endStatement
  split <;> rfl

end EndStatement

lemma endStatement_of_none (h : r.prelude = none) (terminator : Option Token) :
    r.endStatement d terminator = r := by
  unfold endStatement
  rw [h]

lemma addToPrelude_of_some {q : Prelude} (h : r.prelude = some q) :
    r.addToPrelude l = { r with prelude := some (q.add l) } := by
  unfold addToPrelude
  rw [h]

lemma readLexemes_nil :
    readLexemes lineComments d window stop r [] = .ok (r.finish d window stop) := by
  rw [readLexemes, lexemes_nil]
  rfl

lemma readLexemes_fault {fault : Fault} (h : lexeme lineComments g gs = .error fault) :
    readLexemes lineComments d window stop r (g :: gs) = .error (.malformed fault.complaint stop) := by
  rw [readLexemes, lexemes_fault h]
  rfl

lemma readLexemes_cons (h : lexeme lineComments g gs = .ok (l, rest)) :
    readLexemes lineComments d window stop r (g :: gs) =
      (r.step d l).bind fun s => readLexemes lineComments d window stop s rest := by
  rw [readLexemes, lexemes_cons h]
  simp only [List.foldlM_cons]
  cases r.step d l <;> rfl

lemma readLexemes_of_step (h : lexeme lineComments g gs = .ok (l, rest)) (hs : r.step d l = .ok s) :
    readLexemes lineComments d window stop r (g :: gs) =
      readLexemes lineComments d window stop s rest := by
  rw [readLexemes_cons h, hs]
  rfl

end Reading

/-- The tree of the stylesheet in the window of a cursor, read lexeme by lexeme. -/
def parseLexemes (c : Cursor) (dialect : Dialect) : Except Failure Tree :=
  Reading.start.readLexemes dialect.hasLineComments c.document c.window
    (if c.atEnd then c.position else c.window.stop) c.ahead

end AbbrevSite.Sheet
