import AbbrevSite.Proofs.Sheet.Run
import AbbrevSite.Proofs.Tree.Listing

/-! The nodes of a stylesheet are the statements and blocks that preludes stand for, and blocks with their closing
braces. What holds of all of these holds of every node of a tree. -/
namespace AbbrevSite.Sheet

/-- What holds of every statement, of every block, and of a block still when it is closed. `B` is what is known of
the lexemes that are braces. -/
structure OfNodes (d : Document) (B : Lexeme → Prop) (P : Kind → Prop) : Prop where
  statement (p : Prelude) (terminator : Option Token) : P (p.statement d terminator)
  block (p : Prelude) {l : Lexeme} (hl : B l) : P (p.block d (charToken '{' l))
  close {k : Kind} {l : Lexeme} (hl : B l) (h : P k) : P (k.close (charToken '}' l))

def Lexeme.IsBrace (l : Lexeme) : Prop := l.shape = .char '{' ∨ l.shape = .char '}'

variable {d : Document} {B : Lexeme → Prop} {P : Kind → Prop}

namespace Reading

variable {r s : Reading} {l : Lexeme} {ls : List Lexeme}

lemma endStatement_nodes (hP : OfNodes d B P) (hr : ∀ n ∈ r.builder.nodes, P n.kind) (terminator : Option Token) :
    ∀ n ∈ (r.endStatement d terminator).builder.nodes, P n.kind := by
  unfold endStatement
  split
  · exact hr
  · rw [Builder.nodes_leaf, List.forall_mem_append, List.forall_mem_singleton]
    exact ⟨hr, hP.statement _ _⟩

/-- A lexeme adds nothing else to the nodes. -/
theorem Step.nodes (hP : OfNodes d B P) (h : Step d r l s) (hl : l.IsBrace → B l)
    (hr : ∀ n ∈ r.builder.nodes, P n.kind) : ∀ n ∈ s.builder.nodes, P n.kind := by
  cases h with
  | comment => exact hr
  | opening hs =>
    unfold openBlock
    rw [Builder.nodes_enter, List.forall_mem_append, List.forall_mem_singleton]
    exact ⟨hr, hP.block _ (hl (.inl hs))⟩
  | closing hs =>
    exact Builder.forall_nodes_leave (endStatement_nodes hP hr none) fun _ hn => hP.close (hl (.inr hs)) hn
  | semicolon => exact endStatement_nodes hP hr _
  | other => rwa [addToPrelude_builder]

theorem run_nodes (hP : OfNodes d B P) (h : run d r ls = .ok s) (hls : ∀ l ∈ ls, l.IsBrace → B l)
    (hr : ∀ n ∈ r.builder.nodes, P n.kind) : ∀ n ∈ s.builder.nodes, P n.kind := by
  induction ls generalizing r with
  | nil =>
    cases h
    exact hr
  | cons l ls ih =>
    obtain ⟨m, hm, hrest⟩ := run_cons.1 h
    rw [List.forall_mem_cons] at hls
    exact ih hrest hls.2 (hm.nodes hP hls.1 hr)

lemma finish_nodes (hP : OfNodes d B P) (hr : ∀ n ∈ r.builder.nodes, P n.kind) (window : Span) (stop : Position) :
    ∀ n ∈ (r.finish d window stop).forest.preorder, P n.kind := by
  have hall : ∀ n ∈ ((r.endStatement d none).builder.leaveAll (·.endingAt stop)).nodes, P n.kind :=
    Builder.leaveAll_induction (motive := fun b => ∀ n ∈ b.nodes, P n.kind) (endStatement_nodes hP hr none)
      fun _ _ _ _ hb => Builder.forall_nodes_leave hb fun _ hn => hn
  rwa [Builder.nodes_of_enclosing_nil (Builder.enclosing_leaveAll _)] at hall

end Reading

theorem forall_nodes_parse {c : Cursor} {dialect : Dialect} {t : Tree} (hP : OfNodes c.document B P)
    (hB : ∀ l ∈ (lexemes dialect.hasLineComments (c.document.glyphs c.position c.window.stop)).1, l.IsBrace → B l)
    (h : parse c dialect = .ok t) : ∀ n ∈ t.forest.preorder, P n.kind := by
  obtain ⟨ls, r, hls, hr, rfl⟩ := parse_eq_ok_iff.1 h
  rw [hls] at hB
  exact Reading.finish_nodes hP (Reading.run_nodes hP hr hB (List.forall_mem_nil _)) _ _

/-- A node of a stylesheet: a block or a statement, whose colon takes up a place. -/
def IsSheetKind : Kind → Prop
  | .rule .. | .atRule .. => True
  | .property _ separator _ _ => ∀ s ∈ separator, s.span.start < s.span.stop
  | _ => False

lemma ofNodes_isSheetKind (d : Document) : OfNodes d (fun _ => True) IsSheetKind where
  statement p terminator := by
    unfold Prelude.statement
    split
    · trivial
    · intro s hs
      obtain ⟨colon, -, rfl⟩ := Option.map_eq_some_iff.1 hs
      have hlt : colon < ⟨colon.line, colon.column + 1⟩ := .inr ⟨rfl, Nat.lt_succ_self _⟩
      rw [Span.between_of_le (Position.le_of_lt hlt)]
      exact hlt
  block p l _ := by
    unfold Prelude.block
    split <;> trivial
  close {k l} _ h := by
    cases k with
    | rule | atRule => trivial
    | property => exact h
    | stylesheet | document | element | comment => exact h.elim

theorem isSheetKind_of_parse {c : Cursor} {dialect : Dialect} {t : Tree} (h : parse c dialect = .ok t) :
    ∀ n ∈ t.forest.preorder, IsSheetKind n.kind := forall_nodes_parse (ofNodes_isSheetKind _) (fun _ _ _ => trivial) h

end AbbrevSite.Sheet
