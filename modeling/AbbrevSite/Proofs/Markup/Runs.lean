import AbbrevSite.Proofs.Markup.Backtrack
import AbbrevSite.Proofs.Markup.Source
import AbbrevSite.Proofs.Tree.Descent

/-! The runs of text in a source. A run stands in a row: in that of the source itself, or in the row inside an element
with markup in it. What is written before it in its row is text, behind the end of a tag or of a comment if there is
one; and a lookup at a place of the run ends at the element whose row it is. -/
namespace AbbrevSite.Markup

def EndsTag (cs : List Char) : Prop := ∃ body, cs = body ++ ['>'] ∧ ∃ c ∈ body.getLast?, c ≠ '\\' ∧ c ≠ '='

section Tags

variable {cs name : List Char} {a : SourceAttribute} {attributes : List SourceAttribute} {slash : Bool}

lemma EndsTag.append_left (ds : List Char) (h : EndsTag cs) : EndsTag (ds ++ cs) := by
  obtain ⟨body, rfl, c, hc, hne⟩ := h
  refine ⟨ds ++ body, (List.append_assoc ..).symm, c, ?_, hne⟩
  rw [List.getLast?_append, hc]
  rfl

lemma EndsTag.settled (h : EndsTag cs) : Settled cs.reverse := by
  obtain ⟨body, rfl, c, hc, hne⟩ := h
  rw [List.reverse_append]
  refine ⟨by decide, .inl ⟨rfl, fun prev (hprev : prev ∈ body.reverse.head?) => ?_⟩⟩
  rw [List.head?_reverse] at hprev
  cases hc.symm.trans hprev
  exact hne

lemma endsTag_of_forall (hne : cs ≠ []) (h : ∀ c ∈ cs, c ≠ '\\' ∧ c ≠ '=') : EndsTag (cs ++ ['>']) :=
  ⟨cs, rfl, cs.getLast hne, List.getLast?_eq_some_getLast hne, h _ (List.getLast_mem hne)⟩

lemma endsTag_printComment (body : List Char) : EndsTag (Source.printComment body) := by
  have hend : EndsTag (['-', '-'] ++ ['>']) := ⟨['-', '-'], rfl, '-', rfl, by decide⟩
  exact hend.append_left (['<', '!', '-', '-'] ++ body)

lemma IsName.endsTag (h : IsName name) : EndsTag (name ++ ['>']) := by
  refine endsTag_of_forall ?_ fun c hc => ?_
  · rintro rfl
    obtain ⟨c, hc, -⟩ := h.first
    cases hc
  · have hchar := h.all c hc
    constructor <;>
    · rintro rfl
      exact absurd hchar (by decide)

lemma SourceAttribute.WellFormed.endsTag (h : a.WellFormed) (hname : '\\' ∉ a.name) : EndsTag (a.print ++ ['>']) := by
  unfold SourceAttribute.print
  cases hv : a.value with
  | none =>
    have hend : EndsTag (a.name ++ ['>']) := by
      refine endsTag_of_forall h.ne_nil fun c hc => ⟨?_, ?_⟩
      · rintro rfl
        exact hname hc
      · rintro rfl
        exact absurd (h.name _ hc) (by decide)
    simpa [SourceAttribute.printValue] using hend.append_left [' ']
  | some v =>
    have hquote : EndsTag (['"'] ++ ['>']) := ⟨['"'], rfl, '"', rfl, by decide⟩
    simpa [SourceAttribute.printValue] using hquote.append_left (' ' :: (a.name ++ '=' :: '"' :: v))

lemma endsTag_closeTag (hn : IsName name) : EndsTag (closeTag name) := hn.endsTag.append_left ['<', '/']

lemma endsTag_openTag (hn : IsName name) (ha : ∀ a ∈ attributes, a.WellFormed)
    (hnames : ∀ a ∈ attributes, '\\' ∉ a.name) : EndsTag (openTag name attributes slash) := by
  cases slash with
  | true =>
    have hslash : EndsTag (['/'] ++ ['>']) := ⟨['/'], rfl, '/', rfl, by decide⟩
    have hend := hslash.append_left ('<' :: (name ++ attributes.flatMap SourceAttribute.print))
    simpa [openTag, tagEnd] using hend
  | false =>
    rcases List.eq_nil_or_concat attributes with rfl | ⟨front, a, rfl⟩
    · simpa [openTag, tagEnd] using hn.endsTag.append_left ['<']
    · have hend := (ha a (by simp)).endsTag (hnames a (by simp))
      simpa [openTag, tagEnd] using hend.append_left ('<' :: (name ++ front.flatMap SourceAttribute.print))

end Tags

namespace Source

def attributes : Source → List SourceAttribute
  | nil => []
  | text _ next | comment _ next => next.attributes
  | empty _ attributes _ next | raw _ attributes _ next => attributes ++ next.attributes
  | element _ attributes inner next => attributes ++ (inner.attributes ++ next.attributes)

/-- The rows inside the elements with markup in them, each with the place where it starts. -/
def inners (x : Position) : Source → List (Position × Source)
  | nil => []
  | text run next => next.inners (x.along run)
  | comment body next => next.inners (x.along (printComment body))
  | empty name attributes slash next => next.inners (x.along (openTag name attributes slash))
  | raw name attributes body next => next.inners (x.along (openTag name attributes false ++ body ++ closeTag name))
  | element name attributes inner next =>
    (x.along (openTag name attributes false), inner) :: (inner.inners (x.along (openTag name attributes false)) ++
      next.inners (x.along (openTag name attributes false ++ inner.print ++ closeTag name)))

/-- Every row, with the place where it starts: first that of the source itself. -/
def rows (x : Position) (s : Source) : List (Position × Source) := (x, s) :: s.inners x

def runs (x : Position) : Source → List (Position × List Char)
  | nil => []
  | text run next => (x, run) :: next.runs (x.along run)
  | comment body next => next.runs (x.along (printComment body))
  | empty name attributes slash next => next.runs (x.along (openTag name attributes slash))
  | raw name attributes body next => next.runs (x.along (openTag name attributes false ++ body ++ closeTag name))
  | element name attributes inner next =>
    next.runs (x.along (openTag name attributes false ++ inner.print ++ closeTag name))

variable {s next row : Source} {item run : List Char} {x y p : Position} {n : Nat}

/-- A row that begins with a comment or an element, with the rest of the row behind it. -/
structure Begins (s : Source) (item : List Char) (next : Source) : Prop where
  print : s.print = item ++ next.print
  ne_nil : item ≠ []
  forest (n : Nat) (x : Position) : ∃ m inner k, s.forest n x = .cons m inner (next.forest k (x.along item)) ∧
    m.span = .along x item
  runs (x : Position) : s.runs x = next.runs (x.along item)
  wellFormed (h : s.WellFormed) : next.WellFormed
  attributes (a : SourceAttribute) (h : a ∈ next.attributes) : a ∈ s.attributes
  endsTag (h : s.WellFormed) (hnames : ∀ a ∈ s.attributes, '\\' ∉ a.name) : EndsTag item

lemma begins_comment (body : List Char) (next : Source) : Begins (comment body next) (printComment body) next where
  print := rfl
  ne_nil := List.cons_ne_nil _ _
  forest _ _ := ⟨_, _, _, rfl, rfl⟩
  runs _ := rfl
  wellFormed h := h.2
  attributes _ h := h
  endsTag _ _ := endsTag_printComment body

section

variable (name : List Char) (attributes : List SourceAttribute)

lemma begins_empty (slash : Bool) (next : Source) :
    Begins (empty name attributes slash next) (openTag name attributes slash) next where
  print := rfl
  ne_nil := List.cons_ne_nil _ _
  forest _ _ := ⟨_, _, _, rfl, rfl⟩
  runs _ := rfl
  wellFormed h := h.2
  attributes _ h := List.mem_append_right _ h
  endsTag h hnames := endsTag_openTag h.1.1 h.1.2.1 fun a ha => hnames a (List.mem_append_left _ ha)

lemma begins_raw (body : List Char) (next : Source) :
    Begins (raw name attributes body next) (openTag name attributes false ++ body ++ closeTag name) next where
  print := by simp [print]
  ne_nil := List.cons_ne_nil _ _
  forest _ _ := ⟨_, _, _, rfl, rfl⟩
  runs _ := rfl
  wellFormed h := h.2.2
  attributes _ h := List.mem_append_right _ h
  endsTag h _ := (endsTag_closeTag h.1.1).append_left _

lemma begins_element (inner next : Source) :
    Begins (element name attributes inner next) (openTag name attributes false ++ inner.print ++ closeTag name) next where
  print := by simp [print]
  ne_nil := List.cons_ne_nil _ _
  forest _ _ := ⟨_, _, _, rfl, rfl⟩
  runs _ := rfl
  wellFormed h := h.2.2
  attributes _ h := List.mem_append_right _ (List.mem_append_right _ h)
  endsTag h _ := (endsTag_closeTag h.1.1).append_left _

end

@[elab_as_elim]
theorem row_induction {motive : Source → Prop} (nil : motive .nil)
    (text : ∀ run next, motive next → motive (text run next))
    (item : ∀ s item next, Begins s item next → motive next → motive s) (s : Source) : motive s := by
  induction s with
  | nil => exact nil
  | text run next ih => exact text run next ih
  | comment body next ih => exact item _ _ _ (begins_comment body next) ih
  | empty name attributes slash next ih => exact item _ _ _ (begins_empty name attributes slash next) ih
  | raw name attributes body next ih => exact item _ _ _ (begins_raw name attributes body next) ih
  | element name attributes inner next _ ih => exact item _ _ _ (begins_element name attributes inner next) ih

lemma start_of_mem_roots {m : Node} (h : m ∈ (s.forest n x).roots) : x ≤ m.span.start ∧ m.span.start < m.span.stop := by
  induction s using row_induction generalizing n x with
  | nil => cases h
  | text first next ih =>
    obtain ⟨hstart, hlt⟩ := ih h
    exact ⟨(x.le_along first).trans hstart, hlt⟩
  | item s item next hb ih =>
    obtain ⟨first, inner, k, hforest, hspan⟩ := hb.forest n x
    rw [hforest] at h
    rcases List.mem_cons.1 h with rfl | h
    · rw [hspan]
      exact ⟨le_refl x, Position.lt_along x hb.ne_nil⟩
    · obtain ⟨hstart, hlt⟩ := ih h
      exact ⟨(x.le_along item).trans hstart, hlt⟩

/-- How a run of text stands in its row: behind markup that ends with a tag or a comment, or that is empty, and text.
Of the comments and elements of the row those in the markup have ended, the others start behind the run. -/
structure Stands (s : Source) (x : Position) (run : List Char) (y : Position) (markup gap : List Char) : Prop where
  start : y = x.along (markup ++ gap)
  print : markup ++ (gap ++ run) <+: s.print
  text : '<' ∉ gap ++ run
  endsTag : markup = [] ∨ EndsTag markup
  apart (n : Nat) (m : Node) (hm : m ∈ (s.forest n x).roots) : m.span.stop ≤ y ∨ y.along run ≤ m.span.start
  ended (n : Nat) (p : Position) (hp : y ≤ p) (hp' : p ≤ y.along run) :
    ((s.forest n x).roots.takeWhile fun m => m.span.stop ≤ p).getLast?.map (·.span.stop) =
      if markup = [] then none else some (x.along markup)

lemma stands_text (hrun : '<' ∉ run) : Stands (text run next) x run x [] [] where
  start := rfl
  print := List.prefix_append _ _
  text := hrun
  endsTag := .inl rfl
  apart n m hm := .inr (start_of_mem_roots (s := next) hm).1
  ended n p _ hp := by
    have hnone : ∀ m ∈ ((text run next).forest n x).roots, ¬ m.span.stop ≤ p := by
      intro m hm
      obtain ⟨hstart, hlt⟩ := start_of_mem_roots (s := next) hm
      exact not_le.2 ((hp.trans hstart).trans_lt hlt)
    cases hroots : ((text run next).forest n x).roots with
    | nil => rfl
    | cons m rest =>
      rw [List.takeWhile_cons_of_neg (by simpa using hnone m (by simp [hroots]))]
      rfl

/-- Behind other text. -/
lemma Stands.behind_text {first markup gap : List Char} (hfirst : '<' ∉ first)
    (h : Stands next (x.along first) run y markup gap) :
    ∃ markup gap, Stands (.text first next) x run y markup gap := by
  obtain ⟨hstart, hprint, htext, hends, hapart, hended⟩ := h
  by_cases hmarkup : markup = []
  · subst hmarkup
    refine ⟨[], first ++ gap, ?_, ?_, ?_, .inl rfl, hapart, hended⟩
    · rw [hstart]
      exact Position.along_append.symm
    · rw [List.nil_append, List.append_assoc]
      exact (List.prefix_append_right_inj first).2 hprint
    · rw [List.append_assoc, List.mem_append, not_or]
      exact ⟨hfirst, htext⟩
  · refine ⟨first ++ markup, gap, ?_, ?_, htext, .inr ?_, hapart, fun n p hp hp' => ?_⟩
    · rw [hstart, List.append_assoc]
      exact Position.along_append.symm
    · rw [List.append_assoc]
      exact (List.prefix_append_right_inj first).2 hprint
    · exact (hends.resolve_left hmarkup).append_left first
    · have hne : first ++ markup ≠ [] := fun h => hmarkup (List.append_eq_nil_iff.1 h).2
      rw [if_neg hne, Position.along_append]
      exact (hended n p hp hp').trans (if_neg hmarkup)

/-- Behind a comment or an element. -/
lemma Stands.behind_item {markup gap : List Char} (hb : Begins s item next) (hitem : EndsTag item)
    (h : Stands next (x.along item) run y markup gap) : Stands s x run y (item ++ markup) gap := by
  obtain ⟨hstart, hprint, htext, hends, hapart, hended⟩ := h
  have hle : x.along item ≤ y := hstart ▸ (x.along item).le_along _
  refine ⟨?_, ?_, htext, .inr ?_, fun n m hm => ?_, fun n p hp hp' => ?_⟩
  · rw [hstart, List.append_assoc]
    exact Position.along_append.symm
  · rw [List.append_assoc, hb.print]
    exact (List.prefix_append_right_inj item).2 hprint
  · rcases hends with rfl | hends
    · rwa [List.append_nil]
    · exact hends.append_left item
  · obtain ⟨first, inner, k, hforest, hspan⟩ := hb.forest n x
    rw [hforest] at hm
    rcases List.mem_cons.1 hm with rfl | hm
    · rw [hspan]
      exact .inl hle
    · exact hapart k m hm
  · obtain ⟨first, inner, k, hforest, hspan⟩ := hb.forest n x
    have hne : item ++ markup ≠ [] := fun h => hb.ne_nil (List.append_eq_nil_iff.1 h).1
    have hfirst : first.span.stop ≤ p := by
      rw [hspan]
      exact hle.trans hp
    rw [hforest, Forest.roots, List.takeWhile_cons_of_pos (p := fun m : Node => m.span.stop ≤ p)
      (decide_eq_true hfirst), List.getLast?_cons, Option.map_some, if_neg hne, Position.along_append]
    have hended := hended k p hp hp'
    split_ifs at hended with hmarkup
    · rw [Option.map_eq_none_iff.1 hended, hmarkup]
      exact congrArg (fun span => some span.stop) hspan
    · obtain ⟨last, hlast, hstop⟩ := Option.map_eq_some_iff.1 hended
      rw [hlast]
      exact congrArg some hstop

theorem stands_of_mem_runs (hs : s.WellFormed) (hnames : ∀ a ∈ s.attributes, '\\' ∉ a.name) (h : (y, run) ∈ s.runs x) :
    ∃ markup gap, Stands s x run y markup gap := by
  induction s using row_induction generalizing x with
  | nil => cases h
  | text first next ih =>
    rcases List.mem_cons.1 h with h | h
    · cases h
      exact ⟨[], [], stands_text hs.1⟩
    · obtain ⟨markup, gap, hstands⟩ := ih hs.2 hnames h
      exact hstands.behind_text hs.1
  | item s item next hb ih =>
    rw [hb.runs] at h
    obtain ⟨markup, gap, hstands⟩ := ih (hb.wellFormed hs) (fun a ha => hnames a (hb.attributes a ha)) h
    exact ⟨item ++ markup, gap, hstands.behind_item hb (hb.endsTag hs hnames)⟩

/-- A row inside an element: it is written somewhere in the source, with the tags of the element around it. -/
structure Within (s : Source) (x : Position) (row : Source) (y : Position) : Prop where
  print : ∃ front back, front ≠ [] ∧ back ≠ [] ∧ s.print = front ++ (row.print ++ back) ∧ y = x.along front
  wellFormed (h : s.WellFormed) : row.WellFormed
  attributes (a : SourceAttribute) (h : a ∈ row.attributes) : a ∈ s.attributes

namespace Within

variable {name front : List Char} {attributes : List SourceAttribute} {inner : Source}

lemma of_print (h : Within next (x.along front) row y) (back : List Char) (hprint : s.print = front ++ (next.print ++ back))
    (hs : s.WellFormed → next.WellFormed) (ha : ∀ a ∈ next.attributes, a ∈ s.attributes) : Within s x row y := by
  obtain ⟨⟨front', back', hfront, hback, hnext, rfl⟩, hwell, hattributes⟩ := h
  refine ⟨⟨front ++ front', back' ++ back, ?_, ?_, ?_, Position.along_append.symm⟩, hwell ∘ hs,
    fun a h => ha a (hattributes a h)⟩
  · exact fun h => hfront (List.append_eq_nil_iff.1 h).2
  · exact fun h => hback (List.append_eq_nil_iff.1 h).1
  · rw [hprint, hnext]
    simp

lemma behind_text (h : Within next (x.along run) row y) : Within (.text run next) x row y :=
  h.of_print [] (by rw [List.append_nil]; rfl) And.right fun _ h => h

lemma behind_item (hb : Begins s item next) (h : Within next (x.along item) row y) : Within s x row y :=
  h.of_print [] (by rw [List.append_nil, hb.print]) hb.wellFormed hb.attributes

lemma inner_element :
    Within (element name attributes inner next) x inner (x.along (openTag name attributes false)) where
  print := ⟨openTag name attributes false, closeTag name ++ next.print, List.cons_ne_nil _ _, List.cons_ne_nil _ _,
    rfl, rfl⟩
  wellFormed h := h.2.1
  attributes _ h := List.mem_append_right _ (List.mem_append_left _ h)

lemma below_element (h : Within inner (x.along (openTag name attributes false)) row y) :
    Within (element name attributes inner next) x row y :=
  h.of_print _ rfl (fun h => h.2.1) fun _ h => List.mem_append_right _ (List.mem_append_left _ h)

lemma bounds (h : Within s x row y) : x < y ∧ y.along row.print < x.along s.print := by
  obtain ⟨front, back, hfront, hback, hprint, rfl⟩ := h.print
  refine ⟨Position.lt_along x hfront, ?_⟩
  rw [hprint, Position.along_append, Position.along_append]
  exact Position.lt_along _ hback

end Within

theorem within_of_mem_inners (h : (y, row) ∈ s.inners x) : Within s x row y := by
  induction s generalizing x with
  | nil => cases h
  | text run next ih => exact (ih h).behind_text
  | comment body next ih => exact (ih h).behind_item (begins_comment body next)
  | empty name attributes slash next ih => exact (ih h).behind_item (begins_empty name attributes slash next)
  | raw name attributes body next ih => exact (ih h).behind_item (begins_raw name attributes body next)
  | element name attributes inner next ih ih' =>
    rcases List.mem_cons.1 h with h | h
    · cases h
      exact .inner_element
    · rcases List.mem_append.1 h with h | h
      · exact (ih h).below_element
      · exact (ih' h).behind_item (begins_element name attributes inner next)

section Lookup

variable {name : List Char} {attributes : List SourceAttribute} {inner : Source} {parent : Node} {above : Option Found}

lemma Begins.descend (hb : Begins s item next) (h : (y, row) ∈ next.inners (x.along item)) (hp : y ≤ p) (n : Nat) :
    ∃ k, (s.forest n x).descend (fun m => m.span.contains p) parent above =
      (next.forest k (x.along item)).descend (fun m => m.span.contains p) parent above := by
  obtain ⟨first, inner, k, hforest, hspan⟩ := hb.forest n x
  have hstop : first.span.stop < p := by
    rw [hspan]
    exact (within_of_mem_inners h).bounds.1.trans_le hp
  rw [hforest, Forest.descend, Span.contains_of_stop_lt hstop, if_neg Bool.false_ne_true]
  exact ⟨k, rfl⟩

lemma contains_closedAt (h : Within (element name attributes inner .nil) x row y) (hp : y ≤ p)
    (hp' : p ≤ y.along row.print) (n : Nat) : (closedAt n x name attributes inner.print).span.contains p = true := by
  obtain ⟨hstart, hstop⟩ := h.bounds
  have hprint : (element name attributes inner .nil).print =
      openTag name attributes false ++ inner.print ++ closeTag name := by simp [print]
  rw [hprint] at hstop
  exact Span.contains_iff.2 ⟨le_of_lt (hstart.trans_le hp), le_of_lt (hp'.trans_lt hstop)⟩

/-- The element whose row is found: no `script`, with the row as its inside and the comments and elements of the row as
its children. -/
structure Holds (row : Source) (y : Position) (found : Found) : Prop where
  notScript : found.node.kind.isElementNamed "script" = false
  inside : found.node.kind.innerSpan? = some (.along y row.print)
  children : ∃ k, found.children = (row.forest k y).roots

lemma holds_closedAt (hraw : ¬ IsRaw name) (n k : Nat) (x : Position) (attributes : List SourceAttribute)
    (inner : Source) (parent : Node) :
    Holds inner (x.along (openTag name attributes false)) ⟨closedAt n x name attributes inner.print, parent,
      (inner.forest k (x.along (openTag name attributes false))).roots⟩ := by
  refine ⟨?_, innerSpan?_closedAt n x name attributes inner.print, k, rfl⟩
  have hname : (String.ofList name).toLower ≠ "script" := by
    rintro h
    exact hraw (by rw [IsRaw, h]; decide)
  have hscript : "script".toLower = "script" := by decide +kernel
  show sameIgnoringCase "script" (.ofList name) = false
  rw [sameIgnoringCase, hscript, beq_eq_false_iff_ne]
  exact Ne.symm hname

/-- At a place of a row inside an element that is in nothing of the row, a lookup ends at that element. -/
theorem descend_of_mem_inners (hs : s.WellFormed) (h : (y, row) ∈ s.inners x) (hp : y ≤ p) (hp' : p ≤ y.along row.print)
    (hout : ∀ k, ∀ m ∈ (row.forest k y).roots, m.span.contains p = false) (n : Nat) :
    ∃ found, (s.forest n x).descend (fun m => m.span.contains p) parent above = some found ∧ Holds row y found := by
  induction s generalizing n x parent above with
  | nil => cases h
  | text run next ih => exact ih hs.2 h n
  | comment body next ih =>
    obtain ⟨k, hk⟩ := (begins_comment body next).descend h hp n
    rw [hk]
    exact ih hs.2 h k
  | empty name attributes slash next ih =>
    obtain ⟨k, hk⟩ := (begins_empty name attributes slash next).descend h hp n
    rw [hk]
    exact ih hs.2 h k
  | raw name attributes body next ih =>
    obtain ⟨k, hk⟩ := (begins_raw name attributes body next).descend h hp n
    rw [hk]
    exact ih hs.2.2 h k
  | element name attributes inner next ih ih' =>
    obtain ⟨⟨-, -, -, hraw⟩, hinner, hnext⟩ := hs
    rcases List.mem_cons.1 h with h | h
    · -- the row inside the element itself
      cases h
      rw [forest, Forest.descend, if_pos (contains_closedAt .inner_element hp hp' n)]
      exact ⟨_, Forest.descend_of_none (hout _), holds_closedAt hraw ..⟩
    · rcases List.mem_append.1 h with h | h
      · rw [forest, Forest.descend, if_pos (contains_closedAt (within_of_mem_inners h).below_element hp hp' n)]
        exact ih hinner h _
      · obtain ⟨k, hk⟩ := (begins_element name attributes inner next).descend h hp n
        rw [hk]
        exact ih' hnext h k

end Lookup

end Source
end AbbrevSite.Markup
