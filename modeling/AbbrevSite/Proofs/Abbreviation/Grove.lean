import AbbrevSite.Abbreviation.Markup
import Mathlib.Data.List.Forall2
import Mathlib.Tactic.Ring

/-! What levels stand for: a grove of elements, how many these are, and the lines that are written for them. -/
namespace AbbrevSite.Abbreviation

/-- A row of elements, each with the row below it. -/
inductive Grove where
  | nil
  | cons (tag : Tag) (inner next : Grove)
deriving DecidableEq, Repr

namespace Grove

def append : Grove → Grove → Grove
  | nil, g => g
  | cons tag inner next, g => cons tag inner (next.append g)

instance : Append Grove := ⟨append⟩

def size : Grove → Nat
  | nil => 0
  | cons _ inner next => inner.size + next.size + 1

def ofList (trees : List (Tag × Grove)) : Grove :=
  trees.foldr (fun t g => cons t.1 t.2 g) nil

/-- The elements the levels stand for below a parent: each element of the first level in all its
repetitions, the last one with the further levels in every repetition. -/
def ofLevels (parent : Option String) : List (List Element) → Grove
  | [] => nil
  | level :: rest =>
    let repetitions (e : Element) : List Tag :=
      (List.range e.times).map fun k => e.repetition (k + 1) parent
    let leaves := level.dropLast.flatMap fun e => (repetitions e).map fun tag => (tag, nil)
    let last := (level.getLast?.map repetitions).getD []
    ofList (leaves ++ last.map fun tag => (tag, ofLevels (some tag.name) rest))

end Grove

/-- The number of elements the levels stand for, repetitions and nesting counted. -/
def total : List (List Element) → Nat
  | [] => 0
  | level :: rest =>
    (level.dropLast.map Element.times).sum
      + ((level.getLast?.map Element.times).getD 0) * (1 + total rest)

def Grove.writeOnto (dialect : Dialect) (style : Option String) (depth : Nat) :
    Grove → Draft → Draft
  | nil, d => d
  | cons tag nil next, d =>
    let d := tag.openOnto dialect depth d
    let d :=
      if tag.isVoid && tag.text.isNone then d.add (selfClosing style ++ "\n")
      else
        let d := d.add ">"
        let d := match tag.text with
          | some text => d.add text
          | none => d.addPlace
        d.add ("</" ++ tag.name ++ ">\n")
    next.writeOnto dialect style depth d
  | cons tag (cons t i n) next, d =>
    let d := (tag.openOnto dialect depth d).add ">"
    let d := d.add (tag.text.getD "" ++ "\n")
    let d := (cons t i n).writeOnto dialect style (depth + 1) d
    next.writeOnto dialect style depth (d.add (indentation depth ++ "</" ++ tag.name ++ ">\n"))

namespace Grove

variable {dialect : Dialect} {style : Option String} {depth : Nat}

lemma cons_append (tag : Tag) (inner next g : Grove) : cons tag inner next ++ g = cons tag inner (next ++ g) := rfl

lemma ofList_append (trees trees' : List (Tag × Grove)) : ofList (trees ++ trees') = ofList trees ++ ofList trees' := by
  induction trees with
  | nil => rfl
  | cons t trees ih => exact congrArg (cons t.1 t.2) ih

lemma size_append (g g' : Grove) : (g ++ g').size = g.size + g'.size := by
  induction g with
  | nil => exact (Nat.zero_add _).symm
  | cons tag inner next _ ih =>
    rw [cons_append, size, size, ih]
    omega

lemma size_ofList {α : Type} {xs : List α} {f : α → Tag × Grove} {n : Nat} (h : ∀ x ∈ xs, (f x).2.size = n) :
    (ofList (xs.map f)).size = xs.length * (1 + n) := by
  induction xs with
  | nil => exact (Nat.zero_mul _).symm
  | cons x xs ih =>
    obtain ⟨hx, hxs⟩ := List.forall_mem_cons.1 h
    have hsize : (ofList ((x :: xs).map f)).size = (f x).2.size + (ofList (xs.map f)).size + 1 := rfl
    rw [hsize, hx, ih hxs, List.length_cons]
    ring

lemma writeOnto_nil (d : Draft) : nil.writeOnto dialect style depth d = d := by rw [writeOnto]

lemma writeOnto_cons (tag : Tag) (inner next : Grove) (d : Draft) :
    (cons tag inner next).writeOnto dialect style depth d =
      next.writeOnto dialect style depth ((cons tag inner nil).writeOnto dialect style depth d) := by
  cases inner <;> rw [writeOnto, writeOnto, writeOnto]

lemma writeOnto_append (g g' : Grove) (d : Draft) : (g ++ g').writeOnto dialect style depth d =
    g'.writeOnto dialect style depth (g.writeOnto dialect style depth d) := by
  induction g generalizing d with
  | nil =>
    rw [writeOnto_nil]
    rfl
  | cons tag inner next _ ih => rw [cons_append, writeOnto_cons, ih, ← writeOnto_cons]

end Grove

section Levels

variable (parent : Option String) (e e' : Element) (level : List Element) (rest : List (List Element))

lemma Grove.ofLevels_cons_cons : ofLevels parent ((e :: e' :: level) :: rest) =
    ofList ((List.range e.times).map fun k => (e.repetition (k + 1) parent, nil)) ++
      ofLevels parent ((e' :: level) :: rest) := by
  simp only [ofLevels, List.dropLast_cons_cons, List.flatMap_cons, List.getLast?_cons_cons, List.append_assoc,
    ofList_append, List.map_map]
  rfl

lemma Grove.ofLevels_singleton : ofLevels parent ([e] :: rest) = ofList ((List.range e.times).map fun k =>
    (e.repetition (k + 1) parent, ofLevels (some (e.repetition (k + 1) parent).name) rest)) := by
  simp only [ofLevels, List.dropLast_singleton, List.flatMap_nil, List.getLast?_singleton, Option.map_some,
    Option.getD_some, List.nil_append, List.map_map]
  rfl

lemma total_cons_cons : total ((e :: e' :: level) :: rest) = e.times + total ((e' :: level) :: rest) := by
  simp only [total, List.dropLast_cons_cons, List.map_cons, List.sum_cons, List.getLast?_cons_cons, Nat.add_assoc]

lemma total_singleton : total ([e] :: rest) = e.times * (1 + total rest) := by simp [total]

/-- The total of the levels is the number of elements they stand for. -/
theorem size_ofLevels (levels : List (List Element)) : (Grove.ofLevels parent levels).size = total levels := by
  induction levels generalizing parent with
  | nil => rfl
  | cons level rest ih =>
    induction level with
    | nil => simp [Grove.ofLevels, total, Grove.ofList, Grove.size]
    | cons e level ih' =>
      cases level with
      | nil => rw [Grove.ofLevels_singleton, Grove.size_ofList fun _ _ => ih _, List.length_range, total_singleton]
      | cons e' level =>
        rw [Grove.ofLevels_cons_cons, Grove.size_append, Grove.size_ofList (n := 0) fun _ _ => rfl, List.length_range,
          ih', total_cons_cons, Nat.add_zero, Nat.mul_one]

variable {level rest}

lemma Element.one_le_times : 1 ≤ e.times := le_max_right _ _

lemma Grove.ofLevels_ne_nil (h : level ≠ []) : ofLevels parent (level :: rest) ≠ nil := by
  intro hnil
  have hsize := size_ofLevels parent (level :: rest)
  have hpos : 1 ≤ (level.getLast h).times * (1 + total rest) :=
    Nat.mul_pos (Element.one_le_times _) (Nat.add_pos_left Nat.one_pos _)
  rw [hnil, size, total, List.getLast?_eq_some_getLast h, Option.map_some, Option.getD_some] at hsize
  omega

end Levels

section Parts

variable {cs : List Char} {levels : List (List Element)}

def HasParts (cs : List Char) (levels : List (List Element)) : Prop :=
  List.Forall₂ (List.Forall₂ fun part e => element? part = some e) ((splitTop '>' 0 cs).map (splitTop '+' 0)) levels

lemma splitTop_ne_nil (separator : Char) (depth : Nat) (cs : List Char) : splitTop separator depth cs ≠ [] := by
  induction cs generalizing depth with
  | nil => exact List.cons_ne_nil _ _
  | cons c cs ih =>
    unfold splitTop
    dsimp only
    split_ifs <;> first | exact List.cons_ne_nil _ _ | (split <;> exact List.cons_ne_nil _ _)

lemma mapM_eq_some_iff {α β : Type} {f : α → Option β} {xs : List α} {ys : List β} :
    xs.mapM f = some ys ↔ List.Forall₂ (fun x y => f x = some y) xs ys := by
  induction xs generalizing ys with
  | nil => simp [eq_comm]
  | cons x xs ih =>
    simp only [List.mapM_cons, Option.bind_eq_bind, Option.bind_eq_some_iff, ih, List.forall₂_cons_left_iff]
    constructor
    · rintro ⟨y, hy, ys', hys, h⟩
      exact ⟨y, ys', hy, hys, (Option.some_inj.1 h).symm⟩
    · rintro ⟨y, ys', hy, hys, rfl⟩
      exact ⟨y, hy, ys', hys, rfl⟩

theorem levels?_eq_some_iff : levels? cs = some levels ↔ HasParts cs levels := by
  simp only [levels?, HasParts, mapM_eq_some_iff, List.forall₂_map_left_iff]

lemma HasParts.ne_nil (h : HasParts cs levels) : levels ≠ [] ∧ ∀ level ∈ levels, level ≠ [] := by
  rw [HasParts, List.forall₂_map_left_iff] at h
  refine ⟨?_, ?_⟩
  · rintro rfl
    exact splitTop_ne_nil '>' 0 cs (List.forall₂_nil_right_iff.1 h)
  · generalize splitTop '>' 0 cs = pieces at h
    induction h with
    | nil => simp
    | cons hlevel _ ih =>
      refine List.forall_mem_cons.2 ⟨?_, ih⟩
      rintro rfl
      exact splitTop_ne_nil '+' 0 _ (List.forall₂_nil_right_iff.1 hlevel)

end Parts

end AbbrevSite.Abbreviation
