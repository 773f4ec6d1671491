import AbbrevSite.Abbreviation.Expand
import AbbrevSite.Proofs.Abbreviation.Grove
import Mathlib

/-! The budget of an expansion. What is rendered takes its number of elements from the budget, and what stands for more
elements than are left uses all of it up and fails. -/
namespace AbbrevSite.Abbreviation

lemma Draft.add_add (d : Draft) (s t : String) : (d.add s).add t = d.add (s ++ t) := by
  unfold add
  rw [String.append_assoc]

namespace Render

variable {dialect : Dialect} {style : Option String} {depth m n : Nat} {f h : Draft → Draft} {x y : Render Unit}
  {tag : Tag} {g : Grove}

/-- What rendering takes from the budget and makes of the draft. A budget that is too small is used up. -/
structure Costs (x : Render Unit) (n : Nat) (f : Draft → Draft) : Prop where
  enough : ∀ r : Rendering, n ≤ r.remaining → x.run r = (some (), ⟨f r.draft, r.remaining - n⟩)
  short : ∀ r : Rendering, r.remaining < n → ∃ d, x.run r = (none, ⟨d, 0⟩)

lemma run_bind (x : Render Unit) (y : Unit → Render Unit) (r : Rendering) : (x >>= y).run r =
    match x.run r with
    | (some a, r') => (y a).run r'
    | (none, r') => (none, r') := by
  unfold run
  rw [OptionT.run_bind, Option.elimM, StateT.run_bind, Id.run_bind]
  split <;> rename_i hx <;> rw [hx] <;> rfl

lemma costs_pure : (pure () : Render Unit).Costs 0 id := ⟨fun _ _ => rfl, nofun⟩

lemma costs_write (f : Draft → Draft) : (write f).Costs 0 f := ⟨fun _ _ => rfl, nofun⟩

lemma costs_count : count.Costs 1 id where
  enough := by
    rintro ⟨d, n⟩ (hn : 1 ≤ n)
    obtain ⟨n, rfl⟩ := Nat.exists_eq_add_of_le' hn
    rfl
  short := by
    rintro ⟨d, n⟩ (hn : n < 1)
    obtain rfl : n = 0 := Nat.lt_one_iff.1 hn
    exact ⟨d, rfl⟩

lemma Costs.bind (hx : x.Costs m f) (hy : y.Costs n h) : (x >>= fun _ => y).Costs (m + n) (h ∘ f) where
  enough r hr := by
    rw [run_bind, hx.enough r (by omega)]
    dsimp only
    rw [hy.enough _ (by dsimp only; omega), Nat.sub_sub]
    rfl
  short r hr := by
    rw [run_bind]
    rcases Nat.lt_or_ge r.remaining m with hlt | hle
    · obtain ⟨d, hd⟩ := hx.short r hlt
      exact ⟨d, by rw [hd]⟩
    · rw [hx.enough r hle]
      exact hy.short _ (by dsimp only; omega)

lemma Costs.of_eq (hx : x.Costs m f) (hm : m = n) (hf : ∀ d, f d = h d) : x.Costs n h := by
  obtain rfl := hm
  obtain rfl : f = h := funext hf
  exact hx

lemma costs_leaf (dialect : Dialect) (style : Option String) (depth : Nat) (tag : Tag) :
    (element dialect style depth tag none).Costs 1 ((Grove.cons tag .nil .nil).writeOnto dialect style depth) := by
  unfold element content
  rw [Option.isNone_none, Bool.and_true]
  by_cases hvoid : (tag.isVoid && tag.text.isNone) = true
  · rw [if_pos hvoid]
    refine (costs_count.bind ((costs_write _).bind (costs_write _))).of_eq rfl fun d => ?_
    rw [Grove.writeOnto, Grove.writeOnto, if_pos hvoid]
    rfl
  · rw [if_neg hvoid]
    refine (costs_count.bind ((costs_write _).bind ((costs_write _).bind ((costs_write _).bind
      (costs_write _))))).of_eq rfl fun d => ?_
    rw [Grove.writeOnto, Grove.writeOnto, if_neg hvoid]
    cases htext : tag.text with
    | none => simp [Function.comp_def]
    | some text => simp [Function.comp_def, Draft.add_add]

lemma costs_element (tag : Tag) (hg : g ≠ .nil) (hx : x.Costs n (g.writeOnto dialect style (depth + 1))) :
    (element dialect style depth tag (some x)).Costs (1 + n)
      ((Grove.cons tag g .nil).writeOnto dialect style depth) := by
  unfold element content
  rw [Option.isNone_some, Bool.and_false, Bool.false_and, if_neg Bool.false_ne_true]
  refine (costs_count.bind ((costs_write _).bind ((costs_write _).bind (((costs_write _).bind (hx.bind
    (costs_write _))).bind (costs_write _))))).of_eq (by omega) fun d => ?_
  cases g with
  | nil => exact absurd rfl hg
  | cons t i next => simp [Grove.writeOnto, Function.comp_def, Draft.add_add, String.append_assoc]

lemma costs_repetitions {render : Nat → Render Unit} {t : Nat → Tag × Grove}
    (hrender : ∀ k, (render k).Costs n ((Grove.cons (t k).1 (t k).2 .nil).writeOnto dialect style depth)) (m k : Nat) :
    (repetitions render k m).Costs (m * n)
      ((Grove.ofList ((List.range m).map fun i => t (i + k))).writeOnto dialect style depth) := by
  induction m generalizing k with
  | zero => exact costs_pure.of_eq (Nat.zero_mul n).symm fun d => (Grove.writeOnto_nil d).symm
  | succ m ih =>
    refine ((hrender k).bind (ih (k + 1))).of_eq (by ring) fun d => ?_
    have hrest : (fun i => t (i + k)) ∘ Nat.succ = fun i => t (i + (k + 1)) := by
      funext i
      exact congrArg t (by omega)
    rw [List.range_succ_eq_map, List.map_cons, List.map_map, Nat.zero_add, hrest]
    exact (Grove.writeOnto_cons (t k).1 (t k).2 _ d).symm

section Levels

variable {parent : Option String} {level : List Element} {rest : List (List Element)}

lemma costs_holder (hne : ∀ level ∈ rest, level ≠ []) (tag : Tag)
    (hrest : (levels dialect style rest (some tag.name) (depth + 1)).Costs (total rest)
      ((Grove.ofLevels (some tag.name) rest).writeOnto dialect style (depth + 1))) :
    (element dialect style depth tag
      (if !rest.isEmpty then some (levels dialect style rest (some tag.name) (depth + 1)) else none)).Costs
        (1 + total rest) ((Grove.cons tag (.ofLevels (some tag.name) rest) .nil).writeOnto dialect style depth) := by
  cases rest with
  | nil => exact costs_leaf dialect style depth tag
  | cons level rest => exact costs_element tag (Grove.ofLevels_ne_nil _ (hne level List.mem_cons_self)) hrest

lemma costs_level (hne : ∀ level ∈ rest, level ≠ [])
    (hrest : ∀ name depth, (levels dialect style rest (some name) depth).Costs (total rest)
      ((Grove.ofLevels (some name) rest).writeOnto dialect style depth)) :
    (levels dialect style (level :: rest) parent depth).Costs (total (level :: rest))
      ((Grove.ofLevels parent (level :: rest)).writeOnto dialect style depth) := by
  rw [levels]
  induction level with
  | nil =>
    refine costs_pure.of_eq (by simp [total]) fun d => ?_
    simp [Grove.ofLevels, Grove.ofList, Grove.writeOnto]
  | cons e level ih =>
    rw [siblings]
    cases level with
    | nil =>
      have hholders := costs_repetitions (t := fun k => (e.repetition k parent, _))
        (fun k => costs_holder hne (e.repetition k parent) (hrest _ (depth + 1))) e.times 1
      refine (hholders.bind costs_pure).of_eq (total_singleton e rest).symm fun d => ?_
      rw [Grove.ofLevels_singleton]
      rfl
    | cons e' level =>
      have hleaves := costs_repetitions (t := fun k => (e.repetition k parent, .nil))
        (fun k => costs_leaf dialect style depth (e.repetition k parent)) e.times 1
      refine (hleaves.bind ih).of_eq ?_ fun d => ?_
      · rw [total_cons_cons, Nat.mul_one]
      · rw [Grove.ofLevels_cons_cons, Grove.writeOnto_append]
        rfl

end Levels

theorem costs_levels (dialect : Dialect) (style : Option String) {ls : List (List Element)}
    (hne : ∀ level ∈ ls, level ≠ []) (parent : Option String) (depth : Nat) :
    (levels dialect style ls parent depth).Costs (total ls)
      ((Grove.ofLevels parent ls).writeOnto dialect style depth) := by
  induction ls generalizing parent depth with
  | nil => exact costs_pure.of_eq rfl fun d => (Grove.writeOnto_nil d).symm
  | cons level rest ih =>
    obtain ⟨-, hrest⟩ := List.forall_mem_cons.1 hne
    exact costs_level hrest fun name depth => ih hrest (some name) depth

end Render

section Expansion

variable {levels : List (List Element)} {dialect : Dialect} {abbreviation : String}

lemma run_levels (dialect : Dialect) (style : Option String) (hne : ∀ level ∈ levels, level ≠ []) :
    let run := (Render.levels dialect style levels none 0).run ⟨⟨"", 0⟩, maxElements⟩
    let draft := (Grove.ofLevels none levels).writeOnto dialect style 0 ⟨"", 0⟩
    if total levels ≤ maxElements then run = (some (), ⟨draft, maxElements - total levels⟩)
    else ∃ d, run = (none, ⟨d, 0⟩) := by
  intro run draft
  have hcosts := Render.costs_levels dialect style hne none 0
  split_ifs with htotal
  · exact hcosts.enough _ htotal
  · exact hcosts.short _ (Nat.lt_of_not_le htotal)

/-- Levels of too many elements have no expansion, and the others expand to the elements that they stand for. -/
lemma expandMarkup?_eq (abbreviation : String) (dialect : Dialect) (o : ExpandOptions) :
    expandMarkup? abbreviation dialect o =
      if abbreviation = "!" then some (page o)
      else
        match levels? abbreviation.toList with
        | none => none
        | some levels =>
          if total levels ≤ maxElements then
            let draft := (Grove.ofLevels none levels).writeOnto dialect (o.selfClosingStyle? dialect) 0 ⟨"", 0⟩
            some (trimNewlines draft.text)
          else none := by
  unfold expandMarkup?
  split_ifs
  · rfl
  · cases hlevels : levels? abbreviation.toList with
    | none => rfl
    | some levels =>
      have hrun := run_levels dialect (o.selfClosingStyle? dialect) (levels?_eq_some_iff.1 hlevels).ne_nil.2
      dsimp only at hrun ⊢
      split_ifs at hrun ⊢
      · rw [hrun]
      · obtain ⟨d, hd⟩ := hrun
        rw [hd]

lemma expand?_of_isMarkup (hmarkup : dialect.isMarkup = true) (abbreviation : String) (o : ExpandOptions) :
    expand? abbreviation dialect o = expandMarkup? abbreviation dialect o := by
  rw [expand?, if_neg (by simpa [Dialect.isMarkup] using hmarkup)]

end Expansion

end AbbrevSite.Abbreviation
