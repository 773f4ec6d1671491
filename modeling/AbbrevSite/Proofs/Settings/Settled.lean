import AbbrevSite.Proofs.Toml.Keyed
import AbbrevSite.Settings.Decode
import Mathlib.Data.List.Forall2

/-! Values as settings hold them. A settled value is in order, and what a settled value was read from has the same shape:
strings from strings, arrays from arrays, tables from tables with the same keys. -/
namespace AbbrevSite.Toml

variable {v w : Value} {items results : List Value} {t u entries : Table Value} {key : String}

namespace Value

def SettlesAs (v w : Value) : Prop := v.settled? = some w

lemma settledItems?_eq_some_iff : settledItems? items = some results ↔ List.Forall₂ SettlesAs items results := by
  induction items generalizing results with
  | nil => simp [settledItems?, List.forall₂_nil_left_iff, eq_comm]
  | cons v rest ih =>
    simp only [settledItems?, Option.bind_eq_bind, Option.bind_eq_some_iff, ih, List.forall₂_cons_left_iff, SettlesAs]
    grind

lemma settledEntries?_eq_some_iff : settledEntries? t = some u ↔
    List.Forall₂ (fun e f => e.1 = f.1 ∧ SettlesAs e.2 f.2) t u := by
  induction t generalizing u with
  | nil => simp [settledEntries?, List.forall₂_nil_left_iff, eq_comm]
  | cons e rest ih =>
    simp only [settledEntries?, Option.bind_eq_bind, Option.bind_eq_some_iff, ih, List.forall₂_cons_left_iff, SettlesAs]
    grind

lemma valueEntries?_table_eq_some_iff : (table t).valueEntries? = some u ↔
    ∃ settled, settledEntries? t = some settled ∧ Table.sorted settled = u := Option.map_eq_some_iff

/-- What a value settles as: a scalar as itself, an array item by item, a table as a date or entry by entry. -/
lemma SettlesAs.cases (h : SettlesAs v w) :
    (v.isScalar = true ∧ w = v) ∨ (∃ items results, v = array items ∧ w = array results ∧
        List.Forall₂ SettlesAs items results) ∨
      (∃ d, w = datetime d) ∨ ∃ t u, v = table t ∧ w = table u ∧ (table t).valueEntries? = some u := by
  cases v with
  | array items =>
    obtain ⟨results, hresults, rfl⟩ := Option.map_eq_some_iff.1 h
    exact .inr (.inl ⟨items, results, rfl, rfl, settledItems?_eq_some_iff.1 hresults⟩)
  | table t =>
    cases t with
    | nil => exact .inr (.inr (.inr ⟨[], [], rfl, (Option.some.inj h).symm, rfl⟩))
    | cons e rest =>
      obtain ⟨key, v⟩ := e
      rw [SettlesAs, settled?] at h
      split_ifs at h
      · obtain ⟨d, -, rfl⟩ := Option.map_eq_some_iff.1 h
        exact .inr (.inr (.inl ⟨d, rfl⟩))
      · obtain ⟨v', hv, h⟩ := Option.bind_eq_some_iff.1 h
        obtain ⟨rest', hrest, h⟩ := Option.bind_eq_some_iff.1 h
        refine .inr (.inr (.inr ⟨_, _, rfl, (Option.some.inj h).symm, ?_⟩))
        exact valueEntries?_table_eq_some_iff.2 ⟨(key, v') :: rest', by simp [settledEntries?, hv, hrest], rfl⟩
  | _ => exact .inl ⟨rfl, (Option.some.inj h).symm⟩

lemma SettlesAs.exists_table (h : SettlesAs v (table u)) : ∃ t, v = table t ∧ (table t).valueEntries? = some u := by
  rcases h.cases with ⟨hv, rfl⟩ | ⟨_, _, -, hw, -⟩ | ⟨_, hw⟩ | ⟨t, _, rfl, hw, ht⟩
  · cases hv
  · cases hw
  · cases hw
  · cases hw
    exact ⟨t, rfl, ht⟩

lemma forall_mem_right {α β : Type} {R : α → β → Prop} {P : β → Prop} {xs : List α} {ys : List β}
    (h : List.Forall₂ R xs ys) (hP : ∀ x ∈ xs, ∀ y, R x y → P y) : ∀ y ∈ ys, P y := by
  induction h with
  | nil => exact fun _ hy => absurd hy List.not_mem_nil
  | cons hxy _ ih =>
    rw [List.forall_mem_cons] at hP
    exact List.forall_mem_cons.2 ⟨hP.1 _ hxy, ih hP.2⟩

lemma ordered_of_forall (h : (table t).valueEntries? = some u)
    (ht : ∀ e ∈ t, ∀ w, SettlesAs e.2 w → w.ascending = w) : Ordered u := by
  obtain ⟨settled, hsettled, rfl⟩ := valueEntries?_table_eq_some_iff.1 h
  have hrel := settledEntries?_eq_some_iff.1 hsettled
  exact Ordered.sorted (forall_mem_right hrel fun e he f hef => ht e he f.2 hef.2)

/-- Settling puts a value in order. -/
lemma SettlesAs.ascending (h : SettlesAs v w) : w.ascending = w := by
  induction v using Value.nesting generalizing w with
  | scalar v hv =>
    rcases h.cases with ⟨-, rfl⟩ | ⟨_, _, rfl, -⟩ | ⟨d, rfl⟩ | ⟨_, _, rfl, -⟩
    · exact ascending_of_isScalar hv
    · cases hv
    · rfl
    · cases hv
  | array items ih =>
    rcases h.cases with ⟨hv, -⟩ | ⟨_, results, hv, rfl, hrel⟩ | ⟨d, rfl⟩ | ⟨_, _, hv, -⟩
    · cases hv
    · cases hv
      have hresults : results.map Value.ascending = results :=
        (List.map_congr_left (forall_mem_right hrel fun v hv _ hvw => ih v hv hvw)).trans (List.map_id results)
      rw [Value.ascending, ascendingItems_eq_map, hresults]
    · rfl
    · cases hv
  | table t ih =>
    rcases h.cases with ⟨hv, -⟩ | ⟨_, _, hv, -⟩ | ⟨d, rfl⟩ | ⟨_, u, hv, rfl, hu⟩
    · cases hv
    · cases hv
    · rfl
    · cases hv
      exact (ordered_of_forall hu fun e he _ => ih e he).ascending

end Value

lemma distinct_of_forall₂ (h : List.Forall₂ (fun e f => e.1 = f.1 ∧ Value.SettlesAs e.2 f.2) t u) (ht : t.Distinct) :
    u.Distinct := by
  have hsame : t.map (·.1) = u.map (·.1) := by
    rw [← List.forall₂_eq_eq_eq, List.forall₂_map_left_iff, List.forall₂_map_right_iff]
    exact h.imp fun _ _ h => h.1
  rw [Table.distinct_iff_nodup, ← hsame]
  exact Table.distinct_iff_nodup.1 ht

lemma rel_get?_of_forall₂ (h : List.Forall₂ (fun e f => e.1 = f.1 ∧ Value.SettlesAs e.2 f.2) t u) (key : String) :
    Option.Rel Value.SettlesAs (Table.get? t key) (Table.get? u key) := by
  induction h with
  | nil => exact .none
  | @cons e f _ _ hef _ ih =>
    rw [Table.get?, Table.get?, hef.1]
    split_ifs
    · exact .some hef.2
    · exact ih

lemma rel_get?_ascending (ht : t.Distinct) (hentries : entries.Distinct)
    (h : (Value.table t).valueEntries? = some (Table.sorted (ascendingEntries entries))) (key : String) :
    Option.Rel (fun v w => v.SettlesAs w.ascending) (Table.get? t key) (Table.get? entries key) := by
  obtain ⟨settled, hsettled, hsorted⟩ := Value.valueEntries?_table_eq_some_iff.1 h
  have hrel := Value.settledEntries?_eq_some_iff.1 hsettled
  have hkeys := distinct_of_forall₂ hrel ht
  have hascending : Table.Distinct (ascendingEntries entries) := by
    rw [ascendingEntries_eq_map]
    exact List.pairwise_map.2 hentries
  have hfound : Table.get? settled key = (Table.get? entries key).map Value.ascending := by
    rw [← Table.get?_sorted hkeys, hsorted, Table.get?_sorted hascending, ascendingEntries_eq_map, Table.get?_map]
  have hget := rel_get?_of_forall₂ hrel key
  rw [hfound] at hget
  revert hget
  cases Table.get? t key <;> cases Table.get? entries key <;> simp

end AbbrevSite.Toml
