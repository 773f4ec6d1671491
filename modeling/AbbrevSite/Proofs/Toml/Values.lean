import AbbrevSite.Proofs.Toml.Tables
import AbbrevSite.Toml.Value

/-! Values by recursion: they can be compared, floats by their bits, and their tables can be put in the order of the keys
at every depth. -/
namespace AbbrevSite.Toml

def Value.isScalar : Value → Bool
  | .array _ | .table _ => false
  | _ => true

@[elab_as_elim]
theorem Value.nesting {P : Value → Prop} (scalar : ∀ v, v.isScalar = true → P v)
    (array : ∀ items, (∀ v ∈ items, P v) → P (.array items)) (table : ∀ t, (∀ e ∈ t, P e.2) → P (.table t))
    (v : Value) : P v :=
  @Value.rec P (fun items => ∀ v ∈ items, P v) (fun t => ∀ e ∈ t, P e.2) (fun e => P e.2)
    (fun _ => scalar _ rfl) (fun _ => scalar _ rfl) (fun _ => scalar _ rfl) (fun _ => scalar _ rfl)
    (fun _ => scalar _ rfl) array table (fun _ h => absurd h List.not_mem_nil)
    (fun _ _ hv hrest => List.forall_mem_cons.2 ⟨hv, hrest⟩) (fun _ h => absurd h List.not_mem_nil)
    (fun _ _ he hrest => List.forall_mem_cons.2 ⟨he, hrest⟩) (fun _ _ hv => hv) v

mutual

def Value.same : Value → Value → Bool
  | .string s, .string t => s == t
  | .integer m, .integer n => m == n
  | .float x, .float y => decide (x = y)
  | .boolean a, .boolean b => a == b
  | .datetime d, .datetime e => decide (d = e)
  | .array xs, .array ys => sameItems xs ys
  | .table t, .table u => sameEntries t u
  | _, _ => false

def sameItems : List Value → List Value → Bool
  | [], [] => true
  | v :: xs, w :: ys => v.same w && sameItems xs ys
  | _, _ => false

def sameEntries : List (String × Value) → List (String × Value) → Bool
  | [], [] => true
  | (k, v) :: t, (l, w) :: u => k == l && v.same w && sameEntries t u
  | _, _ => false

end

mutual

lemma Value.same_iff : (v w : Value) → (v.same w = true ↔ v = w)
  | .string _, w => by cases w <;> simp [Value.same]
  | .integer _, w => by cases w <;> simp [Value.same]
  | .float _, w => by cases w <;> simp [Value.same]
  | .boolean _, w => by cases w <;> simp [Value.same]
  | .datetime _, w => by cases w <;> simp [Value.same]
  | .array xs, w => by cases w <;> simp [Value.same, sameItems_iff xs]
  | .table t, w => by cases w <;> simp [Value.same, sameEntries_iff t]

lemma sameItems_iff : (xs ys : List Value) → (sameItems xs ys = true ↔ xs = ys)
  | [], ys => by cases ys <;> simp [sameItems]
  | v :: xs, ys => by cases ys <;> simp [sameItems, Value.same_iff v, sameItems_iff xs]

lemma sameEntries_iff : (t u : List (String × Value)) → (sameEntries t u = true ↔ t = u)
  | [], u => by cases u <;> simp [sameEntries]
  | (k, v) :: t, u => by cases u <;> simp [sameEntries, Value.same_iff v, sameEntries_iff t, Prod.ext_iff]

end

instance : DecidableEq Value := fun v w => decidable_of_iff _ (Value.same_iff v w)

mutual

def Value.ascending : Value → Value
  | .array items => .array (ascendingItems items)
  | .table t => .table (Table.sorted (ascendingEntries t))
  | v => v

def ascendingItems : List Value → List Value
  | [] => []
  | v :: rest => v.ascending :: ascendingItems rest

def ascendingEntries : List (String × Value) → List (String × Value)
  | [] => []
  | (key, v) :: rest => (key, v.ascending) :: ascendingEntries rest

end

lemma ascendingItems_eq_map (items : List Value) : ascendingItems items = items.map Value.ascending := by
  induction items with
  | nil => rfl
  | cons v rest ih => rw [ascendingItems, ih, List.map_cons]

lemma ascendingEntries_eq_map (t : List (String × Value)) :
    ascendingEntries t = t.map fun e => (e.1, e.2.ascending) := by
  induction t with
  | nil => rfl
  | cons e rest ih => rw [ascendingEntries, ih, List.map_cons]

lemma Value.ascending_of_isScalar {v : Value} (h : v.isScalar = true) : v.ascending = v := by
  cases v with
  | array items => cases h
  | table t => cases h
  | _ => rfl

/-- A table in the order of its keys, as are all tables in it. -/
structure Ordered (t : Table Value) : Prop where
  keys : t.Ascending
  values : ∀ e ∈ t, e.2.ascending = e.2

namespace Ordered

variable {t other : Table Value}

lemma nil : Ordered [] := ⟨Table.ascending_nil, fun _ h => absurd h List.not_mem_nil⟩

lemma ascending (h : Ordered t) : (Value.table t).ascending = .table t := by
  have hvalues : t.map (fun e => (e.1, e.2.ascending)) = t := by
    refine (List.map_congr_left fun e he => ?_).trans (List.map_id t)
    rw [h.values e he]
    rfl
  rw [Value.ascending, ascendingEntries_eq_map, hvalues, h.keys.sorted_eq]

lemma extend (h : Ordered t) (hother : Ordered other) : Ordered (t.extend other) :=
  ⟨h.keys.extend other, Table.forall_mem_extend h.values hother.values⟩

lemma sorted (h : ∀ e ∈ t, e.2.ascending = e.2) : Ordered t.sorted :=
  ⟨Table.ascending_sorted t, Table.forall_mem_extend (fun _ h => absurd h List.not_mem_nil) h⟩

end Ordered

end AbbrevSite.Toml
