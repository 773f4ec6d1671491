import AbbrevSite.Proofs.Toml.Values
import AbbrevSite.Toml.Read

/-! No table of a file that was read has a key twice, at any depth: every statement puts a key once where it belongs. -/
namespace AbbrevSite.Toml

/-- A value in which no table has a key twice. -/
inductive Value.Keyed : Value → Prop
  | scalar {v : Value} (h : v.isScalar = true) : v.Keyed
  | array {items : List Value} (h : ∀ v ∈ items, v.Keyed) : Keyed (.array items)
  | table {t : List (String × Value)} (keys : Table.Distinct t) (values : ∀ e ∈ t, Keyed e.2) : Keyed (.table t)

lemma Value.Keyed.distinct {t : Table Value} (h : (Value.table t).Keyed) : t.Distinct := by
  cases h with
  | scalar h => cases h
  | table keys _ => exact keys

lemma Value.Keyed.get? {t : Table Value} (h : (Value.table t).Keyed) {key : String} {v : Value}
    (hget : Table.get? t key = some v) : v.Keyed := by
  cases h with
  | scalar h => cases h
  | table _ values => exact values _ (Table.mem_of_get? hget)

/-- The same of what a key stands for while a file is read. -/
inductive Item.Keyed : Item → Prop
  | value {v : Value} (h : v.Keyed) : Keyed (.value v)
  | table {implicit dotted : Bool} {t : List (String × Item)} (keys : Table.Distinct t) (items : ∀ e ∈ t, Keyed e.2) :
      Keyed (.table implicit dotted t)
  | rows {tables : List (List (String × Item))} (keys : ∀ t ∈ tables, Table.Distinct t)
      (items : ∀ t ∈ tables, ∀ e ∈ t, Keyed e.2) : Keyed (.rows tables)

lemma entryValues_eq_map (t : List (String × Item)) : entryValues t = t.map fun e => (e.1, e.2.toValue) := by
  induction t with
  | nil => rfl
  | cons e rest ih => rw [entryValues, ih, List.map_cons]

lemma rowValues_eq_map (tables : List (List (String × Item))) :
    rowValues tables = tables.map fun t => .table (entryValues t) := by
  induction tables with
  | nil => rfl
  | cons t rest ih => rw [rowValues, ih, List.map_cons]

lemma keyed_entryValues {t : List (String × Item)} (keys : Table.Distinct t) (values : ∀ e ∈ t, e.2.toValue.Keyed) :
    (Value.table (entryValues t)).Keyed := by
  rw [entryValues_eq_map]
  refine .table (List.pairwise_map.2 keys) fun e he => ?_
  obtain ⟨f, hf, rfl⟩ := List.mem_map.1 he
  exact values f hf

lemma Item.Keyed.toValue {item : Item} (h : item.Keyed) : item.toValue.Keyed := by
  induction h with
  | value h => exact h
  | table keys _ ih => exact keyed_entryValues keys ih
  | rows keys _ ih =>
    rw [Item.toValue, rowValues_eq_map]
    refine .array fun v hv => ?_
    obtain ⟨t, ht, rfl⟩ := List.mem_map.1 hv
    exact keyed_entryValues (keys t ht) (ih t ht)

namespace Entries

/-- Entries in which no table has a key twice. -/
structure Keyed (entries : Entries) : Prop where
  keys : Table.Distinct entries
  items : ∀ e ∈ entries, e.2.Keyed

variable {α : Type} {entries result : Entries} {key : String} {item : Item} {a : α} {Q : α → Prop}
  {f : Bool → Entries → Option (Entries × α)}

lemma keyed_nil : Keyed [] := ⟨Table.distinct_nil, fun _ h => absurd h List.not_mem_nil⟩

lemma Keyed.value (h : Keyed entries) : (Value.table (entryValues entries)).Keyed :=
  keyed_entryValues h.keys fun e he => (h.items e he).toValue

lemma Keyed.table (h : Keyed entries) (implicit dotted : Bool) : (Item.table implicit dotted entries).Keyed :=
  .table h.keys h.items

lemma Keyed.put (h : Keyed entries) (hitem : item.Keyed) : Keyed (Table.put entries key item) :=
  ⟨h.keys.put key item, Table.forall_mem_put h.items hitem⟩

lemma Keyed.erase (h : Keyed entries) : Keyed (Table.erase entries key) :=
  have hsub := Table.erase_sublist entries key
  ⟨h.keys.sublist hsub, fun e he => h.items e (hsub.subset he)⟩

lemma Keyed.get? (h : Keyed entries) (hget : Table.get? entries key = some item) : item.Keyed :=
  h.items _ (Table.mem_of_get? hget)

lemma keyed_of_table {implicit dotted : Bool} (h : (Item.table implicit dotted entries).Keyed) : Keyed entries := by
  cases h with
  | table keys items => exact ⟨keys, items⟩

lemma keyed_rows_iff {tables : List Entries} : (Item.rows tables).Keyed ↔ ∀ t ∈ tables, Keyed t := by
  constructor
  · intro h t ht
    cases h with
    | rows keys items => exact ⟨keys t ht, items t ht⟩
  · exact fun h => .rows (fun t ht => (h t ht).keys) fun t ht => (h t ht).items

/-- A change at the end of a path that keeps keys apart there keeps them apart everywhere. -/
lemma keyed_within {dotted : Bool}
    (hf : ∀ {isDotted entries result a}, Keyed entries → f isDotted entries = some (result, a) → Keyed result ∧ Q a)
    {path : List String} {isDotted : Bool} (hentries : Keyed entries)
    (h : within dotted f path isDotted entries = some (result, a)) : Keyed result ∧ Q a := by
  induction path generalizing isDotted entries result with
  | nil => exact hf hentries h
  | cons key path ih =>
    rw [within] at h
    split at h
    · -- the table is made
      obtain ⟨⟨inner, b⟩, hinner, h⟩ := Option.bind_eq_some_iff.1 h
      cases h
      obtain ⟨hkeyed, hb⟩ := ih keyed_nil hinner
      exact ⟨hentries.put (hkeyed.table _ _), hb⟩
    · cases h
    · -- it is there
      rename_i hget
      split_ifs at h
      obtain ⟨⟨inner, b⟩, hinner, h⟩ := Option.bind_eq_some_iff.1 h
      cases h
      obtain ⟨hkeyed, hb⟩ := ih (keyed_of_table (hentries.get? hget)) hinner
      exact ⟨hentries.put (hkeyed.table _ _), hb⟩
    · -- it is the last row of an array
      rename_i tables hget
      have hrows := keyed_rows_iff.1 (hentries.get? hget)
      split at h
      · cases h
      · rename_i last hlast
        obtain ⟨⟨inner, b⟩, hinner, h⟩ := Option.bind_eq_some_iff.1 h
        cases h
        obtain ⟨hkeyed, hb⟩ := ih (hrows last (List.mem_of_getLast? hlast)) hinner
        refine ⟨hentries.put (keyed_rows_iff.2 fun t ht => ?_), hb⟩
        rcases List.mem_append.1 ht with ht | ht
        · exact hrows t (List.dropLast_subset _ ht)
        · exact List.mem_singleton.1 ht ▸ hkeyed

lemma keyed_add {path : List String} {v : Value} (hentries : Keyed entries) (hv : v.Keyed)
    (h : add path key v entries = some result) : Keyed result := by
  obtain ⟨⟨result, _⟩, hwithin, rfl⟩ := Option.map_eq_some_iff.1 h
  refine (keyed_within (Q := fun _ => True) (fun hentries h => ?_) hentries hwithin).1
  split_ifs at h
  cases h
  exact ⟨hentries.put (.value hv), trivial⟩

end Entries

/-- A file read so far in which no table has a key twice. -/
structure Assembly.Keyed (a : Assembly) : Prop where
  root : Entries.Keyed a.root
  current : Entries.Keyed a.current

namespace Assembly

variable {a b : Assembly} {path : List String} {key : String} {entries : Entries}

lemma Keyed.finish (ha : a.Keyed) (h : a.finish = some entries) : Entries.Keyed entries := by
  rw [Assembly.finish] at h
  split at h
  · cases h
    exact ha.current
  · obtain ⟨⟨entries, _⟩, hwithin, rfl⟩ := Option.map_eq_some_iff.1 h
    refine (Entries.keyed_within (Q := fun _ => True) (fun {isDotted entries _ _} hentries h => ?_) ha.root hwithin).1
    split_ifs at h with hrow
    · split at h
      · cases h
        refine ⟨hentries.put (Entries.keyed_rows_iff.2 fun t ht => ?_), trivial⟩
        exact List.mem_singleton.1 ht ▸ ha.current
      · rename_i tables hget
        cases h
        refine ⟨hentries.put (Entries.keyed_rows_iff.2 fun t ht => ?_), trivial⟩
        rcases List.mem_append.1 ht with ht | ht
        · exact Entries.keyed_rows_iff.1 (hentries.get? hget) t ht
        · exact List.mem_singleton.1 ht ▸ ha.current
      · cases h
    · cases h
      exact ⟨hentries.put (ha.current.table _ _), trivial⟩

lemma Keyed.header (ha : a.Keyed) (h : a.header path key = some b) : b.Keyed := by
  obtain ⟨root, hfinish, h⟩ := Option.bind_eq_some_iff.1 h
  obtain ⟨⟨root', current⟩, hwithin, h⟩ := Option.bind_eq_some_iff.1 h
  cases h
  suffices hkeyed : Entries.Keyed root' ∧ Entries.Keyed current from ⟨hkeyed.1, hkeyed.2⟩
  refine Entries.keyed_within (fun hentries h => ?_) (ha.finish hfinish) hwithin
  split at h
  · cases h
    exact ⟨hentries, Entries.keyed_nil⟩
  · rename_i hget
    cases h
    exact ⟨hentries.erase, Entries.keyed_of_table (hentries.get? hget)⟩
  · cases h

lemma Keyed.rowHeader (ha : a.Keyed) (h : a.rowHeader path key = some b) : b.Keyed := by
  obtain ⟨root, hfinish, h⟩ := Option.bind_eq_some_iff.1 h
  obtain ⟨⟨root', _⟩, hwithin, h⟩ := Option.bind_eq_some_iff.1 h
  cases h
  refine ⟨(Entries.keyed_within (Q := fun _ => True) (fun hentries h => ?_) (ha.finish hfinish) hwithin).1,
    Entries.keyed_nil⟩
  split at h
  · cases h
    exact ⟨hentries.put (Entries.keyed_rows_iff.2 fun _ ht => absurd ht List.not_mem_nil), trivial⟩
  · cases h
    exact ⟨hentries, trivial⟩
  · cases h

lemma Keyed.pair {v : Value} (ha : a.Keyed) (hv : v.Keyed) (h : a.pair path key v = some b) : b.Keyed := by
  obtain ⟨current, hadd, h⟩ := Option.bind_eq_some_iff.1 h
  cases h
  exact ⟨ha.root, Entries.keyed_add ha.current hv hadd⟩

end Assembly

section Read

variable {value : List Char → Option (Value × List Char)} {v : Value} {cs rest : List Char} {fuel width levels : Nat}

end Read

end AbbrevSite.Toml
