import AbbrevSite.Toml.Table
import Mathlib.Data.String.Basic
import Mathlib.Tactic.Common

/-! Tables as maps. What a lookup finds after an entry is set or a table extended, and tables whose keys ascend: setting
and extending keep them so, and such a table is the sorted one. -/
namespace AbbrevSite.Toml.Table

variable {α β : Type} {t other : Table α} {key : String} {value : α}

section Members

variable {P : String × α → Prop}

lemma mem_of_get? (h : t.get? key = some value) : (key, value) ∈ t := by
  induction t with
  | nil => cases h
  | cons e rest ih =>
    obtain ⟨k, v⟩ := e
    unfold get? at h
    split_ifs at h with hk
    · cases h
      rw [hk]
      exact List.mem_cons_self
    · exact List.mem_cons_of_mem _ (ih h)

lemma forall_mem_set (h : ∀ e ∈ t, P e) (hnew : P (key, value)) : ∀ e ∈ t.set key value, P e := by
  induction t with
  | nil => simpa [set] using hnew
  | cons e rest ih =>
    obtain ⟨k, v⟩ := e
    rw [List.forall_mem_cons] at h
    unfold set
    split_ifs
    · exact List.forall_mem_cons.2 ⟨hnew, h.2⟩
    · exact List.forall_mem_cons.2 ⟨hnew, List.forall_mem_cons.2 h⟩
    · exact List.forall_mem_cons.2 ⟨h.1, ih h.2⟩

lemma forall_mem_put (h : ∀ e ∈ t, P e) (hnew : P (key, value)) : ∀ e ∈ t.put key value, P e := by
  induction t with
  | nil => simpa [put] using hnew
  | cons e rest ih =>
    obtain ⟨k, v⟩ := e
    rw [List.forall_mem_cons] at h
    unfold put
    split_ifs
    · exact List.forall_mem_cons.2 ⟨hnew, h.2⟩
    · exact List.forall_mem_cons.2 ⟨h.1, ih h.2⟩

lemma forall_mem_extend (h : ∀ e ∈ t, P e) (hother : ∀ e ∈ other, P e) :
    ∀ e ∈ t.extend other, P e := by
  induction other generalizing t with
  | nil => exact h
  | cons e rest ih =>
    rw [List.forall_mem_cons] at hother
    exact ih (forall_mem_set h hother.1) hother.2

end Members

lemma get?_filter {P : String × α → Bool} (h : t.get? key = some value) (hP : P (key, value) = true) :
    Table.get? (t.filter P) key = some value := by
  induction t with
  | nil => cases h
  | cons e rest ih =>
    obtain ⟨k, v⟩ := e
    simp only [get?] at h
    split_ifs at h with hk
    · cases h
      simp [List.filter, hk, hP, get?]
    · by_cases hkept : P (k, v) = true <;> simp [List.filter, hkept, get?, hk, ih h]

lemma get?_extend_of_get? (h : t.get? key = some value) (hother : ∀ e ∈ other, e.1 = key → e.2 = value) :
    (t.extend other).get? key = some value := by
  induction other generalizing t with
  | nil => exact h
  | cons e rest ih =>
    rw [List.forall_mem_cons] at hother
    apply ih _ hother.2
    by_cases hk : e.1 = key
    · rw [← hother.1 hk, ← hk]
      exact get?_set_self t e.1 e.2
    · rw [get?_set_of_ne t e.2 (Ne.symm hk)]
      exact h

lemma get?_extend_of_mem (h : (key, value) ∈ other) (hother : ∀ e ∈ other, e.1 = key → e.2 = value) :
    (t.extend other).get? key = some value := by
  induction other generalizing t with
  | nil => simp at h
  | cons e rest ih =>
    have hrest : ∀ e ∈ rest, e.1 = key → e.2 = value := fun e he => hother e (List.mem_cons_of_mem _ he)
    rcases List.mem_cons.1 h with rfl | hmem
    · exact get?_extend_of_get? (t := t.set key value) (get?_set_self t key value) hrest
    · exact ih hmem hrest

def Distinct (t : Table α) : Prop := t.Pairwise fun e f => e.1 ≠ f.1

lemma distinct_iff_nodup : t.Distinct ↔ (t.map (·.1)).Nodup := List.pairwise_map.symm

lemma get?_eq_none_of_forall_ne (h : ∀ e ∈ t, e.1 ≠ key) : t.get? key = none := by
  induction t with
  | nil => rfl
  | cons e rest ih =>
    rw [List.forall_mem_cons] at h
    rw [get?, if_neg h.1]
    exact ih h.2

lemma get?_of_mem (h : t.Distinct) (hmem : (key, value) ∈ t) : t.get? key = some value := by
  induction t with
  | nil => cases hmem
  | cons e rest ih =>
    obtain ⟨hk, hrest⟩ := List.pairwise_cons.1 h
    rw [get?]
    rcases List.mem_cons.1 hmem with rfl | hmem
    · rw [if_pos rfl]
    · rw [if_neg (hk _ hmem)]
      exact ih hrest hmem

lemma erase_sublist (t : Table α) (key : String) : (t.erase key).Sublist t := by
  induction t with
  | nil => exact List.Sublist.slnil
  | cons e rest ih =>
    obtain ⟨k, v⟩ := e
    rw [erase]
    split_ifs
    · exact List.sublist_cons_self _ _
    · exact ih.cons_cons _

lemma distinct_nil : Distinct ([] : Table α) := List.Pairwise.nil

lemma Distinct.put (h : t.Distinct) (key : String) (value : α) : (t.put key value).Distinct := by
  induction t with
  | nil => exact List.pairwise_singleton _ _
  | cons e rest ih =>
    obtain ⟨k, v⟩ := e
    obtain ⟨hk, hrest⟩ := List.pairwise_cons.1 h
    rw [Table.put]
    split_ifs with hkey
    · exact List.pairwise_cons.2 ⟨hkey ▸ hk, hrest⟩
    · exact List.pairwise_cons.2 ⟨forall_mem_put hk hkey, ih hrest⟩

lemma get?_extend (t : Table α) (hother : other.Distinct) (key : String) :
    (t.extend other).get? key = (other.get? key).or (t.get? key) := by
  induction other generalizing t with
  | nil => rfl
  | cons e rest ih =>
    obtain ⟨k, v⟩ := e
    obtain ⟨hkeys, hrest⟩ := List.pairwise_cons.1 hother
    have hstep : (t.extend ((k, v) :: rest)).get? key = (Table.get? rest key).or ((t.set k v).get? key) := ih _ hrest
    rw [hstep, get?]
    by_cases hk : k = key
    · have hnone : Table.get? rest key = none := get?_eq_none_of_forall_ne fun e he => (hk ▸ hkeys e he).symm
      rw [if_pos hk, hnone, ← hk, get?_set_self]
      rfl
    · rw [if_neg hk, get?_set_of_ne t v (Ne.symm hk)]

lemma get?_map (f : α → β) (t : Table α) (key : String) :
    Table.get? (t.map fun e => (e.1, f e.2)) key = (t.get? key).map f := by
  induction t with
  | nil => rfl
  | cons e rest ih =>
    rw [List.map_cons, get?, get?, ih]
    split_ifs <;> rfl

def Ascending (t : Table α) : Prop := t.Pairwise fun e f => e.1 < f.1

lemma Ascending.distinct (h : t.Ascending) : t.Distinct := h.imp ne_of_lt

lemma ascending_nil : Ascending ([] : Table α) := List.Pairwise.nil

lemma Ascending.set (h : t.Ascending) (key : String) (value : α) : (t.set key value).Ascending := by
  induction t with
  | nil => exact List.pairwise_singleton _ _
  | cons e rest ih =>
    obtain ⟨k, v⟩ := e
    obtain ⟨hk, hrest⟩ := List.pairwise_cons.1 h
    rw [Table.set]
    split_ifs with hkey hlt
    · exact List.pairwise_cons.2 ⟨fun e he => hkey ▸ hk e he, hrest⟩
    · -- before all others
      refine List.pairwise_cons.2 ⟨List.forall_mem_cons.2 ⟨hlt, fun e he => ?_⟩, h⟩
      exact lt_trans hlt (hk e he)
    · have hgt : k < key := lt_of_le_of_ne (not_lt.1 hlt) hkey
      exact List.pairwise_cons.2 ⟨forall_mem_set hk hgt, ih hrest⟩

lemma Ascending.extend (h : t.Ascending) (other : Table α) : (t.extend other).Ascending := by
  induction other generalizing t with
  | nil => exact h
  | cons e rest ih => exact ih (h.set e.1 e.2)

lemma ascending_sorted (t : Table α) : t.sorted.Ascending := ascending_nil.extend t

lemma set_of_forall_lt (h : ∀ e ∈ t, e.1 < key) (value : α) : t.set key value = t ++ [(key, value)] := by
  induction t with
  | nil => rfl
  | cons e rest ih =>
    rw [List.forall_mem_cons] at h
    rw [set, if_neg (ne_of_lt h.1), if_neg (lt_asymm h.1), ih h.2, List.cons_append]

lemma extend_eq_append (h : (t ++ other).Ascending) : t.extend other = t ++ other := by
  induction other generalizing t with
  | nil => exact (List.append_nil t).symm
  | cons e rest ih =>
    have hlt : ∀ f ∈ t, f.1 < e.1 := fun f hf => (List.pairwise_append.1 h).2.2 f hf e List.mem_cons_self
    have hstep : t.extend (e :: rest) = (t.set e.1 e.2).extend rest := rfl
    rw [List.append_cons] at h
    rw [hstep, set_of_forall_lt hlt, ih h, List.append_assoc, List.singleton_append]

lemma Ascending.sorted_eq (h : t.Ascending) : t.sorted = t := extend_eq_append (t := []) h

lemma get?_sorted (h : t.Distinct) (key : String) : t.sorted.get? key = t.get? key := by
  rw [sorted, get?_extend [] h]
  exact Option.or_none

end AbbrevSite.Toml.Table
