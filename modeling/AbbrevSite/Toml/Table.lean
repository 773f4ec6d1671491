/-! Tables: values by key. A table made by `set` is in ascending order of its keys, one made by `put` in
the order in which the keys were first put. -/
namespace AbbrevSite.Toml

abbrev Table (α : Type) := List (String × α)

namespace Table

variable {α : Type}

def get? (t : Table α) (key : String) : Option α :=
  match t with
  | [] => none
  | (k, v) :: rest => if k = key then some v else get? rest key

def contains (t : Table α) (key : String) : Bool := (t.get? key).isSome

/-- The table with a value for a key, in place of the one it had. A new key comes last. -/
def put (t : Table α) (key : String) (value : α) : Table α :=
  match t with
  | [] => [(key, value)]
  | (k, v) :: rest => if k = key then (key, value) :: rest else (k, v) :: put rest key value

/-- The table with a value for a key, in place of the one it had. A new key goes where it keeps the keys
ascending. -/
def set (t : Table α) (key : String) (value : α) : Table α :=
  match t with
  | [] => [(key, value)]
  | (k, v) :: rest =>
    if k = key then (key, value) :: rest
    else if key < k then (key, value) :: (k, v) :: rest
    else (k, v) :: set rest key value

def erase (t : Table α) (key : String) : Table α :=
  match t with
  | [] => []
  | (k, v) :: rest => if k = key then rest else (k, v) :: erase rest key

/-- The table with every entry of another, which wins where both have a key. -/
def extend (t other : Table α) : Table α := other.foldl (fun t e => t.set e.1 e.2) t

def sorted (t : Table α) : Table α := extend [] t

theorem get?_set_self (t : Table α) (key : String) (value : α) :
    (t.set key value).get? key = some value := by
  induction t with
  | nil => simp [set, get?]
  | cons e rest ih =>
    obtain ⟨k, v⟩ := e
    unfold set
    split
    · simp [get?]
    · split
      · simp [get?]
      · rename_i h _; simp [get?, h, ih]

theorem get?_set_of_ne (t : Table α) {key other : String} (value : α) (h : other ≠ key) :
    (t.set key value).get? other = t.get? other := by
  induction t with
  | nil => simp [set, get?, h.symm]
  | cons e rest ih =>
    obtain ⟨k, v⟩ := e
    unfold set
    split
    · rename_i hk; simp [get?, hk, h.symm]
    · split
      · simp [get?, h.symm]
      · simp [get?, ih]

end Table
end AbbrevSite.Toml
