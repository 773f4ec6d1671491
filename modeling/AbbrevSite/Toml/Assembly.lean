import AbbrevSite.Toml.Value

/-! Putting tables together from statements. A table may be given in several places, but every key of it
only once, and a table closed by its form takes no further keys. Entries are in the order in which the
file brings them up; a table that gets its header late comes after those of its parent. -/
namespace AbbrevSite.Toml

/-- What a key stands for while a file is read. -/
inductive Item where
  | value (v : Value)
  /-- A table: whether no header of its own has been met, and whether a key with points made it. -/
  | table (implicit dotted : Bool) (entries : List (String × Item))
  /-- The rows of an array of tables. -/
  | rows (tables : List (List (String × Item)))

/-- The entries of a table while a file is read. -/
abbrev Entries := Table Item

mutual

def Item.toValue : Item → Value
  | .value v => v
  | .table _ _ entries => .table (entryValues entries)
  | .rows tables => .array (rowValues tables)

def entryValues : List (String × Item) → List (String × Value)
  | [] => []
  | (key, item) :: rest => (key, item.toValue) :: entryValues rest

def rowValues : List (List (String × Item)) → List Value
  | [] => []
  | entries :: rest => .table (entryValues entries) :: rowValues rest

end

namespace Entries

/-- Changes the table at the end of a path by `f`, which is told whether a key with points made the table.
Tables missing on the path are made. The path may not lead through a value, nor, if it belongs to a
key with points, through a table with a header of its own. -/
def within {α : Type} (dotted : Bool) (f : Bool → Entries → Option (Entries × α)) :
    (path : List String) → (isDotted : Bool) → Entries → Option (Entries × α)
  | [], isDotted, entries => f isDotted entries
  | key :: path, _, entries =>
    match Table.get? entries key with
    | none => do
      let (inner, a) ← within dotted f path dotted []
      some (Table.put entries key (.table true dotted inner), a)
    | some (.value _) => none
    | some (.table implicit isDotted inner) =>
      if dotted && !implicit then none
      else do
        let (inner, a) ← within dotted f path isDotted inner
        some (Table.put entries key (.table implicit isDotted inner), a)
    | some (.rows tables) =>
      match tables.getLast? with
      | none => none
      | some last => do
        let (inner, a) ← within dotted f path false last
        some (Table.put entries key (.rows (tables.dropLast ++ [inner])), a)

/-- Adds a value under a key with points. -/
def add (path : List String) (key : String) (v : Value) (entries : Entries) : Option Entries :=
  let put (isDotted : Bool) (entries : Entries) : Option (Entries × Unit) :=
    if isDotted == path.isEmpty then none
    else if Table.contains entries key then none
    else some (Table.put entries key (.value v), ())
  (within true put path false entries).map (·.1)

end Entries

/-- A file read so far: the finished tables, and the one that statements add to. -/
structure Assembly where
  root : Entries
  current : Entries
  /-- The path of the current table, empty before the first header. -/
  path : List String
  /-- Whether the current table is a row of an array of tables. -/
  isRow : Bool

namespace Assembly

def start : Assembly := ⟨[], [], [], false⟩

/-- Puts the current table where it belongs. -/
def finish (a : Assembly) : Option Entries :=
  match a.path.getLast? with
  | none => some a.current
  | some key =>
    let put (_ : Bool) (entries : Entries) : Option (Entries × Unit) :=
      if a.isRow then
        match Table.get? entries key with
        | none => some (Table.put entries key (.rows [a.current]), ())
        | some (.rows tables) => some (Table.put entries key (.rows (tables ++ [a.current])), ())
        | some _ => none
      else some (Table.put entries key (.table false false a.current), ())
    (Entries.within false put a.path.dropLast false a.root).map (·.1)

/-- Starts the table of a header. A table that exists only because others lie in it is taken over. -/
def header (a : Assembly) (path : List String) (key : String) : Option Assembly := do
  let root ← a.finish
  let take (_ : Bool) (entries : Entries) : Option (Entries × Entries) :=
    match Table.get? entries key with
    | none => some (entries, [])
    | some (.table true false inner) => some (Table.erase entries key, inner)
    | some _ => none
  let (root, current) ← Entries.within false take path false root
  some ⟨root, current, path ++ [key], false⟩

def rowHeader (a : Assembly) (path : List String) (key : String) : Option Assembly := do
  let root ← a.finish
  let check (_ : Bool) (entries : Entries) : Option (Entries × Unit) :=
    match Table.get? entries key with
    | none => some (Table.put entries key (.rows []), ())
    | some (.rows _) => some (entries, ())
    | some _ => none
  let (root, _) ← Entries.within false check path false root
  some ⟨root, [], path ++ [key], true⟩

def pair (a : Assembly) (path : List String) (key : String) (v : Value) : Option Assembly := do
  let current ← Entries.add path key v a.current
  some { a with current }

end Assembly
end AbbrevSite.Toml
