import AbbrevSite.Toml.Assembly
import AbbrevSite.Toml.Lexical
import AbbrevSite.Toml.Scalar

/-! Reading a settings file into a table. -/
namespace AbbrevSite.Toml

/-- A key and what it is made of: the path to a table and the last part. -/
def splitKey? (parts : List String) : Option (List String × String) :=
  parts.getLast?.map fun key => (parts.dropLast, key)

/-- A key, an equals sign and a value. -/
def pair? (value : List Char → Option (Value × List Char)) (cs : List Char) :
    Option ((List String × String) × Value × List Char) := do
  let (parts, rest) ← key? cs
  let key ← splitKey? parts
  let rest ← expect? '=' rest
  let (v, rest) ← value (skipSpaces rest)
  some (key, v, rest)

/-- The items of an array after its bracket or after a comma, at most `fuel` of them. -/
def items? (value : List Char → Option (Value × List Char)) :
    (fuel : Nat) → List Value → List Char → Option (List Value × List Char)
  | 0, _, _ => none
  | fuel + 1, acc, cs =>
    match skipLayout cs with
    | ']' :: rest => some (acc.reverse, rest)
    | cs => do
      let (v, rest) ← value cs
      match skipLayout rest with
      | ',' :: rest => items? value fuel (v :: acc) rest
      | ']' :: rest => some ((v :: acc).reverse, rest)
      | _ => none

/-- The pairs of an inline table, at most `fuel` of them. -/
def pairs? (value : List Char → Option (Value × List Char)) :
    (fuel : Nat) → Entries → List Char → Option (Entries × List Char)
  | 0, _, _ => none
  | fuel + 1, entries, cs => do
    let ((path, key), v, rest) ← pair? value cs
    let entries ← Entries.add path key v entries
    match skipSpaces rest with
    | ',' :: rest => pairs? value fuel entries rest
    | '}' :: rest => some (entries, rest)
    | _ => none

/-- A value that nests at most `levels` arrays and inline tables, each of at most `width` items, and the
rest. -/
def value? (width : Nat) : (levels : Nat) → List Char → Option (Value × List Char)
  | levels, cs =>
    match cs with
    | '"' :: _ | '\'' :: _ => (string? cs).map fun (s, rest) => (.string (String.ofList s), rest)
    | '[' :: rest =>
      match levels with
      | 0 => none
      | levels + 1 =>
        (items? (value? width levels) width [] rest).map fun (vs, rest) => (.array vs, rest)
    | '{' :: rest =>
      match levels with
      | 0 => none
      | levels + 1 =>
        match skipSpaces rest with
        | '}' :: rest => some (.table [], rest)
        | rest =>
          (pairs? (value? width levels) width [] rest).map fun (entries, rest) =>
            (.table (entryValues entries), rest)
    | cs => scalar? cs

/-- A header after its opening brackets, up to the end of its line. -/
def headerRest? (closing : List Char) (cs : List Char) :
    Option ((List String × String) × List Char) := do
  let (parts, rest) ← key? cs
  let key ← splitKey? parts
  if closing.isPrefixOf rest then
    let rest ← afterLine? (rest.drop closing.length)
    some (key, rest)
  else none

/-- Reads one line, which may be empty, or a pair whose value goes over several lines. Collections have
at most `width` items. -/
def line? (width : Nat) (a : Assembly) (cs : List Char) : Option (Assembly × List Char) :=
  match skipSpaces cs with
  | [] => some (a, [])
  | '#' :: rest => (afterLine? ('#' :: rest)).map (a, ·)
  | '\n' :: rest => some (a, rest)
  | '\r' :: rest => (expect? '\n' rest).map (a, ·)
  | '[' :: '[' :: rest => do
    let ((path, key), rest) ← headerRest? [']', ']'] rest
    some (← a.rowHeader path key, rest)
  | '[' :: rest => do
    let ((path, key), rest) ← headerRest? [']'] rest
    some (← a.header path key, rest)
  | cs => do
    let ((path, key), v, rest) ← pair? (value? width (maxNesting - 1)) cs
    some (← a.pair path key v, ← afterLine? rest)

def lines? (width : Nat) : (fuel : Nat) → Assembly → List Char → Option Assembly
  | _, a, [] => some a
  | 0, _, _ => none
  | fuel + 1, a, cs => do
    let (a, rest) ← line? width a cs
    lines? width fuel a rest

/-- The table of a file. A byte order mark at its start is no part of it. No file has more lines than
characters and one, and no collection more items. -/
def read? (text : String) : Option (Table Value) := do
  let cs := text.toList
  let cs := if cs.head? = some '\ufeff' then cs.drop 1 else cs
  let bound := cs.length + 1
  let a ← lines? bound bound .start cs
  let root ← a.finish
  some (entryValues root)

end AbbrevSite.Toml
