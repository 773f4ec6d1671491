import AbbrevSite.Decimal.Notation
import AbbrevSite.Toml.Lexical
import AbbrevSite.Toml.Value

/-! Writing a table as a settings file: the values of a table under its header, one a line, and the
tables in it under headers of their own. -/
namespace AbbrevSite.Toml

def isControl (c : Char) : Bool := !isPlain c && c != '\n'

def longestRun (c : Char) (cs : List Char) : Nat :=
  (cs.foldl (fun (longest, run) d => if d = c then (max longest (run + 1), run + 1) else (longest, 0))
    (0, 0)).1

def escapeOf? (multiline : Bool) (c : Char) : Option (List Char) :=
  match c with
  | '\x08' => some ['\\', 'b']
  | '\t' => some ['\\', 't']
  | '\n' => if multiline then none else some ['\\', 'n']
  | '\x0c' => some ['\\', 'f']
  | '\r' => some ['\\', 'r']
  | '\\' => some ['\\', '\\']
  | c =>
    if isControl c then
      let digits := (Nat.toDigits 16 c.toNat).map Char.toUpper
      some ('\\' :: 'u' :: List.replicate (4 - digits.length) '0' ++ digits)
    else none

/-- Characters between quotation marks. A quotation mark is escaped when as many as the delimiter may not
contain have come before it, `quotes` of them so far. -/
def escaped (multiline : Bool) : (quotes : Nat) → List Char → List Char
  | _, [] => []
  | quotes, '"' :: rest =>
    if (if multiline then 2 else 0) < quotes + 1 then '\\' :: '"' :: escaped multiline 0 rest
    else '"' :: escaped multiline (quotes + 1) rest
  | _, c :: rest => ((escapeOf? multiline c).getD [c]) ++ escaped multiline 0 rest

def basicText (cs : List Char) : List Char := '"' :: escaped false 0 cs ++ ['"']

def literalText (cs : List Char) : List Char := '\'' :: cs ++ ['\'']

/-- Text between tripled marks, from a line of its own if it has lines. -/
def multilineText (mark : Char) (cs text : List Char) : List Char :=
  let marks := List.replicate 3 mark
  marks ++ (if cs.contains '\n' then ['\n'] else []) ++ text ++ marks

/-- Whether the text stands between quotation marks as it is. -/
def standsInQuotes (cs : List Char) : Bool :=
  !cs.any fun c => isControl c || c == '\\' || c == '"' || c == '\n'

def standsInApostrophes (cs : List Char) : Bool := !cs.any fun c => isControl c || c == '\'' || c == '\n'

/-- The first way of writing a string that needs no escape, if there is one. -/
def stringText (cs : List Char) : List Char :=
  let control := cs.any isControl
  if standsInQuotes cs then basicText cs
  else if standsInApostrophes cs then literalText cs
  else if !control && !cs.contains '\\' && longestRun '"' cs ≤ 2 then
    multilineText '"' cs (escaped true 0 cs)
  else if !control && longestRun '\'' cs ≤ 2 then multilineText '\'' cs cs
  else if cs.contains '\n' then multilineText '"' cs (escaped true 0 cs)
  else basicText cs

def keyText (key : String) : String :=
  let cs := key.toList
  if !cs.isEmpty && cs.all isBareKeyChar then key
  else if !standsInQuotes cs && standsInApostrophes cs then String.ofList (literalText cs)
  else String.ofList (basicText cs)

/-- Items between brackets, each on a line of its own if there are several. -/
def bracketed : List String → String
  | [] => "[]"
  | [item] => "[" ++ item ++ "]"
  | items => "[" ++ String.join (items.map fun item => "\n    " ++ item ++ ",") ++ "\n]"

def braced : List String → String
  | [] => "\x7b\x7d"
  | entries => "\x7b " ++ String.intercalate ", " entries ++ " \x7d"

mutual

def Value.inline : Value → String
  | .string s => String.ofList (stringText s.toList)
  | .integer n => toString n
  | .float x => x.displayPositional
  | .boolean b => if b then "true" else "false"
  | .datetime d => d.render
  | .array items => bracketed (inlineItems items)
  | .table entries => braced (inlineEntries entries)

def inlineItems : List Value → List String
  | [] => []
  | v :: rest => v.inline :: inlineItems rest

def inlineEntries : List (String × Value) → List String
  | [] => []
  | (key, v) :: rest => (keyText key ++ " = " ++ v.inline) :: inlineEntries rest

end

/-- Whether a value is written under headers: a table, or an array of nothing but tables. -/
def Value.hasHeader : Value → Bool
  | .table _ => true
  | .array items => !items.isEmpty && items.all (·.isTable)
  | _ => false

def ownLines (entries : List (String × Value)) : String :=
  String.join ((entries.filter fun e => !e.2.hasHeader).map fun e =>
    keyText e.1 ++ " = " ++ e.2.inline ++ "\n")

def pathText (path : List String) : String := String.intercalate "." (path.map keyText)

/-- A table's header and its lines. A table with nothing but tables in it needs neither. -/
def ownBlock (path : List String) (entries : List (String × Value)) : List String :=
  if !entries.isEmpty && entries.all (·.2.hasHeader) then []
  else ["[" ++ pathText path ++ "]\n" ++ ownLines entries]

mutual

def Value.blocks (path : List String) : Value → List String
  | .table entries => ownBlock path entries ++ entryBlocks path entries
  | .array items => if items.all (·.isTable) then rowBlocks path items else []
  | _ => []

def entryBlocks (path : List String) : List (String × Value) → List String
  | [] => []
  | (key, v) :: rest => v.blocks (path ++ [key]) ++ entryBlocks path rest

def rowBlocks (path : List String) : List Value → List String
  | [] => []
  | .table entries :: rest =>
    ("[[" ++ pathText path ++ "]]\n" ++ ownLines entries) :: entryBlocks path entries
      ++ rowBlocks path rest
  | _ :: rest => rowBlocks path rest

end

/-- The text of a settings file, its blocks apart by an empty line. -/
def write (entries : List (String × Value)) : String :=
  let lines := ownLines entries
  String.intercalate "\n" ((if lines.isEmpty then [] else [lines]) ++ entryBlocks [] entries)

end AbbrevSite.Toml
