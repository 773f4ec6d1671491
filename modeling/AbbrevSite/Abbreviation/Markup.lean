import AbbrevSite.Abbreviation.Element
import AbbrevSite.Markup.Element
import AbbrevSite.Settings.Basic

/-! Expanding markup abbreviations. The elements of its levels are written in all their repetitions, on lines of
their own and with a numbered place wherever the user has text to fill in, until there are too many of them. -/
namespace AbbrevSite.Abbreviation

/-- The zeros and digits of a number, at least `width` characters; nothing for width 0. -/
def zeroPadded (n width : Nat) : List Char :=
  if width = 0 then []
  else
    let digits := Nat.toDigits 10 n
    List.replicate (width - digits.length) '0' ++ digits

/-- A text with every run of `$` replaced by a number as wide as the run. `width` is the length of the
run before the text. -/
def numbered (n : Nat) (width : Nat) : List Char → List Char
  | [] => zeroPadded n width
  | c :: cs =>
    if c = '$' then numbered n (width + 1) cs else zeroPadded n width ++ c :: numbered n 0 cs

def number (n : Nat) (cs : List Char) : String := String.ofList (numbered n 0 cs)

/-- The name of an element written without one, from that of its parent. -/
def implicitName (parent : Option String) : String :=
  match parent with
  | some "ul" | some "ol" => "li"
  | some "table" | some "tbody" | some "thead" | some "tfoot" => "tr"
  | some "tr" => "td"
  | some "select" | some "optgroup" => "option"
  | _ => "div"

/-- An element with its numbers filled in. -/
structure Tag where
  name : String
  id : Option String
  classes : List String
  attributes : List (String × Option String)
  text : Option String
deriving DecidableEq, Repr

def Element.repetition (e : Element) (n : Nat) (parent : Option String) : Tag where
  name := if e.name.isEmpty then implicitName parent else number n e.name
  id := e.id.map (number n)
  classes := e.classes.map (number n)
  attributes := e.attributes.map fun (name, value) => (number n name, value.map (number n))
  text := e.text.map (number n)

/-- A text being written, with the number of places in it so far. -/
structure Draft where
  text : String
  places : Nat
deriving DecidableEq, Repr

namespace Draft

def add (d : Draft) (s : String) : Draft := { d with text := d.text ++ s }

def addPlace (d : Draft) : Draft :=
  ⟨d.text ++ "$\x7b" ++ toString (d.places + 1) ++ "\x7d", d.places + 1⟩

/-- Adds an attribute; one without a value gets a place for it. -/
def addAttribute (d : Draft) (name : String) (value : Option String) : Draft :=
  let d := (d.add (" " ++ name ++ "=\""))
  (match value with
    | some v => d.add v
    | none => d.addPlace).add "\""

end Draft

/-- The end of an opening tag that closes itself. -/
def selfClosing (style : Option String) : String :=
  match style with
  | some "xml" => "/>"
  | some "xhtml" => " />"
  | _ => ">"

def indentation (depth : Nat) : String := String.ofList (List.replicate depth '\t')

namespace Tag

def isVoid (t : Tag) : Bool := AbbrevSite.Markup.voidElements.contains t.name.toLower

/-- Adds the opening tag up to its bracket. -/
def openOnto (t : Tag) (dialect : Dialect) (depth : Nat) (d : Draft) : Draft :=
  let d := d.add (indentation depth ++ "<" ++ t.name)
  let d := match t.id with
    | some id => d.addAttribute "id" (some id)
    | none => d
  let d :=
    if t.classes.isEmpty then d
    else d.addAttribute (if dialect = .jsx then "className" else "class")
      (some (String.intercalate " " t.classes))
  t.attributes.foldl (fun d a => d.addAttribute a.1 a.2) d

end Tag

/-- An expansion being written, with the number of elements that may still be added to it. -/
structure Rendering where
  draft : Draft
  remaining : Nat
deriving DecidableEq, Repr

/-- Adding to an expansion. This can fail, and what was added before stays. -/
abbrev Render := OptionT (StateM Rendering)

namespace Render

def run (x : Render Unit) (r : Rendering) : Option Unit × Rendering := Id.run (StateT.run (OptionT.run x) r)

def write (f : Draft → Draft) : Render Unit := modify fun r => { r with draft := f r.draft }

/-- Counts an element. Fails when no more may be added. -/
def count : Render Unit := do
  let r ← get
  match r.remaining with
  | 0 => failure
  | n + 1 => set { r with remaining := n }

/-- What stands between the tags of an element behind its text: the lines of what it holds, else a place for the user
to write in, unless there is a text. -/
def content (depth : Nat) (tag : Tag) : Option (Render Unit) → Render Unit
  | none => write fun d => if tag.text.isNone then d.addPlace else d
  | some inner => do
    write (·.add "\n")
    inner
    write (·.add (indentation depth))

/-- Adds an element at a depth on lines of its own. `inner` adds what it holds; none if it holds nothing. -/
def element (dialect : Dialect) (style : Option String) (depth : Nat) (tag : Tag) (inner : Option (Render Unit)) :
    Render Unit := do
  count
  write (tag.openOnto dialect depth)
  if tag.isVoid && inner.isNone && tag.text.isNone then write (·.add (selfClosing style ++ "\n"))
  else do
    write (·.add (">" ++ tag.text.getD ""))
    content depth tag inner
    write (·.add ("</" ++ tag.name ++ ">\n"))

def repetitions (render : Nat → Render Unit) (k : Nat) : (times : Nat) → Render Unit
  | 0 => pure ()
  | n + 1 => do
    render k
    repetitions render (k + 1) n

/-- The elements of a level, each told whether it is the last one. -/
def siblings (render : Element → Bool → Render Unit) : List Element → Render Unit
  | [] => pure ()
  | e :: level => do
    render e level.isEmpty
    siblings render level

/-- Adds levels below a parent: each element of the first level in all its repetitions, the last one with the further
levels in every repetition. -/
def levels (dialect : Dialect) (style : Option String) :
    List (List Element) → (parent : Option String) → (depth : Nat) → Render Unit
  | [], _, _ => pure ()
  | level :: rest, parent, depth =>
    siblings (fun e last =>
      repetitions (fun n =>
        let tag := e.repetition n parent
        let inner :=
          if last && !rest.isEmpty then some (levels dialect style rest (some tag.name) (depth + 1)) else none
        element dialect style depth tag inner) 1 e.times) level

end Render

def maxElements : Nat := 1000

def trimNewlines (s : String) : String :=
  String.ofList (s.toList.reverse.dropWhile (· == '\n')).reverse

def page (o : ExpandOptions) : String :=
  let variableOr (key standard : String) : String :=
    ((o.snippetVariables.get? key).bind (·.string?)).getD standard
  "<!DOCTYPE html>\n<html lang=\"" ++ variableOr "lang" "en"
    ++ "\">\n<head>\n\t<meta charset=\"" ++ variableOr "charset" "UTF-8"
    ++ "\">\n\t<meta name=\"viewport\" content=\"width=device-width, initial-scale=1.0\">\n"
    ++ "\t<title>$\x7b1:Document\x7d</title>\n</head>\n<body>\n\t$\x7b2\x7d\n</body>\n</html>"

/-- The expansion of a markup abbreviation. None if it is malformed or stands for too many elements. -/
def expandMarkup? (abbreviation : String) (dialect : Dialect) (o : ExpandOptions) : Option String :=
  if abbreviation = "!" then some (page o)
  else
    match levels? abbreviation.toList with
    | none => none
    | some levels =>
      match (Render.levels dialect (o.selfClosingStyle? dialect) levels none 0).run ⟨⟨"", 0⟩, maxElements⟩ with
      | (some _, r) => some (trimNewlines r.draft.text)
      | (none, _) => none

end AbbrevSite.Abbreviation
