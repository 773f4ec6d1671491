import AbbrevSite.Decimal.Digits
import AbbrevSite.Text.CharClass

/-! Markup abbreviations: levels joined by `>`, each a row of elements joined by `+`. A level is nested
in the last element of the level before it. -/
namespace AbbrevSite.Abbreviation

/-- An element as written, before its repetitions are numbered. -/
structure Element where
  name : List Char
  id : Option (List Char)
  classes : List (List Char)
  attributes : List (List Char × Option (List Char))
  text : Option (List Char)
  /-- The number of repetitions; 0, as when none is given, means one. -/
  count : Nat
deriving DecidableEq, Repr

namespace Element

def named (name : List Char) : Element := ⟨name, none, [], [], none, 0⟩

def isEmpty (e : Element) : Bool :=
  e.name.isEmpty && e.id.isNone && e.classes.isEmpty && e.attributes.isEmpty && e.text.isNone

/-- How often the element stands in its level. -/
def times (e : Element) : Nat := max e.count 1

end Element

/-- The pieces between separators that stand in no bracket. `depth` counts the brackets open. -/
def splitTop (separator : Char) (depth : Nat) : List Char → List (List Char)
  | [] => [[]]
  | c :: cs =>
    let more (depth : Nat) : List (List Char) :=
      match splitTop separator depth cs with
      | [] => [[c]]
      | piece :: rest => (c :: piece) :: rest
    if c = '[' ∨ c = '{' then more (depth + 1)
    else if c = ']' ∨ c = '}' then more (depth - 1)
    else if c = separator ∧ depth = 0 then [] :: splitTop separator depth cs
    else more depth

def isWordChar (c : Char) : Bool :=
  CharClass.isAlphanumeric c || c == '-' || c == '_' || c == '$' || c == ':' || c == '@'

def blankSeparated (cs : List Char) : List (List Char) :=
  (cs.foldr
    (fun c ws =>
      if CharClass.isBlank c then [] :: ws
      else match ws with
        | [] => [[c]]
        | w :: rest => (c :: w) :: rest)
    [[]]).filter (!·.isEmpty)

def trimQuotes (cs : List Char) : List Char :=
  let isQuote (c : Char) : Bool := c == '"' || c == '\''
  ((cs.dropWhile isQuote).reverse.dropWhile isQuote).reverse

def attributeOf (word : List Char) : List Char × Option (List Char) :=
  match word.dropWhile (· != '=') with
  | _ :: value => (word.takeWhile (· != '='), some (trimQuotes value))
  | [] => (word, none)

/-- The number of a row of digits. None for no digit and for a number of more than 64 bits. -/
def countOf? (digits : List Char) : Option Nat :=
  if digits.isEmpty then none
  else
    let n := Digits.value 10 digits
    if n < 0x10000000000000000 then some n else none

/-- What stands before the first `close` and what stands after it. None if there is none. -/
def upTo? (close : Char) (cs : List Char) : Option (List Char × List Char) :=
  match cs.dropWhile (· != close) with
  | [] => none
  | _ :: rest => some (cs.takeWhile (· != close), rest)

theorem length_upTo? {close : Char} {cs text rest : List Char}
    (h : upTo? close cs = some (text, rest)) : rest.length < cs.length := by
  unfold upTo? at h
  split at h
  · simp at h
  · rename_i c r heq
    have := (List.dropWhile_sublist (l := cs) (· != close)).length_le
    rw [heq] at this
    simp only [Option.some.injEq, Prod.mk.injEq] at h
    rw [← h.2]
    simp only [List.length_cons] at this
    omega

/-- Adds to an element what follows its name: an id, classes, attributes, a text and a number of
repetitions, in any order; of two ids, texts or numbers the last counts. The classes and attributes
met so far are in `e` last first. -/
def suffixes? (e : Element) : List Char → Option Element
  | [] => some { e with classes := e.classes.reverse, attributes := e.attributes.reverse }
  | c :: cs =>
    let word := cs.takeWhile isWordChar
    let afterWord := cs.dropWhile isWordChar
    match c with
    | '#' => suffixes? { e with id := some word } afterWord
    | '.' => suffixes? { e with classes := word :: e.classes } afterWord
    | '[' =>
      match _h : upTo? ']' cs with
      | none => none
      | some (text, rest) =>
        let met := (blankSeparated text).map attributeOf
        suffixes? { e with attributes := met.reverse ++ e.attributes } rest
    | '{' =>
      match _h : upTo? '}' cs with
      | none => none
      | some (text, rest) => suffixes? { e with text := some text } rest
    | '*' =>
      match countOf? (cs.takeWhile CharClass.isAsciiDigit) with
      | none => none
      | some count => suffixes? { e with count } (cs.dropWhile CharClass.isAsciiDigit)
    | _ => none
termination_by cs => cs.length
decreasing_by
  all_goals simp only [List.length_cons]
  · have := (List.dropWhile_sublist (l := cs) isWordChar).length_le; omega
  · have := (List.dropWhile_sublist (l := cs) isWordChar).length_le; omega
  · have := length_upTo? ‹_›; omega
  · have := length_upTo? ‹_›; omega
  · have := (List.dropWhile_sublist (l := cs) CharClass.isAsciiDigit).length_le; omega

/-- The element written by a text. None if it is malformed or empty. -/
def element? (cs : List Char) : Option Element := do
  let e ← suffixes? (.named (cs.takeWhile isWordChar)) (cs.dropWhile isWordChar)
  if e.isEmpty then none else some e

def levels? (cs : List Char) : Option (List (List Element)) :=
  (splitTop '>' 0 cs).mapM fun level => (splitTop '+' 0 level).mapM element?

end AbbrevSite.Abbreviation
