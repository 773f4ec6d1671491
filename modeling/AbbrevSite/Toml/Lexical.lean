import AbbrevSite.Decimal.Digits
import AbbrevSite.Text.CharClass

/-! The words of a settings file: blanks, comments, keys and strings. Each reader takes the text from
where it is and gives what it read with the rest of the text, or nothing if the text is malformed. -/
namespace AbbrevSite.Toml

def isSpace (c : Char) : Bool := c == ' ' || c == '\t'

/-- The characters that may stand in a comment and, but for the delimiters, in a string. -/
def isPlain (c : Char) : Bool := c == '\t' || (0x20 ≤ c.toNat && c.toNat != 0x7F)

def isBareKeyChar (c : Char) : Bool :=
  CharClass.isAsciiLetter c || CharClass.isAsciiDigit c || c == '_' || c == '-'

def skipSpaces (cs : List Char) : List Char := cs.dropWhile isSpace

def afterNewline? : List Char → Option (List Char)
  | '\n' :: rest => some rest
  | '\r' :: '\n' :: rest => some rest
  | _ => none

def skipComment : List Char → List Char
  | '#' :: rest => rest.dropWhile isPlain
  | cs => cs

/-- The text after the end of the line, if only blanks and a comment are left on it. -/
def afterLine? (cs : List Char) : Option (List Char) :=
  match skipComment (skipSpaces cs) with
  | [] => some []
  | cs => afterNewline? cs

/-- The text after blanks, newlines and comments. -/
def skipLayout : List Char → List Char
  | [] => []
  | '\r' :: '\n' :: rest => skipLayout rest
  | '#' :: rest => skipLayout (rest.dropWhile isPlain)
  | c :: rest => if isSpace c || c == '\n' then skipLayout rest else c :: rest
termination_by cs => cs.length
decreasing_by
  · simp only [List.length_cons]; omega
  · have := (List.dropWhile_sublist (l := rest) isPlain).length_le
    simp only [List.length_cons]; omega
  · simp

/-- The character that exactly `n` hexadecimal digits name, and what follows them. -/
def charOfHex? (n : Nat) (cs : List Char) : Option (Char × List Char) :=
  let digits := cs.take n
  if digits.length = n ∧ digits.all CharClass.isHexDigit then
    let code := Digits.value 16 digits
    if code < 0xD800 ∨ (0xDFFF < code ∧ code < 0x110000) then some (Char.ofNat code, cs.drop n)
    else none
  else none

theorem length_charOfHex? {n : Nat} {cs rest : List Char} {c : Char}
    (h : charOfHex? n cs = some (c, rest)) : rest.length ≤ cs.length := by
  unfold charOfHex? at h
  simp only at h
  split at h
  · split at h
    · rw [← (Prod.mk.inj (Option.some.inj h)).2, List.length_drop]; omega
    · simp at h
  · simp at h

/-- The character a backslash stands for together with what follows it. -/
def escape? : List Char → Option (Char × List Char)
  | 'b' :: rest => some ('\x08', rest)
  | 't' :: rest => some ('\t', rest)
  | 'n' :: rest => some ('\n', rest)
  | 'f' :: rest => some ('\x0c', rest)
  | 'r' :: rest => some ('\r', rest)
  | '"' :: rest => some ('"', rest)
  | '\\' :: rest => some ('\\', rest)
  | 'u' :: rest => charOfHex? 4 rest
  | 'U' :: rest => charOfHex? 8 rest
  | _ => none

theorem length_escape? {cs rest : List Char} {c : Char} (h : escape? cs = some (c, rest)) :
    rest.length < cs.length := by
  unfold escape? at h
  split at h
  case h_8 => exact Nat.lt_succ_of_le (length_charOfHex? h)
  case h_9 => exact Nat.lt_succ_of_le (length_charOfHex? h)
  case h_10 => simp at h
  all_goals
    rw [← (Prod.mk.inj (Option.some.inj h)).2]
    exact Nat.lt_succ_self _

/-- A string in double quotes after its opening quote; `acc` holds what was read, last first. -/
def basicString? (acc : List Char) : List Char → Option (List Char × List Char)
  | [] => none
  | c :: rest =>
    if c = '"' then some (acc.reverse, rest)
    else if c = '\\' then
      match _h : escape? rest with
      | none => none
      | some (e, rest') => basicString? (e :: acc) rest'
    else if isPlain c then basicString? (c :: acc) rest
    else none
termination_by cs => cs.length
decreasing_by
  · have := length_escape? ‹_›; simp only [List.length_cons]; omega
  · simp

/-- A string in single quotes after its opening quote. -/
def literalString? (cs : List Char) : Option (List Char × List Char) :=
  match cs.dropWhile fun c => isPlain c && c != '\'' with
  | '\'' :: rest => some (cs.takeWhile fun c => isPlain c && c != '\'', rest)
  | _ => none

/-- The text after the blanks and newlines it starts with. -/
def skipEmptyLines : List Char → List Char
  | [] => []
  | '\r' :: '\n' :: rest => skipEmptyLines rest
  | c :: rest => if isSpace c || c == '\n' then skipEmptyLines rest else c :: rest

/-- The text after a backslash that ends a line, and after the blanks and newlines that follow. -/
def afterLineBreak? (cs : List Char) : Option (List Char) :=
  (afterNewline? (skipSpaces cs)).map skipEmptyLines

theorem length_afterNewline? {cs rest : List Char} (h : afterNewline? cs = some rest) :
    rest.length < cs.length := by
  unfold afterNewline? at h
  split at h
  · simp only [Option.some.injEq] at h; subst h; simp
  · simp only [Option.some.injEq] at h; subst h; simp only [List.length_cons]; omega
  · simp at h

theorem length_skipEmptyLines (cs : List Char) : (skipEmptyLines cs).length ≤ cs.length := by
  fun_induction skipEmptyLines cs with
  | case1 => simp
  | case2 rest ih => simp only [List.length_cons]; omega
  | case3 c rest _ _ ih => simp only [List.length_cons]; omega
  | case4 => simp

theorem length_afterLineBreak? {cs rest : List Char} (h : afterLineBreak? cs = some rest) :
    rest.length < cs.length := by
  obtain ⟨r, hr, rfl⟩ := Option.map_eq_some_iff.1 h
  have h1 := length_afterNewline? hr
  have h2 := length_skipEmptyLines r
  have h3 := (List.dropWhile_sublist (l := cs) isSpace).length_le
  simp only [skipSpaces] at h1
  omega

/-- A string over several lines after its opening quotes; `acc` holds what was read, last first. It may
end in two quotes of its own. With `escapes`, a backslash stands for a character, and at the end of a
line for nothing, the blanks and newlines after it included. -/
def longString? (quote : Char) (escapes : Bool) (acc : List Char) :
    List Char → Option (List Char × List Char)
  | [] => none
  | c :: rest =>
    if c = quote then
      let quotes := (rest.takeWhile (· == quote)).length
      if 2 ≤ quotes then
        let kept := min (quotes - 2) 2
        some ((List.replicate kept quote ++ acc).reverse, rest.drop (kept + 2))
      else longString? quote escapes (c :: acc) rest
    else if c = '\n' then longString? quote escapes ('\n' :: acc) rest
    else if c = '\r' then
      match rest with
      | '\n' :: rest => longString? quote escapes ('\n' :: acc) rest
      | _ => none
    else if c = '\\' ∧ escapes then
      match _h : afterLineBreak? rest with
      | some rest => longString? quote escapes acc rest
      | none =>
        match _h : escape? rest with
        | none => none
        | some (e, rest) => longString? quote escapes (e :: acc) rest
    else if isPlain c then longString? quote escapes (c :: acc) rest
    else none
termination_by cs => cs.length
decreasing_by
  all_goals simp only [List.length_cons]
  · omega
  · omega
  · omega
  · have := length_afterLineBreak? ‹_›; omega
  · have := length_escape? ‹_›; omega
  · omega

def dropNewline (cs : List Char) : List Char := (afterNewline? cs).getD cs

def string? : List Char → Option (List Char × List Char)
  | '"' :: '"' :: '"' :: rest => longString? '"' true [] (dropNewline rest)
  | '"' :: rest => basicString? [] rest
  | '\'' :: '\'' :: '\'' :: rest => longString? '\'' false [] (dropNewline rest)
  | '\'' :: rest => literalString? rest
  | _ => none

/-- One part of a key: a bare word or a string on one line. -/
def simpleKey? (cs : List Char) : Option (String × List Char) :=
  match cs with
  | '"' :: rest => (basicString? [] rest).map fun (s, rest) => (String.ofList s, rest)
  | '\'' :: rest => (literalString? rest).map fun (s, rest) => (String.ofList s, rest)
  | cs =>
    let word := cs.takeWhile isBareKeyChar
    if word.isEmpty then none else some (String.ofList word, cs.dropWhile isBareKeyChar)

/-- The deepest nesting of keys and of values is one less than this. -/
def maxNesting : Nat := 80

/-- The parts of a key, of which there are at most `fuel`, with points between them. -/
def keyParts? : (fuel : Nat) → List Char → Option (List String × List Char)
  | 0, _ => none
  | fuel + 1, cs => do
    let (part, rest) ← simpleKey? (skipSpaces cs)
    match skipSpaces rest with
    | '.' :: rest => do
      let (parts, rest) ← keyParts? fuel rest
      some (part :: parts, rest)
    | rest => some ([part], rest)

/-- A key and the rest after the blanks that follow it. -/
def key? (cs : List Char) : Option (List String × List Char) := keyParts? (maxNesting - 1) cs

end AbbrevSite.Toml
