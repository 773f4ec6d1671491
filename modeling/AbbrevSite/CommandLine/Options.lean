import AbbrevSite.Decimal.Digits
import AbbrevSite.Text.CharClass

/-! The options of the command line. -/
namespace AbbrevSite.CommandLine

structure Options where
  /-- The document to look into. -/
  file : Option String
  line : Option Nat
  column : Option Nat
  language : Option String
  logLevel : Option String
  /-- Settings that override the user's: a file, or the text of one. -/
  override : Option String
  showTree : Bool
  /-- Whether the last list was incomplete. -/
  incomplete : Bool
  printSettings : Bool
  /-- Where to write the settings. -/
  saveTo : Option String
  initSettings : Bool
  showPaths : Bool
deriving DecidableEq, Repr

/-- The options of a command line without any. -/
def Options.bare : Options :=
  ⟨none, none, none, none, none, none, false, false, false, none, false, false⟩

/-- Whether a run has something to do without a document. -/
def Options.standsAlone (o : Options) : Bool :=
  o.showPaths || o.printSettings || o.initSettings || o.saveTo.isSome

/-- An option that stands by itself. -/
inductive Switch where
  | showTree | incomplete | printSettings | initSettings | showPaths
deriving DecidableEq, Repr

/-- An option with a value. -/
inductive Setting where
  | line | column | language | logLevel | override | saveTo
deriving DecidableEq, Repr

inductive Name where
  | version
  | switch (s : Switch)
  | setting (s : Setting)
deriving DecidableEq, Repr

def Name.ofLong? : String → Option Name
  | "version" => some .version
  | "tree" => some (.switch .showTree)
  | "incomplete" => some (.switch .incomplete)
  | "print-config" => some (.switch .printSettings)
  | "init-config" => some (.switch .initSettings)
  | "paths" => some (.switch .showPaths)
  | "line" => some (.setting .line)
  | "character" => some (.setting .column)
  | "language" => some (.setting .language)
  | "loglevel" => some (.setting .logLevel)
  | "config" => some (.setting .override)
  | "save-config" => some (.setting .saveTo)
  | _ => none

def Name.ofShort? : Char → Option Name
  | 'V' => some .version
  | 'L' => some (.setting .line)
  | 'C' => some (.setting .column)
  | 'l' => some (.setting .logLevel)
  | 'c' => some (.setting .override)
  | _ => none

def maxNumber : Nat := 0xFFFFFFFFFFFFFFFF

/-- A number in decimal digits, which a plus sign may precede. -/
def number? (text : String) : Option Nat :=
  let cs := text.toList
  let digits := if cs.head? = some '+' then cs.drop 1 else cs
  if digits.isEmpty || !digits.all CharClass.isAsciiDigit then none
  else
    let n := Digits.value 10 digits
    if n ≤ maxNumber then some n else none

def path? (text : String) : Option String := if text.isEmpty then none else some text

/-- Fills a slot that may be filled only once. -/
def fill {α : Type} (slot : Option α) (value : Option α) : Option (Option α) :=
  if slot.isSome || value.isNone then none else some value

def raise (flag : Bool) : Option Bool := if flag then none else some true

def Switch.set (o : Options) : Switch → Option Options
  | showTree => (raise o.showTree).map fun b => { o with showTree := b }
  | incomplete => (raise o.incomplete).map fun b => { o with incomplete := b }
  | printSettings => (raise o.printSettings).map fun b => { o with printSettings := b }
  | initSettings => (raise o.initSettings).map fun b => { o with initSettings := b }
  | showPaths => (raise o.showPaths).map fun b => { o with showPaths := b }

/-- The options with a value. None if there was one before or the text does not stand for one. -/
def Setting.set (o : Options) (text : String) : Setting → Option Options
  | line => (fill o.line (number? text)).map fun x => { o with line := x }
  | column => (fill o.column (number? text)).map fun x => { o with column := x }
  | language => (fill o.language (some text)).map fun x => { o with language := x }
  | logLevel => (fill o.logLevel (some text)).map fun x => { o with logLevel := x }
  | override => (fill o.override (some text)).map fun x => { o with override := x }
  | saveTo => (fill o.saveTo (path? text)).map fun x => { o with saveTo := x }

def setFile (o : Options) (text : String) : Option Options :=
  (fill o.file (path? text)).map fun x => { o with file := x }

/-- An argument by its form. -/
inductive Argument where
  /-- Two hyphens: everything after them is a file. -/
  | terminator
  | option (name : Name) (attached : Option String)
  /-- An option nobody knows. -/
  | unknown
  | plain
deriving DecidableEq, Repr

/-- A name, and the value after an equals sign if there is one. -/
def splitValue (cs : List Char) : String × Option String :=
  let name := cs.takeWhile (· != '=')
  match cs.drop name.length with
  | [] => (String.ofList name, none)
  | _ :: value => (String.ofList name, some (String.ofList value))

/-- The value attached to a letter: the rest of the argument, but for an equals sign. -/
def attached? : List Char → Option String
  | [] => none
  | '=' :: value => some (String.ofList value)
  | value => some (String.ofList value)

/-- A hyphen by itself is no option, and neither is a text without one in front. -/
def Argument.ofText (text : String) : Argument :=
  match text.toList with
  | ['-', '-'] => terminator
  | '-' :: '-' :: rest =>
    let (name, value) := splitValue rest
    match Name.ofLong? name with
    | some name => option name value
    | none => unknown
  | '-' :: letter :: rest =>
    match Name.ofShort? letter with
    | some (.setting s) => option (.setting s) (attached? rest)
    | some name => option name none
    | none => unknown
  | _ => plain

/-- What a command line asks for. -/
inductive Invocation where
  | version
  | run (o : Options)
deriving DecidableEq, Repr

def readFiles : Options → List String → Option Options
  | o, [] => some o
  | o, text :: rest => (setFile o text).bind fun o => readFiles o rest

/-- A run needs a document unless it stands alone. -/
def Options.invocation? (o : Options) : Option Invocation :=
  if o.file.isSome || o.standsAlone then some (.run o) else none

/-- Reads arguments one after the other. The version is asked for as soon as its option is met. -/
def readArguments : Options → List String → Option Invocation
  | o, [] => o.invocation?
  | o, text :: rest =>
    match Argument.ofText text with
    | .terminator => (readFiles o rest).bind Options.invocation?
    | .unknown => none
    | .plain => (setFile o text).bind fun o => readArguments o rest
    | .option .version none => some .version
    | .option (.switch s) none => (s.set o).bind fun o => readArguments o rest
    | .option (.setting s) (some value) => (s.set o value).bind fun o => readArguments o rest
    | .option (.setting s) none =>
      match rest with
      | value :: rest =>
        if Argument.ofText value = .plain then (s.set o value).bind fun o => readArguments o rest
        else none
      | [] => none
    | .option _ (some _) => none

/-- What the arguments ask for. None if they break the rules. -/
def read? (arguments : List String) : Option Invocation := readArguments .bare arguments

end AbbrevSite.CommandLine
