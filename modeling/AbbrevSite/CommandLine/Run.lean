import AbbrevSite.CommandLine.Files
import AbbrevSite.CommandLine.Report
import AbbrevSite.Settings.Decode
import AbbrevSite.Settings.Encode

/-! A run of the program, over any files. -/
namespace AbbrevSite.CommandLine

/-- How a run ends. -/
inductive Outcome where
  /-- With a text on standard output. -/
  | done (text : String)
  | failed (f : Failure)
  /-- The command line breaks the rules. -/
  | misused
deriving DecidableEq, Repr

def Outcome.exitCode : Outcome → Nat
  | done _ => 0
  | failed _ => 1
  | misused => 2

def Outcome.output : Outcome → String
  | done text => text
  | _ => ""

def versionText : String := "emmetgate 0.1.0\n"

def settingsFile (folder : String) : String := folder ++ "/config.toml"

def describePaths (folder : Option String) : String :=
  "paths:\n  config                " ++ (folder.map settingsFile).getD "(not found)" ++ "\n"

section

variable {m : Type → Type} [Monad m] (format : Toml.Format) (files : Files m)

def readText (path : String) : ExceptT Failure m String := do
  match ← files.read? path with
  | some text => pure text
  | none => throw (.file ("cannot read " ++ path))

/-- Writes the template to the settings file unless there is one, and gives its path. -/
def initSettings (folder : Option String) : ExceptT Failure m String := do
  match folder with
  | none => throw (.settings "no folder for settings")
  | some folder =>
    let path := settingsFile folder
    if !(← files.makeFolder folder) then throw (.file ("cannot make " ++ folder))
    if !(← files.isThere path) then
      if !(← files.write path Settings.template) then throw (.file ("cannot write " ++ path))
    pure path

def loadFrom (path : String) : ExceptT Failure m Settings := do
  let text ← readText files path
  Settings.parseWith format text

def userSettings (folder : Option String) : ExceptT Failure m Settings := do
  match folder with
  | none => pure .standard
  | some folder =>
    let path := settingsFile folder
    if ← files.isThere path then loadFrom format files path else pure .standard

def overrideSettings (override : String) : ExceptT Failure m Settings := do
  let text ← if ← files.isFile override then readText files override else pure override
  Settings.parseWith format text

def loadSettings (folder : Option String) (override : Option String) :
    ExceptT Failure m Settings := do
  let s ← userSettings format files folder
  match override with
  | none => pure s
  | some override => do
    let other ← overrideSettings format files override
    pure (s.merge other)

def saveTo (path : String) (s : Settings) : ExceptT Failure m Unit := do
  let text ← s.print format
  if !(← files.write path text) then throw (.file ("cannot write " ++ path))

/-- Looks into the document of the options. -/
def inspect (o : Options) (s : Settings) : ExceptT Failure m String := do
  match o.file with
  | none => throw (.settings "no document")
  | some path =>
    let text ← readText files path
    pure (report o s (.ofText (o.language.getD (languageOf path)) text))

/-- Does what the options ask for, one thing only: the paths, the settings file, saving, printing, and
last the document. -/
def perform (folder : Option String) (o : Options) : ExceptT Failure m String := do
  if o.showPaths then pure (describePaths folder)
  else if o.initSettings then
    let path ← initSettings files folder
    pure (path ++ "\n")
  else
    let s ← loadSettings format files folder o.override
    match o.saveTo with
    | some path => do
      saveTo format files path s
      pure ""
    | none => if o.printSettings then s.print format else inspect files o s

/-- Runs the program with arguments, the settings being kept in a folder in the format of settings files. -/
def run (folder : Option String) (arguments : List String) : m Outcome := do
  match read? arguments with
  | none => pure .misused
  | some .version => pure (.done versionText)
  | some (.run o) =>
    match ← (perform .plain files folder o).run with
    | .ok text => pure (.done text)
    | .error f => pure (.failed f)

end
end AbbrevSite.CommandLine
