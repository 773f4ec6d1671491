/-! What the program does with files, and a directory in memory to do it in. -/
namespace AbbrevSite.CommandLine

/-- The files a program sees. Paths are as the user writes them. -/
structure Files (m : Type → Type) where
  /-- The text of a file, none if there is no such file or it holds no text. -/
  read? : String → m (Option String)
  isFile : String → m Bool
  /-- Whether there is a file or a folder at a path. -/
  isThere : String → m Bool
  /-- Writes a text to a file, which need not exist before; whether it could. -/
  write : String → String → m Bool
  /-- Makes a folder and the folders it lies in, where they are missing; whether it could. -/
  makeFolder : String → m Bool

/-- The names that lead from the top of a directory to a file or a folder. -/
abbrev Place := List String

/-- A directory in memory. -/
structure Directory where
  /-- The path of its top. -/
  root : String
  /-- The folders below the top. -/
  folders : List Place
  /-- The files, each with its text if it holds one. -/
  files : List (Place × Option String)

namespace Directory

def empty (root : String) : Directory := ⟨root, [], []⟩

def isFolder (d : Directory) (p : Place) : Bool := p.isEmpty || d.folders.contains p

def isFile (d : Directory) (p : Place) : Bool := (d.files.lookup p).isSome

/-- Where a path leads from a place. Every name but the last is that of a folder. -/
def follow (d : Directory) : Place → List String → Option Place
  | p, [] => some p
  | p, name :: rest =>
    if d.isFolder p then
      match name with
      | "" | "." => d.follow p rest
      | ".." => if p.isEmpty then none else d.follow p.dropLast rest
      | name => d.follow (p ++ [name]) rest
    else none

def names (cs : List Char) : List String :=
  (cs.foldr
    (fun c parts =>
      match c, parts with
      | '/', parts => [] :: parts
      | c, part :: parts => (c :: part) :: parts
      | c, [] => [[c]])
    [[]]).map String.ofList

/-- Where a path leads from the top. Nothing outside the directory can be reached. -/
def resolve (d : Directory) (path : String) : Option Place :=
  let cs := path.toList
  let root := (d.root ++ "/").toList
  if root.isPrefixOf cs then d.follow [] (names (cs.drop root.length))
  else if cs.isEmpty || cs.head? = some '/' then none
  else d.follow [] (names cs)

def read? (d : Directory) (path : String) : Option String :=
  (d.resolve path).bind fun p => (d.files.lookup p).bind id

def put (d : Directory) (p : Place) (text : Option String) : Directory :=
  { d with files := (p, text) :: d.files.filter fun e => e.1 != p }

/-- The directory with a text written to a path. -/
def write? (d : Directory) (path text : String) : Option Directory :=
  (d.resolve path).bind fun p => if d.isFolder p then none else some (d.put p (some text))

/-- The directory with the folders that names lead through from a place. -/
def makeFolders? (d : Directory) : Place → List String → Option Directory
  | _, [] => some d
  | p, name :: rest =>
    let p := p ++ [name]
    if d.isFolder p then d.makeFolders? p rest
    else if d.isFile p then none
    else { d with folders := p :: d.folders }.makeFolders? p rest

/-- The directory with the folders on the way to a path below its top. -/
def makeFolder? (d : Directory) (path : String) : Option Directory :=
  let cs := path.toList
  let root := (d.root ++ "/").toList
  let below := if root.isPrefixOf cs then cs.drop root.length else cs
  d.makeFolders? [] ((names below).filter (· != ""))

def addFolder (d : Directory) (path : String) : Directory := (d.makeFolder? path).getD d

def addFile (d : Directory) (path : String) (text : Option String) : Directory :=
  let place := names path.toList
  ((d.makeFolders? [] place.dropLast).getD d).put place text

def changeWith (f : Directory → Option Directory) : StateM Directory Bool := do
  match f (← get) with
  | some d => do
    set d
    pure true
  | none => pure false

def access : Files (StateM Directory) where
  read? path := do pure ((← get).read? path)
  isFile path := do
    let d ← get
    pure ((d.resolve path).any d.isFile)
  isThere path := do
    let d ← get
    pure ((d.resolve path).any fun p => d.isFile p || d.isFolder p)
  write path text := changeWith fun d => d.write? path text
  makeFolder path := changeWith fun d => d.makeFolder? path

end Directory
end AbbrevSite.CommandLine
