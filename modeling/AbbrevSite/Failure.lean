import AbbrevSite.Text.Position

/-! What can go wrong, and the one wording of each case. -/
namespace AbbrevSite

inductive Failure where
  /-- A text that breaks the rules of its grammar at a place. -/
  | malformed (complaint : String) (place : Position)
  | unknownDialect (name : String)
  /-- Settings that cannot be read. -/
  | settings (complaint : String)
  /-- A file that cannot be read or written. -/
  | file (complaint : String)
deriving DecidableEq, Repr

def Failure.message : Failure → String
  | malformed complaint place =>
    s!"Parse error: {complaint} at row {place.line}, column {place.column}"
  | unknownDialect name => s!"Unknown syntax: {name}"
  | settings complaint => s!"Configuration error: {complaint}"
  | file complaint => s!"IO error: {complaint}"

end AbbrevSite
