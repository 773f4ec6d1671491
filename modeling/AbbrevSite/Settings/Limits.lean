/-! Bounds on how much of a document is looked at. -/
namespace AbbrevSite

structure Limits where
  /-- Stylesheets of more lines are read only around the cursor. -/
  partialParseLines : Nat
  /-- Lines the search for an opening brace may go back. -/
  lookbackLines : Nat
  /-- Characters the search for an opening brace may go back. -/
  lookbackChars : Nat
  /-- Characters of markup text looked at before an abbreviation. -/
  backtrackChars : Nat
deriving DecidableEq, Repr

def Limits.standard : Limits := ⟨1000, 100, 5000, 500⟩

end AbbrevSite
