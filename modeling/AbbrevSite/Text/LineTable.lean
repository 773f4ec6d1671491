import AbbrevSite.Text.Document

/-! The table of a document: the offset of the first character of each line, made once and searched by halving. -/
namespace AbbrevSite

/-- The last of the `count` places from `first` on whose number is at most `x`, if the numbers ascend and the first one is.
Half of the places are left out at each turn. -/
def searchFrom (numbers : Array Nat) (x first count : Nat) : Nat :=
  if count ≤ 1 then first
  else
    let half := count / 2
    if x < numbers.getD (first + half) 0 then searchFrom numbers x first (count - half)
    else searchFrom numbers x (first + half) (count - half)
termination_by count

namespace Document

def lineTable (d : Document) : Array Nat :=
  (d.lines.foldl (fun (table, offset) l => (table.push offset, offset + (l.size + 1))) (#[], 0)).1

def tableLength (d : Document) : Nat := d.lineTable.getD d.lastLine 0 + d.lineLength d.lastLine

def tableOffsetAt (d : Document) (p : Position) : Nat :=
  let q := d.clamp p
  d.lineTable.getD q.line 0 + q.column

/-- The position of an offset, from the table: on the last line that starts at it or before. -/
def tablePositionAt (d : Document) (offset : Nat) : Position :=
  let offset := min offset d.tableLength
  let line := searchFrom d.lineTable offset 0 d.lineCount
  ⟨line, offset - d.lineTable.getD line 0⟩

end Document
end AbbrevSite
