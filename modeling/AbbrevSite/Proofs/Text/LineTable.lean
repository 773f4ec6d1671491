import AbbrevSite.Proofs.Text.Offsets
import AbbrevSite.Text.LineTable

/-! The table of a document says the same as a walk through its lines. -/
namespace AbbrevSite

section SearchFrom

variable {numbers : Array Nat} {x first count n : Nat}

lemma searchFrom_spec (hmono : ∀ i j, i < j → j < n → numbers.getD i 0 < numbers.getD j 0) (hcount : 0 < count)
    (hn : first + count ≤ n) (hfirst : numbers.getD first 0 ≤ x)
    (hrest : ∀ i, first + count ≤ i → i < n → x < numbers.getD i 0) :
    searchFrom numbers x first count < n ∧ numbers.getD (searchFrom numbers x first count) 0 ≤ x ∧
      ∀ i, searchFrom numbers x first count < i → i < n → x < numbers.getD i 0 := by
  fun_induction searchFrom numbers x first count with
  | case1 first count hle =>
    refine ⟨by omega, hfirst, fun i hi hin => hrest i ?_ hin⟩
    omega
  | case2 first count hle half hx ih =>
    have hhalf : half = count / 2 := rfl
    refine ih (by omega) (by omega) hfirst fun i hi hin => ?_
    rcases Nat.lt_or_eq_of_le (show first + half ≤ i by omega) with hlt | rfl
    · exact hx.trans (hmono _ i hlt hin)
    · exact hx
  | case3 first count hle half hx ih =>
    have hhalf : half = count / 2 := rfl
    refine ih (by omega) (by omega) (Nat.not_lt.1 hx) fun i hi hin => hrest i ?_ hin
    omega

end SearchFrom

namespace Document

variable {d : Document} {p : Position} {n : Nat}

lemma foldl_take_lines (h : n ≤ d.lineCount) :
    (d.lines.toList.take n).foldl (fun (table, offset) l => (table.push offset, offset + (l.size + 1))) (#[], 0) =
      (((List.range n).map d.lineStart).toArray, d.lineStart n) := by
  induction n with
  | zero => rfl
  | succ n ih =>
    rw [List.take_add_one, toList_getElem? h, List.foldl_append, ih (Nat.le_of_lt h), lineStart_succ h, List.range_succ]
    simp [lineLength]

lemma lineTable_eq (d : Document) : d.lineTable = ((List.range d.lineCount).map d.lineStart).toArray := by
  have htake : d.lines.toList.take d.lineCount = d.lines.toList := List.take_of_length_le (by simp [lineCount])
  rw [lineTable, ← Array.foldl_toList, ← htake, foldl_take_lines (Nat.le_refl _)]

lemma getD_lineTable (h : n < d.lineCount) : d.lineTable.getD n 0 = d.lineStart n := by
  simp [lineTable_eq, h]

theorem tableLength_eq (d : Document) : d.tableLength = d.length := by
  rw [tableLength, getD_lineTable d.lastLine_lt, length]

theorem tableOffsetAt_eq (d : Document) (p : Position) : d.tableOffsetAt p = d.offsetAt p := by
  rw [tableOffsetAt, getD_lineTable (d.clamp_valid p).1, offsetAt]

lemma positionAt_of_lineStart {l : Nat} (hn : n ≤ d.length) (hl : l < d.lineCount) (hstart : d.lineStart l ≤ n)
    (hnext : ∀ i, l < i → i < d.lineCount → n < d.lineStart i) : d.positionAt n = ⟨l, n - d.lineStart l⟩ := by
  have hcolumn : n - d.lineStart l ≤ d.lineLength l := by
    by_cases hlast : l + 1 < d.lineCount
    · have hlt := hnext (l + 1) (Nat.lt_succ_self l) hlast
      rw [lineStart_succ hl] at hlt
      omega
    · have hl' : d.lastLine = l := by
        rw [lastLine]
        omega
      rw [length, hl'] at hn
      omega
  have hvalid : d.Valid ⟨l, n - d.lineStart l⟩ := ⟨hl, hcolumn⟩
  have hoffset : d.offsetAt ⟨l, n - d.lineStart l⟩ = n := by
    rw [offsetAt_of_valid hvalid]
    exact Nat.add_sub_cancel' hstart
  rw [← positionAt_offsetAt hvalid, hoffset]

/-- Searching the table comes to the place that the walk through the lines comes to. -/
theorem tablePositionAt_eq (d : Document) (n : Nat) : d.tablePositionAt n = d.positionAt n := by
  have hmin : d.positionAt n = d.positionAt (min n d.length) := by
    rw [positionAt, positionAt, Nat.min_assoc, Nat.min_self]
  have hmono : ∀ i j, i < j → j < d.lineCount → d.lineTable.getD i 0 < d.lineTable.getD j 0 := by
    intro i j hij hj
    rw [getD_lineTable (hij.trans hj), getD_lineTable hj]
    exact (Nat.le_add_right _ _).trans_lt (lineStart_lt hij (Nat.le_of_lt hj))
  have hfirst : d.lineTable.getD 0 0 ≤ min n d.length := by
    rw [getD_lineTable d.lines_pos, lineStart_zero]
    exact Nat.zero_le _
  have hcount : 0 < d.lineCount := d.lines_pos
  have hwhole : 0 + d.lineCount ≤ d.lineCount := by omega
  obtain ⟨hl, hstart, hnext⟩ := searchFrom_spec hmono hcount hwhole hfirst fun i hi hin => absurd hin (by omega)
  rw [getD_lineTable hl] at hstart
  rw [tablePositionAt, tableLength_eq, hmin, getD_lineTable hl]
  refine (positionAt_of_lineStart (Nat.min_le_right _ _) hl hstart fun i hi hin => ?_).symm
  rw [← getD_lineTable hin]
  exact hnext i hi hin

end Document
end AbbrevSite
