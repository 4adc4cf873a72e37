import Mathlib.Data.List.Infix
import Mathlib.Data.List.TakeWhile
import SafeRefactor.Syntax.Tree

/-!
# Places in a text

The row of a place is the number of line feeds before it, and its column the number of bytes since
the last of them. So a place before the end of a text, or one that is not at the start of its row,
is on a line of the text; later places are on later rows, or further right; and a line whose
indentation is as wide as a column is blank up to that column.
-/

set_option autoImplicit false

namespace SafeRefactor

namespace Text

theorem byteLength_append (xs ys : List Char) :
    byteLength (xs ++ ys) = byteLength xs + byteLength ys := by
  induction xs with
  | nil => simp [byteLength]
  | cons c xs ih => simp [byteLength, ih, Nat.add_assoc]

theorem byteLength_eq_zero_iff (cs : List Char) : byteLength cs = 0 ↔ cs = [] := by
  cases cs with
  | nil => simp [byteLength]
  | cons c cs =>
    have := c.utf8Size_pos
    simp [byteLength, byteWidth]
    omega

theorem utf8ByteSize_ofList (cs : List Char) : (String.ofList cs).utf8ByteSize = byteLength cs := by
  induction cs with
  | nil => rfl
  | cons c cs ih =>
    rw [String.ofList_cons, String.utf8ByteSize_append, String.utf8ByteSize_singleton, ih]
    rfl

/-- Two beginnings of one text with the same number of bytes are the same. -/
theorem prefix_eq_of_byteLength {xs ys cs : List Char} (hx : xs <+: cs) (hy : ys <+: cs)
    (h : byteLength xs = byteLength ys) : xs = ys := by
  have key {us vs : List Char} (hp : us <+: vs) (hb : byteLength us = byteLength vs) : us = vs := by
    obtain ⟨more, rfl⟩ := hp
    rw [byteLength_append] at hb
    have hmore := (byteLength_eq_zero_iff more).mp (by omega)
    simp [hmore]
  rcases List.prefix_or_prefix_of_prefix hx hy with hp | hp
  · exact key hp h
  · exact (key hp h.symm).symm

/-- The part of a text after its last line feed. -/
def lastRow (cs : List Char) : List Char := (cs.reverse.takeWhile (· ≠ '\n')).reverse

theorem newline_notMem_lastRow (cs : List Char) : '\n' ∉ lastRow cs := by
  intro h
  have := List.mem_takeWhile_imp (List.mem_reverse.mp h)
  simp at this

theorem lastRow_append {xs ys : List Char} (h : '\n' ∉ ys) :
    lastRow (xs ++ ys) = lastRow xs ++ ys := by
  have hys : ∀ c ∈ ys.reverse, (decide (c ≠ '\n')) = true := by
    intro c hc
    simpa using fun (heq : c = '\n') => h (heq ▸ List.mem_reverse.mp hc)
  rw [lastRow, List.reverse_append, List.takeWhile_append_of_pos hys]
  simp [lastRow]

theorem lastRow_append_newline (xs : List Char) : lastRow (xs ++ ['\n']) = [] := by simp [lastRow]

/-- A text is a number of whole rows and the beginning of a last one. -/
theorem eq_append_lastRow (cs : List Char) :
    ∃ rows, cs = rows ++ lastRow cs ∧ (rows = [] ∨ ∃ more, rows = more ++ ['\n']) := by
  induction cs using List.reverseRecOn with
  | nil => exact ⟨[], rfl, .inl rfl⟩
  | append_singleton cs c ih =>
    by_cases hc : c = '\n'
    · subst hc
      exact ⟨cs ++ ['\n'], by simp [lastRow_append_newline], .inr ⟨cs, rfl⟩⟩
    · obtain ⟨rows, hcs, hrows⟩ := ih
      have hrow : lastRow (cs ++ [c]) = lastRow cs ++ [c] :=
        lastRow_append (by simpa using Ne.symm hc)
      refine ⟨rows, ?_, hrows⟩
      rw [hrow, ← List.append_assoc, ← hcs]

theorem length_pieces_cons (c : Char) (cs : List Char) : (pieces (c :: cs)).length =
    if c = '\n' then (pieces cs).length + 1 else max 1 (pieces cs).length := by
  rw [pieces]
  split
  · simp
  · cases pieces cs <;> simp

theorem length_pieces_pos {cs : List Char} (h : cs ≠ []) : 0 < (pieces cs).length := by
  cases cs with
  | nil => exact absurd rfl h
  | cons c cs =>
    rw [length_pieces_cons]
    split <;> omega

theorem count_add_length_pieces_le (xs ys : List Char) :
    xs.count '\n' + (pieces ys).length ≤ (pieces (xs ++ ys)).length := by
  induction xs with
  | nil => simp
  | cons c xs ih =>
    rw [List.cons_append, length_pieces_cons]
    by_cases hc : c = '\n'
    · simp [hc]
      omega
    · simp [hc]
      omega

theorem pieces_append_newline (xs ys : List Char) :
    pieces (xs ++ '\n' :: ys) = pieces (xs ++ ['\n']) ++ pieces ys := by
  induction xs with
  | nil => simp [pieces]
  | cons c xs ih =>
    by_cases hc : c = '\n'
    · simp [pieces, hc, ih]
    · have hne : 0 < (pieces (xs ++ ['\n'])).length := length_pieces_pos (by simp)
      cases hp : pieces (xs ++ ['\n']) with
      | nil => simp [hp] at hne
      | cons p ps => simp [pieces, hc, ih, hp]

theorem length_pieces_append_newline (xs : List Char) :
    (pieces (xs ++ ['\n'])).length = xs.count '\n' + 1 := by
  induction xs with
  | nil => rfl
  | cons c xs ih =>
    rw [List.cons_append, length_pieces_cons, ih]
    by_cases hc : c = '\n'
    · simp [hc]
    · simp [hc]

theorem pieces_of_row {row : List Char} (hne : row ≠ []) (hn : '\n' ∉ row) (ys : List Char) :
    ∃ more ps, pieces (row ++ ys) = (row ++ more) :: ps := by
  induction row with
  | nil => exact absurd rfl hne
  | cons c row ih =>
    have hc : c ≠ '\n' := fun h => hn (by simp [h])
    cases row with
    | nil => cases hp : pieces ys <;> simp [pieces, hc, hp]
    | cons d row =>
      obtain ⟨more, ps, hp⟩ := ih (by simp) fun h => hn (by simp [h])
      refine ⟨more, ps, ?_⟩
      rw [List.cons_append, pieces, if_neg hc, hp]
      rfl

/-- What has been read of a row is the beginning of the line with the number of that row. -/
theorem pieces_getElem?_lastRow {xs : List Char} (h : lastRow xs ≠ []) (ys : List Char) :
    ∃ more, (pieces (xs ++ ys))[xs.count '\n']? = some (lastRow xs ++ more) := by
  obtain ⟨more, ps, hp⟩ := pieces_of_row h (newline_notMem_lastRow xs) ys
  have hcount : (lastRow xs).count '\n' = 0 := List.count_eq_zero.mpr (newline_notMem_lastRow xs)
  obtain ⟨rows, hxs, rfl | ⟨before, rfl⟩⟩ := eq_append_lastRow xs
  · rw [List.nil_append] at hxs
    rw [← hxs] at hcount hp ⊢
    exact ⟨more, by simp [hcount, hp]⟩
  · have hrows := pieces_append_newline before (lastRow xs ++ ys)
    have hall : xs ++ ys = before ++ '\n' :: (lastRow xs ++ ys) := by
      nth_rewrite 1 [hxs]
      simp
    have hline : xs.count '\n' = (pieces (before ++ ['\n'])).length := by
      rw [length_pieces_append_newline, hxs, List.count_append, hcount, List.count_append]
      simp
    exact ⟨more, by rw [hall, hrows, hline, hp]; simp⟩

end Text

open Text

namespace Syntax.Point

/-- The place after a text. -/
def after (cs : List Char) : Point := cs.foldl advance origin

theorem after_eq (cs : List Char) :
    after cs = ⟨cs.length, cs.count '\n', byteLength (lastRow cs)⟩ := by
  induction cs using List.reverseRecOn with
  | nil => rfl
  | append_singleton cs c ih =>
    rw [after] at ih ⊢
    rw [List.foldl_append, ih, List.foldl_cons, List.foldl_nil, advance]
    by_cases hc : c = '\n'
    · subst hc
      simp [lastRow_append_newline, byteLength]
    · rw [if_neg hc, lastRow_append (by simpa using Ne.symm hc), byteLength_append]
      simp [hc, byteLength]

/-- The place is one of a text. -/
def LiesIn (p : Point) (cs : List Char) : Prop :=
  p.offset ≤ cs.length ∧ p = after (cs.take p.offset)

instance (p : Point) (cs : List Char) : Decidable (p.LiesIn cs) :=
  inferInstanceAs (Decidable (_ ∧ _))

variable {p q : Point} {cs : List Char}

theorem LiesIn.row_eq (h : p.LiesIn cs) : p.row = (cs.take p.offset).count '\n' := by
  have := congrArg Point.row h.2
  rwa [after_eq] at this

theorem LiesIn.column_eq (h : p.LiesIn cs) :
    p.column = byteLength (lastRow (cs.take p.offset)) := by
  have := congrArg Point.column h.2
  rwa [after_eq] at this

theorem take_eq_append (h : p.offset ≤ q.offset) :
    cs.take q.offset = cs.take p.offset ++ (cs.take q.offset).drop p.offset := by
  have hsplit := List.take_append_drop p.offset (cs.take q.offset)
  rw [List.take_take, Nat.min_eq_left h] at hsplit
  exact hsplit.symm

theorem LiesIn.row_le (hp : p.LiesIn cs) (hq : q.LiesIn cs) (h : p.offset ≤ q.offset) :
    p.row ≤ q.row := by
  rw [hp.row_eq, hq.row_eq, take_eq_append h, List.count_append]
  exact Nat.le_add_right _ _

/-- Between two places of one row there is no line feed. -/
theorem LiesIn.lastRow_eq (hp : p.LiesIn cs) (hq : q.LiesIn cs) (h : p.offset ≤ q.offset)
    (hrow : p.row = q.row) :
    lastRow (cs.take q.offset) =
      lastRow (cs.take p.offset) ++ (cs.take q.offset).drop p.offset := by
  have hcount : ((cs.take q.offset).drop p.offset).count '\n' = 0 := by
    rw [hp.row_eq, hq.row_eq, take_eq_append h, List.count_append] at hrow
    omega
  nth_rewrite 1 [take_eq_append h]
  exact lastRow_append (List.count_eq_zero.mp hcount)

theorem LiesIn.column_lt (hp : p.LiesIn cs) (hq : q.LiesIn cs) (h : p.offset < q.offset)
    (hrow : p.row = q.row) : p.column < q.column := by
  have hlen := hq.1
  have hgap : (cs.take q.offset).drop p.offset ≠ [] := by
    rw [← List.length_pos_iff]
    simp
    omega
  have hpos := mt (byteLength_eq_zero_iff _).mp hgap
  rw [hp.column_eq, hq.column_eq, hp.lastRow_eq hq (Nat.le_of_lt h) hrow, byteLength_append]
  omega

/-- On one row, a character stands in what was read of the row by any later place. -/
theorem LiesIn.mem_lastRow (hp : p.LiesIn cs) (hq : q.LiesIn cs) (h : p.offset < q.offset)
    (hrow : p.row = q.row) {c : Char} (hc : cs[p.offset]? = some c) :
    c ∈ lastRow (cs.take q.offset) := by
  rw [hp.lastRow_eq hq (Nat.le_of_lt h) hrow]
  refine List.mem_append_right _ (List.mem_of_getElem? (i := 0) ?_)
  rw [List.getElem?_drop, List.getElem?_take_of_lt (by simpa using h)]
  exact hc

theorem LiesIn.row_lt_of_offset_lt (hp : p.LiesIn cs) (h : p.offset < cs.length) :
    p.row < (pieces cs).length := by
  have hrest : cs.drop p.offset ≠ [] := by
    rw [← List.length_pos_iff, List.length_drop]
    omega
  have hpos := length_pieces_pos hrest
  have hle := count_add_length_pieces_le (cs.take p.offset) (cs.drop p.offset)
  rw [List.take_append_drop] at hle
  rw [hp.row_eq]
  omega

theorem LiesIn.row_lt_of_column_pos (hp : p.LiesIn cs) (h : 0 < p.column) :
    p.row < (pieces cs).length := by
  have hrow : lastRow (cs.take p.offset) ≠ [] := by
    rw [hp.column_eq] at h
    exact mt (byteLength_eq_zero_iff _).mpr (by omega)
  obtain ⟨more, hline⟩ := pieces_getElem?_lastRow hrow (cs.drop p.offset)
  rw [List.take_append_drop, ← hp.row_eq] at hline
  exact (List.getElem?_eq_some_iff.mp hline).1

end Syntax.Point

namespace Syntax.Tree

theorem length_lines (t : Tree) : t.lines.length = (pieces t.source.toList).length := by
  simp [lines, Text.lines]

theorem linesText_single (t : Tree) {line : Nat} (hpos : 1 ≤ line) (hle : line ≤ t.lines.length) :
    t.linesText line line = t.lineText line := by
  have hlt : line - 1 < t.lines.length := by omega
  have hone : (t.lines.drop (line - 1)).take 1 = [t.lines.getD (line - 1) ""] := by
    rw [List.drop_eq_getElem_cons hlt, List.take_succ_cons, List.take_zero,
      List.getD_eq_getElem?_getD, List.getElem?_eq_getElem hlt, Option.getD_some]
  have hzero : line ≠ 0 := by omega
  simp [linesText, lineText, hzero, hone, Text.join]

theorem prefix_stripTerminator (piece : List Char) : stripTerminator piece <+: piece := by
  unfold stripTerminator
  split
  · next rest h => exact ⟨['\r', '\n'], by rw [← List.reverse_inj]; simp [h]⟩
  · next rest h => exact ⟨['\n'], by rw [← List.reverse_inj]; simp [h]⟩
  · exact List.prefix_rfl

/-- A line whose indentation is as wide as a column is blank up to that column. -/
theorem lastRow_of_indentation (t : Tree) {p : Point} (hp : p.LiesIn t.source.toList)
    (h : (t.indentation (p.row + 1)).utf8ByteSize = p.column) :
    ∀ c ∈ lastRow (t.source.toList.take p.offset), c = ' ' ∨ c = '\t' := by
  by_cases hrow : lastRow (t.source.toList.take p.offset) = []
  · simp [hrow]
  obtain ⟨more, hline⟩ := pieces_getElem?_lastRow hrow (t.source.toList.drop p.offset)
  rw [List.take_append_drop, ← hp.row_eq] at hline
  have htext : (t.lineText (p.row + 1)).toList =
      stripTerminator (lastRow (t.source.toList.take p.offset) ++ more) := by
    simp [lineText, lines, Text.lines, hline]
  have hblank : (t.indentation (p.row + 1)).toList =
      lastRow (t.source.toList.take p.offset) := by
    rw [indentation, utf8ByteSize_ofList, hp.column_eq] at h
    rw [indentation, String.toList_ofList]
    refine prefix_eq_of_byteLength ?_ (List.prefix_append _ more) h
    rw [htext]
    have hleading := List.takeWhile_prefix (fun c => c = ' ' || c = '\t')
      (l := stripTerminator (lastRow (t.source.toList.take p.offset) ++ more))
    exact hleading.trans (prefix_stripTerminator _)
  intro c hc
  rw [← hblank, indentation, String.toList_ofList] at hc
  simpa using List.mem_takeWhile_imp hc

end Syntax.Tree

end SafeRefactor
