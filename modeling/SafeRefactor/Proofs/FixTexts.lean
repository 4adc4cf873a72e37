import SafeRefactor.Proofs.IssueContract
import SafeRefactor.Proofs.Rows

/-!
# The texts of docstring and handler fixes

A fix for a missing docstring repeats the rows of the header and adds one, and a fix for a bare
handler changes one row, between the keyword and the colon. Both are read here against the rows of
the source.
-/

set_option autoImplicit false

namespace SafeRefactor

open Syntax Text

namespace Text

theorem takeBytes_eq_some {cs p : List Char} {n : Nat} (h : takeBytes cs n = some p) :
    p <+: cs ∧ byteLength p = n := by
  induction cs generalizing n p with
  | nil =>
    cases n with
    | zero =>
      cases h
      exact ⟨List.prefix_rfl, rfl⟩
    | succ n => cases h
  | cons c cs ih =>
    cases n with
    | zero =>
      cases h
      exact ⟨List.nil_prefix, rfl⟩
    | succ n =>
      rw [takeBytes] at h
      split at h
      · next hwidth =>
        obtain ⟨q, hq, rfl⟩ := Option.map_eq_some_iff.mp h
        obtain ⟨hpre, hbytes⟩ := ih hq
        refine ⟨(List.prefix_cons_inj c).mpr hpre, ?_⟩
        rw [byteLength, hbytes]
        omega
      · cases h

/-- Of two beginnings of one text, the one with fewer bytes is the beginning of the other. -/
theorem prefix_of_byteLength_le {xs ys cs : List Char} (hx : xs <+: cs) (hy : ys <+: cs)
    (h : byteLength xs ≤ byteLength ys) : xs <+: ys := by
  rcases List.prefix_or_prefix_of_prefix hx hy with hp | hp
  · exact hp
  · obtain ⟨more, heq⟩ := hp
    have hbytes : byteLength xs = byteLength ys := by
      rw [← heq, byteLength_append] at h ⊢
      omega
    rw [prefix_eq_of_byteLength hx hy hbytes]

end Text

namespace Syntax.Tree

variable {t : Tree}

theorem getElem?_lines (t : Tree) (i : Nat) :
    t.lines[i]? = (pieces t.source.toList)[i]?.map fun p => String.ofList (stripTerminator p) := by
  simp [lines, Text.lines]

/-- A line is its row up to carriage returns. -/
theorem row_of_line {line : Nat} (hpos : 1 ≤ line) (hle : line ≤ t.lines.length) :
    ∃ tail, (splitAt '\n' t.source.toList)[line - 1]? = some ((t.lineText line).toList ++ tail) ∧
      ∀ c ∈ tail, c = '\r' := by
  have hlt : line - 1 < (pieces t.source.toList).length := by
    rw [t.length_lines] at hle
    omega
  have hpiece := List.getElem?_eq_getElem hlt
  obtain ⟨tail, hrow, htail⟩ := row_of_piece hpiece
  have htext : (t.lineText line).toList = stripTerminator (pieces t.source.toList)[line - 1] := by
    rw [lineText, if_neg (by omega), List.getD_eq_getElem?_getD, getElem?_lines, hpiece]
    simp
  exact ⟨tail, htext ▸ hrow, htail⟩

theorem stripReturns_lines (t : Tree) :
    t.lines.map (fun l => stripReturns l.toList) =
      ((splitAt '\n' t.source.toList).map stripReturns).take t.lines.length := by
  apply List.ext_getElem?
  intro i
  rw [List.getElem?_map, getElem?_lines]
  by_cases hi : i < t.lines.length
  · rw [List.getElem?_take_of_lt hi, List.getElem?_map]
    have hlt : i < (pieces t.source.toList).length := by rwa [t.length_lines] at hi
    obtain ⟨tail, hrow, htail⟩ := row_of_piece (List.getElem?_eq_getElem hlt)
    simp [hrow, List.getElem?_eq_getElem hlt, stripReturns_append htail]
  · have hnone : (pieces t.source.toList)[i]? = none := by
      rw [List.getElem?_eq_none_iff, ← t.length_lines]
      omega
    simp [hnone]
    omega

/-- A line has no line feed in it and nothing that the text has not. -/
theorem mem_line {l : String} (h : l ∈ t.lines) :
    '\n' ∉ l.toList ∧ ∀ c ∈ l.toList, c ∈ t.source.toList := by
  obtain ⟨i, hi⟩ := List.mem_iff_getElem?.mp h
  rw [getElem?_lines] at hi
  obtain ⟨piece, hpiece, rfl⟩ := Option.map_eq_some_iff.mp hi
  obtain ⟨tail, hrow, -⟩ := row_of_piece hpiece
  obtain ⟨hnewline, hsource⟩ := mem_splitAt (List.mem_of_getElem? hrow)
  rw [String.toList_ofList]
  exact ⟨fun hn => hnewline (List.mem_append_left tail hn),
    fun c hc => hsource c (List.mem_append_left tail hc)⟩

theorem mem_lineText (t : Tree) (line : Nat) :
    '\n' ∉ (t.lineText line).toList ∧ ∀ c ∈ (t.lineText line).toList, c ∈ t.source.toList := by
  rw [lineText, List.getD_eq_getElem?_getD]
  split
  · simp
  · cases hl : t.lines[line - 1]? with
    | none => simp
    | some l => exact mem_line (List.mem_of_getElem? hl)

theorem splitAt_linesText {first last : Nat} (hpos : 1 ≤ first) (hle : first ≤ last)
    (hlast : last ≤ t.lines.length) : splitAt '\n' (t.linesText first last).toList =
      ((t.lines.drop (first - 1)).take (last - first + 1)).map String.toList := by
  have hne : (t.lines.drop (first - 1)).take (last - first + 1) ≠ [] := by
    rw [← List.length_pos_iff]
    simp
    omega
  rw [linesText, if_neg (by omega), Text.join, String.toList_intercalate, splitAt_eq_splitOn]
  refine List.splitOn_intercalate '\n' ?_ (by simpa using hne)
  intro l hl
  obtain ⟨s, hs, rfl⟩ := List.mem_map.mp hl
  exact (mem_line (List.mem_of_mem_drop (List.mem_of_mem_take hs))).1

theorem rows_linesText {first last : Nat} (hpos : 1 ≤ first) (hle : first ≤ last)
    (hlast : last ≤ t.lines.length) :
    (splitAt '\n' (t.linesText first last).toList).map stripReturns =
      (((splitAt '\n' t.source.toList).take last).drop (first - 1)).map stripReturns := by
  have hlines := t.stripReturns_lines
  have hsum : first - 1 + (last - first + 1) = last := by omega
  rw [splitAt_linesText hpos hle hlast, List.map_map, List.map_take, List.map_drop]
  change ((t.lines.map fun l => stripReturns l.toList).drop (first - 1)).take (last - first + 1) = _
  rw [hlines, List.take_drop, hsum, List.take_take, Nat.min_eq_left hlast, List.map_drop,
    List.map_take]

theorem mem_linesText {first last : Nat} (hpos : 1 ≤ first) (hle : first ≤ last)
    (hlast : last ≤ t.lines.length) {c : Char} (hc : c ∈ (t.linesText first last).toList)
    (hne : c ≠ '\n') :
    c ∈ t.source.toList := by
  obtain ⟨row, hrow, hmem⟩ := exists_mem_splitAt hc hne
  rw [splitAt_linesText hpos hle hlast] at hrow
  obtain ⟨l, hl, rfl⟩ := List.mem_map.mp hrow
  exact (mem_line (List.mem_of_mem_drop (List.mem_of_mem_take hl))).2 c hmem

/-- The name of a function stands on one row. -/
def NamesOnRow (t : Tree) : Prop := ∀ n ∈ t.root.preorder, n.has .functionDefinition = true →
  ∀ c ∈ n.child? .name, c.start.row = c.stop.row

instance (t : Tree) : Decidable t.NamesOnRow := inferInstanceAs (Decidable (∀ _ ∈ _, _))

theorem Ranged.newline_notMem_text (h : t.Ranged) {n : Node} (hn : n ∈ t.root.preorder)
    (hrow : n.start.row = n.stop.row) : '\n' ∉ (t.text n).toList := by
  have hlast := (h.start_liesIn n hn).lastRow_eq (h.stop_liesIn n hn) (h.start_le_stop n hn) hrow
  rw [text, String.toList_ofList, ← List.drop_take]
  intro hnewline
  apply newline_notMem_lastRow (t.source.toList.take n.stop.offset)
  rw [hlast]
  exact List.mem_append_right _ hnewline

end Syntax.Tree

namespace Detect

variable {t : Tree} {n : Node}

theorem newline_notMem_functionName (h : t.Ranged) (hnames : t.NamesOnRow)
    (hn : n ∈ t.root.preorder)
    (hf : n.has .functionDefinition = true) : '\n' ∉ (functionName t n).toList := by
  unfold functionName
  cases hc : n.child? .name with
  | none => simp
  | some c =>
    exact h.newline_notMem_text (Node.child_mem_preorder hn (Node.child?_mem hc))
      (hnames n hn hf c hc)

theorem return_notMem_functionName (t : Tree) (n : Node) (h : '\r' ∉ t.source.toList) :
    '\r' ∉ (functionName t n).toList := by
  unfold functionName
  cases n.child? .name with
  | none => simp
  | some c =>
    intro hmem
    simp only [Option.map_some, Option.getD_some, Tree.text, String.toList_ofList] at hmem
    exact h (List.mem_of_mem_drop (List.mem_of_mem_take hmem))

/-- A header does not end before it begins. -/
theorem line_le_headerEnd (h : t.Ranged) (hn : n ∈ t.root.preorder) : n.line ≤ headerEnd n := by
  unfold headerEnd
  cases hcolon : headerColon? n with
  | none => exact Nat.le_refl _
  | some c =>
    have hc : c ∈ n.children := List.mem_of_find?_eq_some hcolon
    have hrow := (h.start_liesIn n hn).row_le (h.start_liesIn c (Node.child_mem_preorder hn hc))
      (h.nested n hn c hc).1
    exact Nat.add_le_add_right hrow 1

namespace Docstring

/-- The row that a fix puts below the header of a function: the indentation of the first statement
of the body, and a docstring with the name of the function. -/
def row (t : Tree) (n : Node) : List Char :=
  match bodyStatements n with
  | [] => []
  | first :: _ => (t.indentation first.line ++ placeholder (functionName t n)).toList

theorem fix?_text {header : LineRange} {fix : String} (h : fix? t n header = some fix) :
    fix.toList = (t.linesText header.first header.last).toList ++ '\n' :: row t n := by
  unfold fix? at h
  split at h
  · cases h
  · next first rest hbody =>
    simp only at h
    split at h
    · cases h
      simp [row, hbody]
    · cases h

theorem fix?_ne_empty {header : LineRange} {fix : String} (h : fix? t n header = some fix) :
    fix ≠ "" := by
  rintro rfl
  have htext := fix?_text h
  simp at htext

variable {c : Char}

theorem notMem_placeholder (hc : c = '\n' ∨ c = '\r') {name : String} (h : c ∉ name.toList) :
    c ∉ (placeholder name).toList := by
  have hopen : c ∉ "\"\"\"TODO: document ".toList := by rcases hc with rfl | rfl <;> simp
  have hclose : c ∉ ".\"\"\"".toList := by rcases hc with rfl | rfl <;> simp
  unfold placeholder
  rw [String.toList_append, String.toList_append]
  simp only [List.mem_append, not_or]
  exact ⟨⟨hopen, h⟩, hclose⟩

/-- The new row holds a line feed or a carriage return only if the name of the function does. -/
theorem notMem_row (hc : c = '\n' ∨ c = '\r') (h : c ∉ (functionName t n).toList) :
    c ∉ row t n := by
  cases hbody : bodyStatements n with
  | nil => simp [row, hbody]
  | cons first rest =>
    have hblank : c ∉ (t.indentation first.line).toList := by
      rw [Tree.indentation, String.toList_ofList]
      intro hmem
      have hspace := List.mem_takeWhile_imp hmem
      rcases hc with rfl | rfl <;> simp at hspace
    simp only [row, hbody, String.toList_append, List.mem_append, not_or]
    exact ⟨hblank, notMem_placeholder hc h⟩

/-- The rows of a fix: those of the header, and the new one. -/
theorem rows_fix? (h : t.Ranged) (hnames : t.NamesOnRow) (hn : n ∈ t.root.preorder)
    (hf : n.has .functionDefinition = true) {fix : String}
    (hfix : fix? t n ⟨n.line, headerEnd n⟩ = some fix) :
    (splitAt '\n' fix.toList).map stripReturns =
      (((splitAt '\n' t.source.toList).take (headerEnd n)).drop (n.line - 1) ++ [row t n]).map
      stripReturns := by
  have hrow := notMem_row (.inl rfl) (newline_notMem_functionName h hnames hn hf)
  rw [fix?_text hfix, splitAt_append, splitAt_of_notMem hrow, List.map_append,
    Tree.rows_linesText n.line_pos (line_le_headerEnd h hn) (headerEnd_le h hn hf), List.map_append]

theorem return_notMem_fix? (h : t.Ranged) (hsource : '\r' ∉ t.source.toList)
    (hn : n ∈ t.root.preorder) (hf : n.has .functionDefinition = true) {fix : String}
    (hfix : fix? t n ⟨n.line, headerEnd n⟩ = some fix) :
    '\r' ∉ fix.toList := by
  have hrow := notMem_row (.inr rfl) (return_notMem_functionName t n hsource)
  rw [fix?_text hfix]
  intro hreturn
  rcases List.mem_append.mp hreturn with hheader | hrest
  · exact hsource (Tree.mem_linesText n.line_pos (line_le_headerEnd h hn)
      (headerEnd_le h hn hf) hheader
      (by decide))
  · exact hrow ((List.mem_cons.mp hrest).resolve_left (by decide))

/-- The range of an issue is the header. -/
theorem issue_range (h : t.Ranged) (hn : n ∈ t.root.preorder) :
    (issue t n).range = ⟨n.line, headerEnd n⟩ := by
  simp [issue, LineRange.of, Nat.max_eq_left (line_le_headerEnd h hn)]

theorem issue_fix (h : t.Ranged) (hn : n ∈ t.root.preorder) :
    (issue t n).fix = fix? t n ⟨n.line, headerEnd n⟩ := by
  rw [← issue_range h hn]
  rfl

end Docstring

namespace BareExcept

/-- From the keyword of a clause up to its colon, in bytes, the row reads `except Exception`, and
the rest of it is as before. -/
def Narrows (n : Node) (row new : List Char) : Prop :=
  ∃ colon before middle after, headerColon? n = some colon ∧ colon.line = n.line ∧
    row = before ++ middle ++ after ∧ byteLength before = n.start.column ∧
    byteLength (before ++ middle) = colon.start.column ∧
      new = before ++ "except Exception".toList ++ after

theorem Narrows.notMem {row new : List Char} {c : Char} (h : Narrows n row new)
    (hc : c = '\n' ∨ c = '\r') (hrow : c ∉ row) : c ∉ new := by
  obtain ⟨colon, before, middle, after, -, -, rfl, -, -, rfl⟩ := h
  have hkeyword : c ∉ "except Exception".toList := by rcases hc with rfl | rfl <;> simp
  simp only [List.mem_append, not_or] at hrow ⊢
  exact ⟨⟨hrow.1.1, hkeyword⟩, hrow.2⟩

theorem column_le (h : t.Ranged) (hn : n ∈ t.root.preorder) {c : Node} (hc : c ∈ n.children)
    (hrow : c.start.row = n.start.row) : n.start.column ≤ c.start.column := by
  have hstart := h.start_liesIn n hn
  have hchild := h.start_liesIn c (Node.child_mem_preorder hn hc)
  rcases Nat.lt_or_eq_of_le (h.nested n hn c hc).1 with hlt | heq
  · exact Nat.le_of_lt (hstart.column_lt hchild hlt hrow.symm)
  · rw [hstart.column_eq, hchild.column_eq, heq]

theorem fix?_narrows (h : t.Ranged) (hn : n ∈ t.root.preorder) {fix : String}
    (hfix : fix? t n = some fix)
    (tail : List Char) : Narrows n ((t.lineText n.line).toList ++ tail) (fix.toList ++ tail) := by
  simp only [fix?, Option.bind_eq_bind, Option.bind_eq_some_iff] at hfix
  obtain ⟨colon, hcolon, hfix⟩ := hfix
  split at hfix
  · cases hfix
  · next hrow =>
    simp only [Option.bind_eq_some_iff, linePrefix?, lineSuffix?, Option.map_eq_some_iff] at hfix
    obtain ⟨_, ⟨before, hbefore, rfl⟩, _, ⟨upTo, hupTo, rfl⟩, hfix⟩ := hfix
    cases hfix
    rw [ne_eq, not_not] at hrow
    have hcolumn := column_le h hn (List.mem_of_find?_eq_some hcolon) hrow
    obtain ⟨hbefore, hstart⟩ := takeBytes_eq_some hbefore
    obtain ⟨hupTo, hend⟩ := takeBytes_eq_some hupTo
    obtain ⟨middle, rfl⟩ := prefix_of_byteLength_le hbefore hupTo (by omega)
    obtain ⟨after, hline⟩ := hupTo
    refine ⟨colon, before, middle, after ++ tail, hcolon, congrArg (· + 1) hrow, ?_, hstart,
      hend, ?_⟩
    · rw [← hline, List.append_assoc]
    · simp [← hline]

end BareExcept

end Detect

end SafeRefactor
