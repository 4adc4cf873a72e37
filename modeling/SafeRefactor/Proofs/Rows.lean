import Mathlib.Data.List.DropRight
import Mathlib.Data.List.Forall2
import SafeRefactor.Proofs.Splicing

/-!
# Rows of a text

The rows of a text stand between its line feeds, so that there is always one more row than line
feeds. A merge of edits puts the rows of the replacements in the place of the rows of their ranges.
Carriage returns at the ends of rows come and go with the terminators; all else is kept.
-/

set_option autoImplicit false

namespace SafeRefactor

namespace Text

variable {sep : Char} {row cs : List Char}

theorem splitAt_eq_splitOn (sep : Char) (cs : List Char) : splitAt sep cs = cs.splitOn sep := by
  induction cs with
  | nil => rfl
  | cons c cs ih =>
    rw [splitAt, List.splitOn_cons_eq_if_modifyHead, ih]
    by_cases hc : c = sep
    · simp [hc]
    · cases hcs : cs.splitOn sep with
      | nil => exact absurd hcs (List.splitOn_ne_nil sep cs)
      | cons p ps => simp [hc]

theorem splitAt_ne_nil (sep : Char) (cs : List Char) : splitAt sep cs ≠ [] := by
  rw [splitAt_eq_splitOn]
  exact List.splitOn_ne_nil sep cs

theorem splitAt_append (sep : Char) (xs ys : List Char) :
    splitAt sep (xs ++ sep :: ys) = splitAt sep xs ++ splitAt sep ys := by
  simp only [splitAt_eq_splitOn, List.splitOn_append_cons_self]

theorem splitAt_of_notMem (h : sep ∉ row) : splitAt sep row = [row] := by
  rw [splitAt_eq_splitOn, List.splitOn_eq_singleton h]

/-- A row has no separator in it and nothing that the text has not. -/
theorem mem_splitAt (h : row ∈ splitAt sep cs) : sep ∉ row ∧ ∀ c ∈ row, c ∈ cs := by
  induction cs generalizing row with
  | nil =>
    obtain rfl := List.mem_singleton.mp h
    simp
  | cons c cs ih =>
    rw [splitAt] at h
    split at h
    · rcases List.mem_cons.mp h with rfl | h
      · simp
      · exact ⟨(ih h).1, fun d hd => List.mem_cons_of_mem c ((ih h).2 d hd)⟩
    · next hc =>
      cases hcs : splitAt sep cs with
      | nil => exact absurd hcs (splitAt_ne_nil sep cs)
      | cons p ps =>
        rw [hcs] at h ih
        rcases List.mem_cons.mp h with rfl | h
        · obtain ⟨hsep, hmem⟩ := ih (List.mem_cons_self ..)
          refine ⟨by simp [Ne.symm hc, hsep], fun d hd => ?_⟩
          rcases List.mem_cons.mp hd with rfl | hd
          · exact List.mem_cons_self ..
          · exact List.mem_cons_of_mem c (hmem d hd)
        · obtain ⟨hsep, hmem⟩ := ih (List.mem_cons_of_mem p h)
          exact ⟨hsep, fun d hd => List.mem_cons_of_mem c (hmem d hd)⟩

theorem exists_mem_splitAt {c : Char} (hc : c ∈ cs) (hne : c ≠ sep) :
    ∃ row ∈ splitAt sep cs, c ∈ row := by
  induction cs with
  | nil => simp at hc
  | cons d cs ih =>
    rw [splitAt]
    split
    · next hd =>
      obtain ⟨row, hrow, hmem⟩ := ih ((List.mem_cons.mp hc).resolve_left fun h => hne (h.trans hd))
      exact ⟨row, List.mem_cons_of_mem _ hrow, hmem⟩
    · cases hcs : splitAt sep cs with
      | nil => exact absurd hcs (splitAt_ne_nil sep cs)
      | cons p ps =>
        rcases List.mem_cons.mp hc with rfl | hc
        · exact ⟨c :: p, by simp, by simp⟩
        · obtain ⟨row, hrow, hmem⟩ := ih hc
          rw [hcs] at hrow
          rcases List.mem_cons.mp hrow with rfl | hrow
          · exact ⟨d :: row, by simp, by simp [hmem]⟩
          · exact ⟨row, by simp [hrow], hmem⟩

theorem splitAt_flatten {rows : List (List Char)} (h : ∀ row ∈ rows, sep ∉ row) (cs : List Char) :
    splitAt sep ((rows.map (· ++ [sep])).flatten ++ cs) = rows ++ splitAt sep cs := by
  induction rows with
  | nil => rfl
  | cons row rows ih =>
    have hrest := ih fun r hr => h r (by simp [hr])
    simp only [List.map_cons, List.flatten_cons, List.append_assoc, List.cons_append,
      List.nil_append]
    rw [splitAt_append, splitAt_of_notMem (h row (by simp)), hrest]
    rfl

/-- A piece is a row with its line feed. The last row has none, and is no piece if it is empty. -/
theorem pieces_rows (cs : List Char) : ∃ front last, splitAt '\n' cs = front ++ [last] ∧
    pieces cs = front.map (· ++ ['\n']) ++ if last = [] then [] else [last] := by
  induction cs with
  | nil => exact ⟨[], [], rfl, rfl⟩
  | cons c cs ih =>
    obtain ⟨front, last, hrows, hpieces⟩ := ih
    by_cases hc : c = '\n'
    · exact ⟨[] :: front, last, by simp [splitAt, hc, hrows], by simp [pieces, hc, hpieces]⟩
    · cases front with
      | nil =>
        refine ⟨[], c :: last, by simp [splitAt, hc, hrows], ?_⟩
        by_cases hlast : last = [] <;> simp [pieces, hc, hpieces, hlast]
      | cons row front =>
        exact ⟨(c :: row) :: front, last, by simp [splitAt, hc, hrows], by
          simp [pieces, hc, hpieces]⟩

theorem length_pieces_le (cs : List Char) : (pieces cs).length ≤ (splitAt '\n' cs).length := by
  obtain ⟨front, last, hrows, hpieces⟩ := pieces_rows cs
  rw [hrows, hpieces]
  split <;> simp

theorem take_pieces {n : Nat} (h : n < (splitAt '\n' cs).length) :
    (pieces cs).take n = ((splitAt '\n' cs).take n).map (· ++ ['\n']) := by
  obtain ⟨front, last, hrows, hpieces⟩ := pieces_rows cs
  have hn : n ≤ front.length := by simpa [hrows, Nat.lt_succ_iff] using h
  rw [hrows, hpieces, List.take_append_of_le_length (by simpa using hn),
    List.take_append_of_le_length hn, List.map_take]

theorem drop_take_pieces {n : Nat} (done : Nat) (h : n < (splitAt '\n' cs).length) :
    ((pieces cs).take n).drop done = (((splitAt '\n' cs).take n).drop done).map (· ++ ['\n']) := by
  rw [take_pieces h, List.map_drop]

theorem newline_notMem_of_mem_drop_take {n done : Nat}
    (h : row ∈ ((splitAt '\n' cs).take n).drop done) :
    '\n' ∉ row :=
  (mem_splitAt (List.mem_of_mem_take (List.mem_of_mem_drop h))).1

theorem rows_drop_pieces {n : Nat} (h : n < (splitAt '\n' cs).length) :
    splitAt '\n' ((pieces cs).drop n).flatten = (splitAt '\n' cs).drop n := by
  obtain ⟨front, last, hrows, hpieces⟩ := pieces_rows cs
  have hrow : ∀ row ∈ front ++ [last], '\n' ∉ row := fun row hmem => (mem_splitAt (hrows ▸ hmem)).1
  have hn : n ≤ front.length := by simpa [hrows, Nat.lt_succ_iff] using h
  have hlast : (if last = [] then [] else [last]).flatten = last := by
    split
    · next heq => simp [heq]
    · simp
  rw [hrows, hpieces, List.drop_append_of_le_length (by simpa using hn),
    List.drop_append_of_le_length hn, List.flatten_append, hlast, ← List.map_drop,
    splitAt_flatten fun row hmem => hrow row (by simp [List.mem_of_mem_drop hmem]),
    splitAt_of_notMem (hrow last (by simp))]

/-- Every row but the last ends in a line feed. -/
theorem getD_pieces {n : Nat} (h : n + 1 < (splitAt '\n' cs).length) :
    (pieces cs).getD n [] = (splitAt '\n' cs).getD n [] ++ ['\n'] := by
  have htake := congrArg (fun ps => ps[n]?) (take_pieces h)
  have hlt : n < (splitAt '\n' cs).length := by omega
  simp only [List.getElem?_map, List.getElem?_take_of_lt (Nat.lt_succ_self n),
    List.getElem?_eq_getElem hlt, Option.map_some] at htake
  rw [List.getD_eq_getElem?_getD, List.getD_eq_getElem?_getD, htake, List.getElem?_eq_getElem hlt]
  rfl

theorem newline_notMem_getD_pieces {n : Nat} (h : n + 1 = (splitAt '\n' cs).length) :
    '\n' ∉ (pieces cs).getD n [] := by
  obtain ⟨front, last, hrows, hpieces⟩ := pieces_rows cs
  have hmem : last ∈ splitAt '\n' cs := by simp [hrows]
  have hlast : '\n' ∉ last := (mem_splitAt hmem).1
  have hn : n = front.length := by simpa [hrows] using h
  rw [hpieces, List.getD_eq_getElem?_getD, List.getElem?_append_right (by simp [hn])]
  split
  · simp
  · simpa [hn] using hlast

/-- A row without the carriage returns at its end. -/
def stripReturns (row : List Char) : List Char := dropEndWhile (· = '\r') row

theorem stripReturns_subset (row : List Char) : stripReturns row ⊆ row :=
  (List.rdropWhile_prefix (· = '\r') (l := row)).subset

theorem newline_notMem_of_mem_stripped {p : List Char}
    (h : p ∈ (splitAt '\n' cs).map stripReturns) :
    '\n' ∉ p := by
  obtain ⟨row, hrow, rfl⟩ := List.mem_map.mp h
  exact fun hn => (mem_splitAt hrow).1 (stripReturns_subset row hn)

theorem stripReturns_append {tail : List Char} (h : ∀ c ∈ tail, c = '\r') (row : List Char) :
    stripReturns (row ++ tail) = stripReturns row := by
  rw [stripReturns, dropEndWhile, List.reverse_append, List.dropWhile_append_of_pos]
  · rfl
  · intro c hc
    simpa using h c (List.mem_reverse.mp hc)

theorem stripReturns_stripReturns (row : List Char) :
    stripReturns (stripReturns row) = stripReturns row :=
  List.rdropWhile_idempotent _ row

theorem stripReturns_of_notMem (h : '\r' ∉ row) : stripReturns row = row := by
  refine List.rdropWhile_eq_self_iff.mpr fun hne hlast => ?_
  have hmem := List.getLast_mem hne
  rw [of_decide_eq_true hlast] at hmem
  exact h hmem

theorem map_stripReturns_of_notMem {rows : List (List Char)} (h : ∀ row ∈ rows, '\r' ∉ row) :
    rows.map stripReturns = rows := by
  rw [List.map_congr_left fun row hrow => stripReturns_of_notMem (h row hrow), List.map_id']

theorem hasInfix_iff (sub cs : List Char) : hasInfix sub cs = true ↔ sub <:+: cs := by
  induction cs with
  | nil => simp [hasInfix]
  | cons c cs ih =>
    rw [hasInfix, Bool.or_eq_true, ih, List.isPrefixOf_iff_prefix, List.infix_cons_iff]

theorem stripTerminator_of_notMem (h : '\n' ∉ row) : stripTerminator row = row := by
  unfold stripTerminator
  split
  · next hrow => exact absurd (List.mem_reverse.mp (hrow ▸ List.mem_cons_self ..)) h
  · next hrow => exact absurd (List.mem_reverse.mp (hrow ▸ List.mem_cons_self ..)) h
  · rfl

/-- A line is its row, or its row without one carriage return. -/
theorem stripTerminator_row (row : List Char) :
    ∃ tail, row = stripTerminator (row ++ ['\n']) ++ tail ∧ ∀ c ∈ tail, c = '\r' := by
  unfold stripTerminator
  split
  · next rest hrow =>
    refine ⟨['\r'], ?_, by simp⟩
    rw [← List.reverse_inj]
    simpa using hrow
  · next rest _ hrow =>
    refine ⟨[], ?_, by simp⟩
    rw [← List.reverse_inj]
    simpa using hrow
  · next _ hother => exact absurd (by simp) (hother row.reverse)

theorem row_of_piece {i : Nat} {piece : List Char} (h : (pieces cs)[i]? = some piece) :
    ∃ tail, (splitAt '\n' cs)[i]? = some (stripTerminator piece ++ tail) ∧ ∀ c ∈ tail,
    c = '\r' := by
  obtain ⟨front, last, hrows, hpieces⟩ := pieces_rows cs
  have hmem : last ∈ splitAt '\n' cs := by simp [hrows]
  have hlast : '\n' ∉ last := (mem_splitAt hmem).1
  rw [hpieces] at h
  by_cases hi : i < front.length
  · rw [List.getElem?_append_left (by simpa using hi), List.getElem?_map,
      List.getElem?_eq_getElem hi] at h
    obtain ⟨tail, hrow, htail⟩ := stripTerminator_row front[i]
    have hpiece : front[i] ++ ['\n'] = piece := by simpa using h
    rw [hpiece] at hrow
    refine ⟨tail, ?_, htail⟩
    rw [hrows, List.getElem?_append_left hi, List.getElem?_eq_getElem hi, ← hrow]
  · rw [List.getElem?_append_right (by simpa using hi)] at h
    obtain ⟨hne, hi', rfl⟩ : last ≠ [] ∧ i = front.length ∧ last = piece := by
      split at h
      · simp at h
      · next hne =>
        obtain ⟨hlt, heq⟩ := List.getElem?_eq_some_iff.mp h
        simp at hlt heq
        exact ⟨hne, by omega, heq⟩
    exact ⟨[], by simp [hrows, hi', stripTerminator_of_notMem hlast], by simp⟩

end Text

namespace Edit

open Text

theorem terminatorOf_of_notMem {row : List Char} (h : '\n' ∉ row) : terminatorOf row = [] := by
  unfold terminatorOf
  split
  · next hrow => exact absurd (List.mem_reverse.mp (hrow ▸ List.mem_cons_self ..)) h
  · next hrow => exact absurd (List.mem_reverse.mp (hrow ▸ List.mem_cons_self ..)) h
  · rfl

theorem terminatorOf_row (row : List Char) :
    ∃ tail, terminatorOf (row ++ ['\n']) = tail ++ ['\n'] ∧ ∀ c ∈ tail, c = '\r' := by
  unfold terminatorOf
  split
  · exact ⟨['\r'], rfl, by simp⟩
  · exact ⟨[], rfl, by simp⟩
  · next _ hother => exact absurd (by simp) (hother row.reverse)

theorem terminatorStyle_eq (cs : List Char) :
    ∃ tail, terminatorStyle cs = tail ++ ['\n'] ∧ ∀ c ∈ tail, c = '\r' := by
  unfold terminatorStyle
  split
  · exact ⟨['\r'], rfl, by simp⟩
  · exact ⟨[], rfl, by simp⟩

theorem terminate_append (eol final more : List Char) {parts : List (List Char)} (h : parts ≠ []) :
    (terminate eol (final ++ more) parts).flatten =
      (terminate eol final parts).flatten ++ more := by
  induction parts with
  | nil => exact absurd rfl h
  | cons p parts ih =>
    cases parts with
    | nil => simp [terminate]
    | cons q parts => simp [terminate, ih]

/-- Terminators add nothing to rows but carriage returns at their ends. -/
theorem rows_terminate {tail final : List Char} (htail : ∀ c ∈ tail, c = '\r')
    (hfinal : ∀ c ∈ final, c = '\r')
    {parts : List (List Char)} (hne : parts ≠ []) (hparts : ∀ p ∈ parts, '\n' ∉ p) :
    (splitAt '\n' (terminate (tail ++ ['\n']) final parts).flatten).map stripReturns =
      parts.map stripReturns := by
  have hrow {p t : List Char} (hp : '\n' ∉ p) (ht : ∀ c ∈ t, c = '\r') : '\n' ∉ p ++ t := by
    simp only [List.mem_append, not_or]
    exact ⟨hp, fun hn => by simpa using ht _ hn⟩
  induction parts with
  | nil => exact absurd rfl hne
  | cons p parts ih =>
    have hp := hparts p (by simp)
    cases parts with
    | nil => simp [terminate, splitAt_of_notMem (hrow hp hfinal), stripReturns_append hfinal]
    | cons q parts =>
      have hrest := ih (by simp) fun r hr => hparts r (by simp [hr])
      have hflat : (terminate (tail ++ ['\n']) final (p :: q :: parts)).flatten =
          (p ++ tail) ++ '\n' :: (terminate (tail ++ ['\n']) final (q :: parts)).flatten := by
        simp [terminate]
      rw [hflat, splitAt_append, List.map_append, hrest, splitAt_of_notMem (hrow hp htail)]
      simp [stripReturns_append htail]

/-- The rows of a text from `done` on with edits merged in, from top to bottom. -/
def mergeRows (rows : List (List Char)) : Nat → List Edit → List (List Char)
  | done, [] => rows.drop done
  | done, e :: es =>
    (rows.take (e.range.first - 1)).drop done ++ splitAt '\n' e.replacement.toList ++
      mergeRows rows e.range.last es

theorem block_of_ne_nil (eol final : List Char) {replacement : List Char} (h : replacement ≠ []) :
    block eol final replacement =
      terminate eol final ((splitAt '\n' replacement).map stripReturns) := by
  rw [block, if_neg (by simpa using h)]
  rfl

theorem block_append (eol final more : List Char) {replacement : List Char} (h : replacement ≠ []) :
    (block eol (final ++ more) replacement).flatten =
      (block eol final replacement).flatten ++ more := by
  rw [block_of_ne_nil _ _ h, block_of_ne_nil _ _ h,
    terminate_append _ _ _ (by simp [splitAt_ne_nil])]

theorem rows_block {eol final : List Char} (heol : ∃ tail, eol = tail ++ ['\n'] ∧ ∀ c ∈ tail,
    c = '\r')
    (hfinal : ∀ c ∈ final, c = '\r') {replacement : List Char} (h : replacement ≠ []) :
    (splitAt '\n' (block eol final replacement).flatten).map stripReturns =
      (splitAt '\n' replacement).map stripReturns := by
  obtain ⟨tail, rfl, htail⟩ := heol
  have hrows := rows_terminate htail hfinal (by simp [splitAt_ne_nil])
    fun p (hp : p ∈ (splitAt '\n' replacement).map stripReturns) =>
      newline_notMem_of_mem_stripped hp
  have hsame : ((splitAt '\n' replacement).map stripReturns).map stripReturns =
      (splitAt '\n' replacement).map stripReturns := by
    simp [stripReturns_stripReturns]
  rw [block_of_ne_nil _ _ h]
  exact hrows.trans hsame

/-- A merge of edits is a merge of rows. The last row has no terminator, and an edit that ends there
is the last one. -/
theorem rows_merge {eol : List Char} (heol : ∃ tail, eol = tail ++ ['\n'] ∧ ∀ c ∈ tail, c = '\r')
    (cs : List Char) {done : Nat} {es : List Edit} (hdone : done < (splitAt '\n' cs).length)
    (hi : ∀ e ∈ es, e.Inside (pieces cs).length) (hle : ∀ e ∈ es, e.range.first ≤ e.range.last)
    (habove : es.Pairwise Above) (hne : ∀ e ∈ es, e.replacement ≠ "") :
    (splitAt '\n' (merge eol (pieces cs) done es).flatten).map stripReturns =
      (mergeRows (splitAt '\n' cs) done es).map stripReturns := by
  induction es generalizing done with
  | nil => rw [merge, mergeRows, rows_drop_pieces hdone]
  | cons e es ih =>
    have hlength := length_pieces_le cs
    obtain ⟨hpos, hlast⟩ := hi e (by simp)
    have hfirst := hle e (by simp)
    have hreplaced : e.replacement.toList ≠ [] := by simpa using hne e (by simp)
    obtain ⟨hbelow, habove⟩ := List.pairwise_cons.mp habove
    have hi' : ∀ d ∈ es, d.Inside (pieces cs).length := fun d hd => hi d (by simp [hd])
    have hle' : ∀ d ∈ es, d.range.first ≤ d.range.last := fun d hd => hle d (by simp [hd])
    rw [merge, mergeRows, List.append_assoc, List.append_assoc, List.flatten_append,
      drop_take_pieces done (by omega), splitAt_flatten fun row => newline_notMem_of_mem_drop_take,
      List.map_append, List.map_append, List.map_append, List.flatten_append]
    congr 1
    -- The block of an edit ends with the terminator of its last line, which the last row does not
    -- have.
    by_cases hend : e.range.last < (splitAt '\n' cs).length
    · have hrest := ih hend hi' hle' habove fun d hd => hne d (by simp [hd])
      have hbound : e.range.last - 1 + 1 < (splitAt '\n' cs).length := by omega
      have hpiece := getD_pieces hbound
      obtain ⟨final, hfinal, hreturns⟩ :=
        terminatorOf_row ((splitAt '\n' cs).getD (e.range.last - 1) [])
      rw [newLines, hpiece, hfinal, block_append eol final ['\n'] hreplaced, List.append_assoc,
        List.singleton_append, splitAt_append, List.map_append, rows_block heol hreturns hreplaced,
        hrest]
    · have hes := eq_nil_of_above hi' hle' hbelow (by omega)
      have hbound : e.range.last - 1 + 1 = (splitAt '\n' cs).length := by omega
      have hpiece := newline_notMem_getD_pieces hbound
      rw [newLines, terminatorOf_of_notMem hpiece, hes, merge, mergeRows,
        List.drop_of_length_le (by omega), List.drop_of_length_le (by omega), List.flatten_nil,
        List.append_nil, rows_block heol (by simp) hreplaced, List.map_nil, List.append_nil]

/-! ### Characters of a merge -/

theorem mem_terminate {eol final : List Char} {parts : List (List Char)} {c : Char}
    (h : c ∈ (terminate eol final parts).flatten) : c ∈ eol ∨ c ∈ final ∨ ∃ p ∈ parts, c ∈ p := by
  induction parts with
  | nil => simp [terminate] at h
  | cons p parts ih =>
    cases parts with
    | nil =>
      rcases List.mem_append.mp (by simpa [terminate] using h : c ∈ p ++ final) with h | h
      · exact .inr (.inr ⟨p, by simp, h⟩)
      · exact .inr (.inl h)
    | cons q parts =>
      simp only [terminate, List.flatten_cons, List.mem_append] at h
      rcases h with (h | h) | h
      · exact .inr (.inr ⟨p, by simp, h⟩)
      · exact .inl h
      · rcases ih h with h | h | ⟨r, hr, h⟩
        · exact .inl h
        · exact .inr (.inl h)
        · exact .inr (.inr ⟨r, by simp [hr], h⟩)

theorem mem_block {eol final replacement : List Char} {c : Char}
    (h : c ∈ (block eol final replacement).flatten) : c ∈ eol ∨ c ∈ final ∨ c ∈ replacement := by
  unfold block at h
  split at h
  · simp at h
  · rcases mem_terminate h with h | h | ⟨p, hp, h⟩
    · exact .inl h
    · exact .inr (.inl h)
    · obtain ⟨row, hrow, rfl⟩ := List.mem_map.mp hp
      exact .inr (.inr ((mem_splitAt hrow).2 c (stripReturns_subset row h)))

theorem terminatorOf_suffix (line : List Char) : terminatorOf line <:+ line := by
  unfold terminatorOf
  split
  · next rest h => exact ⟨rest.reverse, by rw [← List.reverse_inj]; simp [h]⟩
  · next rest _ h => exact ⟨rest.reverse, by rw [← List.reverse_inj]; simp [h]⟩
  · exact List.nil_suffix

/-- A merge has no characters of its own. -/
theorem mem_merge {eol : List Char} {lines : List (List Char)} {done : Nat} {es : List Edit}
    {c : Char} (h : c ∈ (merge eol lines done es).flatten) :
    c ∈ lines.flatten ∨ c ∈ eol ∨ ∃ e ∈ es, c ∈ e.replacement.toList := by
  have hline {line : List Char} (hl : line ∈ lines) (hc : c ∈ line) : c ∈ lines.flatten :=
    List.mem_flatten.mpr ⟨line, hl, hc⟩
  induction es generalizing done with
  | nil =>
    obtain ⟨line, hl, hc⟩ := List.mem_flatten.mp h
    exact .inl (hline (List.mem_of_mem_drop hl) hc)
  | cons e es ih =>
    simp only [merge, List.flatten_append, List.mem_append] at h
    rcases h with (h | h) | h
    · obtain ⟨line, hl, hc⟩ := List.mem_flatten.mp h
      exact .inl (hline (List.mem_of_mem_take (List.mem_of_mem_drop hl)) hc)
    · rcases mem_block h with h | h | h
      · exact .inr (.inl h)
      · have hc := (terminatorOf_suffix _).subset h
        rw [List.getD_eq_getElem?_getD] at hc
        cases hl : lines[e.range.last - 1]? with
        | none => simp [hl] at hc
        | some line => exact .inl (hline (List.mem_of_getElem? hl) (by simpa [hl] using hc))
      · exact .inr (.inr ⟨e, by simp, h⟩)
    · rcases ih h with h | h | ⟨d, hd, h⟩
      · exact .inl h
      · exact .inr (.inl h)
      · exact .inr (.inr ⟨d, by simp [hd], h⟩)

theorem terminatorStyle_of_notMem {cs : List Char} (h : '\r' ∉ cs) : terminatorStyle cs = ['\n'] :=
  if_neg fun hinfix => h (((hasInfix_iff _ _).mp hinfix).subset (by simp))

theorem return_notMem_merged {source : String} {edits : List Edit} (hsource : '\r' ∉ source.toList)
    (hedits : ∀ e ∈ edits, '\r' ∉ e.replacement.toList) : '\r' ∉ (merged source edits).toList := by
  rw [merged, String.toList_ofList, terminatorStyle_of_notMem hsource]
  intro hreturn
  rcases mem_merge hreturn with hline | heol | ⟨e, he, hedit⟩
  · rw [flatten_pieces] at hline
    exact hsource hline
  · simp at heol
  · exact hedits e ((mem_sortBy _ _ e).mp he) hedit

/-- A single edit replaces its rows, and the others stay up to carriage returns. -/
theorem rows_single (source : String) {e : Edit} (hpos : 1 ≤ e.range.first)
    (hle : e.range.first ≤ e.range.last) (hlast : e.range.last ≤ (pieces source.toList).length)
    (hne : e.replacement ≠ "") :
    applyAll source [e] = .ok (merged source [e]) ∧
      (splitAt '\n' (merged source [e]).toList).map stripReturns =
        ((splitAt '\n' source.toList).take (e.range.first - 1) ++
          splitAt '\n' e.replacement.toList ++
          (splitAt '\n' source.toList).drop e.range.last).map stripReturns := by
  have hinside : e.Inside (pieces source.toList).length := ⟨hpos, hlast⟩
  have hchecked : Checked source [e] :=
    (checked_iff_pairwise source (by simpa using hle)).mpr (by simpa using hinside)
  have hspliceable : e.Spliceable := ⟨by omega, by omega⟩
  have hsort : sortBy le [e] = [e] := rfl
  refine ⟨applyAll_eq_ok_of_checked hchecked (by simpa using hspliceable), ?_⟩
  rw [merged, String.toList_ofList, hsort]
  exact rows_merge (terminatorStyle_eq source.toList) source.toList
    (List.length_pos_iff.mpr (splitAt_ne_nil _ _)) (by simpa using hinside) (by simpa using hle)
    (List.pairwise_singleton _ _) (by simpa using hne)

/-! ### Revising row by row -/

/-- Rows, each followed by what is put below it. -/
def spread (groups : List (List Char × List (List Char))) : List (List Char) :=
  groups.flatMap fun g => g.1 :: g.2

theorem spread_append (gs hs : List (List Char × List (List Char))) :
    spread (gs ++ hs) = spread gs ++ spread hs := List.flatMap_append

theorem spread_plain (rows : List (List Char × Nat)) :
    spread (rows.map fun x => (x.1, [])) = rows.map Prod.fst := by
  induction rows with
  | nil => rfl
  | cons x rows ih => simpa [spread] using ih

theorem lt_of_mem_drop_zipIdx {α : Type} {xs : List α} {n : Nat} {x : α × Nat}
    (h : x ∈ (xs.zipIdx 1).drop n) : n < x.2 := by
  obtain ⟨i, hi, rfl⟩ := List.mem_iff_getElem.mp h
  simp
  omega

theorem le_of_mem_take_zipIdx {α : Type} {xs : List α} {n : Nat} {x : α × Nat}
    (h : x ∈ (xs.zipIdx 1).take n) : x.2 ≤ n := by
  obtain ⟨i, hi, rfl⟩ := List.mem_iff_getElem.mp h
  simp at hi ⊢
  omega

/-- A range of rows ends with the row of its last number. -/
theorem drop_take_zipIdx {α : Type} {xs : List α} {j k : Nat} {x : α} (hpos : 1 ≤ k) (hjk : j < k)
    (h : xs[k - 1]? = some x) :
    ((xs.zipIdx 1).take k).drop j = ((xs.zipIdx 1).take (k - 1)).drop j ++ [(x, k)] := by
  obtain ⟨hlt, -⟩ := List.getElem?_eq_some_iff.mp h
  have hx : (xs.zipIdx 1)[k - 1]? = some (x, k) := by
    rw [List.getElem?_zipIdx, h, Option.map_some, Nat.add_comm, Nat.sub_add_cancel hpos]
  have htake := List.take_add_one (l := xs.zipIdx 1) (i := k - 1)
  rw [Nat.sub_add_cancel hpos, hx, Option.toList_some] at htake
  rw [htake, List.drop_append_of_le_length]
  rw [List.length_take, List.length_zipIdx]
  omega

theorem map_fst_drop_take_zipIdx {α : Type} (xs : List α) (j k : Nat) :
    (((xs.zipIdx 1).take k).drop j).map Prod.fst = (xs.take k).drop j := by
  rw [List.map_drop, List.map_take, List.zipIdx_map_fst]

/-- A merge row by row: if the rows of each edit are revised in some way, and rows that no edit is
about count as revised, then all rows are. -/
theorem mergeRows_spread {R : List Char × Nat → List Char × List (List Char) → Prop}
    {rows : List (List Char)} {done : Nat} {es : List Edit}
    (hle : ∀ e ∈ es, e.range.first ≤ e.range.last)
    (habove : es.Pairwise Above) (hstart : ∀ e ∈ es, done < e.range.first)
    (hout : ∀ x ∈ (rows.zipIdx 1).drop done,
      (∀ e ∈ es, x.2 < e.range.first ∨ e.range.last < x.2) → R x (x.1, []))
    (hin : ∀ e ∈ es, ∃ groups,
      List.Forall₂ R (((rows.zipIdx 1).take e.range.last).drop (e.range.first - 1)) groups ∧
        (splitAt '\n' e.replacement.toList).map stripReturns = (spread groups).map stripReturns) :
    ∃ groups, List.Forall₂ R ((rows.zipIdx 1).drop done) groups ∧
      (mergeRows rows done es).map stripReturns = (spread groups).map stripReturns := by
  have hplain {part : List (List Char × Nat)} (h : ∀ x ∈ part, R x (x.1, [])) :
      List.Forall₂ R part (part.map fun x => (x.1, [])) :=
    List.forall₂_map_right_iff.mpr (List.forall₂_same.mpr h)
  induction es generalizing done with
  | nil =>
    refine ⟨_, hplain fun x hx => hout x hx (by simp), ?_⟩
    rw [spread_plain, mergeRows, List.map_drop (f := Prod.fst), List.zipIdx_map_fst]
  | cons e es ih =>
    obtain ⟨hbelow, habove⟩ := List.pairwise_cons.mp habove
    have hfirst := hle e (by simp)
    have hdone := hstart e (by simp)
    have hsplit := drop_eq_around (rows.zipIdx 1) hdone (Nat.le_succ_of_le hfirst)
    have habove' : ∀ x ∈ ((rows.zipIdx 1).take (e.range.first - 1)).drop done, R x (x.1, []) := by
      intro x hx
      refine hout x (by rw [hsplit]; simp [hx]) fun d hd => .inl ?_
      have hrow := le_of_mem_take_zipIdx (List.mem_of_mem_drop hx)
      rcases List.mem_cons.mp hd with rfl | hd
      · omega
      · have := hbelow d hd
        unfold Above at this
        omega
    obtain ⟨within, hwithin, hrows⟩ := hin e (by simp)
    obtain ⟨after, hafter, hrest⟩ := ih (fun d hd => hle d (by simp [hd])) habove hbelow
      (fun x hx hother => hout x (by rw [hsplit]; simp [hx]) fun d hd => by
        rcases List.mem_cons.mp hd with rfl | hd
        · exact .inr (lt_of_mem_drop_zipIdx hx)
        · exact hother d hd)
      fun d hd => hin d (by simp [hd])
    have hall := List.rel_append (hplain habove') (List.rel_append hwithin hafter)
    rw [hsplit]
    refine ⟨_, hall, ?_⟩
    rw [spread_append, spread_append, spread_plain, mergeRows, List.append_assoc, List.map_append,
      List.map_append, hrows, hrest, List.map_append, List.map_append, map_fst_drop_take_zipIdx]

end Edit

end SafeRefactor
