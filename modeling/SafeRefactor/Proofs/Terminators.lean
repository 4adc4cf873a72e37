import SafeRefactor.Proofs.Rows

/-!
# Line terminators

A text is uniform if every line feed in it comes after a carriage return, or if none does. Edits
keep a text uniform, whatever terminators their replacements are written with: the lines of a
replacement lose the carriage returns at their ends and get the terminator of the text. If a
replacement ends within a line, as it should, the edited text ends in a line feed exactly if the
source does.
-/

set_option autoImplicit false

namespace SafeRefactor

namespace Text

/-- Every line feed comes after a carriage return, or none does. -/
def Uniform (returns : Bool) (cs : List Char) : Prop :=
  ∀ before after, cs = before ++ '\n' :: after → (before.getLast? = some '\r' ↔ returns = true)

/-- The row ends in a carriage return if rows are to. -/
def Suits (returns : Bool) (row : List Char) : Prop := row.getLast? = some '\r' ↔ returns = true

/-- What stands between a row and its line feed. -/
def tail (returns : Bool) : List Char := if returns then ['\r'] else []

variable {returns : Bool} {row cs : List Char}

theorem uniform_true_iff : Uniform true cs ↔
    ∀ before after, cs = before ++ '\n' :: after → before.getLast? = some '\r' := by
  simp [Uniform]

theorem uniform_false_iff : Uniform false cs ↔ ¬ ['\r', '\n'] <:+: cs := by
  constructor
  · rintro h ⟨before, after, rfl⟩
    have hlast := h (before ++ ['\r']) after (by simp)
    simp at hlast
  · rintro h before after rfl
    refine iff_of_false (fun hlast => h ?_) (by simp)
    obtain ⟨front, rfl⟩ := List.getLast?_eq_some_iff.mp hlast
    exact ⟨front, after, by simp⟩

theorem uniform_of_notMem (h : '\n' ∉ cs) : Uniform returns cs := by
  rintro before after rfl
  simp at h

/-- A text that begins with a row is uniform if the row suits and the rest is uniform. -/
theorem uniform_row (h : '\n' ∉ row) :
    Uniform returns (row ++ '\n' :: cs) ↔ Suits returns row ∧ Uniform returns cs := by
  have hlater (before : List Char) :
      (row ++ '\n' :: before).getLast? = some '\r' ↔ before.getLast? = some '\r' := by
    rw [List.getLast?_append_of_ne_nil _ (by simp), List.getLast?_cons]
    cases before.getLast? <;> simp
  constructor
  · refine fun huniform => ⟨huniform row cs rfl, ?_⟩
    rintro before after rfl
    rw [← huniform (row ++ '\n' :: before) after (by simp), hlater]
  · rintro ⟨hrow, hcs⟩ before after heq
    rcases List.append_eq_append_iff.mp heq with ⟨more, rfl, hmore⟩ | ⟨more, rfl, hmore⟩
    · cases more with
      | nil => simpa [Suits] using hrow
      | cons c more =>
        obtain ⟨rfl, rfl⟩ := List.cons.inj hmore
        rw [hlater]
        exact hcs more after rfl
    · cases more with
      | nil => simpa [Suits] using hrow
      | cons c more =>
        obtain ⟨rfl, -⟩ := List.cons.inj hmore
        simp at h

theorem uniform_rows {rows : List (List Char)} (h : ∀ row ∈ rows, '\n' ∉ row) :
    Uniform returns ((rows.map (· ++ ['\n'])).flatten ++ cs) ↔
      (∀ row ∈ rows, Suits returns row) ∧ Uniform returns cs := by
  induction rows with
  | nil => simp
  | cons row rows ih =>
    have hrest := ih fun r hr => h r (by simp [hr])
    have hrow := h row (by simp)
    simp only [List.map_cons, List.flatten_cons, List.append_assoc, List.cons_append,
      List.nil_append, uniform_row hrow, hrest, List.forall_mem_cons, and_assoc]

/-- In a uniform text all rows above a given one suit, and what begins with it is uniform. -/
theorem Uniform.cut (hcs : Uniform returns cs) {n : Nat} (h : n < (splitAt '\n' cs).length) :
    (∀ row ∈ (splitAt '\n' cs).take n, Suits returns row) ∧
      Uniform returns ((pieces cs).drop n).flatten := by
  have hrow : ∀ row ∈ (splitAt '\n' cs).take n, '\n' ∉ row :=
    fun row hmem => (mem_splitAt (List.mem_of_mem_take hmem)).1
  rw [← uniform_rows hrow, ← take_pieces h, ← List.flatten_append, List.take_append_drop,
    flatten_pieces]
  exact hcs

theorem suits_append_tail (h : row.getLast? ≠ some '\r') : Suits returns (row ++ tail returns) := by
  cases returns <;> simp [Suits, tail, h]

end Text

namespace Edit

open Text

theorem terminatorStyle_of_uniform {returns : Bool} {cs : List Char} (hcs : Uniform returns cs)
    (h : returns = true → ['\r', '\n'] <:+: cs) : terminatorStyle cs = tail returns ++ ['\n'] := by
  rw [terminatorStyle]
  cases returns with
  | true => exact if_pos ((hasInfix_iff _ _).mpr (h rfl))
  | false => exact if_neg fun hinfix => uniform_false_iff.mp hcs ((hasInfix_iff _ _).mp hinfix)

theorem terminatorOf_of_suits {returns : Bool} {row : List Char} (h : Suits returns row) :
    terminatorOf (row ++ ['\n']) = tail returns ++ ['\n'] := by
  rcases List.eq_nil_or_concat row with rfl | ⟨front, c, rfl⟩
  · cases returns <;> simp_all [Suits, terminatorOf, tail]
  · by_cases hc : c = '\r'
    · cases returns <;> simp_all [Suits, terminatorOf, tail]
    · cases returns <;> simp_all [Suits, terminatorOf, tail]

theorem uniform_terminate {returns : Bool} {final cs : List Char} {parts : List (List Char)}
    (hparts : ∀ p ∈ parts, '\n' ∉ p ∧ p.getLast? ≠ some '\r') (hne : parts ≠ [])
    (hfinal : final = tail returns ++ ['\n'] ∧ Uniform returns cs ∨ final = [] ∧ cs = []) :
    Uniform returns ((terminate (tail returns ++ ['\n']) final parts).flatten ++ cs) := by
  have hrow {p : List Char} (hp : '\n' ∉ p) : '\n' ∉ p ++ tail returns := by
    cases returns <;> simp [tail, hp]
  induction parts with
  | nil => exact absurd rfl hne
  | cons p parts ih =>
    obtain ⟨hp, hreturn⟩ := hparts p (by simp)
    cases parts with
    | nil =>
      rcases hfinal with ⟨rfl, hcs⟩ | ⟨rfl, rfl⟩
      · simpa [terminate] using (uniform_row (hrow hp)).mpr ⟨suits_append_tail hreturn, hcs⟩
      · simpa [terminate] using uniform_of_notMem hp
    | cons q parts =>
      have hrest := ih (fun r hr => hparts r (by simp [hr])) (by simp)
      simpa [terminate] using (uniform_row (hrow hp)).mpr ⟨suits_append_tail hreturn, hrest⟩

theorem getLast?_stripReturns (row : List Char) : (stripReturns row).getLast? ≠ some '\r' := by
  intro hlast
  have hne : stripReturns row ≠ [] := by
    intro h
    simp [h] at hlast
  rw [List.getLast?_eq_some_getLast hne] at hlast
  exact List.rdropWhile_last_not (· = '\r') row hne (decide_eq_true (Option.some.inj hlast))

theorem stripReturns_of_getLast? {row : List Char} {c : Char} (h : row.getLast? = some c)
    (hc : c ≠ '\r') :
    stripReturns row = row := by
  refine List.rdropWhile_eq_self_iff.mpr fun hne hreturn => hc ?_
  rw [List.getLast?_eq_some_getLast hne] at h
  exact (Option.some.inj h).symm.trans (of_decide_eq_true hreturn)

theorem uniform_block {returns : Bool} {final cs : List Char} (replacement : List Char)
    (hfinal : final = tail returns ++ ['\n'] ∧ Uniform returns cs ∨ final = [] ∧ cs = []) :
    Uniform returns ((block (tail returns ++ ['\n']) final replacement).flatten ++ cs) := by
  by_cases h : replacement = []
  · rcases hfinal with ⟨-, hcs⟩ | ⟨-, rfl⟩
    · simpa [h, block] using hcs
    · simpa [h, block] using uniform_of_notMem List.not_mem_nil
  · rw [block_of_ne_nil _ _ h]
    refine uniform_terminate (fun p hp => ⟨newline_notMem_of_mem_stripped hp, ?_⟩)
      (by simp [splitAt_ne_nil]) hfinal
    obtain ⟨row, -, rfl⟩ := List.mem_map.mp hp
    exact getLast?_stripReturns row

/-- Edits keep a text uniform, row by row from the top. -/
theorem uniform_merge {returns : Bool} {cs : List Char} (hcs : Uniform returns cs) {done : Nat}
    {es : List Edit} (hdone : done < (splitAt '\n' cs).length)
    (hi : ∀ e ∈ es, e.Inside (pieces cs).length) (hle : ∀ e ∈ es, e.range.first ≤ e.range.last)
    (habove : es.Pairwise Above) :
    Uniform returns (merge (tail returns ++ ['\n']) (pieces cs) done es).flatten := by
  induction es generalizing done with
  | nil => exact (hcs.cut hdone).2
  | cons e es ih =>
    have hlength := length_pieces_le cs
    obtain ⟨hpos, hlast⟩ := hi e (by simp)
    have hfirst := hle e (by simp)
    obtain ⟨hbelow, habove⟩ := List.pairwise_cons.mp habove
    have hi' : ∀ d ∈ es, d.Inside (pieces cs).length := fun d hd => hi d (by simp [hd])
    have hle' : ∀ d ∈ es, d.range.first ≤ d.range.last := fun d hd => hle d (by simp [hd])
    have hstart : e.range.first - 1 < (splitAt '\n' cs).length := by omega
    rw [merge, List.flatten_append, List.flatten_append, drop_take_pieces done hstart,
      List.append_assoc, uniform_rows fun row => newline_notMem_of_mem_drop_take]
    refine ⟨fun row hmem => (hcs.cut hstart).1 row (List.mem_of_mem_drop hmem), uniform_block _ ?_⟩
    by_cases hend : e.range.last < (splitAt '\n' cs).length
    · refine .inl ⟨?_, ih hend hi' hle' habove⟩
      have hrow : (splitAt '\n' cs)[e.range.last - 1] ∈ (splitAt '\n' cs).take e.range.last :=
        List.mem_take_iff_getElem.mpr ⟨e.range.last - 1, by omega, rfl⟩
      rw [getD_pieces (by omega), List.getD_eq_getElem?_getD, List.getElem?_eq_getElem (by omega)]
      exact terminatorOf_of_suits ((hcs.cut hend).1 _ hrow)
    · have hes := eq_nil_of_above hi' hle' hbelow (by omega)
      refine .inr ⟨terminatorOf_of_notMem (newline_notMem_getD_pieces (by omega)), ?_⟩
      rw [hes, merge, List.drop_of_length_le (by omega), List.flatten_nil]

/-! ### How a text ends -/

theorem ne_nil_of_mem_pieces {cs piece : List Char} (h : piece ∈ pieces cs) : piece ≠ [] := by
  obtain ⟨front, last, -, hpieces⟩ := pieces_rows cs
  rw [hpieces] at h
  rcases List.mem_append.mp h with h | h
  · obtain ⟨row, -, rfl⟩ := List.mem_map.mp h
    simp
  · split at h
    · simp at h
    · next hne => simpa [List.mem_singleton.mp h] using hne

theorem flatten_drop_ne_nil {cs : List Char} {n : Nat} (h : n < (pieces cs).length) :
    ((pieces cs).drop n).flatten ≠ [] := by
  rw [List.drop_eq_getElem_cons h, List.flatten_cons]
  simp [ne_nil_of_mem_pieces (List.getElem_mem h)]

theorem getLast?_flatten_drop {cs : List Char} {n : Nat} (h : n < (pieces cs).length) :
    ((pieces cs).drop n).flatten.getLast? = cs.getLast? := by
  conv_rhs => rw [← flatten_pieces cs, ← List.take_append_drop n (pieces cs), List.flatten_append,
    List.getLast?_append_of_ne_nil _ (flatten_drop_ne_nil h)]

theorem getLast?_splitAt {cs : List Char} {c : Char} (h : cs.getLast? = some c) (hc : c ≠ '\n') :
    ∃ row, (splitAt '\n' cs).getLast? = some row ∧ row.getLast? = some c := by
  obtain ⟨front, last, hrows, hpieces⟩ := pieces_rows cs
  refine ⟨last, by simp [hrows], ?_⟩
  have hflat := flatten_pieces cs
  rw [hpieces, List.flatten_append] at hflat
  rw [← hflat] at h
  split at h
  · rcases List.eq_nil_or_concat front with rfl | ⟨rows, row, rfl⟩
    · simp at h
    · simp [Ne.symm hc] at h
  · next hlast => simpa [List.getLast?_append_of_ne_nil _ hlast] using h

theorem getLast?_terminate {eol final p : List Char} {parts : List (List Char)}
    (h : parts.getLast? = some p) (hne : p ≠ []) :
    (terminate eol final parts).flatten.getLast? = (p ++ final).getLast? := by
  induction parts with
  | nil => simp at h
  | cons q parts ih =>
    cases parts with
    | nil =>
      obtain rfl : q = p := by simpa using h
      simp [terminate]
    | cons q' parts =>
      have hrest := ih (by simpa [List.getLast?_cons_cons] using h)
      have hsome : (terminate eol final (q' :: parts)).flatten ≠ [] := by
        rw [← List.getLast?_isSome, hrest, List.getLast?_isSome]
        simp [hne]
      simp only [terminate, List.flatten_cons, List.getLast?_append_of_ne_nil _ hsome, hrest]

/-- The replacement ends within a line. -/
def Whole (e : Edit) : Prop :=
  e.replacement ≠ "" ∧ e.replacement.toList.getLast? ≠ some '\n' ∧ e.replacement.toList.getLast? ≠
    some '\r'

theorem getLast?_append_terminatorOf {p : List Char} {c : Char} (hp : p.getLast? = some c)
    (hc : c ≠ '\n') (line : List Char) :
    (p ++ terminatorOf line).getLast? = some '\n' ↔ line.getLast? = some '\n' := by
  by_cases hline : line.getLast? = some '\n'
  · obtain ⟨row, rfl⟩ := List.getLast?_eq_some_iff.mp hline
    obtain ⟨tail, htail, -⟩ := terminatorOf_row row
    simp [htail]
  · have hnone : terminatorOf line = [] := by
      rw [List.getLast?_eq_head?_reverse] at hline
      unfold terminatorOf
      split
      · next hrev => simp [hrev] at hline
      · next hrev => simp [hrev] at hline
      · rfl
    simp [hnone, hp, hc, hline]

theorem block_ends (eol line : List Char) {e : Edit} (hw : e.Whole) :
    ((block eol (terminatorOf line) e.replacement.toList).flatten.getLast? = some '\n' ↔
      line.getLast? = some '\n') ∧
    (block eol (terminatorOf line) e.replacement.toList).flatten ≠ [] := by
  obtain ⟨hne, hfeed, hreturn⟩ := hw
  have hsome : e.replacement.toList ≠ [] := by simpa using hne
  obtain ⟨c, hlast⟩ := Option.isSome_iff_exists.mp (List.getLast?_isSome.mpr hsome)
  have hcn : c ≠ '\n' := fun h => hfeed (h ▸ hlast)
  have hcr : c ≠ '\r' := fun h => hreturn (h ▸ hlast)
  obtain ⟨row, hrow, hend⟩ := getLast?_splitAt hlast hcn
  have hparts : ((splitAt '\n' e.replacement.toList).map stripReturns).getLast? = some row := by
    rw [List.getLast?_map, hrow, Option.map_some, stripReturns_of_getLast? hend hcr]
  have hrne : row ≠ [] := by
    rintro rfl
    simp at hend
  have hterminated : (block eol (terminatorOf line) e.replacement.toList).flatten.getLast? =
      (row ++ terminatorOf line).getLast? := by
    rw [block_of_ne_nil _ _ hsome]
    exact getLast?_terminate hparts hrne
  refine ⟨by rw [hterminated, getLast?_append_terminatorOf hend hcn], ?_⟩
  rw [← List.getLast?_isSome, hterminated, List.getLast?_isSome]
  simp [hrne]

/-- If replacements end within lines, the edited text ends in a line feed if the text does: its end
is that of the last line, or of the edit that replaces it. -/
theorem merge_ends {eol cs : List Char} {done : Nat} {es : List Edit}
    (hdone : done < (pieces cs).length)
    (hi : ∀ e ∈ es, e.Inside (pieces cs).length) (hle : ∀ e ∈ es, e.range.first ≤ e.range.last)
    (habove : es.Pairwise Above) (hw : ∀ e ∈ es, e.Whole) :
    ((merge eol (pieces cs) done es).flatten.getLast? = some '\n' ↔ cs.getLast? = some '\n') ∧
      (merge eol (pieces cs) done es).flatten ≠ [] := by
  induction es generalizing done with
  | nil => exact ⟨by rw [merge, getLast?_flatten_drop hdone], flatten_drop_ne_nil hdone⟩
  | cons e es ih =>
    obtain ⟨hpos, hlast⟩ := hi e (by simp)
    have hfirst := hle e (by simp)
    obtain ⟨hbelow, habove⟩ := List.pairwise_cons.mp habove
    have hi' : ∀ d ∈ es, d.Inside (pieces cs).length := fun d hd => hi d (by simp [hd])
    have hle' : ∀ d ∈ es, d.range.first ≤ d.range.last := fun d hd => hle d (by simp [hd])
    rw [merge, List.flatten_append]
    by_cases hend : e.range.last < (pieces cs).length
    · obtain ⟨hrest, hne⟩ := ih hend hi' hle' habove fun d hd => hw d (by simp [hd])
      exact ⟨by rw [List.getLast?_append_of_ne_nil _ hne, hrest], by simp [hne]⟩
    · have hes := eq_nil_of_above hi' hle' hbelow (by omega)
      have hrest : (merge eol (pieces cs) e.range.last es).flatten = [] := by
        rw [hes, merge, List.drop_of_length_le (by omega), List.flatten_nil]
      have hline : ((pieces cs).getD (e.range.last - 1) []).getLast? = cs.getLast? := by
        have hlt : e.range.last - 1 < (pieces cs).length := by omega
        rw [← getLast?_flatten_drop hlt, List.drop_eq_getElem_cons hlt,
          List.drop_of_length_le (by omega), List.getD_eq_getElem?_getD,
          List.getElem?_eq_getElem hlt]
        simp
      obtain ⟨hblock, hne⟩ := block_ends eol ((pieces cs).getD (e.range.last - 1) [])
        (hw e (by simp))
      rw [hrest, List.append_nil, List.flatten_append, newLines,
        List.getLast?_append_of_ne_nil _ hne, hblock, hline]
      exact ⟨Iff.rfl, List.append_ne_nil_of_right_ne_nil _ hne⟩

/-- Edits whose ranges do not end before they start keep the terminators of the text. If every line
of the source ends in a carriage return and a line feed, so does every line of the new text; if none
does, none does; and if all replacements end within a line, the new text ends in a line feed exactly
if the source does. -/
theorem applyAll_keeps_terminators (source : String) (edits : List Edit) (text : String)
    (hle : ∀ e ∈ edits, e.range.first ≤ e.range.last) (h : applyAll source edits = .ok text) :
    (['\r', '\n'] <:+: source.toList →
      (∀ before after, source.toList = before ++ '\n' :: after → before.getLast? = some '\r') →
        ∀ before after, text.toList = before ++ '\n' :: after → before.getLast? = some '\r') ∧
    (¬ ['\r', '\n'] <:+: source.toList → ¬ ['\r', '\n'] <:+: text.toList) ∧
    ((∀ e ∈ edits, e.replacement ≠ "" ∧ e.replacement.toList.getLast? ≠ some '\n' ∧
        e.replacement.toList.getLast? ≠ some '\r') →
      (text.toList.getLast? = some '\n' ↔ source.toList.getLast? = some '\n')) := by
  obtain ⟨hi, -, habove, htext⟩ := ordered_of_ok h
  have hle' : ∀ e ∈ sortBy le edits, e.range.first ≤ e.range.last :=
    fun e he => hle e ((mem_sortBy le edits e).mp he)
  have huniform {returns : Bool} (hcs : Uniform returns source.toList)
      (hstyle : returns = true → ['\r', '\n'] <:+: source.toList) :
      Uniform returns text.toList := by
    have hrows : 0 < (splitAt '\n' source.toList).length :=
      List.length_pos_iff.mpr (splitAt_ne_nil _ _)
    rw [htext, terminatorStyle_of_uniform hcs hstyle]
    exact uniform_merge hcs hrows hi hle' habove
  refine ⟨fun hstyle hall => ?_, fun hnone => ?_, fun hw => ?_⟩
  · exact uniform_true_iff.mp (huniform (uniform_true_iff.mpr hall) fun _ => hstyle)
  · exact uniform_false_iff.mp (huniform (uniform_false_iff.mpr hnone) (by simp))
  · rw [htext]
    rcases Nat.eq_zero_or_pos (pieces source.toList).length with hempty | hpos
    · have hnone : sortBy le edits = [] := by
        refine List.eq_nil_iff_forall_not_mem.mpr fun e he => ?_
        have hfirst := hle' e he
        have hin := hi e he
        unfold Inside at hin
        omega
      rw [hnone, merge, List.drop_zero, flatten_pieces]
    · exact (merge_ends hpos hi hle' habove fun e he => hw e ((mem_sortBy le edits e).mp he)).1

/-- Replacements with line feeds of both kinds, in a text with carriage returns and in one without.
-/
theorem applyAll_keeps_terminators_mixed :
    let edits : List Edit := [⟨⟨2, 2⟩, "x\ny\r\nz"⟩]
    applyAll "a\r\nb\r\nc" edits = .ok "a\r\nx\r\ny\r\nz\r\nc" ∧
      (∀ before after, "a\r\nx\r\ny\r\nz\r\nc".toList = before ++ '\n' :: after →
        before.getLast? = some '\r') ∧
      applyAll "a\nb" edits = .ok "a\nx\ny\nz" ∧ ¬ ['\r', '\n'] <:+: "a\nx\ny\nz".toList ∧
      ("a\nx\ny\nz".toList.getLast? = some '\n' ↔ "a\nb".toList.getLast? = some '\n') := by
  intro edits
  have hle : ∀ e ∈ edits, e.range.first ≤ e.range.last := by decide
  have happly : applyAll "a\r\nb\r\nc" edits = .ok "a\r\nx\r\ny\r\nz\r\nc" := by decide +kernel
  have happly' : applyAll "a\nb" edits = .ok "a\nx\ny\nz" := by decide +kernel
  have hreturns : ∀ before after, "a\r\nb\r\nc".toList = before ++ '\n' :: after →
      before.getLast? = some '\r' := by
    have hrow : "a\r\nb\r\nc".toList = ['a', '\r'] ++ '\n' :: (['b', '\r'] ++ '\n' :: ['c']) := by
      decide
    rw [hrow, ← uniform_true_iff, uniform_row (by decide), uniform_row (by decide)]
    exact ⟨by simp [Suits], by simp [Suits], uniform_of_notMem (by decide)⟩
  obtain ⟨hkeep, -, -⟩ := applyAll_keeps_terminators _ edits _ hle happly
  obtain ⟨-, hkeep', hend⟩ := applyAll_keeps_terminators _ edits _ hle happly'
  exact ⟨happly, hkeep (by decide +kernel) hreturns, happly', hkeep' (by decide +kernel),
    hend (by decide +kernel)⟩

end Edit

end SafeRefactor
