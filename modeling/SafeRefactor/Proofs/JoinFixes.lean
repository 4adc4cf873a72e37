import SafeRefactor.Proofs.Concatenations
import SafeRefactor.Proofs.FixTexts

/-!
# What a join keeps

A fix that joins collected pieces repeats the loop line by line; only the lines of the accumulation
are replaced. So it keeps the comments on all other lines, and those in the piece that is appended.
A comment beside the piece, such as one behind it on its last line, is not carried over.
-/

set_option autoImplicit false

namespace SafeRefactor

open Syntax Text

namespace Text

variable {sep : Char} {row cs : List Char}

theorem prefix_of_splitAt {rows : List (List Char)} (h : splitAt sep cs = row :: rows) :
    row <+: cs := by
  induction cs generalizing row rows with
  | nil =>
    obtain ⟨rfl, -⟩ : [] = row ∧ [] = rows := by simpa [splitAt] using h
    exact List.prefix_rfl
  | cons c cs ih =>
    rw [splitAt] at h
    split at h
    · rw [← (List.cons.inj h).1]
      exact List.nil_prefix
    · split at h
      · next hnil => exact absurd hnil (splitAt_ne_nil sep cs)
      · next p ps hp =>
        rw [← (List.cons.inj h).1]
        exact (List.prefix_cons_inj c).mpr (ih hp)

theorem infix_of_mem_splitAt (h : row ∈ splitAt sep cs) : row <:+: cs := by
  induction cs generalizing row with
  | nil =>
    obtain rfl : row = [] := by simpa [splitAt] using h
    exact List.infix_rfl
  | cons c cs ih =>
    rcases hrows : splitAt sep (c :: cs) with - | ⟨first, rest⟩
    · exact absurd hrows (splitAt_ne_nil sep _)
    rw [hrows] at h
    rcases List.mem_cons.mp h with rfl | h
    · exact (prefix_of_splitAt hrows).isInfix
    -- a row that is not the first is a row of what follows the first character
    have hmem : row ∈ splitAt sep cs := by
      rw [splitAt] at hrows
      split at hrows
      · rwa [(List.cons.inj hrows).2]
      · split at hrows
        · next hnil => exact absurd hnil (splitAt_ne_nil sep cs)
        · next p ps hp =>
          rw [hp, (List.cons.inj hrows).2]
          exact List.mem_cons_of_mem _ h
    exact (ih hmem).trans (List.suffix_cons c cs).isInfix

theorem stripReturns_begins (row : List Char) : stripReturns row <+: row :=
  List.rdropWhile_prefix (· = '\r') row

theorem stripReturns_append_of_ne_nil {ending : List Char} (h : stripReturns ending ≠ [])
    (start : List Char) : stripReturns (start ++ stripReturns ending) =
      start ++ stripReturns ending := by
  have hself := List.rdropWhile_eq_self_iff.mp (stripReturns_stripReturns ending) h
  refine List.rdropWhile_eq_self_iff.mpr fun hne => ?_
  rwa [List.getLast_append_of_ne_nil hne h]

/-- What begins a line and goes no further than carriage returns beyond its end. -/
theorem stripReturns_begins_body {body tail : List Char} (h : row <+: body ++ tail)
    (htail : ∀ more, more <+: tail → body ++ more = row → ∀ c ∈ more, c = '\r') :
    stripReturns row <+: body := by
  rcases List.prefix_or_prefix_of_prefix h (List.prefix_append body tail) with hp | ⟨more, rfl⟩
  · exact (stripReturns_begins row).trans hp
  · have hmore := (List.prefix_append_right_inj body).mp h
    rw [stripReturns_append (htail more hmore rfl)]
    exact stripReturns_begins body

/-- A row stays in its line up to carriage returns. -/
theorem stripReturns_begins_line (h : '\n' ∉ row) (more : List Char) :
    stripReturns row <+: stripTerminator (row ++ more) := by
  unfold stripTerminator
  split
  · next rest hrest =>
    have hpiece : row ++ more = rest.reverse ++ ['\r', '\n'] := by
      rw [← List.reverse_inj, hrest]
      simp
    refine stripReturns_begins_body (hpiece ▸ List.prefix_append row more) ?_
    rintro extra hextra rfl
    rcases List.prefix_cons_iff.mp hextra with rfl | ⟨after, rfl, hafter⟩
    · simp
    · rcases List.prefix_cons_iff.mp hafter with rfl | ⟨after, rfl, -⟩
      · simp
      · simp at h
  · next rest _ hrest =>
    have hpiece : row ++ more = rest.reverse ++ ['\n'] := by
      rw [← List.reverse_inj, hrest]
      simp
    refine stripReturns_begins_body (hpiece ▸ List.prefix_append row more) ?_
    rintro extra hextra rfl
    rcases List.prefix_cons_iff.mp hextra with rfl | ⟨extra, rfl, -⟩
    · simp
    · simp at h
  · exact (stripReturns_begins row).trans (List.prefix_append row more)

end Text

namespace Syntax.Tree

variable {t : Tree} {n m : Node}

/-- Comments stand on one row. -/
def CommentsOnRow (t : Tree) : Prop :=
  ∀ n ∈ t.root.preorder, n.has .comment = true → n.start.row = n.stop.row

instance (t : Tree) : Decidable t.CommentsOnRow := inferInstanceAs (Decidable (∀ _ ∈ _, _))

theorem text_within (hstart : n.start.offset ≤ m.start.offset)
    (hstop : m.stop.offset ≤ n.stop.offset) :
    (t.text m).toList <:+: (t.text n).toList := by
  have htext : (t.text m).toList = ((t.text n).toList.drop (m.start.offset - n.start.offset)).take
      (m.stop.offset - m.start.offset) := by
    have hfrom : n.start.offset + (m.start.offset - n.start.offset) = m.start.offset := by omega
    rw [text, text, String.toList_ofList, String.toList_ofList, List.drop_take, List.take_take,
      List.drop_drop, hfrom]
    congr 1
    omega
  rw [htext]
  exact (List.take_prefix _ _).isInfix.trans (List.drop_suffix _ _).isInfix

/-- What stands on one row stands in its line, up to carriage returns. -/
theorem Ranged.text_in_line (h : t.Ranged) (hn : n ∈ t.root.preorder)
    (hrow : n.start.row = n.stop.row) :
    stripReturns (t.text n).toList <:+: (t.lineText n.line).toList := by
  have hstop := h.stop_liesIn n hn
  have hlast := (h.start_liesIn n hn).lastRow_eq hstop (h.start_le_stop n hn) hrow
  have htext : (t.text n).toList = (t.source.toList.take n.stop.offset).drop n.start.offset := by
    rw [text, String.toList_ofList, List.drop_take]
  by_cases hempty : stripReturns (t.text n).toList = []
  · rw [hempty]
    exact List.nil_infix
  obtain ⟨returns, hreturns⟩ := stripReturns_begins (t.text n).toList
  have hne : lastRow (t.source.toList.take n.stop.offset) ≠ [] := by
    rw [hlast, ← htext, ← hreturns]
    simp [hempty]
  obtain ⟨more, hpiece⟩ := pieces_getElem?_lastRow hne (t.source.toList.drop n.stop.offset)
  rw [List.take_append_drop, ← hstop.row_eq, ← hrow] at hpiece
  have hline : (t.lineText n.line).toList =
      stripTerminator (lastRow (t.source.toList.take n.stop.offset) ++ more) := by
    simp [lineText, Node.line, lines, Text.lines, hpiece]
  have hnewline := newline_notMem_lastRow (t.source.toList.take n.stop.offset)
  rw [hlast, ← htext, ← hreturns] at hline hnewline
  have hplain : '\n' ∉ lastRow (t.source.toList.take n.start.offset) ++
      stripReturns (t.text n).toList := by
    simp only [List.mem_append, not_or] at hnewline ⊢
    exact ⟨hnewline.1, hnewline.2.1⟩
  have hbegins := stripReturns_begins_line hplain (returns ++ more)
  rw [stripReturns_append_of_ne_nil hempty] at hbegins
  rw [hline, ← List.append_assoc, List.append_assoc _ returns more]
  exact (List.suffix_append _ _).isInfix.trans hbegins.isInfix

end Syntax.Tree

namespace Detect.StringConcat

variable {t : Tree} {taken : List String} {loop : Node} {a : Accumulation}

theorem joinFix?_text {range : LineRange} {fix : String}
    (h : joinFix? t taken loop a = some (range, fix)) :
    ∃ e opening appending closing, a.appended = some e ∧ (t.text e).toList <:+: appending ∧
      fix.toList = opening ++
        '\n' :: ((t.linesText loop.line (a.statement.line - 1)).toList ++ '\n' ::
        (appending ++ '\n' :: ((if a.statement.endLine < loop.endLine then
          (t.linesText (a.statement.endLine + 1) loop.endLine).toList ++ ['\n'] else []) ++
            closing))) := by
  simp only [joinFix?, Option.bind_eq_bind, Option.bind_eq_some_iff] at h
  obtain ⟨e, he, h⟩ := h
  split at h
  · simp only [Option.some.injEq, Prod.mk.injEq] at h
    obtain ⟨-, rfl⟩ := h
    generalize unusedName ("_" ++ a.name ++ "_parts") taken = parts
    refine ⟨e, (t.indentation loop.line ++ parts ++ " = []").toList,
      (t.indentation a.statement.line ++ parts ++ ".append(" ++ t.text e ++ ")").toList,
      (t.indentation loop.line ++ a.name ++ " += \"\".join(" ++ parts ++ ")").toList, he, ?_, ?_⟩
    · refine ⟨(t.indentation a.statement.line ++ parts ++ ".append(").toList, ")".toList, ?_⟩
      simp [String.toList_append]
    · split <;> simp [String.toList_append]
  · cases h

/-- The rows of the new text: those of the loop before and after the accumulation stand in it as
they are. -/
theorem rows_joinFix? (h : t.Ranged) (hloop : loop ∈ t.root.preorder)
    (hstatement : a.statement ∈ t.root.preorder) (hsolid : a.statement.isSolid = true)
    {range : LineRange} {fix : String} (hfix : joinFix? t taken loop a = some (range, fix)) :
    ∃ e opening appending closing, a.appended = some e ∧ (t.text e).toList <:+: fix.toList ∧
      splitAt '\n' fix.toList =
        opening ++ ((t.lines.take (a.statement.line - 1)).drop (loop.line - 1)).map String.toList ++
          appending ++ ((t.lines.take loop.endLine).drop a.statement.endLine).map String.toList ++
            closing := by
  obtain ⟨hjoinable, -⟩ := joinFix?_eq_some hfix
  obtain ⟨e, opening, appending, closing, happended, hpiece, htext⟩ := joinFix?_text hfix
  have hbelow := hjoinable.below
  have hpos := loop.line_pos
  have hline := h.line_le hstatement hsolid
  have hend := h.endLine_le hloop (Node.isSolid_of_has hjoinable.isFor rfl)
  have hbefore := t.splitAt_linesText hpos (show loop.line ≤ a.statement.line - 1 by omega)
    (by omega)
  rw [show a.statement.line - 1 - loop.line + 1 = a.statement.line - 1 - (loop.line - 1) by omega,
    ← List.drop_take] at hbefore
  refine ⟨e, splitAt '\n' opening, splitAt '\n' appending, splitAt '\n' closing, happended, ?_, ?_⟩
  · obtain ⟨after, hafter⟩ : ∃ after, fix.toList = opening ++ '\n' ::
        ((t.linesText loop.line (a.statement.line - 1)).toList ++ '\n' :: (appending ++ after)) :=
          ⟨_, htext⟩
    rw [hafter]
    exact hpiece.trans
      ⟨opening ++ '\n' :: ((t.linesText loop.line (a.statement.line - 1)).toList ++ ['\n']), after,
        by simp⟩
  · rw [htext, splitAt_append, splitAt_append, splitAt_append, hbefore]
    split
    · next hrest =>
      have hafter := t.splitAt_linesText (show 1 ≤ a.statement.endLine + 1 by omega) hrest hend
      have hcount : loop.endLine - (a.statement.endLine + 1) + 1 =
          loop.endLine - a.statement.endLine := by
        omega
      rw [Nat.add_sub_cancel, hcount, ← List.drop_take] at hafter
      simp only [List.append_assoc, List.singleton_append, splitAt_append, hafter]
    · next hrest =>
      have hnone : (t.lines.take loop.endLine).drop a.statement.endLine = [] := by
        rw [List.drop_eq_nil_iff, List.length_take]
        omega
      simp [hnone]

theorem lineText_mem {first last line : Nat} (hfirst : first < line) (hle : line ≤ last)
    (hlast : last ≤ t.lines.length) : t.lineText line ∈ (t.lines.take last).drop first := by
  have hlt : line - 1 < t.lines.length := by omega
  rw [List.mem_iff_getElem?]
  refine ⟨line - 1 - first, ?_⟩
  have hindex : first + (line - 1 - first) = line - 1 := by omega
  rw [List.getElem?_drop, hindex, List.getElem?_take_of_lt (by omega), Tree.lineText,
    if_neg (by omega), List.getD_eq_getElem?_getD, List.getElem?_eq_getElem hlt, Option.getD_some]

/-- The loop's lines before and after the accumulation stand in the new text as they are and in
order, and so do the comments on them and in the appended piece. -/
theorem join_keeps_lines (t : Tree) (h : t.Ranged) (hcomments : t.CommentsOnRow) :
    ∀ i ∈ issues t, ∀ fix, i.fix = some fix →
      ∃ g : Growth, g.place ∈ t.places ∧ g.Holds t ∧ i = g.issue t ∧
      i.range = ⟨g.loop.line, g.loop.endLine⟩ ∧ ∃ e, g.pieces = [e] ∧
      (∃ opening appending closing, splitAt '\n' fix.toList = opening ++
        ((t.lines.take (g.statement.line - 1)).drop (g.loop.line - 1)).map String.toList ++
        appending ++
        ((t.lines.take g.loop.endLine).drop g.statement.endLine).map String.toList ++
        closing) ∧
      ∀ c ∈ t.root.preorder, c.has .comment = true →
        g.loop.line ≤ c.line → c.line ≤ g.loop.endLine →
        (c.line < g.statement.line ∨ g.statement.endLine < c.line ∨
          e.start.offset ≤ c.start.offset ∧ c.stop.offset ≤ e.stop.offset) →
        stripReturns (t.text c).toList <:+: fix.toList := by
  intro i hi fix hfix
  obtain ⟨g, hplace, hholds, rfl⟩ := exists_growth hi
  obtain ⟨⟨range, text⟩, hjoin⟩ := Growth.exists_join (by rw [hfix]; rfl)
  obtain ⟨hrange, htext⟩ := Growth.issue_of_join hjoin
  obtain rfl : text = fix := Option.some.inj (htext.symm.trans hfix)
  have hloop := g.loop_mem hplace hholds
  have hstatement := g.statement_mem hplace
  have hsolid := Node.isSolid_of_isAssigning (g.isAssigning hplace hholds)
  obtain ⟨hjoinable, rfl⟩ := joinFix?_eq_some hjoin
  obtain ⟨e, opening, appending, closing, happended, hpiece, hrows⟩ :=
    rows_joinFix? h hloop hstatement hsolid hjoin
  have hend := h.endLine_le hloop (Node.isSolid_of_has hjoinable.isFor rfl)
  have hself := h.line_le_endLine hloop g.loop.self_mem_preorder
    (Node.isSolid_of_has hjoinable.isFor rfl)
  -- a line of the loop outside the accumulation stands in the new text
  have hkept (line : Nat) (hfirst : g.loop.line ≤ line) (hlast : line ≤ g.loop.endLine)
      (hout : line < g.statement.line ∨ g.statement.endLine < line) :
      (t.lineText line).toList <:+: text.toList := by
    have hpos := g.loop.line_pos
    suffices hrow : (t.lineText line).toList ∈ splitAt '\n' text.toList from
      infix_of_mem_splitAt hrow
    rw [hrows]
    simp only [List.mem_append, List.mem_map]
    rcases hout with hbefore | hafter
    · have hle := h.line_le hstatement hsolid
      have hmem : t.lineText line ∈ (t.lines.take (g.statement.line - 1)).drop (g.loop.line - 1) :=
        lineText_mem (by omega) (by omega) (by omega)
      exact .inl (.inl (.inl (.inr ⟨_, hmem, rfl⟩)))
    · exact .inl (.inr ⟨_, lineText_mem hafter hlast hend, rfl⟩)
  refine ⟨g, hplace, hholds, rfl, ?_, e, only?_eq_some happended,
    ⟨opening, appending, closing, hrows⟩, ?_⟩
  · simpa [LineRange.of, hself] using hrange
  · rintro c hc hcomment hfirst hlast (hbefore | hafter | ⟨hstart, hstop⟩)
    · exact (h.text_in_line hc (hcomments c hc hcomment)).trans
        (hkept c.line hfirst hlast (.inl hbefore))
    · exact (h.text_in_line hc (hcomments c hc hcomment)).trans
        (hkept c.line hfirst hlast (.inr hafter))
    · exact (stripReturns_begins _).isInfix.trans ((Tree.text_within hstart hstop).trans hpiece)

/-- A comment above the accumulation is kept, and one behind it is lost. -/
theorem join_keeps_lines_above :
    let source := "s = ''\nfor x in xs:\n # a\n s += x # b\n"
    let t : Tree := ⟨source, Tree.rootOf source.toList⟩
    t.Ranged ∧ t.CommentsOnRow ∧ ∃ i fix, issues t = [i] ∧ i.fix = some fix ∧
      "# a".toList <:+: fix.toList ∧ ¬ "# b".toList <:+: fix.toList := by
  intro source t
  let fix := "_s_parts = []\nfor x in xs:\n # a\n _s_parts.append(x)\ns += \"\".join(_s_parts)"
  have hfacts : t.Ranged ∧ t.CommentsOnRow ∧
      (issues t).map (fun i => (i.range, i.line, i.fix)) = [(⟨2, 4⟩, 4, some fix)] ∧
      (∃ c ∈ t.root.preorder, c.has .comment = true ∧ c.line = 3 ∧ t.text c = "# a") := by
    decide +kernel
  obtain ⟨hranged, hcomments, hissues, c, hc, hcomment, hline, htext⟩ := hfacts
  obtain ⟨i, hi, hissue⟩ := List.map_eq_singleton_iff.mp hissues
  simp only [Prod.mk.injEq] at hissue
  obtain ⟨hrange, hstatement, hfix⟩ := hissue
  obtain ⟨g, -, -, rfl, hspan, e, -, -, hkept⟩ :=
    join_keeps_lines t hranged hcomments i (by simp [hi]) fix hfix
  rw [hrange, LineRange.mk.injEq] at hspan
  have habove : c.line < g.statement.line := by
    rw [hline, show g.statement.line = 4 from hstatement]
    omega
  have hfound := hkept c hc hcomment (by omega) (by omega) (.inl habove)
  rw [htext, stripReturns_of_notMem (by decide)] at hfound
  exact ⟨hranged, hcomments, g.issue t, fix, hi, hfix, hfound, by decide +kernel⟩

end Detect.StringConcat

end SafeRefactor
