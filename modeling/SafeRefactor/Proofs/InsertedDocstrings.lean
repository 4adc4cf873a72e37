import SafeRefactor.Proofs.FixTexts
import SafeRefactor.Proofs.FixesApart

/-!
# Inserted docstrings

The fix for a missing docstring, made alone, adds one row to the text: below the header and above
the body, and as far in as the body. The rows are all that tells where the body is. Where it belongs
to the header's own line, continued by a backslash, the new row takes its place in the function.
-/

set_option autoImplicit false

namespace SafeRefactor

open Syntax Text

namespace Detect.Docstring

variable {t : Tree} {n : Node}

/-- Where the new row comes from: the first statement of the body stands below the header and is
first on its line. -/
theorem fix?_row {header : LineRange} {fix : String} (h : fix? t n header = some fix) :
    ∃ first rest, bodyStatements n = first :: rest ∧ header.last < first.line ∧
      (t.indentation first.line).utf8ByteSize = first.start.column ∧
      row t n = (t.indentation first.line ++ placeholder (functionName t n)).toList := by
  unfold fix? at h
  split at h
  · cases h
  · next first rest hbody =>
    simp only at h
    split at h
    · next happlies => exact ⟨first, rest, hbody, happlies.1, happlies.2.1, by simp [row, hbody]⟩
    · cases h

/-- A docstring fix made alone adds one row right below the header and changes no other, up to
carriage returns; without carriage returns in the source the others are the same to the byte. -/
theorem fix_adds_row (t : Tree) (h : t.Ranged) (hnames : t.NamesOnRow) :
    ∀ i ∈ issues t, ∀ fix, i.fix = some fix → ∃ n ∈ t.root.preorder, i = issue t n ∧
      n.has .functionDefinition = true ∧ hasDocstring n = false ∧
      (∃ first rest, bodyStatements n = first :: rest ∧ headerEnd n < first.line ∧
        (t.indentation first.line).utf8ByteSize = first.start.column ∧
        row t n = (t.indentation first.line ++ placeholder (functionName t n)).toList) ∧
      ∃ text, Edit.applyAll t.source [⟨i.range, fix⟩] = .ok text ∧
        let rows := splitAt '\n' t.source.toList
        let documented := rows.take (headerEnd n) ++ [row t n] ++ rows.drop (headerEnd n)
        (splitAt '\n' text.toList).map stripReturns = documented.map stripReturns ∧
        ('\r' ∉ t.source.toList → splitAt '\n' text.toList = documented) := by
  intro i hi fix hfix
  rw [issues, List.mem_map] at hi
  obtain ⟨c, hc, rfl⟩ := hi
  rw [List.mem_filter, Bool.not_eq_true'] at hc
  obtain ⟨hn, hf⟩ := mem_functions hc.1
  generalize c.node = n at *
  have hrange := issue_range h hn
  rw [issue_fix h hn] at hfix
  have hpos := n.line_pos
  have hle := line_le_headerEnd h hn
  have hend := headerEnd_le h hn hf
  obtain ⟨happly, hrows⟩ := Edit.rows_single t.source (e := ⟨⟨n.line, headerEnd n⟩, fix⟩) hpos hle
    (t.length_lines ▸ hend) (fix?_ne_empty hfix)
  have hsame : (splitAt '\n' (Edit.merged t.source [⟨⟨n.line, headerEnd n⟩, fix⟩]).toList).map
      stripReturns =
      ((splitAt '\n' t.source.toList).take (headerEnd n) ++ [row t n] ++
        (splitAt '\n' t.source.toList).drop (headerEnd n)).map stripReturns := by
    have hshort : n.line - 1 ≤ headerEnd n := by omega
    have hheader := List.take_append_drop (n.line - 1)
      ((splitAt '\n' t.source.toList).take (headerEnd n))
    rw [List.take_take, Nat.min_eq_left hshort] at hheader
    rw [hrows, List.map_append, List.map_append, rows_fix? h hnames hn hf hfix, ← List.map_append,
      ← List.map_append, ← List.append_assoc _ _ [row t n], hheader]
  refine ⟨n, hn, rfl, hf, hc.2, fix?_row hfix, _, by rw [hrange]; exact happly, hsame,
    fun hreturn => ?_⟩
  have htext : '\r' ∉ (Edit.merged t.source [⟨⟨n.line, headerEnd n⟩, fix⟩]).toList :=
    Edit.return_notMem_merged hreturn (by simpa using return_notMem_fix? h hreturn hn hf hfix)
  have hkept : ∀ r ∈ splitAt '\n' t.source.toList, '\r' ∉ r :=
    fun r hr hmem => hreturn ((mem_splitAt hr).2 _ hmem)
  have hdocumented : ∀ r ∈ (splitAt '\n' t.source.toList).take (headerEnd n) ++ [row t n] ++
      (splitAt '\n' t.source.toList).drop (headerEnd n), '\r' ∉ r := by
    intro r hr
    rw [List.mem_append, List.mem_append, List.mem_singleton] at hr
    rcases hr with (hr | rfl) | hr
    · exact hkept r (List.mem_of_mem_take hr)
    · exact notMem_row (.inr rfl) (return_notMem_functionName t n hreturn)
    · exact hkept r (List.mem_of_mem_drop hr)
  rwa [map_stripReturns_of_notMem fun r hr hmem => htext ((mem_splitAt hr).2 _ hmem),
    map_stripReturns_of_notMem hdocumented] at hsame

/-- The body of the function goes on from the header's own line. The new row cuts it off. -/
theorem fix_adds_row_continued :
    let source := "def f(): \\\n return 1\n"
    let text := "def f(): \\\n \"\"\"TODO: document f.\"\"\"\n return 1\n"
    let t : Tree := ⟨source, Tree.rootOf source.toList⟩
    let edited : Tree := ⟨text, Tree.rootOf text.toList⟩
    t.Ranged ∧ t.NamesOnRow ∧ (∃ i fix, issues t = [i] ∧ i.fix = some fix ∧
      Edit.applyAll source [⟨i.range, fix⟩] = .ok text ∧ splitAt '\n' text.toList =
        (splitAt '\n' source.toList).take 1 ++ [" \"\"\"TODO: document f.\"\"\"".toList] ++
          (splitAt '\n' source.toList).drop 1) ∧
      (t.functions.map fun c => (bodyStatements c.node).map t.text) = [["return 1"]] ∧
      (edited.functions.map fun c => (bodyStatements c.node).map edited.text) =
        [["\"\"\"TODO: document f.\"\"\""]] := by
  intro source text t edited
  let fix := "def f(): \\\n \"\"\"TODO: document f.\"\"\""
  have hfacts : t.Ranged ∧ t.NamesOnRow ∧
      (issues t).map (fun i => (i.range, i.fix)) = [(⟨1, 1⟩, some fix)] ∧
      Edit.applyAll source [⟨⟨1, 1⟩, fix⟩] = .ok text ∧
      (∀ n ∈ t.root.preorder, n.has .functionDefinition = true →
        headerEnd n = 1 ∧ row t n = " \"\"\"TODO: document f.\"\"\"".toList) ∧
      (t.functions.map fun c => (bodyStatements c.node).map t.text) = [["return 1"]] ∧
      (edited.functions.map fun c => (bodyStatements c.node).map edited.text) =
        [["\"\"\"TODO: document f.\"\"\""]] := by
    decide +kernel
  obtain ⟨hranged, hnames, hissues, happly, hnodes, hbody, hcut⟩ := hfacts
  obtain ⟨i, hi, hissue⟩ := List.map_eq_singleton_iff.mp hissues
  obtain ⟨hrange, hfix⟩ := Prod.mk.inj hissue
  obtain ⟨n, hn, -, hf, -, -, text', happlied, -, hexact⟩ :=
    fix_adds_row t hranged hnames i (by simp [hi]) fix hfix
  rw [hrange] at happlied
  obtain rfl : text' = text := by
    rw [happly] at happlied
    exact (Except.ok.inj happlied).symm
  obtain ⟨hheader, hrow⟩ := hnodes n hn hf
  rw [hheader, hrow] at hexact
  exact ⟨hranged, hnames, ⟨i, fix, hi, hfix, by rw [hrange]; exact happly, hexact (by decide)⟩,
    hbody, hcut⟩

end Detect.Docstring

end SafeRefactor
