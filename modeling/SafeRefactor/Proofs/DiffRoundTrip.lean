import SafeRefactor.Proofs.LiveGate
import SafeRefactor.Proofs.Patching
import SafeRefactor.Proofs.Places

/-!
# Diffs as patches

A diff is empty exactly if the texts are equal. Otherwise it turns the old text into the new one,
provided that both have the same lines for the diff as for the patch procedure, which knows no
terminator but the line feed, and that the headers of the first and the last hunk count right.
Neither proviso can be left out.
-/

set_option autoImplicit false

namespace SafeRefactor

namespace Text

theorem pieces_row {row : List Char} (hrow : '\n' ∉ row) (rest : List Char) :
    pieces (row ++ '\n' :: rest) = (row ++ ['\n']) :: pieces rest := by
  induction row with
  | nil => rfl
  | cons c row ih =>
    simp only [List.mem_cons, not_or] at hrow
    rw [List.cons_append, pieces, if_neg (Ne.symm hrow.1), ih hrow.2]
    rfl

theorem head?_of_pieces {cs p : List Char} {ps : List (List Char)} (h : pieces cs = p :: ps) :
    p.head? = cs.head? := by
  cases cs with
  | nil => cases h
  | cons c cs =>
    rw [pieces] at h
    split at h
    · cases h
      rfl
    · split at h <;> cases h <;> rfl

/-- Every carriage return is followed by a line feed. -/
def ReturnsPaired : List Char → Prop
  | [] => True
  | c :: cs => (c = '\r' → cs.head? = some '\n') ∧ ReturnsPaired cs

instance decidableReturnsPaired : (cs : List Char) → Decidable (ReturnsPaired cs)
  | [] => .isTrue trivial
  | c :: cs =>
    have := decidableReturnsPaired cs
    inferInstanceAs (Decidable ((c = '\r' → cs.head? = some '\n') ∧ ReturnsPaired cs))

theorem pieces_end {cs : List Char} (hcs : ReturnsPaired cs) {p : List Char} (hp : p ∈ pieces cs) :
    ∃ row c, p = row ++ [c] ∧ '\n' ∉ row ∧ c ≠ '\r' := by
  induction cs generalizing p with
  | nil => simp [pieces] at hp
  | cons c cs ih =>
    rw [pieces] at hp
    split at hp
    · next hc =>
      rcases List.mem_cons.mp hp with rfl | hp
      · exact ⟨[], c, rfl, by simp, by simp [hc]⟩
      · exact ih hcs.2 hp
    · next hc =>
      split at hp
      · next hnil =>
        obtain rfl := List.mem_singleton.mp hp
        have hempty : cs = [] := by
          have hflat := flatten_pieces cs
          rw [hnil] at hflat
          exact hflat.symm
        refine ⟨[], c, rfl, by simp, fun hreturn => ?_⟩
        have hnext := hcs.1 hreturn
        simp [hempty] at hnext
      · next q qs hpieces =>
        rw [hpieces] at ih
        rcases List.mem_cons.mp hp with rfl | hp
        · obtain ⟨row, d, rfl, hrow, hd⟩ := ih hcs.2 (p := q) (by simp)
          exact ⟨c :: row, d, rfl, by simp [Ne.symm hc, hrow], hd⟩
        · exact ih hcs.2 (by simp [hp])

end Text

namespace Diff

theorem flatten_cut (cs : List Char) : (cut cs).flatten = cs := by
  induction cs using cut.induct with
  | case1 => rfl
  | case2 cs ih => simp [cut, ih]
  | case3 cs ih => simp [cut, ih]
  | case4 cs hnext ih =>
    rw [cut]
    · simp [ih]
    · exact hnext
  | case5 c cs hfeed hpair hreturn hcut ih =>
    rw [hcut] at ih
    rw [cut, hcut]
    · simp [← ih]
    all_goals assumption
  | case6 c cs hfeed hpair hreturn l ls hcut ih =>
    rw [hcut] at ih
    rw [cut, hcut]
    · simp [← ih]
    all_goals assumption

theorem map_toList_tokens (text : String) : (tokens text).map String.toList = cut text.toList := by
  simp [tokens]

theorem tokens_injective {a b : String} (h : tokens a = tokens b) : a = b := by
  have hcut := congrArg (List.map String.toList) h
  rw [map_toList_tokens, map_toList_tokens] at hcut
  rw [← String.toList_inj, ← flatten_cut a.toList, hcut, flatten_cut]

theorem cut_eq_pieces {cs : List Char} (hcs : Text.ReturnsPaired cs) : cut cs = Text.pieces cs := by
  induction cs using cut.induct with
  | case1 => rfl
  | case2 cs ih => simp [cut, Text.pieces, ih hcs.2]
  | case3 cs ih => simp [cut, Text.pieces, ih hcs.2.2]
  | case4 cs hnext ih =>
    have hfeed := hcs.1 rfl
    cases cs with
    | nil => cases hfeed
    | cons c cs =>
      cases hfeed
      exact absurd rfl (hnext cs)
  | case5 c cs hfeed hpair hreturn hcut ih =>
    have hpieces := (ih hcs.2).symm.trans hcut
    rw [cut]
    · simp only [hcut, Text.pieces, if_neg hfeed, hpieces]
    all_goals assumption
  | case6 c cs hfeed hpair hreturn l ls hcut ih =>
    have hpieces := (ih hcs.2).symm.trans hcut
    rw [cut]
    · simp only [hcut, Text.pieces, if_neg hfeed, hpieces]
    all_goals assumption

/-- A line whose only line feed, if it has one, is its last character, and which does not end with a
carriage return. -/
def Plain (l : String) : Prop := ∃ row c, l.toList = row ++ [c] ∧ '\n' ∉ row ∧ c ≠ '\r'

theorem tokens_plain {text : String} (h : Text.ReturnsPaired text.toList) {l : String}
    (hl : l ∈ tokens text) :
    Plain l := by
  rw [tokens, cut_eq_pieces h] at hl
  obtain ⟨p, hp, rfl⟩ := List.mem_map.mp hl
  obtain ⟨row, c, rfl, hrow, hc⟩ := Text.pieces_end h hp
  exact ⟨row, c, String.toList_ofList, hrow, hc⟩

end Diff

namespace Patch

open Diff Patching

theorem heedRemarks_cons (l : List Char) {cs : List Char} (hcs : cs.head? ≠ some '\\') :
    heedRemarks (l :: Text.pieces cs) = l :: heedRemarks (Text.pieces cs) := by
  cases hpieces : Text.pieces cs with
  | nil => rfl
  | cons p ps =>
    have hp := Text.head?_of_pieces hpieces
    rw [heedRemarks, if_neg (by rwa [hp])]

/-- A text is read as given lines in whatever place it stands, as long as no remark follows. -/
structure Reads (text : List Char) (ls : List (List Char)) : Prop where
  start : text.head? ≠ some '\\'
  lines : ∀ rest : List Char, rest.head? ≠ some '\\' →
    heedRemarks (Text.pieces (text ++ rest)) = ls ++ heedRemarks (Text.pieces rest)

theorem reads_nil : Reads [] [] := ⟨by simp, fun _ _ => rfl⟩

theorem Reads.append {text more : List Char} {ls ms : List (List Char)} (htext : Reads text ls)
    (hmore : Reads more ms) : Reads (text ++ more) (ls ++ ms) := by
  have hstart {cs ds : List Char} (hcs : cs.head? ≠ some '\\') (hds : ds.head? ≠ some '\\') :
      (cs ++ ds).head? ≠ some '\\' := by
    cases cs with
    | nil => exact hds
    | cons c cs => exact hcs
  refine ⟨hstart htext.start hmore.start, fun rest hrest => ?_⟩
  rw [List.append_assoc, htext.lines _ (hstart hmore.start hrest), hmore.lines rest hrest,
    List.append_assoc]

theorem reads_flatMap {α : Type} {f : α → List Char} {g : α → List (List Char)} {xs : List α}
    (h : ∀ x ∈ xs, Reads (f x) (g x)) : Reads (xs.flatMap f) (xs.flatMap g) := by
  induction xs with
  | nil => exact reads_nil
  | cons x xs ih => exact (h x (by simp)).append (ih fun y hy => h y (by simp [hy]))

theorem reads_row {row : List Char} (hrow : '\n' ∉ row) (hstart : row.head? ≠ some '\\') :
    Reads (row ++ ['\n']) [row ++ ['\n']] := by
  refine ⟨?_, fun rest hrest => ?_⟩
  · cases row with
    | nil => simp
    | cons c row => exact hstart
  · rw [List.append_assoc, List.singleton_append, Text.pieces_row hrow, heedRemarks_cons _ hrest]
    rfl

theorem reads_remarked {row : List Char} (hrow : '\n' ∉ row) (hstart : row.head? ≠ some '\\') :
    Reads (row ++ "\n\\ No newline at end of file\n".toList) [row] := by
  have hremark : "\n\\ No newline at end of file\n".toList =
      '\n' :: ('\\' :: " No newline at end of file".toList ++ ['\n']) := by decide
  rw [hremark]
  refine ⟨?_, fun rest hrest => ?_⟩
  · cases row with
    | nil => simp
    | cons c row => exact hstart
  · rw [List.append_assoc, List.cons_append, Text.pieces_row hrow, List.append_assoc,
      List.singleton_append, Text.pieces_row (by decide), heedRemarks]
    simp

theorem reads_renderLine {sign : Char} (hsign : sign ≠ '\n' ∧ sign ≠ '\\') {l : String}
    (hl : Plain l) :
    Reads (renderLine (String.ofList [sign]) l).toList [sign :: l.toList] := by
  obtain ⟨row, c, htext, hrow, hc⟩ := hl
  have hend : isTerminated l = decide (c = '\n') := by
    simp [isTerminated, htext, hc]
  by_cases hfeed : c = '\n'
  · have hline : (renderLine (String.ofList [sign]) l).toList = (sign :: row) ++ ['\n'] := by
      simp [renderLine, hend, hfeed, htext]
    rw [hline, htext, hfeed]
    exact reads_row (by simp [hrow, Ne.symm hsign.1]) (by simp [hsign.2])
  · have hline : (renderLine (String.ofList [sign]) l).toList =
        (sign :: l.toList) ++ "\n\\ No newline at end of file\n".toList := by
      simp [renderLine, hend, hfeed]
    rw [hline]
    exact reads_remarked (by simp [htext, hrow, Ne.symm hsign.1, Ne.symm hfeed]) (by simp [hsign.2])

theorem reads_signed {sign : Char} (hsign : sign ≠ '\n' ∧ sign ≠ '\\') {ls : List String}
    (hls : ∀ l ∈ ls, Plain l) :
    Reads (String.join (ls.map (renderLine (String.ofList [sign])))).toList (signed sign ls) := by
  rw [String.toList_join, List.flatMap_map, signed, List.map_eq_flatMap]
  exact reads_flatMap fun l hl => reads_renderLine hsign (hls l hl)

theorem reads_block {b : Block} (hold : ∀ l ∈ b.old, Plain l) (hnew : ∀ l ∈ b.new, Plain l) :
    Reads (renderBlock b).toList (shown b) := by
  cases b with
  | same i j ls => exact reads_signed (by decide) hold
  | change i j rs as =>
    rw [renderBlock, String.toList_append]
    exact (reads_signed (by decide) hold).append (reads_signed (by decide) hnew)

theorem newline_notMem_renderRange (start stop : Nat) : '\n' ∉ (renderRange start stop).toList := by
  have hnumber (n : Nat) : '\n' ∉ Nat.toDigits 10 n := fun h =>
    absurd (Nat.isDigit_of_mem_toDigits (by decide) (by decide) h) (by decide)
  unfold renderRange
  split
  · simp [hnumber]
  · split <;> simp [hnumber]

theorem renderHeader_row (first last : Block) :
    ∃ row, (renderHeader first last).toList = row ++ ['\n'] ∧
    '\n' ∉ row ∧ isHeader (row ++ ['\n']) = true := by
  refine ⟨"@@ -".toList ++ ((renderRange first.oldAt (last.oldAt + last.oldLength)).toList ++
    (" +".toList ++
    ((renderRange first.newAt (last.newAt + last.newLength)).toList ++ " @@".toList))), ?_, ?_, ?_⟩
  · simp [renderHeader]
  · simp [newline_notMem_renderRange]
  · simp [isHeader]

theorem reads_hunk {h : List Block} (hold : ∀ l ∈ olds h, Plain l) (hnew : ∀ l ∈ news h, Plain l) :
    Reads (renderHunk h).toList (shownHunk h) := by
  cases h with
  | nil => exact reads_nil
  | cons b bs =>
    obtain ⟨row, hheader, hrow, hmark⟩ := renderHeader_row b ((b :: bs).getLastD b)
    have hstart : row.head? ≠ some '\\' := by
      intro hslash
      cases row with
      | nil => simp at hslash
      | cons c row =>
        simp at hslash
        simp [isHeader, hslash] at hmark
    have hblocks : Reads ((b :: bs).flatMap fun b => (renderBlock b).toList)
        ((b :: bs).flatMap shown) :=
      reads_flatMap fun b hb => reads_block (fun l hl => hold l (List.mem_flatMap.mpr ⟨b, hb, hl⟩))
        fun l hl => hnew l (List.mem_flatMap.mpr ⟨b, hb, hl⟩)
    have hall := (reads_row hrow hstart).append hblocks
    rw [renderHunk, shownHunk, hheader, String.toList_append, hheader, String.toList_join,
      List.flatMap_map]
    exact hall

end Patch

namespace Diff

/-- The hunks of a diff begin with a header. -/
theorem Tells.dropWhile_pieces {i j : Nat} {a b : List String} {hs : List (List Block)}
    (htells : Tells i j a b hs) :
    (Text.pieces (hs.flatMap fun h => (renderHunk h).toList)).dropWhile
    (fun l => !Patch.isHeader l) =
      Text.pieces (hs.flatMap fun h => (renderHunk h).toList) := by
  cases htells with
  | rest => rfl
  | @hunk _ _ gap h a b hs hne =>
    cases h with
    | nil => exact absurd rfl hne
    | cons first more =>
      obtain ⟨row, hheader, hrow, hmark⟩ :=
        Patch.renderHeader_row first ((first :: more).getLastD first)
      rw [List.flatMap_cons, renderHunk, String.toList_append, hheader, List.append_assoc,
        List.append_assoc, List.singleton_append, Text.pieces_row hrow, List.dropWhile_cons_of_neg]
      simp [hmark]

/-- The lines of a diff that stand before its hunks. -/
def Labels.preamble (labels : Labels) : String :=
  "--- " ++ labels.old ++ "\n+++ " ++ labels.new ++ "\n"

/-- No line before the hunks can be taken for the header of a hunk. -/
def Labels.Quiet (labels : Labels) : Prop :=
  ∀ l ∈ Text.pieces labels.preamble.toList, Patch.isHeader l = false

instance (labels : Labels) : Decidable labels.Quiet :=
  inferInstanceAs (Decidable (∀ l ∈ Text.pieces labels.preamble.toList, Patch.isHeader l = false))

/-- The script that a diff shows. -/
def shownScript (old new : String) : Script := compact (findScript (tokens old) (tokens new))

theorem shownScript_leads (old new : String) :
    Script.Leads 0 0 (tokens old) (tokens new) (shownScript old new) :=
  (compact_keeps _).leads (findScript_leads _ _)

theorem unified_eq (labels : Labels) {old new : String} (h : old ≠ new) : unified labels old new =
    labels.preamble ++ String.join ((hunks (shownScript old new)).map renderHunk) := by
  have hsome : hunks (shownScript old new) ≠ [] := fun hnil =>
    h (tokens_injective (eq_of_hunks_eq_nil (shownScript_leads old new) hnil))
  rw [unified, if_neg h]
  split
  · next hnil => exact absurd hnil hsome
  · rfl

theorem unified_eq_empty_iff (labels : Labels) (old new : String) :
    unified labels old new = "" ↔ old = new := by
  constructor
  · intro hempty
    by_cases h : old = new
    · exact h
    · rw [unified_eq labels h, ← String.toList_inj] at hempty
      simp [Labels.preamble] at hempty
  · intro h
    rw [unified, if_pos h]

/-- The two texts have no lines that only the diff would see, and the first and the last block of
the diff stand where they should in both texts. -/
structure Regular (old new : String) : Prop where
  old_paired : Text.ReturnsPaired old.toList
  new_paired : Text.ReturnsPaired new.toList
  framed : Framed 0 0 (blocks (shownScript old new))

theorem regular_of_tiled {old new : String} (hold : Text.ReturnsPaired old.toList)
    (hnew : Text.ReturnsPaired new.toList) (h : Tiled 0 0 (blocks (shownScript old new))) :
    Regular old new :=
  ⟨hold, hnew, h.framed⟩

theorem hunkLines_unified {labels : Labels} (hlabels : labels.Quiet) {old new : String}
    (hne : old ≠ new) (hregular : Regular old new) :
    Patch.hunkLines (unified labels old new).toList =
      (hunks (shownScript old new)).flatMap Patch.Patching.shownHunk := by
  have htells := hunks_tell (shownScript_leads old new) hregular.framed
  have hreads : Patch.Reads ((hunks (shownScript old new)).flatMap fun h => (renderHunk h).toList)
      ((hunks (shownScript old new)).flatMap Patch.Patching.shownHunk) :=
    Patch.reads_flatMap fun h hh => Patch.reads_hunk
      (fun l hl => tokens_plain hregular.old_paired ((htells.mem hh).1 l hl))
      fun l hl => tokens_plain hregular.new_paired ((htells.mem hh).2 l hl)
  obtain ⟨cs, hpreamble⟩ : ∃ cs, labels.preamble.toList = cs ++ ['\n'] :=
    ⟨_, by rw [Labels.preamble, String.toList_append]; rfl⟩
  rw [Labels.Quiet] at hlabels
  rw [Patch.hunkLines, unified_eq labels hne, String.toList_append, String.toList_join,
    List.flatMap_map, hpreamble, List.append_assoc, List.singleton_append,
    Text.pieces_append_newline, ← hpreamble, List.dropWhile_append_of_pos (by simpa using hlabels),
    htells.dropWhile_pieces]
  have hlines := hreads.lines [] (by simp)
  rwa [List.append_nil, Text.pieces, Patch.heedRemarks, List.append_nil] at hlines

theorem patch?_unified {labels : Labels} (hlabels : labels.Quiet) {old new : String}
    (hregular : Regular old new) :
    Patch.patch? (unified labels old new) old = some new := by
  have htext (text : String) : String.ofList (Text.pieces text.toList).flatten = text := by
    rw [Text.flatten_pieces, String.ofList_toList]
  by_cases h : old = new
  · subst h
    rw [(unified_eq_empty_iff labels old old).mpr rfl, Patch.patch?]
    exact congrArg some (htext old)
  · have htells := hunks_tell (shownScript_leads old new) hregular.framed
    have hrun : _ = some ([] ++ (tokens new).map String.toList) :=
      Patch.Patching.finish?_hunks htells
    rw [map_toList_tokens, map_toList_tokens, cut_eq_pieces hregular.old_paired,
      cut_eq_pieces hregular.new_paired, List.nil_append] at hrun
    rw [Patch.patch?, hunkLines_unified hlabels h hregular, hrun, Option.map_some, htext]

/-- A diff is empty exactly if the texts are equal; the diff of regular texts turns the old one into
the new one; and so does the diff that a run shows, which shows one exactly if it changed the text.
Texts are regular if the blocks tile both and no carriage return in them stands alone. -/
theorem unified_patches (old new : String) :
    (∀ labels, unified labels old new = "" ↔ old = new) ∧
    (Text.ReturnsPaired old.toList → Text.ReturnsPaired new.toList →
      Tiled 0 0 (blocks (shownScript old new)) → Regular old new) ∧
    (Regular old new → ∀ labels : Labels, labels.Quiet →
      Patch.patch? (unified labels old new) old = some new) ∧
    ∀ (mode : Execution.Mode) (plan : Plan), (Execution.run mode old plan).after = some new →
      ((Execution.run mode old plan).diff = none ↔ new = old) ∧
      (Regular old new → (Labels.ofSource plan.sourceId).Quiet →
        ∀ d, (Execution.run mode old plan).diff = some d → Patch.patch? d old = some new) := by
  refine ⟨fun labels => unified_eq_empty_iff labels old new, regular_of_tiled,
    fun hregular labels hlabels => patch?_unified hlabels hregular, ?_⟩
  intro mode plan hafter
  have hdiff : (Execution.run mode old plan).diff =
      if new = old then none else some (unified (.ofSource plan.sourceId) old new) := by
    rw [Execution.run] at hafter ⊢
    cases ho : Execution.outcome mode old plan with
    | failed errors => simp [ho, Execution.ofOutcome] at hafter
    | planned changes => simp [ho, Execution.ofOutcome] at hafter
    | applied text changes =>
      obtain rfl : text = new := by simpa [ho, Execution.ofOutcome] using hafter
      rfl
  rw [hdiff]
  constructor
  · split <;> simp_all
  · intro hregular hlabels d hd
    split at hd
    · cases hd
    · cases hd
      exact patch?_unified hlabels hregular

theorem unified_patches_unterminated :
    unified .generic "x = 1\nz = 3" "y = 2\nz = 3" =
        "--- original\n+++ refactored\n@@ -1,2 +1,2 @@\n-x = 1\n+y = 2\n z = 3\n" ++
          "\\ No newline at end of file\n" ∧
      Patch.patch? (unified .generic "x = 1\nz = 3" "y = 2\nz = 3") "x = 1\nz = 3" =
        some "y = 2\nz = 3" ∧
      ∃ d, (Execution.run ⟨false, false⟩ "x = 1\nz = 3"
          (Execution.samplePlan "x = 1\nz = 3" ⟨1, 1⟩ "y = 2")).diff = some d ∧
        Patch.patch? d "x = 1\nz = 3" = some "y = 2\nz = 3" := by
  have hafter : (Execution.run ⟨false, false⟩ "x = 1\nz = 3"
      (Execution.samplePlan "x = 1\nz = 3" ⟨1, 1⟩ "y = 2")).after = some "y = 2\nz = 3" :=
    Execution.live_after_iff.mpr ⟨Execution.samplePlan_admitted _ _ _ (by decide +kernel), .inl rfl,
      by decide +kernel, (Syntax.Tree.validates_iff "y = 2\nz = 3").mp (by decide +kernel)⟩
  obtain ⟨-, htiled, hpatch, hrun⟩ := unified_patches "x = 1\nz = 3" "y = 2\nz = 3"
  have hregular := htiled (by decide +kernel) (by decide +kernel) (by decide +kernel)
  obtain ⟨hsame, hshown⟩ := hrun _ _ hafter
  obtain ⟨d, hd⟩ := Option.ne_none_iff_exists'.mp (fun h => absurd (hsame.mp h) (by decide))
  exact ⟨by decide +kernel, hpatch hregular .generic (by decide +kernel), d, hd,
    hshown hregular (by decide +kernel) d hd⟩

-- A carriage return alone ends a line of the diff and no line of the patch procedure.
example : Patch.patch? (unified .generic "a\rb\n" "a\rc\n") "a\rb\n" = none := by decide +kernel

-- The added line was moved past the line in common, and its place in the old text was not.
example : Patch.patch? (unified .generic "a\nb\n" "b\nb\n") "a\nb\n" = none := by decide +kernel

end Diff

end SafeRefactor
