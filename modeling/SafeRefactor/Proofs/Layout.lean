import SafeRefactor.Proofs.Rows

/-!
# The layout of an edited text

Carried out from the bottom up, edits leave a text that can be written down from top to bottom: the
lines above the first edit, what the first edit puts in, the lines down to the second one, and so
on. Every part keeps the numbers that its lines have in the source, and the numbers grow from part
to part. So no edit reaches into another, and the lines that no edit is about are all there, once
and in order. This also holds of ranges that end one line before they start, which put lines in and
take none out.
-/

set_option autoImplicit false

namespace SafeRefactor.Edit

/-- A part of an edited text: a numbered line of the source, or what an edit puts in. -/
inductive Segment where
  | kept (number : Nat) (line : List Char)
  | put (edit : Edit)
  deriving DecidableEq, Repr

namespace Segment

/-- The lines of the source that a segment stands for. -/
def range : Segment → LineRange
  | kept number _ => ⟨number, number⟩
  | put edit => edit.range

/-- The first segment stands for lines above those of the second. -/
def Before (a b : Segment) : Prop := a.range.last < b.range.first

def kept? : Segment → Option (List Char × Nat)
  | kept number line => some (line, number)
  | put _ => none

def put? : Segment → Option Edit
  | kept _ _ => none
  | put edit => some edit

end Segment

/-- What an edit puts in: nothing, or the parts of its replacement without the carriage returns at
their ends, joined with the terminator that the source uses and closed with that of the last line
replaced. -/
def putText (source : String) (e : Edit) : List Char :=
  if e.replacement = "" then []
  else
    (terminatorStyle source.toList).intercalate
        ((Text.splitAt '\n' e.replacement.toList).map (Text.dropEndWhile (· = '\r'))) ++
      terminatorOf ((Text.pieces source.toList).getD (e.range.last - 1) [])

def Segment.text (source : String) : Segment → List Char
  | kept _ line => line
  | put edit => putText source edit

def keepAll (numbered : List (List Char × Nat)) : List Segment :=
  numbered.map fun x => .kept x.2 x.1

/-- The lines after line `done`, with edits in their places, from top to bottom. -/
def layout (lines : List (List Char)) : Nat → List Edit → List Segment
  | done, [] => keepAll ((lines.zipIdx 1).drop done)
  | done, e :: es =>
    keepAll (((lines.zipIdx 1).take (e.range.first - 1)).drop done) ++ .put e ::
      layout lines e.range.last es

theorem flatten_terminate (eol final : List Char) {parts : List (List Char)} (h : parts ≠ []) :
    (terminate eol final parts).flatten = eol.intercalate parts ++ final := by
  induction parts with
  | nil => exact absurd rfl h
  | cons p parts ih =>
    cases parts with
    | nil => simp [terminate]
    | cons q parts =>
      have hrest := ih (by simp)
      simp only [terminate, List.flatten_cons, hrest, List.intercalate_cons_cons, List.append_assoc]

theorem flatten_newLines (source : String) (e : Edit) :
    (newLines (terminatorStyle source.toList) (Text.pieces source.toList) e).flatten =
      putText source e := by
  unfold newLines putText
  by_cases h : e.replacement = ""
  · simp [h, block]
  · rw [if_neg h, block_of_ne_nil _ _ (by simpa using h),
      flatten_terminate _ _ (by simp [Text.splitAt_ne_nil])]
    rfl

theorem keepAll_text (source : String) (numbered : List (List Char × Nat)) :
    (keepAll numbered).flatMap (Segment.text source) = (numbered.map Prod.fst).flatten := by
  simp [keepAll, List.flatMap_def, Function.comp_def, Segment.text]

theorem layout_text (source : String) (done : Nat) (es : List Edit) :
    (layout (Text.pieces source.toList) done es).flatMap (Segment.text source) =
      (merge (terminatorStyle source.toList) (Text.pieces source.toList) done es).flatten := by
  induction es generalizing done with
  | nil => rw [layout, keepAll_text, merge, List.map_drop, List.zipIdx_map_fst]
  | cons e es ih =>
    rw [layout, merge, List.flatMap_append, List.flatMap_cons, keepAll_text, ih,
      map_fst_drop_take_zipIdx, List.flatten_append, List.flatten_append, flatten_newLines,
      List.append_assoc]
    rfl

theorem keepAll_kept (numbered : List (List Char × Nat)) :
    (keepAll numbered).filterMap Segment.kept? = numbered := by
  simp [keepAll, List.filterMap_map, Function.comp_def, Segment.kept?]

theorem keepAll_put (numbered : List (List Char × Nat)) :
    (keepAll numbered).filterMap Segment.put? = [] := by
  simp [keepAll, List.filterMap_map, Function.comp_def, Segment.put?]

theorem layout_put (lines : List (List Char)) (done : Nat) (es : List Edit) :
    (layout lines done es).filterMap Segment.put? = es := by
  induction es generalizing done with
  | nil => exact keepAll_put _
  | cons e es ih =>
    rw [layout, List.filterMap_append, keepAll_put, List.nil_append,
      List.filterMap_cons_some (f := Segment.put?) rfl, ih]

/-- No edit is about the line of that number. -/
def Untouched (es : List Edit) (number : Nat) : Prop :=
  ∀ e ∈ es, number < e.range.first ∨ e.range.last < number

instance (es : List Edit) (number : Nat) : Decidable (Untouched es number) :=
  inferInstanceAs (Decidable (∀ e ∈ es, _))

theorem untouched_cons (e : Edit) (es : List Edit) (number : Nat) :
    Untouched (e :: es) number ↔
      (number < e.range.first ∨ e.range.last < number) ∧ Untouched es number :=
  List.forall_mem_cons

theorem layout_kept (lines : List (List Char)) {done : Nat} {es : List Edit}
    (hs : ∀ e ∈ es, e.Spliceable) (ha : es.Pairwise Above)
    (hstart : ∀ e ∈ es, done < e.range.first) :
    (layout lines done es).filterMap Segment.kept? =
      ((lines.zipIdx 1).drop done).filter fun x => Untouched es x.2 := by
  induction es generalizing done with
  | nil =>
    rw [layout, keepAll_kept, List.filter_eq_self.mpr]
    simp [Untouched]
  | cons e es ih =>
    obtain ⟨hbelow, ha⟩ := List.pairwise_cons.mp ha
    have hdone := hstart e (by simp)
    have hinv := (hs e (by simp)).2
    have hrest := ih (fun d hd => hs d (by simp [hd])) ha hbelow
    have hcut := drop_eq_around (lines.zipIdx 1) hdone hinv
    have habove : (((lines.zipIdx 1).take (e.range.first - 1)).drop done).filter
        (fun x => Untouched (e :: es) x.2) =
          ((lines.zipIdx 1).take (e.range.first - 1)).drop done := by
      -- Later edits begin below this one, and it begins below these lines.
      refine List.filter_eq_self.mpr fun x hx => decide_eq_true fun d hd => .inl ?_
      have hrow := le_of_mem_take_zipIdx (List.mem_of_mem_drop hx)
      rcases List.mem_cons.mp hd with rfl | hd
      · omega
      · have hd := hbelow d hd
        unfold Above at hd
        omega
    have hwithin : (((lines.zipIdx 1).take e.range.last).drop (e.range.first - 1)).filter
        (fun x => Untouched (e :: es) x.2) = [] := by
      refine List.filter_eq_nil_iff.mpr fun x hx hout => ?_
      have hlast := le_of_mem_take_zipIdx (List.mem_of_mem_drop hx)
      rw [List.drop_take] at hx
      have hfirst := lt_of_mem_drop_zipIdx (List.mem_of_mem_take hx)
      have hsides := of_decide_eq_true hout e (by simp)
      omega
    have hafter : ((lines.zipIdx 1).drop e.range.last).filter (fun x => Untouched (e :: es) x.2) =
        ((lines.zipIdx 1).drop e.range.last).filter (fun x => Untouched es x.2) := by
      refine List.filter_congr fun x hx => ?_
      have hrow := lt_of_mem_drop_zipIdx hx
      rw [decide_eq_decide, untouched_cons]
      exact and_iff_right (.inr hrow)
    rw [layout, List.filterMap_append, keepAll_kept,
      List.filterMap_cons_none (f := Segment.kept?) rfl, hrest, hcut, List.filter_append,
      List.filter_append, habove, hwithin, hafter, List.nil_append]

theorem zipIdx_pairwise (lines : List (List Char)) :
    (lines.zipIdx 1).Pairwise fun a b => a.2 < b.2 := by
  refine List.pairwise_iff_getElem.mpr fun i j hi hj hij => ?_
  simp
  omega

theorem keepAll_pairwise {numbered : List (List Char × Nat)}
    (h : numbered.Pairwise fun a b => a.2 < b.2) : (keepAll numbered).Pairwise Segment.Before :=
  List.pairwise_map.mpr h

theorem mem_keepAll {numbered : List (List Char × Nat)} {s : Segment} (h : s ∈ keepAll numbered) :
    ∃ x ∈ numbered, s.range = ⟨x.2, x.2⟩ := by
  obtain ⟨x, hx, rfl⟩ := List.mem_map.mp h
  exact ⟨x, hx, rfl⟩

theorem done_lt_of_mem_layout {lines : List (List Char)} {done : Nat} {es : List Edit}
    (hs : ∀ e ∈ es, e.Spliceable) (hstart : ∀ e ∈ es, done < e.range.first) (ha : es.Pairwise Above)
    {s : Segment} (h : s ∈ layout lines done es) : done < s.range.first := by
  induction es generalizing done with
  | nil =>
    obtain ⟨x, hx, hr⟩ := mem_keepAll h
    rw [hr]
    exact lt_of_mem_drop_zipIdx hx
  | cons e es ih =>
    have hdone := hstart e (by simp)
    obtain ⟨hbelow, ha⟩ := List.pairwise_cons.mp ha
    rcases List.mem_append.mp h with h | h
    · obtain ⟨x, hx, hr⟩ := mem_keepAll h
      rw [List.drop_take] at hx
      rw [hr]
      exact lt_of_mem_drop_zipIdx (List.mem_of_mem_take hx)
    · rcases List.mem_cons.mp h with rfl | h
      · exact hdone
      · have hlater := ih (fun d hd => hs d (by simp [hd])) hbelow ha h
        have hinv := (hs e (by simp)).2
        omega

theorem layout_pairwise (lines : List (List Char)) {done : Nat} {es : List Edit}
    (hs : ∀ e ∈ es, e.Spliceable) (ha : es.Pairwise Above) :
    (layout lines done es).Pairwise Segment.Before := by
  induction es generalizing done with
  | nil => exact keepAll_pairwise ((zipIdx_pairwise lines).sublist (List.drop_sublist _ _))
  | cons e es ih =>
    obtain ⟨hbelow, ha⟩ := List.pairwise_cons.mp ha
    have hs' : ∀ d ∈ es, d.Spliceable := fun d hd => hs d (by simp [hd])
    have hinv := (hs e (by simp)).2
    have hlater : ∀ s ∈ layout lines e.range.last es, e.range.last < s.range.first :=
      fun s h => done_lt_of_mem_layout hs' hbelow ha h
    rw [layout, List.pairwise_append, List.pairwise_cons]
    refine ⟨keepAll_pairwise ((zipIdx_pairwise lines).sublist ?_), ⟨hlater, ih hs' ha⟩, ?_⟩
    · exact (List.drop_sublist _ _).trans (List.take_sublist _ _)
    · intro s hsegment t ht
      obtain ⟨x, hx, hr⟩ := mem_keepAll hsegment
      have hrow := le_of_mem_take_zipIdx (List.mem_of_mem_drop hx)
      have hpos := (lt_of_mem_drop_zipIdx (n := 0) (List.mem_of_mem_take (List.mem_of_mem_drop hx)))
      rw [Segment.Before, hr]
      rcases List.mem_cons.mp ht with rfl | ht
      · show x.2 < e.range.first
        omega
      · have := hlater t ht
        show x.2 < t.range.first
        omega

theorem untouched_sortBy (edits : List Edit) (number : Nat) :
    Untouched (sortBy le edits) number ↔ Untouched edits number := by
  simp only [Untouched, mem_sortBy]

/-- Whenever edits are applied, sorted they stand one above the other, none more inverted than an
insertion, and the new text is laid out from top to bottom: the lines above the first edit, what it
puts in, the lines between it and the second, and so on down to the lines below the last. The edits
are all there in order, and so are the lines that none of them is about, as they were. -/
theorem applyAll_lays_out (source : String) (edits : List Edit) (text : String)
    (h : applyAll source edits = .ok text) :
    let ordered := sortBy le edits
    let parts := layout (Text.pieces source.toList) 0 ordered
    StablySorted le edits ordered ∧
    (∀ e ∈ ordered, 1 ≤ e.range.first ∧ e.range.first ≤ e.range.last + 1) ∧
    (ordered.IsChain fun a b => a.range.last < b.range.first) ∧
    text.toList = parts.flatMap (Segment.text source) ∧
    parts.Pairwise Segment.Before ∧
    parts.filterMap Segment.put? = ordered ∧
    parts.filterMap Segment.kept? =
      ((Text.pieces source.toList).zipIdx 1).filter fun x => Untouched edits x.2 := by
  intro ordered parts
  obtain ⟨hi, hs, ha, htext⟩ := ordered_of_ok h
  have hkept : parts.filterMap Segment.kept? = _ := layout_kept _ hs ha fun e he => (hi e he).1
  refine ⟨ordered_stablySorted edits, fun e he => ⟨(hi e he).1, (hs e he).2⟩, ha.isChain, ?_,
    layout_pairwise _ hs ha, layout_put _ _ _, ?_⟩
  · rw [htext, layout_text]
  · simp only [hkept, List.drop_zero, ordered, untouched_sortBy]

/-- Two lines are put in between the first line and the second, and the last line is replaced. -/
theorem applyAll_lays_out_insertion :
    let source := "a\r\nb\r\nc"
    let edits : List Edit := [⟨⟨3, 3⟩, "z"⟩, ⟨⟨2, 1⟩, "x\ny\r"⟩]
    let parts := layout (Text.pieces source.toList) 0 (sortBy le edits)
    applyAll source edits = .ok "a\r\nx\r\ny\r\nb\r\nz" ∧
      parts.flatMap (Segment.text source) = "a\r\nx\r\ny\r\nb\r\nz".toList ∧
      parts.filterMap Segment.kept? = [("a\r\n".toList, 1), ("b\r\n".toList, 2)] := by
  intro source edits parts
  have happly : applyAll source edits = .ok "a\r\nx\r\ny\r\nb\r\nz" := by decide +kernel
  obtain ⟨-, -, -, htext, -, -, hkept⟩ := applyAll_lays_out source edits _ happly
  refine ⟨happly, htext.symm, hkept.trans ?_⟩
  decide +kernel

end SafeRefactor.Edit
