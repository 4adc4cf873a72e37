import SafeRefactor.Edit
import SafeRefactor.Proofs.Sorting

/-!
# Splicing edits into lines

Edits are checked against the text and against their neighbours in sorted order, and then carried
out from the bottom up. What comes out is one merge of the text with the new lines, read from top to
bottom. The splicing crashes exactly if a range that passed both checks ends before the text begins,
or ends more than one line before it starts.
-/

set_option autoImplicit false

namespace SafeRefactor.Edit

/-- The range lies inside a text of `n` lines. -/
def Inside (n : Nat) (e : Edit) : Prop := 1 ≤ e.range.first ∧ e.range.last ≤ n

/-- The range can be cut out of a text: it may be empty, but no more inverted than that. -/
def Spliceable (e : Edit) : Prop := 1 ≤ e.range.last ∧ e.range.first ≤ e.range.last + 1

/-- The first edit ends above the second. -/
def Above (a b : Edit) : Prop := a.range.last < b.range.first

/-- The two ranges have no line in common. -/
def Apart (a b : Edit) : Prop := a.range.overlaps b.range = false

instance (n : Nat) (e : Edit) : Decidable (e.Inside n) := inferInstanceAs (Decidable (_ ∧ _))

instance (e : Edit) : Decidable e.Spliceable := inferInstanceAs (Decidable (_ ∧ _))

instance (a b : Edit) : Decidable (Apart a b) := inferInstanceAs (Decidable (_ = _))

theorem Apart.symm {a b : Edit} (h : Apart a b) : Apart b a := by
  rw [Apart, LineRange.overlaps_comm]
  exact h

theorem apart_iff (a b : Edit) : Apart a b ↔ Above a b ∨ Above b a := by
  simp [Apart, Above, LineRange.overlaps]
  omega

theorem not_spliceable_iff (e : Edit) :
    ¬ e.Spliceable ↔ e.range.last = 0 ∨ e.range.last + 1 < e.range.first := by
  unfold Spliceable
  omega

theorem le_iff (a b : Edit) : le a b = true ↔
    a.range.first < b.range.first ∨
    a.range.first = b.range.first ∧ a.range.last ≤ b.range.last := by
  simp [le, LineRange.le]

theorem ordered_stablySorted (edits : List Edit) : StablySorted le edits (sortBy le edits) := by
  apply sortBy_stablySorted
  · intro a b
    rw [le_iff, le_iff]
    omega
  · intro a b c
    rw [le_iff, le_iff, le_iff]
    omega

theorem ordered_pairwise (edits : List Edit) :
    (sortBy le edits).Pairwise fun a b => le a b = true :=
  (ordered_stablySorted edits).ordered

theorem firstOutOfRange?_eq_none_iff (n : Nat) (es : List Edit) :
    firstOutOfRange? n es = none ↔ ∀ e ∈ es, e.Inside n := by
  induction es with
  | nil => simp [firstOutOfRange?]
  | cons e es ih =>
    by_cases h : e.range.first = 0 ∨ n < e.range.last
    · have : ¬ e.Inside n := by unfold Inside; omega
      simp [firstOutOfRange?, h, this]
    · have : e.Inside n := by unfold Inside; omega
      simp [firstOutOfRange?, h, this, ih]

theorem firstOverlap?_eq_none_iff (es : List Edit) :
    firstOverlap? es = none ↔ es.IsChain Apart := by
  induction es with
  | nil => simp [firstOverlap?]
  | cons a es ih =>
    cases es with
    | nil => simp [firstOverlap?]
    | cons b es =>
      by_cases h : a.range.overlaps b.range = true
      · simp [firstOverlap?, Apart, h]
      · rw [firstOverlap?, if_neg h, ih, List.isChain_cons_cons]
        simp [Apart, h]

/-- Sorted neighbours that share no line stand one above the other, even if their ranges are empty.
-/
theorem above_of_neighbours {a b : Edit} (hle : le a b = true) (hd : Apart a b)
    (hb : b.Spliceable) :
    Above a b := by
  rw [le_iff] at hle
  rw [apart_iff] at hd
  unfold Above Spliceable at *
  omega

theorem Above.trans {a b c : Edit} (hb : b.Spliceable) (hab : Above a b) (hbc : Above b c) :
    Above a c := by
  unfold Above Spliceable at *
  omega

/-- Comparing neighbours is enough: a list that passes it is a stack of edits, each above all later
ones. -/
theorem ordered_above {es : List Edit} (hs : es.Pairwise fun a b => le a b = true)
    (hd : es.IsChain Apart) (hp : ∀ e ∈ es, e.Spliceable) : es.Pairwise Above := by
  induction es with
  | nil => exact .nil
  | cons a es ih =>
    obtain ⟨ha, hs⟩ := List.pairwise_cons.mp hs
    have htail := ih hs hd.of_cons fun e he => hp e (by simp [he])
    refine List.pairwise_cons.mpr ⟨?_, htail⟩
    cases es with
    | nil => simp
    | cons b es =>
      have hb := hp b (by simp)
      have hab := above_of_neighbours (ha b (by simp)) (List.isChain_cons_cons.mp hd).1 hb
      intro c hc
      rcases List.mem_cons.mp hc with rfl | hc
      · exact hab
      · exact hab.trans hb ((List.pairwise_cons.mp htail).1 c hc)

/-- An edit that ends with the text is the last one. -/
theorem eq_nil_of_above {n : Nat} {e : Edit} {es : List Edit} (hi : ∀ d ∈ es, d.Inside n)
    (hle : ∀ d ∈ es, d.range.first ≤ d.range.last) (habove : ∀ d ∈ es, Above e d)
    (hend : n ≤ e.range.last) : es = [] := by
  refine List.eq_nil_iff_forall_not_mem.mpr fun d hd => ?_
  have hbelow := habove d hd
  have hlast := (hi d hd).2
  have hfirst := hle d hd
  unfold Above at hbelow
  omega

/-- The lines that an edit puts into a text. -/
def newLines (eol : List Char) (lines : List (List Char)) (e : Edit) : List (List Char) :=
  block eol (terminatorOf (lines.getD (e.range.last - 1) [])) e.replacement.toList

/-- The lines of a text from `done` on with edits merged in, from top to bottom. -/
def merge (eol : List Char) (lines : List (List Char)) : Nat → List Edit → List (List Char)
  | done, [] => lines.drop done
  | done, e :: es =>
    (lines.take (e.range.first - 1)).drop done ++ newLines eol lines e ++
      merge eol lines e.range.last es

theorem drop_eq_drop_take_append {α : Type} (xs : List α) {j k : Nat} (h : j ≤ k) :
    xs.drop j = (xs.take k).drop j ++ xs.drop k := by
  rcases Nat.le_total k xs.length with hk | hk
  · have hlen : (xs.take k).length = k := by simp [hk]
    calc xs.drop j = (xs.take k ++ xs.drop k).drop j := by rw [List.take_append_drop]
      _ = (xs.take k).drop j ++ xs.drop k := by
        rw [List.drop_append_of_le_length (by omega)]
  · simp [List.take_of_length_le hk, List.drop_of_length_le hk]

/-- What comes after line `done`: the lines above a range, those of the range, and those below it.
-/
theorem drop_eq_around {α : Type} (xs : List α) {done first last : Nat} (hfirst : done < first)
    (hlast : first ≤ last + 1) :
    xs.drop done = (xs.take (first - 1)).drop done ++
      ((xs.take last).drop (first - 1) ++ xs.drop last) := by
  rw [← drop_eq_drop_take_append xs (by omega), ← drop_eq_drop_take_append xs (by omega)]

/-- Above its first edit a merge is the text itself. -/
theorem merge_eq_append (eol : List Char) (lines : List (List Char)) {j k : Nat} (es : List Edit)
    (h : j ≤ k) (hk : ∀ e ∈ es, k < e.range.first) :
    merge eol lines j es = (lines.take k).drop j ++ merge eol lines k es := by
  cases es with
  | nil => exact drop_eq_drop_take_append lines h
  | cons e es =>
    have hf := hk e (by simp)
    have hcut := drop_eq_drop_take_append (lines.take (e.range.first - 1)) h
    rw [List.take_take, Nat.min_eq_left (by omega)] at hcut
    simp only [merge]
    rw [hcut]
    simp only [List.append_assoc]

theorem splice_eq_ok (eol : List Char) (lines : List (List Char)) (e : Edit)
    (out : List (List Char))
    (hi : e.Inside lines.length) (hs : e.Spliceable) (ho : e.range.last ≤ out.length) :
    splice eol lines e out =
      .ok (out.take (e.range.first - 1) ++ newLines eol lines e ++ out.drop e.range.last) := by
  obtain ⟨hfirst, hlast⟩ := hi
  obtain ⟨hpos, hinv⟩ := hs
  have hline : e.range.last - 1 < lines.length := by omega
  simp only [splice, newLines, List.getElem?_eq_getElem hline, List.getD_eq_getElem?_getD,
    Option.getD_some]
  rw [if_neg (by omega), if_neg (by omega), if_neg (by omega)]

theorem splice_error (eol : List Char) (lines : List (List Char)) (e : Edit)
    (out : List (List Char))
    (hs : ¬ e.Spliceable) : ∃ err, splice eol lines e out = .error err := by
  unfold Spliceable at hs
  simp only [splice]
  split
  · exact ⟨_, rfl⟩
  · split
    · exact ⟨_, rfl⟩
    · rw [if_pos (by omega)]
      exact ⟨_, rfl⟩

theorem splice_isCrash {eol : List Char} {lines : List (List Char)} {e : Edit}
    {out : List (List Char)} {err : EditError} (h : splice eol lines e out = .error err) :
    err.isCrash = true := by
  simp only [splice] at h
  split at h
  · cases h; rfl
  · split at h
    · cases h; rfl
    · split at h
      · cases h; rfl
      · split at h
        · cases h; rfl
        · cases h

theorem spliceAll_isCrash {eol : List Char} {lines : List (List Char)} {es : List Edit}
    {err : EditError} (h : spliceAll eol lines es = .error err) : err.isCrash = true := by
  induction es with
  | nil => cases h
  | cons e es ih =>
    rw [spliceAll] at h
    cases hrest : spliceAll eol lines es with
    | error later =>
      rw [hrest] at h
      cases h
      exact ih hrest
    | ok out =>
      rw [hrest] at h
      exact splice_isCrash h

theorem spliceAll_error (eol : List Char) (lines : List (List Char)) {es : List Edit}
    (h : ∃ e ∈ es, ¬ e.Spliceable) : ∃ err, spliceAll eol lines es = .error err := by
  induction es with
  | nil => simp at h
  | cons e es ih =>
    rw [spliceAll]
    cases hrest : spliceAll eol lines es with
    | error err => exact ⟨err, rfl⟩
    | ok out =>
      obtain ⟨d, hd, hbad⟩ := h
      rcases List.mem_cons.mp hd with rfl | hd
      · exact splice_error eol lines d out hbad
      · obtain ⟨err, herr⟩ := ih ⟨d, hd, hbad⟩
        rw [hrest] at herr
        cases herr

/-- Working from the bottom up never disturbs the lines above: the induction carries that all edits
so far stand below the next one, whose lines are therefore still those of the text. -/
theorem spliceAll_eq_merge (eol : List Char) (lines : List (List Char)) {es : List Edit}
    (hi : ∀ e ∈ es, e.Inside lines.length) (hs : ∀ e ∈ es, e.Spliceable) (ha : es.Pairwise Above) :
    spliceAll eol lines es = .ok (merge eol lines 0 es) := by
  induction es with
  | nil => simp [spliceAll, merge]
  | cons e es ih =>
    obtain ⟨habove, ha⟩ := List.pairwise_cons.mp ha
    have hie := hi e (by simp)
    have hse := hs e (by simp)
    have hlast : e.range.last ≤ lines.length := hie.2
    have hbelow := merge_eq_append eol lines es (Nat.zero_le e.range.last) habove
    have hlen : (lines.take e.range.last).length = e.range.last := by simp [hlast]
    rw [spliceAll, ih (fun d hd => hi d (by simp [hd])) (fun d hd => hs d (by simp [hd])) ha]
    rw [List.drop_zero] at hbelow
    simp only
    rw [splice_eq_ok eol lines e _ hie hse (by rw [hbelow, List.length_append]; omega), hbelow]
    have hshort : e.range.first - 1 ≤ e.range.last := by have := hse.2; omega
    rw [List.take_append_of_le_length (by omega), List.take_take, Nat.min_eq_left hshort,
      List.drop_append_of_le_length (by omega), List.drop_of_length_le (by omega)]
    simp [merge]

/-- The edits pass the checks that are made before any line is replaced. -/
def Checked (source : String) (edits : List Edit) : Prop :=
  (∀ e ∈ edits, e.Inside (Text.pieces source.toList).length) ∧ (sortBy le edits).IsChain Apart

/-- The text with all edits merged in. -/
def merged (source : String) (edits : List Edit) : String :=
  String.ofList
    (merge (terminatorStyle source.toList) (Text.pieces source.toList) 0 (sortBy le edits)).flatten

theorem checked_iff (source : String) (edits : List Edit) : Checked source edits ↔
    firstOutOfRange? (Text.pieces source.toList).length (sortBy le edits) = none ∧
      firstOverlap? (sortBy le edits) = none := by
  rw [firstOutOfRange?_eq_none_iff, firstOverlap?_eq_none_iff, Checked]
  simp only [mem_sortBy]

theorem applyAll_of_not_checked {source : String} {edits : List Edit} (h : ¬ Checked source edits) :
    ∃ err, applyAll source edits = .error err ∧ err.isCrash = false := by
  rw [checked_iff] at h
  simp only [applyAll]
  split
  · exact ⟨_, rfl, rfl⟩
  · next hr =>
    split
    · exact ⟨_, rfl, rfl⟩
    · next ho => exact absurd ⟨hr, ho⟩ h

theorem applyAll_of_checked {source : String} {edits : List Edit} (h : Checked source edits) :
    applyAll source edits =
      (spliceAll (terminatorStyle source.toList) (Text.pieces source.toList) (sortBy le edits)).map
        fun out => String.ofList out.flatten := by
  obtain ⟨hr, ho⟩ := (checked_iff source edits).mp h
  simp only [applyAll, hr, ho]
  cases spliceAll (terminatorStyle source.toList) (Text.pieces source.toList)
    (sortBy le edits) <;> rfl

theorem applyAll_eq_ok_of_checked {source : String} {edits : List Edit} (h : Checked source edits)
    (hs : ∀ e ∈ edits, e.Spliceable) : applyAll source edits = .ok (merged source edits) := by
  have hs' : ∀ e ∈ sortBy le edits, e.Spliceable := fun e he => hs e ((mem_sortBy le edits e).mp he)
  have hi : ∀ e ∈ sortBy le edits, e.Inside (Text.pieces source.toList).length :=
    fun e he => h.1 e ((mem_sortBy le edits e).mp he)
  have ha := ordered_above (ordered_pairwise edits) h.2 hs'
  rw [applyAll_of_checked h, spliceAll_eq_merge _ _ hi hs' ha]
  rfl

/-- Edits that pass the checks crash if and only if one of them cannot be cut out. -/
theorem applyAll_crash_iff (source : String) (edits : List Edit) :
    (∃ err, applyAll source edits = .error err ∧ err.isCrash = true) ↔
      Checked source edits ∧ ∃ e ∈ edits, ¬ e.Spliceable := by
  constructor
  · rintro ⟨err, herr, hcrash⟩
    have hc : Checked source edits := by
      by_contra hn
      obtain ⟨err', herr', hno⟩ := applyAll_of_not_checked hn
      rw [herr] at herr'
      cases herr'
      simp [hcrash] at hno
    refine ⟨hc, ?_⟩
    by_contra hall
    push Not at hall
    rw [applyAll_eq_ok_of_checked hc hall] at herr
    cases herr
  · rintro ⟨hc, e, he, hbad⟩
    obtain ⟨err, herr⟩ := spliceAll_error (terminatorStyle source.toList)
      (Text.pieces source.toList) ⟨e, (mem_sortBy le edits e).mpr he, hbad⟩
    refine ⟨err, ?_, spliceAll_isCrash herr⟩
    rw [applyAll_of_checked hc, herr]
    rfl

theorem applyAll_eq_ok_iff (source : String) (edits : List Edit) (text : String) :
    applyAll source edits = .ok text ↔
      Checked source edits ∧ (∀ e ∈ edits, e.Spliceable) ∧ text = merged source edits := by
  constructor
  · intro h
    have hc : Checked source edits := by
      by_contra hn
      obtain ⟨err, herr, -⟩ := applyAll_of_not_checked hn
      rw [h] at herr
      cases herr
    have hs : ∀ e ∈ edits, e.Spliceable := by
      by_contra hn
      push Not at hn
      obtain ⟨err, herr, -⟩ := (applyAll_crash_iff source edits).mpr ⟨hc, hn⟩
      rw [h] at herr
      cases herr
    rw [applyAll_eq_ok_of_checked hc hs] at h
    cases h
    exact ⟨hc, hs, rfl⟩
  · rintro ⟨hc, hs, rfl⟩
    exact applyAll_eq_ok_of_checked hc hs

/-- What holds of the sorted edits, once they are applied, and of the text that they make. -/
theorem ordered_of_ok {source text : String} {edits : List Edit}
    (h : applyAll source edits = .ok text) :
    (∀ e ∈ sortBy le edits, e.Inside (Text.pieces source.toList).length) ∧
    (∀ e ∈ sortBy le edits, e.Spliceable) ∧ (sortBy le edits).Pairwise Above ∧
    text.toList = (merge (terminatorStyle source.toList) (Text.pieces source.toList) 0
      (sortBy le edits)).flatten := by
  obtain ⟨⟨hinside, hchain⟩, hspliceable, rfl⟩ := (applyAll_eq_ok_iff source edits text).mp h
  simp only [← mem_sortBy le edits] at hinside hspliceable
  refine ⟨hinside, hspliceable, ordered_above (ordered_pairwise edits) hchain hspliceable, ?_⟩
  rw [merged, String.toList_ofList]

/-- For ranges that do not end before they start, comparing sorted neighbours finds every shared
line. -/
theorem checked_iff_pairwise (source : String) {edits : List Edit}
    (hw : ∀ e ∈ edits, e.range.first ≤ e.range.last) : Checked source edits ↔
      (∀ e ∈ edits, e.Inside (Text.pieces source.toList).length) ∧ edits.Pairwise Apart := by
  have hperm : (sortBy le edits).Pairwise Apart ↔ edits.Pairwise Apart :=
    (sortBy_perm le edits).pairwise_iff fun h => h.symm
  constructor
  · rintro ⟨hi, hd⟩
    have hs : ∀ e ∈ sortBy le edits, e.Spliceable := by
      intro e he
      rw [mem_sortBy] at he
      have hfirst := (hi e he).1
      have hle := hw e he
      exact ⟨by omega, by omega⟩
    refine ⟨hi, hperm.mp ?_⟩
    refine (ordered_above (ordered_pairwise edits) hd hs).imp ?_
    intro a b h
    exact (apart_iff a b).mpr (.inl h)
  · rintro ⟨hi, hd⟩
    exact ⟨hi, (hperm.mpr hd).isChain⟩

end SafeRefactor.Edit
