import Mathlib.Data.List.NodupEquivFin
import Mathlib.Data.List.Permutation
import SafeRefactor.Proofs.Splicing

/-!
# Which edits are rejected

Edits whose ranges do not end before they start are rejected for two reasons only. A range may lie
outside the text; the least such range is then named. Or two of the edits have a line in common,
wherever they stand in the list: comparing neighbours finds this, since a range that reaches over
several others already meets the first of them. All other lists of such edits are applied, and none
makes the splicing crash.
-/

set_option autoImplicit false

namespace SafeRefactor

namespace LineRange

def Holds (r : LineRange) (line : Nat) : Prop := r.first ≤ line ∧ line ≤ r.last

theorem le_iff (a b : LineRange) :
    a.le b = true ↔ a.first < b.first ∨ a.first = b.first ∧ a.last ≤ b.last := by
  simp [le]

theorem eq_of_le_of_le {a b : LineRange} (hab : a.le b = true) (hba : b.le a = true) : a = b := by
  rw [le_iff] at hab hba
  obtain ⟨first, last⟩ := a
  obtain ⟨first', last'⟩ := b
  simp only [mk.injEq]
  simp only at hab hba
  omega

/-- Ranges overlap exactly if they share a line. The later of the two first lines will do. -/
theorem overlaps_iff_holds {a b : LineRange} (ha : a.first ≤ a.last) (hb : b.first ≤ b.last) :
    a.overlaps b = true ↔ ∃ line, a.Holds line ∧ b.Holds line := by
  rw [overlaps, Bool.and_eq_true, decide_eq_true_eq, decide_eq_true_eq]
  constructor
  · rintro ⟨hab, hba⟩
    refine ⟨max a.first b.first, ⟨?_, ?_⟩, ⟨?_, ?_⟩⟩ <;> omega
  · rintro ⟨line, ⟨ha₁, ha₂⟩, ⟨hb₁, hb₂⟩⟩
    omega

end LineRange

namespace Edit

theorem not_inside_iff (n : Nat) (e : Edit) :
    ¬ e.Inside n ↔ e.range.first = 0 ∨ n < e.range.last := by
  unfold Inside
  omega

/-- The least of the ranges that do not lie inside a text of `n` lines. -/
def LeastOutside (n : Nat) (edits : List Edit) (r : LineRange) : Prop :=
  (∃ e ∈ edits, e.range = r ∧ ¬ e.Inside n) ∧ ∀ e ∈ edits, ¬ e.Inside n → r.le e.range = true

/-- Two ranges with a line in common that stand at different places of a list. -/
def Conflict (edits : List Edit) (a b : LineRange) : Prop :=
  ∃ (i j : Nat) (d e : Edit), i ≠ j ∧ edits[i]? = some d ∧ edits[j]? = some e ∧ d.range = a ∧
    e.range = b ∧ ∃ line, a.Holds line ∧ b.Holds line

theorem firstOutOfRange?_least {n : Nat} {es : List Edit} {r : LineRange}
    (hs : es.Pairwise fun a b => le a b = true) (h : firstOutOfRange? n es = some r) :
    LeastOutside n es r := by
  induction es with
  | nil => simp [firstOutOfRange?] at h
  | cons e es ih =>
    obtain ⟨hfirst, hs⟩ := List.pairwise_cons.mp hs
    by_cases hout : e.range.first = 0 ∨ n < e.range.last
    · have hr : e.range = r := by simpa [firstOutOfRange?, hout] using h
      refine ⟨⟨e, by simp, hr, (not_inside_iff n e).mpr hout⟩, fun d hd _ => ?_⟩
      rcases List.mem_cons.mp hd with rfl | hd
      · rw [hr, LineRange.le_iff]
        omega
      · rw [← hr]
        exact hfirst d hd
    · rw [firstOutOfRange?, if_neg hout] at h
      obtain ⟨⟨d, hd, hr, hoff⟩, hleast⟩ := ih hs h
      refine ⟨⟨d, by simp [hd], hr, hoff⟩, fun c hc hoff' => ?_⟩
      rcases List.mem_cons.mp hc with rfl | hc
      · exact absurd ((not_inside_iff n c).mp hoff') hout
      · exact hleast c hc hoff'

theorem leastOutside_sortBy (n : Nat) (edits : List Edit) (r : LineRange) :
    LeastOutside n (sortBy le edits) r ↔ LeastOutside n edits r := by
  simp only [LeastOutside, mem_sortBy]

theorem LeastOutside.unique {n : Nat} {edits : List Edit} {r s : LineRange}
    (hr : LeastOutside n edits r) (hs : LeastOutside n edits s) : r = s := by
  obtain ⟨⟨d, hd, rfl, hd'⟩, hleast⟩ := hr
  obtain ⟨⟨e, he, rfl, he'⟩, hleast'⟩ := hs
  exact LineRange.eq_of_le_of_le (hleast e he he') (hleast' d hd hd')

theorem leastOutside_of_first {n : Nat} {edits : List Edit} {r : LineRange}
    (h : firstOutOfRange? n (sortBy le edits) = some r) : LeastOutside n edits r :=
  (leastOutside_sortBy n edits r).mp (firstOutOfRange?_least (ordered_pairwise edits) h)

theorem exists_first_of_not_inside {n : Nat} {edits : List Edit} {e : Edit} (he : e ∈ edits)
    (hout : ¬ e.Inside n) : ∃ r, firstOutOfRange? n (sortBy le edits) = some r := by
  rw [← Option.isSome_iff_exists, ← Option.ne_none_iff_isSome, Ne, firstOutOfRange?_eq_none_iff]
  exact fun hall => hout (hall e ((mem_sortBy le edits e).mpr he))

theorem firstOutOfRange?_eq_some_iff (n : Nat) (edits : List Edit) (r : LineRange) :
    firstOutOfRange? n (sortBy le edits) = some r ↔ LeastOutside n edits r := by
  refine ⟨leastOutside_of_first, fun h => ?_⟩
  obtain ⟨e, he, -, hout⟩ := h.1
  obtain ⟨s, hs⟩ := exists_first_of_not_inside he hout
  rw [hs, h.unique (leastOutside_of_first hs)]

theorem firstOverlap?_eq_some {es : List Edit} {a b : LineRange}
    (h : firstOverlap? es = some (a, b)) :
    ∃ d e, [d, e].Sublist es ∧ d.range = a ∧ e.range = b ∧ a.overlaps b = true := by
  induction es with
  | nil => simp [firstOverlap?] at h
  | cons d es ih =>
    cases es with
    | nil => simp [firstOverlap?] at h
    | cons e es =>
      rw [firstOverlap?] at h
      split at h
      · next hover =>
        obtain ⟨rfl, rfl⟩ : d.range = a ∧ e.range = b := by simpa using h
        exact ⟨d, e, by simp, rfl, rfl, hover⟩
      · obtain ⟨d', e', hsub, hrest⟩ := ih h
        exact ⟨d', e', hsub.cons d, hrest⟩

/-- Elements that stand one after the other in a list stand at different places of each of its
rearrangements. -/
theorem exists_places {d e : Edit} {es edits : List Edit} (hsub : [d, e].Sublist es)
    (hp : es.Perm edits) :
    ∃ i j : Nat, i ≠ j ∧ edits[i]? = some d ∧ edits[j]? = some e := by
  obtain ⟨pair, hpair, hplaces⟩ := hsub.subperm.trans hp.subperm
  obtain ⟨f, hf⟩ := List.sublist_iff_exists_orderEmbedding_getElem?_eq.mp hplaces
  have hne : f 0 ≠ f 1 := f.injective.ne (by decide)
  have h0 := hf 0
  have h1 := hf 1
  rcases List.perm_pair.mp hpair with rfl | rfl
  · exact ⟨f 0, f 1, hne, h0.symm, h1.symm⟩
  · exact ⟨f 1, f 0, hne.symm, h1.symm, h0.symm⟩

theorem pairwise_apart_iff {edits : List Edit} (hw : ∀ e ∈ edits, e.range.first ≤ e.range.last) :
    edits.Pairwise Apart ↔ ¬ ∃ a b, Conflict edits a b := by
  have hshare {i j : Nat} {d e : Edit} (hd : edits[i]? = some d) (he : edits[j]? = some e) :
      ¬ Apart d e ↔ ∃ line, d.range.Holds line ∧ e.range.Holds line := by
    rw [Apart, Bool.not_eq_false]
    exact LineRange.overlaps_iff_holds (hw d (List.mem_of_getElem? hd))
      (hw e (List.mem_of_getElem? he))
  constructor
  · rintro hall ⟨a, b, i, j, d, e, hne, hd, he, rfl, rfl, hlines⟩
    refine (hshare hd he).mpr hlines ?_
    obtain ⟨hi, rfl⟩ := List.getElem?_eq_some_iff.mp hd
    obtain ⟨hj, rfl⟩ := List.getElem?_eq_some_iff.mp he
    rcases Nat.lt_or_gt_of_ne hne with hij | hji
    · exact List.pairwise_iff_getElem.mp hall i j hi hj hij
    · exact (List.pairwise_iff_getElem.mp hall j i hj hi hji).symm
  · intro hnone
    refine List.pairwise_iff_getElem.mpr fun i j hi hj hij => ?_
    by_contra hover
    have hd := List.getElem?_eq_getElem hi
    have he := List.getElem?_eq_getElem hj
    exact hnone ⟨_, _, i, j, _, _, by omega, hd, he, rfl, rfl, (hshare hd he).mp hover⟩

section

variable {source : String} {edits : List Edit}

/-- The check that failed, or a crash. -/
theorem applyAll_error_cases {err : EditError} (h : applyAll source edits = .error err) :
    (∃ r, err = .outOfRange r (Text.pieces source.toList).length ∧
      firstOutOfRange? (Text.pieces source.toList).length (sortBy le edits) = some r) ∨
    (∃ a b, err = .overlapping a b ∧ firstOverlap? (sortBy le edits) = some (a, b)) ∨
    err.isCrash = true := by
  simp only [applyAll] at h
  split at h
  · next r hr =>
    cases h
    exact .inl ⟨r, rfl, hr⟩
  · split at h
    · next a b hab =>
      cases h
      exact .inr (.inl ⟨a, b, rfl, hab⟩)
    · split at h
      · next err' hcrash =>
        cases h
        exact .inr (.inr (spliceAll_isCrash hcrash))
      · cases h

theorem applyAll_eq_outOfRange_iff {r : LineRange} {m : Nat} :
    applyAll source edits = .error (.outOfRange r m) ↔
      m = (Text.pieces source.toList).length ∧
      LeastOutside (Text.pieces source.toList).length edits r := by
  rw [← firstOutOfRange?_eq_some_iff]
  constructor
  · intro h
    rcases applyAll_error_cases h with ⟨s, heq, hs⟩ | ⟨a, b, heq, -⟩ | hcrash
    · cases heq
      exact ⟨rfl, hs⟩
    · cases heq
    · cases hcrash
  · rintro ⟨rfl, hr⟩
    simp only [applyAll, hr]

theorem conflict_of_overlapping (hw : ∀ e ∈ edits, e.range.first ≤ e.range.last) {a b : LineRange}
    (h : applyAll source edits = .error (.overlapping a b)) : Conflict edits a b := by
  rcases applyAll_error_cases h with ⟨r, heq, -⟩ | ⟨a', b', heq, hfound⟩ | hcrash
  · cases heq
  · cases heq
    obtain ⟨d, e, hsub, rfl, rfl, hover⟩ := firstOverlap?_eq_some hfound
    obtain ⟨i, j, hne, hd, he⟩ := exists_places hsub (sortBy_perm le edits)
    refine ⟨i, j, d, e, hne, hd, he, rfl, rfl, ?_⟩
    exact (LineRange.overlaps_iff_holds (hw d (List.mem_of_getElem? hd))
      (hw e (List.mem_of_getElem? he))).mp hover
  · cases hcrash

theorem applyAll_isCrash_false (hw : ∀ e ∈ edits, e.range.first ≤ e.range.last) {err : EditError}
    (h : applyAll source edits = .error err) : err.isCrash = false := by
  by_contra hcrash
  obtain ⟨⟨hinside, -⟩, e, he, hbad⟩ :=
    (applyAll_crash_iff source edits).mp ⟨err, h, by simpa using hcrash⟩
  have hpos := (hinside e he).1
  have hle := hw e he
  exact hbad ⟨by omega, by omega⟩

theorem exists_applyAll_eq_ok_iff (hw : ∀ e ∈ edits, e.range.first ≤ e.range.last) :
    (∃ text, applyAll source edits = .ok text) ↔
      (∀ e ∈ edits, e.Inside (Text.pieces source.toList).length) ∧ ¬ ∃ a b, Conflict edits a b := by
  rw [← pairwise_apart_iff hw, ← checked_iff_pairwise source hw]
  constructor
  · rintro ⟨text, h⟩
    exact ((applyAll_eq_ok_iff source edits text).mp h).1
  · intro hc
    refine ⟨_, applyAll_eq_ok_of_checked hc fun e he => ?_⟩
    have hpos := (hc.1 e he).1
    have hle := hw e he
    exact ⟨by omega, by omega⟩

end

/-- Edits whose ranges do not end before they start are rejected as out of range exactly if one of
them lies outside the text, and the least such range is named; else as overlapping exactly if two
entries of the list have a line in common, and such ranges are named; and else they are applied.
They never make the splicing crash. -/
theorem rejection_exact (source : String) (edits : List Edit)
    (hw : ∀ e ∈ edits, e.range.first ≤ e.range.last) :
    let n := (Text.pieces source.toList).length
    let outside (e : Edit) := e.range.first = 0 ∨ n < e.range.last
    ((∃ r m, applyAll source edits = .error (.outOfRange r m)) ↔ ∃ e ∈ edits, outside e) ∧
    (∀ r m, applyAll source edits = .error (.outOfRange r m) ↔
      m = n ∧ (∃ e ∈ edits, e.range = r ∧ outside e) ∧ ∀ e ∈ edits, outside e →
        r.le e.range = true) ∧
    ((∃ a b, applyAll source edits = .error (.overlapping a b)) ↔
      (¬ ∃ e ∈ edits, outside e) ∧ ∃ a b, Conflict edits a b) ∧
    (∀ a b, applyAll source edits = .error (.overlapping a b) → Conflict edits a b) ∧
    ((∃ text, applyAll source edits = .ok text) ↔
      (¬ ∃ e ∈ edits, outside e) ∧ ¬ ∃ a b, Conflict edits a b) ∧
    ∀ err, applyAll source edits = .error err → err.isCrash = false := by
  intro n outside
  have hnone : (¬ ∃ e ∈ edits, outside e) ↔ ∀ e ∈ edits, e.Inside n := by
    simp only [outside, ← not_inside_iff, not_exists, not_and, not_not]
  have hrange (r : LineRange) (m : Nat) : applyAll source edits = .error (.outOfRange r m) ↔
      m = n ∧ (∃ e ∈ edits, e.range = r ∧ outside e) ∧ ∀ e ∈ edits, outside e →
        r.le e.range = true := by
    simp only [outside, ← not_inside_iff]
    exact applyAll_eq_outOfRange_iff
  have hsome : (∃ r m, applyAll source edits = .error (.outOfRange r m)) ↔
      ∃ e ∈ edits, outside e := by
    constructor
    · rintro ⟨r, m, h⟩
      obtain ⟨-, ⟨e, he, -, hout⟩, -⟩ := (hrange r m).mp h
      exact ⟨e, he, hout⟩
    · rintro ⟨e, he, hout⟩
      obtain ⟨r, hr⟩ := exists_first_of_not_inside he ((not_inside_iff n e).mpr hout)
      exact ⟨r, n, applyAll_eq_outOfRange_iff.mpr ⟨rfl, leastOutside_of_first hr⟩⟩
  have hok : (∃ text, applyAll source edits = .ok text) ↔
      (¬ ∃ e ∈ edits, outside e) ∧ ¬ ∃ a b, Conflict edits a b := by
    rw [hnone]
    exact exists_applyAll_eq_ok_iff hw
  refine ⟨hsome, hrange, ⟨?_, ?_⟩, fun a b => conflict_of_overlapping hw, hok,
    fun err => applyAll_isCrash_false hw⟩
  · rintro ⟨a, b, h⟩
    refine ⟨fun hout => ?_, a, b, conflict_of_overlapping hw h⟩
    obtain ⟨r, m, hother⟩ := hsome.mpr hout
    rw [h] at hother
    cases hother
  -- Neither applied nor out of range, the edits can only be overlapping.
  · rintro ⟨hout, hconflict⟩
    cases h : applyAll source edits with
    | ok text => exact absurd hconflict (hok.mp ⟨text, h⟩).2
    | error err =>
      rcases applyAll_error_cases h with ⟨r, rfl, -⟩ | ⟨a, b, rfl, -⟩ | hcrash
      · exact absurd (hsome.mp ⟨r, _, h⟩) hout
      · exact ⟨a, b, rfl⟩
      · simp [applyAll_isCrash_false hw h] at hcrash

/-- The first entry of a list and the last have line 4 in common. With ranges outside the text
added, the least of these is named instead. -/
theorem rejection_exact_hidden :
    let long : Edit := ⟨⟨1, 4⟩, "x"⟩
    let hidden : List Edit := [⟨⟨4, 4⟩, "y"⟩, ⟨⟨5, 5⟩, "z"⟩, long]
    (∃ a b, Conflict hidden a b) ∧
    applyAll "a\nb\nc\nd\ne" hidden = .error (.overlapping ⟨1, 4⟩ ⟨4, 4⟩) ∧
      applyAll "a\nb\nc\nd\ne" (⟨⟨5, 7⟩, ""⟩ :: ⟨⟨5, 6⟩, ""⟩ :: hidden) =
        .error (.outOfRange ⟨5, 6⟩ 5) := by
  intro long hidden
  have hw : ∀ e ∈ hidden, e.range.first ≤ e.range.last := by decide
  have hw' : ∀ e ∈ ⟨⟨5, 7⟩, ""⟩ :: ⟨⟨5, 6⟩, ""⟩ :: hidden, e.range.first ≤ e.range.last := by decide
  have happly : applyAll "a\nb\nc\nd\ne" hidden = .error (.overlapping ⟨1, 4⟩ ⟨4, 4⟩) := by
    decide +kernel
  obtain ⟨-, -, hover, -⟩ := rejection_exact "a\nb\nc\nd\ne" hidden hw
  obtain ⟨-, hrange, -⟩ := rejection_exact "a\nb\nc\nd\ne" _ hw'
  exact ⟨(hover.mp ⟨_, _, happly⟩).2, happly, (hrange _ _).mpr (by decide +kernel)⟩

end Edit

end SafeRefactor
