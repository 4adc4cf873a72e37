import SafeRefactor.Text.Lines
import SafeRefactor.Proofs.Hunks

/-!
# Patching a text

A patch procedure goes through the lines of a diff. The header of a hunk says how many lines of the
text come before it and how many lines it has on either side; common and removed lines have to be
the next lines of the text. A remark takes the line feed of the line before it away. On the lines
that tell how to come from one text to another one, the procedure succeeds and makes the other one.
-/

set_option autoImplicit false

namespace SafeRefactor.Patch

open Diff

/-- A number in decimal digits, and what follows it. -/
def readNumber? (cs : List Char) : Option (Nat × List Char) :=
  match cs.takeWhile Char.isDigit with
  | [] => none
  | digits => some (Nat.ofDigitChars 10 digits 0, cs.dropWhile Char.isDigit)

/-- A range of lines: how many lines come before it, and how many it has. -/
structure Range where
  before : Nat
  count : Nat
  deriving DecidableEq, Repr

/-- Reads a range: its first line, counted from one, and the number of its lines, one if none is
given. An empty range names the line before it instead. -/
def readRange? (cs : List Char) : Option (Range × List Char) :=
  match readNumber? cs with
  | none => none
  | some (first, ',' :: cs) =>
    (readNumber? cs).map fun (count, cs) => (⟨if count = 0 then first else first - 1, count⟩, cs)
  | some (first, cs) => some (⟨first - 1, 1⟩, cs)

def isHeader (line : List Char) : Bool := "@@ -".toList.isPrefixOf line

/-- The two ranges of a header. -/
def readHeader? (line : List Char) : Option (Range × Range) :=
  if isHeader line then
    match readRange? (line.drop 4) with
    | some (old, ' ' :: '+' :: cs) =>
      match readRange? cs with
      | some (new, ' ' :: '@' :: '@' :: _) => some (old, new)
      | _ => none
    | _ => none
  else none

/-- A text being patched. -/
structure Patching where
  /-- How many lines of the text the hunk still has to name. -/
  oldLeft : Nat := 0
  /-- How many lines of the result the hunk still has to name. -/
  newLeft : Nat := 0
  /-- How many lines of the text were gone through. -/
  passed : Nat := 0
  /-- The lines of the text that are left. -/
  rest : List (List Char)
  /-- The lines of the result so far. -/
  made : List (List Char) := []
  deriving DecidableEq, Repr

namespace Patching

/-- Goes to a hunk, past lines that it does not name. -/
def goTo? (p : Patching) (old new : Range) : Option Patching :=
  let skipped := old.before - p.passed
  if p.passed ≤ old.before ∧ skipped ≤ p.rest.length then
    some ⟨old.count, new.count, old.before, p.rest.drop skipped, p.made ++ p.rest.take skipped⟩
  else none

/-- Takes a line from the text, which has to be the next one. -/
def remove? (p : Patching) (line : List Char) : Option Patching :=
  match p.oldLeft, p.rest with
  | n + 1, l :: rest =>
    if l = line then some { p with oldLeft := n, passed := p.passed + 1, rest } else none
  | _, _ => none

/-- Adds a line to the result. -/
def add? (p : Patching) (line : List Char) : Option Patching :=
  match p.newLeft with
  | n + 1 => some { p with newLeft := n, made := p.made ++ [line] }
  | 0 => none

/-- Reads a line of a diff. -/
def step (p : Patching) (line : List Char) : Option Patching :=
  if p.oldLeft = 0 ∧ p.newLeft = 0 then (readHeader? line).bind fun (old, new) => p.goTo? old new
  else
    match line with
    | ' ' :: l => (p.remove? l).bind fun q => q.add? l
    | '-' :: l => p.remove? l
    | '+' :: l => p.add? l
    | _ => none

/-- The lines of the result, after the last line of the diff. -/
def finish? (p : Patching) : Option (List (List Char)) :=
  if p.oldLeft = 0 ∧ p.newLeft = 0 then some (p.made ++ p.rest) else none

end Patching

/-- The lines of a diff without the remarks; a line before a remark has no line feed. -/
def heedRemarks : List (List Char) → List (List Char)
  | [] => []
  | [l] => [l]
  | l :: r :: ls =>
    if r.head? = some '\\' then l.dropLast :: heedRemarks ls else l :: heedRemarks (r :: ls)

/-- The lines of a diff from its first hunk on. -/
def hunkLines (diff : List Char) : List (List Char) :=
  heedRemarks ((Text.pieces diff).dropWhile fun l => !isHeader l)

/-- Applies a diff to a text. -/
def patch? (diff text : String) : Option String :=
  (((hunkLines diff.toList).foldlM Patching.step { rest := Text.pieces text.toList }).bind
    Patching.finish?).map fun ls => String.ofList ls.flatten

theorem readNumber?_toString (n : Nat) {cs : List Char} (hcs : ∀ c ∈ cs.head?, c.isDigit = false) :
    readNumber? ((toString n).toList ++ cs) = some (n, cs) := by
  have hdigits : ∀ c ∈ Nat.toDigits 10 n, c.isDigit = true := fun c hc =>
    Nat.isDigit_of_mem_toDigits (by decide) (by decide) hc
  have hstop : cs.takeWhile Char.isDigit = [] ∧ cs.dropWhile Char.isDigit = cs := by
    cases cs with
    | nil => exact ⟨rfl, rfl⟩
    | cons c cs => simp [hcs c rfl]
  rw [Nat.toString_eq_ofList_toDigits, String.toList_ofList, readNumber?,
    List.takeWhile_append_of_pos hdigits, List.dropWhile_append_of_pos hdigits, hstop.1, hstop.2,
    List.append_nil]
  split
  · next h => exact absurd h Nat.toDigits_ne_nil
  · rw [Nat.ofDigitChars_ten_toDigits]

theorem readRange?_counted (first count : Nat) {cs : List Char}
    (hcs : ∀ c ∈ cs.head?, c.isDigit = false) :
    readRange? ((toString first).toList ++ ',' :: ((toString count).toList ++ cs)) =
      some (⟨if count = 0 then first else first - 1, count⟩, cs) := by
  have hfirst : readNumber? ((toString first).toList ++ ',' :: ((toString count).toList ++ cs)) =
      some (first, ',' :: ((toString count).toList ++ cs)) := readNumber?_toString first (by simp)
  simp only [readRange?, hfirst, readNumber?_toString count hcs, Option.map_some]

theorem readRange?_single (first : Nat) {cs : List Char} (hcs : ∀ c ∈ cs.head?, c.isDigit = false ∧
    c ≠ ',') :
    readRange? ((toString first).toList ++ cs) = some (⟨first - 1, 1⟩, cs) := by
  rw [readRange?, readNumber?_toString first fun c hc => (hcs c hc).1]
  split
  · next h => cases h
  · next h =>
    cases h
    exact absurd rfl (hcs ',' rfl).2
  · next h =>
    cases h
    rfl

theorem readRange?_renderRange (start n : Nat) {cs : List Char}
    (hcs : ∀ c ∈ cs.head?, c.isDigit = false ∧ c ≠ ',') :
    readRange? ((renderRange start (start + n)).toList ++ cs) = some (⟨start, n⟩, cs) := by
  have hdigit : ∀ c ∈ cs.head?, c.isDigit = false := fun c hc => (hcs c hc).1
  unfold renderRange
  split
  · next hone =>
    obtain rfl : n = 1 := by omega
    exact readRange?_single (start + 1) hcs
  · split
    · obtain rfl : n = 0 := by omega
      have hempty : ",0".toList = ',' :: (toString 0).toList := by decide
      have hread := readRange?_counted start 0 hdigit
      rwa [← List.cons_append, ← List.append_assoc, ← hempty, ← String.toList_append] at hread
    · have hread := readRange?_counted (start + 1) n hdigit
      rw [if_neg (by omega), Nat.add_sub_cancel] at hread
      simpa [Nat.add_sub_cancel_left] using hread

theorem readHeader?_renderHeader {first last : Block} {i j m n : Nat} (hold : first.oldAt = i)
    (hnew : first.newAt = j) (holdEnd : last.oldAt + last.oldLength = i + m)
    (hnewEnd : last.newAt + last.newLength = j + n) :
    readHeader? (renderHeader first last).toList = some (⟨i, m⟩, ⟨j, n⟩) := by
  have htext : (renderHeader first last).toList =
      "@@ -".toList ++ ((renderRange i (i + m)).toList ++
      ' ' :: '+' :: ((renderRange j (j + n)).toList ++ ' ' :: '@' :: '@' :: ['\n'])) := by
    rw [renderHeader, hold, hnew, holdEnd, hnewEnd]
    simp
  have hheader : isHeader (renderHeader first last).toList = true := by
    rw [htext, isHeader]
    simp
  have hranges : (renderHeader first last).toList.drop 4 = (renderRange i (i + m)).toList ++
      ' ' :: '+' :: ((renderRange j (j + n)).toList ++ ' ' :: '@' :: '@' :: ['\n']) := by
    rw [htext]
    rfl
  rw [readHeader?, if_pos hheader, hranges, readRange?_renderRange i m (by simp)]
  simp only [readRange?_renderRange j n
    (by simp : ∀ c ∈ (' ' :: '@' :: '@' :: ['\n']).head?, c.isDigit = false ∧ c ≠ ',')]

namespace Patching

variable {old new passed : Nat} {rest made : List (List Char)}

theorem step_removed (line : List Char) :
    step ⟨old + 1, new, passed, line :: rest, made⟩ ('-' :: line) =
      some ⟨old, new, passed + 1, rest, made⟩ := by
  simp [step, remove?]

theorem step_added (line : List Char) :
    step ⟨old, new + 1, passed, rest, made⟩ ('+' :: line) =
      some ⟨old, new, passed, rest, made ++ [line]⟩ := by
  simp [step, add?]

theorem step_same (line : List Char) :
    step ⟨old + 1, new + 1, passed, line :: rest, made⟩ (' ' :: line) =
      some ⟨old, new, passed + 1, rest, made ++ [line]⟩ := by
  simp [step, remove?, add?]

theorem step_header {line : List Char} {gap : List (List Char)} {oldCount newCount newBefore : Nat}
    (h : readHeader? line = some (⟨passed + gap.length, oldCount⟩, ⟨newBefore, newCount⟩)) :
    step ⟨0, 0, passed, gap ++ rest, made⟩ line =
      some ⟨oldCount, newCount, passed + gap.length, rest, made ++ gap⟩ := by
  have hroom : passed + gap.length ≤ gap.length + rest.length + passed := by omega
  simp [step, h, goTo?, hroom]

/-- Reading some lines leads from one state to another one. -/
def Takes (ls : List (List Char)) (p q : Patching) : Prop := ls.foldlM step p = some q

theorem takes_nil (p : Patching) : Takes [] p p := rfl

theorem takes_cons {l : List Char} {ls : List (List Char)} {p q r : Patching}
    (hl : step p l = some q) (hls : Takes ls q r) : Takes (l :: ls) p r := by
  rw [Takes, List.foldlM_cons, hl]
  exact hls

theorem Takes.append {ls ms : List (List Char)} {p q r : Patching} (hls : Takes ls p q)
    (hms : Takes ms q r) :
    Takes (ls ++ ms) p r := by
  rw [Takes] at hls
  rw [Takes, List.foldlM_append, hls]
  exact hms

/-- Lines of a text as a hunk shows them. -/
def signed (sign : Char) (ls : List String) : List (List Char) := ls.map fun l => sign :: l.toList

theorem takes_removed (ls : List String) :
    Takes (signed '-' ls) ⟨old + ls.length, new, passed, ls.map String.toList ++ rest, made⟩
      ⟨old, new, passed + ls.length, rest, made⟩ := by
  induction ls generalizing passed with
  | nil => exact takes_nil _
  | cons l ls ih =>
    have hpassed : passed + (l :: ls).length = passed + 1 + ls.length := by simp; omega
    rw [hpassed]
    exact takes_cons (step_removed l.toList) ih

theorem takes_added (ls : List String) :
    Takes (signed '+' ls) ⟨old, new + ls.length, passed, rest, made⟩
      ⟨old, new, passed, rest, made ++ ls.map String.toList⟩ := by
  induction ls generalizing made with
  | nil =>
    rw [List.map_nil, List.append_nil]
    exact takes_nil _
  | cons l ls ih =>
    rw [List.map_cons, List.append_cons]
    exact takes_cons (step_added l.toList) ih

theorem takes_same (ls : List String) :
    Takes (signed ' ' ls) ⟨old + ls.length, new + ls.length, passed,
      ls.map String.toList ++ rest, made⟩
      ⟨old, new, passed + ls.length, rest, made ++ ls.map String.toList⟩ := by
  induction ls generalizing passed made with
  | nil =>
    rw [List.map_nil, List.append_nil]
    exact takes_nil _
  | cons l ls ih =>
    have hpassed : passed + (l :: ls).length = passed + 1 + ls.length := by simp; omega
    rw [hpassed, List.map_cons, List.append_cons]
    exact takes_cons (step_same l.toList) ih

/-- The lines of a block as a hunk shows them. -/
def shown : Block → List (List Char)
  | .same _ _ ls => signed ' ' ls
  | .change _ _ rs as => signed '-' rs ++ signed '+' as

theorem takes_block (b : Block) :
    Takes (shown b) ⟨old + b.old.length, new + b.new.length, passed,
      b.old.map String.toList ++ rest, made⟩
      ⟨old, new, passed + b.old.length, rest, made ++ b.new.map String.toList⟩ := by
  cases b with
  | same i j ls => exact takes_same ls
  | change i j rs as => exact (takes_removed rs).append (takes_added as)

theorem takes_blocks (bs : List Block) :
    Takes (bs.flatMap shown)
      ⟨old + (olds bs).length, new + (news bs).length, passed, (olds bs).map String.toList ++
        rest, made⟩
      ⟨old, new, passed + (olds bs).length, rest, made ++ (news bs).map String.toList⟩ := by
  induction bs generalizing passed made with
  | nil =>
    rw [news_nil, List.map_nil, List.append_nil]
    exact takes_nil _
  | cons b bs ih =>
    have hfirst : Takes (shown b)
        ⟨old + (olds bs).length + b.old.length, new + (news bs).length + b.new.length, passed,
          b.old.map String.toList ++ ((olds bs).map String.toList ++ rest), made⟩ _ := takes_block b
    have hall := hfirst.append ih
    rw [Nat.add_assoc old, Nat.add_comm _ b.old.length, Nat.add_assoc new,
      Nat.add_comm _ b.new.length] at hall
    simpa only [olds_cons, news_cons, List.length_append, List.map_append, List.append_assoc,
      List.flatMap_cons, Nat.add_assoc] using hall

/-- The lines of a hunk, with its header. -/
def shownHunk : List Block → List (List Char)
  | [] => []
  | b :: bs => (renderHeader b ((b :: bs).getLastD b)).toList :: (b :: bs).flatMap shown

theorem takes_hunk {j : Nat} {gap : List (List Char)} {h : List Block} (hne : h ≠ [])
    (hframed : Framed (passed + gap.length) j h) :
    Takes (shownHunk h) ⟨0, 0, passed, gap ++ ((olds h).map String.toList ++ rest), made⟩
      ⟨0, 0, passed + gap.length + (olds h).length, rest,
        made ++ gap ++ (news h).map String.toList⟩ := by
  cases h with
  | nil => exact absurd rfl hne
  | cons b bs =>
    obtain ⟨hold, hnew⟩ := hframed.begins b rfl
    obtain ⟨holdEnd, hnewEnd⟩ := hframed.ends ((b :: bs).getLastD b) (by
      rw [Option.mem_def, List.getLast?_cons, List.getLastD_cons, List.getLastD_eq_getLast?])
    have hlines : Takes ((b :: bs).flatMap shown)
        ⟨0 + (olds (b :: bs)).length, 0 + (news (b :: bs)).length, passed + gap.length,
          (olds (b :: bs)).map String.toList ++ rest, made ++ gap⟩ _ := takes_blocks (b :: bs)
    rw [Nat.zero_add, Nat.zero_add] at hlines
    exact takes_cons (step_header (readHeader?_renderHeader hold hnew holdEnd hnewEnd)) hlines

theorem finish?_hunks {i j : Nat} {a b : List String} {hs : List (List Block)}
    (htells : Tells i j a b hs) :
    ((hs.flatMap shownHunk).foldlM step ⟨0, 0, i, a.map String.toList, made⟩).bind finish? =
      some (made ++ b.map String.toList) := by
  induction htells generalizing made with
  | rest i j ls => rfl
  | @hunk i j gap h a b hs hne hframed _ ih =>
    have hhunk : Takes (shownHunk h)
        ⟨0, 0, i, gap.map String.toList ++ ((olds h).map String.toList ++ a.map String.toList),
          made⟩ _ :=
      takes_hunk hne (by simpa using hframed)
    rw [Takes] at hhunk
    rw [List.flatMap_cons, List.foldlM_append, List.map_append, List.map_append, hhunk]
    have hrest := @ih (made ++ gap.map String.toList ++ (news h).map String.toList)
    simpa using hrest

end Patching

end SafeRefactor.Patch
