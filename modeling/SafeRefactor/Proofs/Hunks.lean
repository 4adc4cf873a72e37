import SafeRefactor.Diff.Unified
import SafeRefactor.Proofs.Scripts

/-!
# What the hunks of a diff say

The blocks of a script spell out its two texts, and the hunks are stretches of these blocks; what
lies between them is the same in both texts. The header of a hunk is read off its first and its last
block. Common lines always stand at their places, so a header can only be wrong where a text begins
or ends with a change: `Framed` says that it is not.
-/

set_option autoImplicit false

namespace SafeRefactor.Diff

namespace Block

/-- The lines of the old text that a block stands for. -/
def old : Block → List String
  | same _ _ ls => ls
  | change _ _ rs _ => rs

/-- The lines of the new text that a block stands for. -/
def new : Block → List String
  | same _ _ ls => ls
  | change _ _ _ as => as

end Block

def olds (bs : List Block) : List String := bs.flatMap Block.old

def news (bs : List Block) : List String := bs.flatMap Block.new

@[simp]
theorem olds_nil : olds [] = [] := rfl

@[simp]
theorem news_nil : news [] = [] := rfl

@[simp]
theorem olds_cons (b : Block) (bs : List Block) : olds (b :: bs) = b.old ++ olds bs := rfl

@[simp]
theorem news_cons (b : Block) (bs : List Block) : news (b :: bs) = b.new ++ news bs := rfl

@[simp]
theorem olds_append (as bs : List Block) : olds (as ++ bs) = olds as ++ olds bs :=
  List.flatMap_append

@[simp]
theorem news_append (as bs : List Block) : news (as ++ bs) = news as ++ news bs :=
  List.flatMap_append

/-- Blocks follow each other from given lines of the two texts on, and those with common lines stand
at their places. -/
def Steady : Nat → Nat → List Block → Prop
  | _, _, [] => True
  | i, j, b :: bs => (∀ i' j' ls, b = .same i' j' ls → i' = i ∧ j' = j) ∧
      Steady (i + b.old.length) (j + b.new.length) bs

theorem steady_append (i j : Nat) (as bs : List Block) : Steady i j (as ++ bs) ↔
    Steady i j as ∧ Steady (i + (olds as).length) (j + (news as).length) bs := by
  induction as generalizing i j with
  | nil => simp [Steady]
  | cons a as ih => simp [Steady, ih, and_assoc, Nat.add_assoc]

namespace Pending

def olds (p : Pending) : List String :=
  match p.removed with
  | some (_, _, rs) => rs
  | none => []

def news (p : Pending) : List String :=
  match p.added with
  | some (_, _, as) => as
  | none => []

theorem olds_flush (p : Pending) : Diff.olds p.flush = p.olds := by
  rcases p with ⟨_ | ⟨i, j, rs⟩, _ | ⟨k, l, as⟩⟩ <;> simp [flush, olds, Block.old]

theorem news_flush (p : Pending) : Diff.news p.flush = p.news := by
  rcases p with ⟨_ | ⟨i, j, rs⟩, _ | ⟨k, l, as⟩⟩ <;> simp [flush, news, Block.new]

theorem steady_flush (p : Pending) (i j : Nat) : Steady i j p.flush := by
  rcases p with ⟨_ | ⟨i, j, rs⟩, _ | ⟨k, l, as⟩⟩ <;> simp [flush, Steady]

theorem olds_remove (p : Pending) (c : Chunk) : (p.remove c).olds = p.olds ++ c.lines := by
  rcases p with ⟨_ | ⟨i, j, rs⟩, a⟩ <;> simp [remove, olds]

theorem news_remove (p : Pending) (c : Chunk) : (p.remove c).news = p.news := by
  rcases p with ⟨_ | ⟨i, j, rs⟩, a⟩ <;> simp [remove, news]

theorem olds_add (p : Pending) (c : Chunk) : (p.add c).olds = p.olds := by
  rcases p with ⟨r, _ | ⟨k, l, as⟩⟩ <;> simp [add, olds]

theorem news_add (p : Pending) (c : Chunk) : (p.add c).news = p.news ++ c.lines := by
  rcases p with ⟨r, _ | ⟨k, l, as⟩⟩ <;> simp [add, news]

end Pending

/-- Common lines in front of some blocks, joined to those that begin them. -/
def consSame (i j : Nat) (ls : List String) (bs : List Block) : List Block :=
  match bs with
  | .same _ _ more :: bs => .same i j (ls ++ more) :: bs
  | bs => .same i j ls :: bs

theorem consSame_cases (i j : Nat) (ls : List String) (bs : List Block) :
    consSame i j ls bs = .same i j ls :: bs ∨
      ∃ i' j' more rest, bs = .same i' j' more :: rest ∧
        consSame i j ls bs = .same i j (ls ++ more) :: rest := by
  unfold consSame
  split
  · exact .inr ⟨_, _, _, _, rfl, rfl⟩
  · exact .inl rfl

theorem olds_consSame (i j : Nat) (ls : List String) (bs : List Block) :
    olds (consSame i j ls bs) = ls ++ olds bs := by
  rcases consSame_cases i j ls bs with h | ⟨i', j', more, rest, rfl, h⟩
  · simp [h, Block.old]
  · simp [h, Block.old]

theorem news_consSame (i j : Nat) (ls : List String) (bs : List Block) :
    news (consSame i j ls bs) = ls ++ news bs := by
  rcases consSame_cases i j ls bs with h | ⟨i', j', more, rest, rfl, h⟩
  · simp [h, Block.new]
  · simp [h, Block.new]

theorem steady_consSame {i j : Nat} {ls : List String} {bs : List Block}
    (hs : Steady (i + ls.length) (j + ls.length) bs) : Steady i j (consSame i j ls bs) := by
  rcases consSame_cases i j ls bs with h | ⟨i', j', more, rest, rfl, h⟩
  · rw [h]
    exact ⟨by simp, hs⟩
  · rw [h]
    refine ⟨by simp, ?_⟩
    simpa [Block.old, Block.new, Nat.add_assoc] using hs.2

theorem blocksFrom_same (p : Pending) {c : Chunk} (cs : Script) (h : c.tag = .same) :
    blocksFrom p (c :: cs) = p.flush ++ consSame c.oldAt c.newAt c.lines (blocksFrom {} cs) := by
  rw [blocksFrom]
  simp only [h]
  rfl

theorem olds_blocksFrom (p : Pending) (s : Script) :
    olds (blocksFrom p s) = p.olds ++ Script.old s := by
  induction s generalizing p with
  | nil => simp [blocksFrom, p.olds_flush]
  | cons c cs ih =>
    cases h : c.tag with
    | same =>
      rw [blocksFrom_same p cs h, olds_append, p.olds_flush, olds_consSame, ih]
      simp [Chunk.old, h, Pending.olds]
    | removed => simp [blocksFrom, h, ih, p.olds_remove, Chunk.old]
    | added => simp [blocksFrom, h, ih, p.olds_add, Chunk.old]

theorem news_blocksFrom (p : Pending) (s : Script) :
    news (blocksFrom p s) = p.news ++ Script.new s := by
  induction s generalizing p with
  | nil => simp [blocksFrom, p.news_flush]
  | cons c cs ih =>
    cases h : c.tag with
    | same =>
      rw [blocksFrom_same p cs h, news_append, p.news_flush, news_consSame, ih]
      simp [Chunk.new, h, Pending.news]
    | removed => simp [blocksFrom, h, ih, p.news_remove, Chunk.new]
    | added => simp [blocksFrom, h, ih, p.news_add, Chunk.new]

theorem steady_blocksFrom (i j : Nat) (p : Pending) (s : Script)
    (hs : Script.Placed (i + p.olds.length) (j + p.news.length) s) :
    Steady i j (blocksFrom p s) := by
  induction s generalizing i j p with
  | nil => exact p.steady_flush i j
  | cons c cs ih =>
    obtain ⟨hold, hnew, hcs⟩ := hs
    cases h : c.tag with
    | same =>
      rw [blocksFrom_same p cs h, steady_append, p.olds_flush, p.news_flush, hold (by simp [h]),
        hnew (by simp [h])]
      refine ⟨p.steady_flush i j, steady_consSame (ih _ _ {} ?_)⟩
      simpa [Chunk.old, Chunk.new, h, Pending.olds, Pending.news] using hcs
    | removed =>
      simp only [blocksFrom, h]
      apply ih
      rw [p.olds_remove, p.news_remove]
      simpa [Chunk.old, Chunk.new, h, Nat.add_assoc] using hcs
    | added =>
      simp only [blocksFrom, h]
      apply ih
      rw [p.olds_add, p.news_add]
      simpa [Chunk.old, Chunk.new, h, Nat.add_assoc] using hcs

theorem blocks_leads {a b : List String} {s : Script} (h : Script.Leads 0 0 a b s) :
    olds (blocks s) = a ∧ news (blocks s) = b ∧ Steady 0 0 (blocks s) := by
  refine ⟨?_, ?_, ?_⟩
  · rw [blocks, olds_blocksFrom, h.old_eq]
    rfl
  · rw [blocks, news_blocksFrom, h.new_eq]
    rfl
  · exact steady_blocksFrom 0 0 {} s h.placed

/-- The first of some blocks begins at given lines of the two texts, and the last one ends where the
lines of all of them end. -/
structure Framed (i j : Nat) (bs : List Block) : Prop where
  begins : ∀ b ∈ bs.head?, b.oldAt = i ∧ b.newAt = j
  ends : ∀ b ∈ bs.getLast?, b.oldAt + b.oldLength = i + (olds bs).length ∧
    b.newAt + b.newLength = j + (news bs).length

theorem framed_iff (i j : Nat) (bs : List Block) : Framed i j bs ↔
    (∀ b ∈ bs.head?, b.oldAt = i ∧ b.newAt = j) ∧
      ∀ b ∈ bs.getLast?, b.oldAt + b.oldLength = i + (olds bs).length ∧
        b.newAt + b.newLength = j + (news bs).length :=
  ⟨fun h => ⟨h.begins, h.ends⟩, fun h => ⟨h.1, h.2⟩⟩

instance (i j : Nat) (bs : List Block) : Decidable (Framed i j bs) :=
  decidable_of_iff _ (framed_iff i j bs).symm

/-- Blocks tile two texts from given lines on: each stands where the one before it ends, in both. -/
def Tiled : Nat → Nat → List Block → Prop
  | _, _, [] => True
  | i, j, b :: bs => b.oldAt = i ∧ b.newAt = j ∧ Tiled (i + b.old.length) (j + b.new.length) bs

instance decidableTiled : ∀ (i j : Nat) (bs : List Block), Decidable (Tiled i j bs)
  | _, _, [] => .isTrue trivial
  | i, j, b :: bs =>
    have := decidableTiled (i + b.old.length) (j + b.new.length) bs
    inferInstanceAs (Decidable (_ ∧ _ ∧ _))

theorem tiled_append (i j : Nat) (as bs : List Block) : Tiled i j (as ++ bs) ↔
    Tiled i j as ∧ Tiled (i + (olds as).length) (j + (news as).length) bs := by
  induction as generalizing i j with
  | nil => simp [Tiled]
  | cons a as ih => simp [Tiled, ih, and_assoc, Nat.add_assoc]

theorem Tiled.framed {i j : Nat} {bs : List Block} (h : Tiled i j bs) : Framed i j bs := by
  rcases List.eq_nil_or_concat bs with rfl | ⟨as, b, hbs⟩
  · constructor <;> simp
  rw [List.concat_eq_append] at hbs
  subst hbs
  obtain ⟨-, hold, hnew, -⟩ := (tiled_append _ _ _ _).mp h
  constructor
  · cases as with
    | nil => simp [h.1, h.2.1]
    | cons a as => simp [h.1, h.2.1]
  · cases b <;> simp [Block.oldLength, Block.newLength, Block.old, Block.new, hold, hnew,
      Nat.add_assoc]

/-- The hunks tell how to come from one list of lines to another one, which begin at given lines of
their texts: each hunk is framed by its header, and the lines between hunks are common to both. -/
inductive Tells : Nat → Nat → List String → List String → List (List Block) → Prop where
  | rest (i j : Nat) (ls : List String) : Tells i j ls ls []
  | hunk {i j : Nat} (gap : List String) {h : List Block} {a b : List String}
      {hs : List (List Block)} :
      h ≠ [] → Framed (i + gap.length) (j + gap.length) h →
      Tells (i + gap.length + (olds h).length) (j + gap.length + (news h).length) a b hs →
      Tells i j (gap ++ (olds h ++ a)) (gap ++ (news h ++ b)) (h :: hs)

theorem Tells.mem {i j : Nat} {a b : List String} {hs : List (List Block)}
    (htells : Tells i j a b hs)
    {h : List Block} (hh : h ∈ hs) : (∀ l ∈ olds h, l ∈ a) ∧ ∀ l ∈ news h, l ∈ b := by
  induction htells with
  | rest => simp at hh
  | hunk gap hne hframed _ ih =>
    rcases List.mem_cons.mp hh with rfl | hh
    · exact ⟨fun l hl => by simp [hl], fun l hl => by simp [hl]⟩
    · obtain ⟨hold, hnew⟩ := ih hh
      exact ⟨fun l hl => by simp [hold l hl], fun l hl => by simp [hnew l hl]⟩

/-- Blocks that follow each other and are framed. -/
structure Numbered (i j : Nat) (bs : List Block) : Prop where
  steady : Steady i j bs
  framed : Framed i j bs

namespace Numbered

variable {i j p q : Nat} {as bs : List Block} {ls : List String}

theorem place (h : Numbered i j (as ++ .same p q ls :: bs)) :
    p = i + (olds as).length ∧ q = j + (news as).length := by
  obtain ⟨-, hplace, -⟩ := (steady_append _ _ _ _).mp h.steady
  exact hplace p q ls rfl

/-- Blocks may be cut off after some common lines, which stand at their place. -/
theorem upTo (h : Numbered i j (as ++ .same p q ls :: bs)) (first : List String) :
    Numbered i j (as ++ [.same p q first]) := by
  obtain ⟨rfl, rfl⟩ := h.place
  obtain ⟨hfront, -⟩ := (steady_append _ _ _ _).mp h.steady
  refine ⟨(steady_append _ _ _ _).mpr ⟨hfront, by simp, trivial⟩, ?_, ?_⟩
  · intro b hb
    cases as with
    | nil =>
      cases hb
      simp [Block.oldAt, Block.newAt]
    | cons a as => exact h.framed.begins b (by simpa using hb)
  · simp [Block.oldAt, Block.newAt, Block.oldLength, Block.newLength, Block.old, Block.new,
      Nat.add_assoc]

/-- Blocks may begin with the last ones of some common lines. -/
theorem onwards {left last : List String}
    (h : Numbered i j (as ++ .same p q (left ++ last) :: bs)) :
    Numbered (p + left.length) (q + left.length)
      (.same (p + left.length) (q + left.length) last :: bs) := by
  obtain ⟨rfl, rfl⟩ := h.place
  obtain ⟨-, -, hrest⟩ := (steady_append _ _ _ _).mp h.steady
  refine ⟨⟨by simp, ?_⟩, ?_, ?_⟩
  · simpa [Block.old, Block.new, Nat.add_assoc] using hrest
  · simp [Block.oldAt, Block.newAt]
  · intro b hb
    cases bs with
    | nil =>
      cases hb
      simp [Block.oldAt, Block.newAt, Block.oldLength, Block.newLength, Block.old, Block.new]
    | cons c bs =>
      have hends := h.framed.ends b (by simpa using hb)
      simp only [olds_append, news_append, olds_cons, news_cons, Block.old, Block.new,
        List.length_append] at hends ⊢
      omega

end Numbered

/-- A long stretch of common lines in three parts: shown, left out, and shown again. -/
theorem context_split {ls : List String} (h : 2 * contextRadius < ls.length) :
    ∃ first between last, ls = (first ++ between) ++ last ∧ ∀ i j,
      firstLines i j ls = .same i j first ∧
      lastLines i j ls = .same (i + (first ++ between).length) (j + (first ++ between).length)
      last := by
  have hfirst : ls.take contextRadius ++ (ls.drop contextRadius).take
      (ls.length - 2 * contextRadius) =
      ls.take (ls.length - contextRadius) := by
    rw [← List.take_add]
    congr 1
    omega
  refine ⟨ls.take contextRadius, (ls.drop contextRadius).take (ls.length - 2 * contextRadius),
    ls.drop (ls.length - contextRadius), ?_, fun i j => ⟨rfl, ?_⟩⟩
  · rw [hfirst, List.take_append_drop]
  · rw [hfirst, List.length_take, Nat.min_eq_left (Nat.sub_le _ _), lastLines]

theorem hunksFrom_tells (h bs : List Block) (i j : Nat) (gap tail : List String)
    (hbs : Numbered (i + gap.length) (j + gap.length) (h.reverse ++ bs)) :
    Tells i j (gap ++ (olds (h.reverse ++ bs) ++ tail)) (gap ++ (news (h.reverse ++ bs) ++ tail))
      (hunksFrom h bs) := by
  induction bs generalizing h i j gap with
  | nil =>
    rw [List.append_nil] at hbs ⊢
    unfold hunksFrom
    split
    · exact .rest i j _
    · exact .rest i j _
    · next hne _ => exact .hunk gap (by simpa using hne) hbs.framed (.rest _ _ tail)
  | cons b bs ih =>
    have hnext := ih (b :: h) i j gap
    rw [List.reverse_cons, List.append_assoc, List.singleton_append] at hnext
    cases b with
    | change i' j' rs as => exact hnext hbs
    | same p q ls =>
      rw [hunksFrom]
      split
      · next hlong =>
        obtain ⟨first, between, last, rfl, hcut⟩ := context_split hlong
        obtain ⟨hp, hq⟩ := hbs.place
        rw [List.reverse_cons, (hcut p q).1, (hcut p q).2]
        have hlater :=
          ih [.same (p + (first ++ between).length) (q + (first ++ between).length) last]
          (p + first.length) (q + first.length) between (by simpa [Nat.add_assoc] using hbs.onwards)
        -- The next hunk is told from where the lines of this one end.
        have hold : p + first.length =
            i + gap.length + (olds (h.reverse ++ [.same p q first])).length := by
          simp [hp, Block.old, Nat.add_assoc]
        have hnew : q + first.length =
            j + gap.length + (news (h.reverse ++ [.same p q first])).length := by
          simp [hq, Block.new, Nat.add_assoc]
        rw [hold, hnew] at hlater
        have hall := Tells.hunk gap (by simp) (hbs.upTo first).framed hlater
        simpa [Block.old, Block.new] using hall
      · exact hnext hbs

theorem trimStart_cut (bs : List Block) : ∃ gap, olds bs = gap ++ olds (trimStart bs) ∧
    news bs = gap ++ news (trimStart bs) ∧ ∀ i j, Numbered i j bs →
      Numbered (i + gap.length) (j + gap.length) (trimStart bs) := by
  unfold trimStart
  split
  · next p q ls bs =>
    have hlength : (ls.take (ls.length - contextRadius)).length = ls.length - contextRadius := by
      rw [List.length_take, Nat.min_eq_left (Nat.sub_le _ _)]
    refine ⟨ls.take (ls.length - contextRadius), ?_, ?_, ?_⟩
    · simp [lastLines, Block.old, ← List.append_assoc]
    · simp [lastLines, Block.new, ← List.append_assoc]
    · intro i j hbs
      obtain ⟨rfl, rfl⟩ := hbs.steady.1 p q ls rfl
      rw [← List.take_append_drop (ls.length - contextRadius) ls] at hbs
      have hlast := @Numbered.onwards _ _ _ _ [] _ _ _ hbs
      rwa [hlength] at hlast ⊢
  · exact ⟨[], rfl, rfl, fun _ _ hbs => hbs⟩

theorem trimEnd_concat (as : List Block) (b : Block) : trimEnd (as ++ [b]) = as ++ trimEnd [b] := by
  induction as with
  | nil => rfl
  | cons a as ih =>
    have hne : as ++ [b] ≠ [] := by simp
    rw [List.cons_append, trimEnd, ih, List.cons_append]
    intro _ _ _ _ h
    exact hne h

theorem trimEnd_cut (bs : List Block) : ∃ tail, olds bs = olds (trimEnd bs) ++ tail ∧
    news bs = news (trimEnd bs) ++ tail ∧ ∀ i j, Numbered i j bs → Numbered i j (trimEnd bs) := by
  rcases List.eq_nil_or_concat bs with rfl | ⟨as, b, hbs⟩
  · exact ⟨[], rfl, rfl, fun _ _ hbs => hbs⟩
  rw [List.concat_eq_append] at hbs
  subst hbs
  cases b with
  | change p q rs added =>
    have hend : trimEnd [.change p q rs added] = [.change p q rs added] := rfl
    rw [trimEnd_concat, hend]
    exact ⟨[], by simp, by simp, fun _ _ hbs => hbs⟩
  | same p q ls =>
    rw [trimEnd_concat, trimEnd, firstLines]
    exact ⟨ls.drop contextRadius, by simp [Block.old], by simp [Block.new],
      fun _ _ hbs => hbs.upTo _⟩

theorem hunks_tell {a b : List String} {s : Script} (hs : Script.Leads 0 0 a b s)
    (hframed : Framed 0 0 (blocks s)) : Tells 0 0 a b (hunks s) := by
  obtain ⟨hold, hnew, hsteady⟩ := blocks_leads hs
  obtain ⟨gap, hgapOld, hgapNew, hgap⟩ := trimStart_cut (blocks s)
  obtain ⟨tail, htailOld, htailNew, htail⟩ := trimEnd_cut (trimStart (blocks s))
  have hall := hunksFrom_tells [] (trimEnd (trimStart (blocks s))) 0 0 gap tail
    (htail _ _ (hgap 0 0 ⟨hsteady, hframed⟩))
  rwa [List.reverse_nil, List.nil_append, ← htailOld, ← htailNew, ← hgapOld, ← hgapNew, hold,
    hnew] at hall

theorem eq_of_hunksFrom_eq_nil (h bs : List Block) (hnil : hunksFrom h bs = []) :
    olds (h.reverse ++ bs) = news (h.reverse ++ bs) := by
  induction bs generalizing h with
  | nil =>
    unfold hunksFrom at hnil
    split at hnil
    · rfl
    · rfl
    · cases hnil
  | cons b bs ih =>
    have hnext := ih (b :: h)
    rw [List.reverse_cons, List.append_assoc, List.singleton_append] at hnext
    cases b with
    | change i j rs as => exact hnext hnil
    | same i j ls =>
      rw [hunksFrom] at hnil
      split at hnil
      · cases hnil
      · exact hnext hnil

/-- Where the texts differ there is a hunk, right or wrong as its header may be. -/
theorem eq_of_hunks_eq_nil {a b : List String} {s : Script} (hs : Script.Leads 0 0 a b s)
    (hnil : hunks s = []) : a = b := by
  obtain ⟨hold, hnew, -⟩ := blocks_leads hs
  obtain ⟨gap, hgapOld, hgapNew, -⟩ := trimStart_cut (blocks s)
  obtain ⟨tail, htailOld, htailNew, -⟩ := trimEnd_cut (trimStart (blocks s))
  have hsame := eq_of_hunksFrom_eq_nil [] _ hnil
  rw [List.reverse_nil, List.nil_append] at hsame
  rw [← hold, ← hnew, hgapOld, hgapNew, htailOld, htailNew, hsame]

end SafeRefactor.Diff
