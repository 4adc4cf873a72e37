import SafeRefactor.Diff.Script

/-!
# Compacting a script

Added lines may often be moved without changing what a script spells out: a chunk of them moves up
past lines that equal its own last ones, and down past lines that equal its own first ones. Moving
each chunk up and then down as far as it goes brings chunks together that belong together, which are
then joined.
-/

set_option autoImplicit false

namespace SafeRefactor.Diff

structure Focus where
  before : List Chunk
  here : Chunk
  after : List Chunk

namespace Focus

def script (f : Focus) : Script := f.before.reverse ++ f.here :: f.after

def pushAfter (oldAt newAt : Nat) (lines : List String) : List Chunk → List Chunk
  | c :: cs =>
    if c.tag = .same then c.moveUp lines.length (lines ++ c.lines) :: cs
    else ⟨.same, oldAt, newAt, lines⟩ :: c :: cs
  | [] => [⟨.same, oldAt, newAt, lines⟩]

def pushBefore (oldAt newAt : Nat) (lines : List String) : List Chunk → List Chunk
  | c :: cs =>
    if c.tag = .same then { c with lines := c.lines ++ lines } :: cs
    else ⟨.same, oldAt, newAt, lines⟩ :: c :: cs
  | [] => [⟨.same, oldAt, newAt, lines⟩]

def slackUp (kept : Chunk) (c : Chunk) : Nat :=
  if c.tag = .added then commonEnd kept.lines c.lines else 0

def slackDown (kept : Chunk) (c : Chunk) : Nat :=
  if c.tag = .added then commonStart kept.lines c.lines else 0

def stepUp? (f : Focus) : Option Focus :=
  match f.before with
  | [] => none
  | p :: ps =>
    let c := f.here
    if p.tag = .same then
      let n := slackUp p c
      if 0 < n then
        let moved := p.lines.drop (p.lines.length - n)
        let kept := p.lines.take (p.lines.length - n)
        some {
          before := if kept.isEmpty then ps else { p with lines := kept } :: ps
          here := c.moveUp n (moved ++ c.lines.take (c.lines.length - n))
          after := pushAfter (p.oldAt + p.lines.length - n) (c.newAt + c.lines.length - n)
            moved f.after }
      else if p.lines.isEmpty then some { f with before := ps }
      else none
    else if p.tag = c.tag then
      some { before := ps, here := { p with lines := p.lines ++ c.lines }, after := f.after }
    else some { before := ps, here := c, after := p :: f.after }

def stepDown? (f : Focus) : Option Focus :=
  match f.after with
  | [] => none
  | q :: qs =>
    let c := f.here
    if q.tag = .same then
      let n := slackDown q c
      if 0 < n then
        let moved := q.lines.take n
        let kept := q.lines.drop n
        some {
          before := pushBefore q.oldAt c.newAt moved f.before
          here := c.moveDown n (c.lines.drop n ++ moved)
          after := if kept.isEmpty then qs else q.moveDown n kept :: qs }
      else if q.lines.isEmpty then some { f with after := qs }
      else none
    else if q.tag = c.tag then
      some { before := f.before, here := { c with lines := c.lines ++ q.lines }, after := qs }
    else some { before := q :: f.before, here := c, after := qs }

def up : Nat → Focus → Focus
  | 0, f => f
  | fuel + 1, f =>
    match f.stepUp? with
    | none => f
    | some g => up fuel g

def down : Nat → Focus → Focus
  | 0, f => f
  | fuel + 1, f =>
    match f.stepDown? with
    | none => f
    | some g => down fuel g

end Focus

/-- Settles all chunks with a given tag, from a place on. `before` holds what was passed, last
first. -/
def settle (tag : Tag) (bound : Nat) : Nat → (before after : List Chunk) → Script
  | 0, before, after => before.reverse ++ after
  | _ + 1, before, [] => before.reverse
  | fuel + 1, before, c :: cs =>
    if c.tag = tag then
      let f := Focus.down bound (Focus.up bound ⟨before, c, cs⟩)
      settle tag bound fuel (f.here :: f.before) f.after
    else settle tag bound fuel (c :: before) cs

def compact (s : Script) : Script :=
  let bound := 2 * s.foldr (fun c n => c.lines.length + 1 + n) 0
  let removed := settle .removed bound bound [] s
  settle .added bound bound [] removed

end SafeRefactor.Diff
