import SafeRefactor.Diff.Script
import SafeRefactor.Diff.Midpoint

/-!
# Finding a script

A script between two texts: their common beginning and end are kept, and what lies between is
divided at a midpoint and solved on both sides.
-/

set_option autoImplicit false

namespace SafeRefactor.Diff

def chunk (tag : Tag) (oldAt newAt : Nat) (lines : List String) : Script :=
  if lines.isEmpty then [] else [⟨tag, oldAt, newAt, lines⟩]

/-- A script from `old` to `new`, which begin at the given places of their texts. `fuel` bounds the
depth of division; where it runs out, everything is removed and added. -/
def search : Nat → (oldAt newAt : Nat) → (old new : List String) → Script
  | 0, i, j, old, new => chunk .removed i j old ++ chunk .added i j new
  | fuel + 1, i, j, old, new =>
    let p := commonStart old new
    let old₁ := old.drop p
    let new₁ := new.drop p
    let s := commonEnd old₁ new₁
    let old₂ := old₁.take (old₁.length - s)
    let new₂ := new₁.take (new₁.length - s)
    let middle :=
      if old₂.isEmpty || new₂.isEmpty then
        chunk .removed (i + p) (j + p) old₂ ++ chunk .added (i + p) (j + p) new₂
      else
        match midpoint? old₂ new₂ with
        | some (x, y) =>
          search fuel (i + p) (j + p) (old₂.take x) (new₂.take y) ++
            search fuel (i + p + x) (j + p + y) (old₂.drop x) (new₂.drop y)
        | none => chunk .removed (i + p) (j + p) old₂ ++ chunk .added (i + p) (j + p) new₂
    chunk .same i j (old.take p) ++ middle ++
      chunk .same (i + p + old₂.length) (j + p + new₂.length) (old₁.drop (old₁.length - s))

def findScript (old new : List String) : Script :=
  search (old.length + new.length + 1) 0 0 old new

end SafeRefactor.Diff
