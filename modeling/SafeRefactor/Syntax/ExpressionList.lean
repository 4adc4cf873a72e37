import SafeRefactor.Syntax.Goal

/-!
# Rows of expressions

Expressions between commas, which form a list node when there is a comma, and `yield`.
-/

set_option autoImplicit false

namespace SafeRefactor.Syntax

def expressionList (self : Grammar) (k : Follow) : Reader := fun l => do
  let r ← self (.expression k .loosest) l
  if r.next.has "," then
    let stop (l : Look) := l.endsExpression || (k.source && l.isWord "from")
    let t ← commaTail k.beforeOperand stop (self (.expression k .loosest)) l.budget r.forest r.next
    some (t.wrap .expressionList)
  else some r

def yieldExpression (self : Grammar) (k : Follow) : Reader := fun l =>
  let a := l.shiftKeyword k.beforeOperand
  if a.next.isWord "from" then do
    let b := a.next.shiftKeyword .operand
    let e ← self (.expression k .loosest) b.next
    some ((e.after (a.forest ++ b.forest)).wrap .yieldExpr)
  else if a.next.endsExpression then some (a.wrap .yieldExpr)
  else do
    let e ← expressionList self k a.next
    some ((e.after a.forest).wrap .yieldExpr)

end SafeRefactor.Syntax
